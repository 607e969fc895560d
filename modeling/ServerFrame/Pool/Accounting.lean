import ServerFrame.Lib.Run
import ServerFrame.Lib.Family
import Mathlib.Data.List.Nodup
import Mathlib.Data.List.Perm.Basic
import Mathlib.Logic.Function.Basic

/-!
# Accounting of `HttpConnectionPool`

Any number of threads call `GetConnection` and drop the pointers they got from it, which
calls `ReleasePtr`. A locked block is one step, and so is every other access to `total_`
and every `delete`. Whether a connection is still connected, the clock and the outcome of
a connection attempt are arguments. Connections are numbered in the order in which they
are made; `total_` is unbounded here, since 2^31 connections do not fit in memory.
-/
namespace ServerFrame.Pool

structure HttpConnection where
  createTime : UInt64
  request : UInt64
  deriving DecidableEq, Repr

/-- Where a thread stands. -/
inductive Pc where
  | idle
  /-- `GetConnection` behind its lock: what of `invalid_conns` is still to be deleted, all
  of it, and `ptr`. -/
  | collect (rest invalid : List Nat) (ptr : Option Nat)
  /-- `GetConnection` without a connection. -/
  | connect
  /-- `GetConnection` with a new connection, before `++total_`. -/
  | count (conn : Nat)
  /-- `ReleasePtr` at its start. -/
  | release (conn : Nat)
  /-- `ReleasePtr` has deleted the connection, before `--total_`. -/
  | discount (conn : Nat)
  /-- `ReleasePtr` before its lock. -/
  | putBack (conn : Nat)
  deriving DecidableEq

/-- `held` are the connections that callers have, `deleted` those that were deleted. -/
structure HttpConnectionPool where
  maxAliveTime : UInt64
  maxRequest : UInt64
  conns : List Nat
  total : Int
  objects : Nat → HttpConnection
  made : Nat
  held : List Nat
  deleted : List Nat
  pc : Nat → Pc

def HttpConnectionPool.new (maxAliveTime maxRequest : UInt64) : HttpConnectionPool where
  maxAliveTime := maxAliveTime
  maxRequest := maxRequest
  conns := []
  total := 0
  objects := fun _ => ⟨0, 0⟩
  made := 0
  held := []
  deleted := []
  pc := fun _ => .idle

/-- The loop of `GetConnection`: `invalid_conns`, `ptr`, and what is left of `conns_`. -/
def takeLoop (p : HttpConnectionPool) (now : UInt64) (closed : List Nat) :
    List Nat → List Nat × Option Nat × List Nat
  | [] => ([], none, [])
  | conn :: conns =>
    if conn ∈ closed then
      let (invalid, ptr, rest) := takeLoop p now closed conns
      (conn :: invalid, ptr, rest)
    else if (p.objects conn).createTime + p.maxAliveTime > now then
      let (invalid, ptr, rest) := takeLoop p now closed conns
      (conn :: invalid, ptr, rest)
    else ([], some conn, conns)

inductive Label where
  /-- `GetConnection` under the lock; `closed` are the connections not connected. -/
  | take (t : Nat) (now : UInt64) (closed : List Nat)
  | delete (t : Nat)
  /-- `total_ -= invalid_conns.size()`, and the return when there is a connection. -/
  | subtract (t : Nat)
  /-- The attempt to connect; the new object when it succeeds. -/
  | connect (t : Nat) (ok : Bool)
  /-- `++total_` and the return. -/
  | count (t : Nat)
  /-- The last pointer to a connection is dropped. -/
  | drop (t conn : Nat)
  /-- The tests of `ReleasePtr`. -/
  | test (t : Nat) (now : UInt64) (connected : Bool)
  /-- `--total_`. -/
  | discount (t : Nat)
  /-- `ReleasePtr` under the lock. -/
  | putBack (t : Nat)

def HttpConnectionPool.goto (p : HttpConnectionPool) (t : Nat) (pc : Pc) : HttpConnectionPool :=
  { p with pc := Function.update p.pc t pc }

def HttpConnectionPool.write (p : HttpConnectionPool) (conn : Nat) (object : HttpConnection) :
    HttpConnectionPool :=
  { p with objects := Function.update p.objects conn object }

/-- One step of thread `t`, of `n` threads. -/
def step (n : Nat) (p : HttpConnectionPool) : Label → Option HttpConnectionPool
  -- the locked loop over `conns_`; what it throws out is deleted behind the lock
  | .take t now closed =>
    if t < n ∧ p.pc t = .idle then
      let (invalid, ptr, rest) := takeLoop p now closed p.conns
      some ({ p with conns := rest }.goto t (.collect invalid invalid ptr))
    else none
  | .delete t =>
    match p.pc t with
    | .collect (conn :: rest) invalid ptr =>
      some ({ p with deleted := p.deleted ++ [conn] }.goto t (.collect rest invalid ptr))
    | _ => none
  | .subtract t =>
    match p.pc t with
    -- `total_ -= invalid_conns.size()`, then the connection is returned
    | .collect [] invalid (some conn) =>
      some ({ p with total := p.total - invalid.length, held := p.held ++ [conn] }.goto t .idle)
    | .collect [] invalid none =>
      some ({ p with total := p.total - invalid.length }.goto t .connect)
    | _ => none
  -- none was left: a new connection is made
  | .connect t ok =>
    if p.pc t = .connect then
      if ok then
        some ({ p.write p.made ⟨0, 0⟩ with made := p.made + 1 }.goto t (.count p.made))
      else some (p.goto t .idle)
    else none
  | .count t =>
    match p.pc t with
    | .count conn =>
      some ({ p with total := p.total + 1, held := p.held ++ [conn] }.goto t .idle)
    | _ => none
  -- the last owner lets go, and the deleter calls `ReleasePtr`
  | .drop t conn =>
    if t < n ∧ p.pc t = .idle ∧ conn ∈ p.held then
      some ({ p with held := p.held.erase conn }.goto t (.release conn))
    else none
  | .test t now connected =>
    match p.pc t with
    | .release conn =>
      let object := { p.objects conn with request := (p.objects conn).request + 1 }
      if !connected || decide (object.createTime + p.maxAliveTime ≥ now)
          || decide (object.request ≥ p.maxRequest) then
        some ({ p.write conn object with deleted := p.deleted ++ [conn] }.goto t (.discount conn))
      else some ((p.write conn object).goto t (.putBack conn))
    | _ => none
  | .discount t =>
    match p.pc t with
    | .discount _ => some ({ p with total := p.total - 1 }.goto t .idle)
    | _ => none
  | .putBack t =>
    match p.pc t with
    | .putBack conn => some ({ p with conns := p.conns ++ [conn] }.goto t .idle)
    | _ => none

/-- The connections a thread has in its hands. -/
def Pc.owns : Pc → List Nat
  | .idle => []
  | .collect rest _ ptr => rest ++ ptr.toList
  | .connect => []
  | .count conn => [conn]
  | .release conn => [conn]
  | .discount _ => []
  | .putBack conn => [conn]

/-- The connections, neither idle nor held, that `total_` still counts because of a
thread. -/
def Pc.counts : Pc → List Nat
  | .idle => []
  | .collect _ invalid ptr => invalid ++ ptr.toList
  | .connect => []
  | .count _ => []
  | .release conn => [conn]
  | .discount conn => [conn]
  | .putBack conn => [conn]

theorem takeLoop_perm (p : HttpConnectionPool) (now : UInt64) (closed conns : List Nat) :
    ((takeLoop p now closed conns).2.2 ++ ((takeLoop p now closed conns).1 ++
      (takeLoop p now closed conns).2.1.toList)).Perm conns := by
  induction conns with
  | nil => simp [takeLoop]
  | cons conn conns ih =>
    simp only [takeLoop]
    split
    · exact List.perm_middle.trans (ih.cons conn)
    · split
      · exact List.perm_middle.trans (ih.cons conn)
      · simp

/-- Every connection that was made is in one place, and `total_` counts those that are
idle, held or counted because of a thread. -/
structure Sound (n : Nat) (p : HttpConnectionPool) : Prop where
  places : (p.conns ++ p.held ++ p.deleted ++
    (List.range n).flatMap fun t => (p.pc t).owns).Perm (List.range p.made)
  total : p.total = (p.conns.length + p.held.length +
    ((List.range n).flatMap fun t => (p.pc t).counts).length : Nat)
  idle : ∀ t, n ≤ t → p.pc t = .idle

theorem sound_new (n : Nat) (maxAliveTime maxRequest : UInt64) :
    Sound n (.new maxAliveTime maxRequest) := by
  refine ⟨?_, ?_, fun _ _ => rfl⟩
  · simp [HttpConnectionPool.new, Pc.owns]
  · simp [HttpConnectionPool.new, Pc.counts]

section Steps

variable {n t : Nat} {p p' : HttpConnectionPool} {pc : Pc}

/-- A step of one thread: what the lists and its hands hold together is exchanged, but for
a connection that is new. -/
theorem sound_move (new : List Nat) (sound : Sound n p) (bound : t < n)
    (moves : p'.pc = Function.update p.pc t pc)
    (made : List.range p'.made = List.range p.made ++ new)
    (places : (p'.conns ++ p'.held ++ p'.deleted ++ pc.owns).Perm
      (p.conns ++ p.held ++ p.deleted ++ (p.pc t).owns ++ new))
    (total : p'.total + (p.conns.length + p.held.length + (p.pc t).counts.length : Nat) =
      p.total + (p'.conns.length + p'.held.length + pc.counts.length : Nat)) : Sound n p' := by
  have here : p'.pc t = pc := by rw [moves, Function.update_self]
  have others : ∀ v, v ≠ t → p'.pc v = p.pc v := fun v ne => by
    rw [moves, Function.update_of_ne ne]
  refine ⟨?_, ?_, fun v beyond => ?_⟩
  · have same : ∀ v, v ≠ t → (p'.pc v).owns = (p.pc v).owns := fun v ne => by rw [others v ne]
    -- of all hands only those of thread `t` change
    have hands := Family.flatMap_change bound same
    have before := sound.places
    rw [made]
    simp only [here] at hands
    rw [List.perm_iff_count] at *
    intro conn
    have := hands conn
    have := places conn
    have := before conn
    simp only [List.count_append] at *
    omega
  · have same : ∀ v, v ≠ t → (p'.pc v).counts = (p.pc v).counts := fun v ne => by
      rw [others v ne]
    have hands := (Family.flatMap_change bound same).length_eq
    have before := sound.total
    simp only [here, List.length_append] at hands
    omega
  · have ne : v ≠ t := by omega
    rw [others v ne]
    exact sound.idle v beyond

theorem bound_of_busy (sound : Sound n p) (busy : p.pc t ≠ .idle) : t < n := by
  by_contra beyond
  exact busy (sound.idle t (Nat.not_lt.mp beyond))

/-- A thread in the middle of a call changes hands, and no connection is made. -/
theorem sound_busy (sound : Sound n p) (busy : p.pc t ≠ .idle)
    (moves : p'.pc = Function.update p.pc t pc) (made : p'.made = p.made)
    (places : (p'.conns ++ p'.held ++ p'.deleted ++ pc.owns).Perm
      (p.conns ++ p.held ++ p.deleted ++ (p.pc t).owns))
    (total : p'.total + (p.conns.length + p.held.length + (p.pc t).counts.length : Nat) =
      p.total + (p'.conns.length + p'.held.length + pc.counts.length : Nat)) : Sound n p' := by
  refine sound_move [] sound (bound_of_busy sound busy) moves ?_ ?_ total
  · rw [made, List.append_nil]
  · rw [List.append_nil]
    exact places

theorem sound_take {now : UInt64} {closed : List Nat} (sound : Sound n p) (bound : t < n)
    (idle : p.pc t = .idle) :
    Sound n ({ p with conns := (takeLoop p now closed p.conns).2.2 }.goto t
      (.collect (takeLoop p now closed p.conns).1 (takeLoop p now closed p.conns).1
        (takeLoop p now closed p.conns).2.1)) := by
  have taken := takeLoop_perm p now closed p.conns
  refine sound_move [] sound bound rfl (List.append_nil _).symm ?_ ?_
  · rw [List.perm_iff_count] at *
    intro conn
    have := taken conn
    simp only [idle, Pc.owns, HttpConnectionPool.goto, List.count_append, List.count_nil] at *
    omega
  · have := taken.length_eq
    simp only [idle, Pc.counts, HttpConnectionPool.goto, List.length_append, List.length_nil] at *
    omega

theorem sound_step {label : Label} (sound : Sound n p) (stepped : step n p label = some p') :
    Sound n p' := by
  -- the owners exchange connections; `total_` follows where the source counts
  cases label with
  | take t now closed =>
    simp only [step] at stepped
    split at stepped
    next can => exact Option.some.inj stepped ▸ sound_take sound can.1 can.2
    next => cases stepped
  | delete t =>
    simp only [step] at stepped
    split at stepped
    next conn rest invalid ptr holds =>
      obtain rfl := Option.some.inj stepped
      refine sound_busy sound (by rw [holds]; rintro ⟨⟩) rfl rfl ?_ ?_
      · rw [List.perm_iff_count]
        intro c
        simp [holds, Pc.owns, HttpConnectionPool.goto, List.count_cons]
      · simp [holds, Pc.counts, HttpConnectionPool.goto]
    next => cases stepped
  | subtract t =>
    simp only [step] at stepped
    split at stepped
    next invalid conn holds =>
      obtain rfl := Option.some.inj stepped
      refine sound_busy sound (by rw [holds]; rintro ⟨⟩) rfl rfl ?_ ?_
      · rw [List.perm_iff_count]
        intro c
        simp [holds, Pc.owns, HttpConnectionPool.goto, List.count_cons]
      · simp only [holds, Pc.counts, HttpConnectionPool.goto, List.length_append,
          List.length_cons, List.length_nil, Option.toList_some]
        omega
    next invalid holds =>
      obtain rfl := Option.some.inj stepped
      refine sound_busy sound (by rw [holds]; rintro ⟨⟩) rfl rfl ?_ ?_
      · simp [holds, Pc.owns, HttpConnectionPool.goto]
      · simp only [holds, Pc.counts, HttpConnectionPool.goto, List.length_append, List.length_nil,
          Option.toList_none]
        omega
    next => cases stepped
  | connect t ok =>
    simp only [step] at stepped
    split at stepped
    next holds =>
      have busy : p.pc t ≠ .idle := by rw [holds]; rintro ⟨⟩
      split at stepped
      next =>
        -- the only step that makes a connection
        obtain rfl := Option.some.inj stepped
        refine sound_move [p.made] sound (bound_of_busy sound busy) rfl ?_ ?_ ?_
        · simp [HttpConnectionPool.goto, List.range_succ]
        · simp [holds, Pc.owns, HttpConnectionPool.goto, HttpConnectionPool.write]
        · simp [holds, Pc.counts, HttpConnectionPool.goto, HttpConnectionPool.write]
      next =>
        obtain rfl := Option.some.inj stepped
        refine sound_busy sound busy rfl rfl ?_ ?_
        · simp [holds, Pc.owns, HttpConnectionPool.goto]
        · simp [holds, Pc.counts, HttpConnectionPool.goto]
    next => cases stepped
  | count t =>
    simp only [step] at stepped
    split at stepped
    next conn holds =>
      obtain rfl := Option.some.inj stepped
      refine sound_busy sound (by rw [holds]; rintro ⟨⟩) rfl rfl ?_ ?_
      · rw [List.perm_iff_count]
        intro c
        simp [holds, Pc.owns, HttpConnectionPool.goto, List.count_cons]
      · simp only [holds, Pc.counts, HttpConnectionPool.goto, List.length_append,
          List.length_cons, List.length_nil]
        omega
    next => cases stepped
  | drop t conn =>
    simp only [step] at stepped
    split at stepped
    next can =>
      -- a thread that is idle begins to release what was held
      obtain ⟨bound, holds, member⟩ := can
      have taken := List.perm_cons_erase member
      obtain rfl := Option.some.inj stepped
      refine sound_move [] sound bound rfl (List.append_nil _).symm ?_ ?_
      · rw [List.perm_iff_count] at *
        intro c
        have := taken c
        simp only [holds, Pc.owns, HttpConnectionPool.goto, List.count_append, List.count_cons,
          List.count_nil] at *
        omega
      · have := taken.length_eq
        simp only [holds, Pc.counts, HttpConnectionPool.goto, List.length_cons, List.length_nil] at *
        omega
    next => cases stepped
  | test t now connected =>
    simp only [step] at stepped
    split at stepped
    next conn holds =>
      have busy : p.pc t ≠ .idle := by rw [holds]; rintro ⟨⟩
      split at stepped
      next =>
        obtain rfl := Option.some.inj stepped
        refine sound_busy sound busy rfl rfl ?_ ?_
        · simp [holds, Pc.owns, HttpConnectionPool.goto, HttpConnectionPool.write]
        · simp [holds, Pc.counts, HttpConnectionPool.goto, HttpConnectionPool.write]
      next =>
        obtain rfl := Option.some.inj stepped
        refine sound_busy sound busy rfl rfl ?_ ?_
        · simp [holds, Pc.owns, HttpConnectionPool.goto, HttpConnectionPool.write]
        · simp [holds, Pc.counts, HttpConnectionPool.goto, HttpConnectionPool.write]
    next => cases stepped
  | discount t =>
    simp only [step] at stepped
    split at stepped
    next conn holds =>
      obtain rfl := Option.some.inj stepped
      refine sound_busy sound (by rw [holds]; rintro ⟨⟩) rfl rfl ?_ ?_
      · simp [holds, Pc.owns, HttpConnectionPool.goto]
      · simp only [holds, Pc.counts, HttpConnectionPool.goto, List.length_cons, List.length_nil]
        omega
    next => cases stepped
  | putBack t =>
    simp only [step] at stepped
    split at stepped
    next conn holds =>
      obtain rfl := Option.some.inj stepped
      refine sound_busy sound (by rw [holds]; rintro ⟨⟩) rfl rfl ?_ ?_
      · rw [List.perm_iff_count]
        intro c
        simp [holds, Pc.owns, HttpConnectionPool.goto, List.count_cons]
        omega
      · simp only [holds, Pc.counts, HttpConnectionPool.goto, List.length_append,
          List.length_cons, List.length_nil]
        omega
    next => cases stepped

end Steps

/-- In every state reached by any number of threads: no connection is idle twice, held by
two callers or both idle and held, a deleted connection is deleted once and is neither
idle nor held, and when no call is in progress `total_` counts the idle and the held
connections. -/
theorem pool_accounts {n : Nat} {maxAliveTime maxRequest : UInt64} {labels : List Label}
    {p : HttpConnectionPool}
    (ran : Run.run (step n) (.new maxAliveTime maxRequest) labels = some p) :
    (p.conns ++ p.held ++ p.deleted).Nodup ∧
    ((∀ t, p.pc t = .idle) → p.total = (p.conns.length + p.held.length : Nat)) := by
  have sound : Sound n p :=
    Run.run_invariant (fun _ _ _ => sound_step) (sound_new n maxAliveTime maxRequest) ran
  constructor
  · have once : (p.conns ++ p.held ++ p.deleted ++
        (List.range n).flatMap fun t => (p.pc t).owns).Nodup :=
      sound.places.nodup_iff.mpr List.nodup_range
    exact once.of_append_left
  · intro quiet
    have total := sound.total
    simpa [quiet, Pc.counts] using total

/-- Two threads get a connection each and give them back; the second call of thread 0
takes one of them, and that of thread 1 drops the other, which is closed by then. -/
theorem pool_accounts_reuse :
    ∃ p, Run.run (step 2) (.new 0 10)
        [.take 0 5 [], .take 1 5 [], .subtract 1, .connect 1 true, .subtract 0, .connect 0 true,
          .count 0, .count 1, .drop 0 1, .test 0 6 true, .drop 1 0, .test 1 6 true, .putBack 1,
          .putBack 0, .take 0 7 [], .take 1 8 [1], .delete 1, .subtract 0, .subtract 1,
          .connect 1 false] = some p ∧
      (p.conns, p.held, p.deleted, p.total) = ([], [0], [1], 1) ∧
      (p.conns ++ p.held ++ p.deleted).Nodup := by
  have runs : ((Run.run (step 2) (.new 0 10)
      [.take 0 5 [], .take 1 5 [], .subtract 1, .connect 1 true, .subtract 0, .connect 0 true,
        .count 0, .count 1, .drop 0 1, .test 0 6 true, .drop 1 0, .test 1 6 true, .putBack 1,
        .putBack 0, .take 0 7 [], .take 1 8 [1], .delete 1, .subtract 0, .subtract 1,
        .connect 1 false]).map fun p => (p.conns, p.held, p.deleted, p.total)) =
      some ([], [0], [1], 1) := by decide
  obtain ⟨p, ran, ends⟩ := Option.map_eq_some_iff.mp runs
  exact ⟨p, ran, ends, (pool_accounts ran).1⟩

end ServerFrame.Pool
