import ServerFrame.Pool.Accounting
import Mathlib.Data.List.Pairwise

/-!
# The limits of `HttpConnectionPool`

What a connection from the idle list has to be, what is to become of one that is released, and
how many there may be. Beside the pool of `Accounting` there is the time at which each connection
was made, and a record of what was taken and released; `create_time_` is never written.
-/
namespace ServerFrame.Pool

/-- A thread that has found nothing in the idle list and has no connection yet. -/
def Pc.asks : Pc → List Unit
  | .collect _ _ none => [()]
  | .connect => [()]
  | _ => []

/-- A connection as it is looked at. -/
structure Seen where
  conn : Nat
  now : UInt64
  connected : Bool
  born : UInt64
  request : UInt64
  deriving DecidableEq

inductive Event where
  /-- `GetConnection` takes the connection from the idle list. -/
  | taken (seen : Seen)
  /-- `ReleasePtr` has looked at the connection, which it keeps or deletes. -/
  | released (seen : Seen) (kept : Bool)
  deriving DecidableEq

structure Timed where
  pool : HttpConnectionPool
  maxSize : UInt32
  born : Nat → UInt64
  events : List Event

namespace Timed

def new (maxSize maxAliveTime maxRequest : UInt32) : Timed where
  pool := .new maxAliveTime.toUInt64 maxRequest.toUInt64
  maxSize := maxSize
  born := fun _ => 0
  events := []

/-- What is recorded of a step to `p'`. -/
def observe (s : Timed) (p' : HttpConnectionPool) : Label → List Event
  | .take _ now closed =>
    match (takeLoop s.pool now closed s.pool.conns).2.1 with
    | some conn =>
      [.taken ⟨conn, now, decide (conn ∉ closed), s.born conn, (s.pool.objects conn).request⟩]
    | none => []
  | .test t now connected =>
    match s.pool.pc t with
    | .release conn =>
      [.released ⟨conn, now, connected, s.born conn, (p'.objects conn).request⟩
        (decide (p'.pc t = .putBack conn))]
    | _ => []
  | _ => []

/-- A step of the pool; `action.2` is the clock when a connection is made. -/
def step (n : Nat) (s : Timed) (action : Label × UInt64) : Option Timed :=
  (Pool.step n s.pool action.1).map fun p' =>
    { s with
      pool := p'
      born := if p'.made = s.pool.made then s.born
        else Function.update s.born s.pool.made action.2
      events := s.events ++ s.observe p' action.1 }

/-! ## What the limits are -/

/-- The number of connections that have been made and not deleted. -/
def existing (s : Timed) : Nat := s.pool.made - s.pool.deleted.length

end Timed

/-- Connected, not too old, and with a request left. -/
def Seen.Usable (p : HttpConnectionPool) (seen : Seen) : Prop :=
  seen.connected = true ∧ seen.now.toNat ≤ seen.born.toNat + p.maxAliveTime.toNat ∧
    seen.request < p.maxRequest

instance (p : HttpConnectionPool) : DecidablePred (Seen.Usable p) := fun _ =>
  inferInstanceAs (Decidable (_ ∧ _ ∧ _))

def Event.Lawful (p : HttpConnectionPool) : Event → Prop
  | .taken seen => seen.Usable p
  | .released seen kept => seen.Usable p → kept = true

namespace Timed

structure Limited (s : Timed) : Prop where
  events : ∀ e ∈ s.events, e.Lawful s.pool
  existing : s.existing ≤ s.maxSize.toNat

/-- The threads that are in `GetConnection` and have found nothing there. -/
def asking (n : Nat) (s : Timed) : Nat := ((List.range n).flatMap fun t => (s.pool.pc t).asks).length

/-- A call does not meet what the code misses. When `GetConnection` is called, nothing that is idle
and connected is too old (unless the clock is at less than `max_alive_time_`, and none is taken), and
it finds something idle and connected there or fewer than `max_size_` connections exist or are asked
for. A connection that could be used again is released when the clock is beyond `max_alive_time_`. -/
def within (n : Nat) (s : Timed) : Label → Bool
  | .take _ now closed =>
    (decide (now < s.pool.maxAliveTime) || s.pool.conns.all fun conn => decide (conn ∈ closed) ||
      decide (now.toNat ≤ (s.born conn).toNat + s.pool.maxAliveTime.toNat)) &&
    (!decide (now < s.pool.maxAliveTime) && s.pool.conns.any (fun conn => !decide (conn ∈ closed)) ||
      decide (s.existing + s.asking n < s.maxSize.toNat))
  | .test t now connected =>
    match s.pool.pc t with
    | .release conn =>
      !decide (Seen.Usable s.pool
        ⟨conn, now, connected, s.born conn, (s.pool.objects conn).request + 1⟩) ||
      decide (s.pool.maxAliveTime < now)
    | _ => true
  | _ => true

end Timed

/-! ## What the pool keeps -/

/-- `create_time_` stays at 0, and what is idle, or will be, has a request left. -/
structure Kept (n : Nat) (p : HttpConnectionPool) : Prop where
  sound : Sound n p
  created : ∀ conn, (p.objects conn).createTime = 0
  idle : ∀ conn ∈ p.conns, (p.objects conn).request < p.maxRequest
  back : ∀ t conn, p.pc t = .putBack conn → (p.objects conn).request < p.maxRequest

/-- The thread whose step it is. -/
def Label.thread : Label → Nat
  | .take t _ _ => t
  | .delete t => t
  | .subtract t => t
  | .connect t _ => t
  | .count t => t
  | .drop t _ => t
  | .test t _ _ => t
  | .discount t => t
  | .putBack t => t

theorem kept_new (n : Nat) (maxAliveTime maxRequest : UInt64) :
    Kept n (.new maxAliveTime maxRequest) :=
  ⟨sound_new n maxAliveTime maxRequest, fun _ => rfl, fun _ member => absurd member List.not_mem_nil,
    by rintro t conn ⟨⟩⟩

section Steps

variable {n t : Nat} {p p' : HttpConnectionPool} {pc : Pc}

/-- A connection in the hands of a thread is in no other place. -/
theorem Sound.apart (sound : Sound n p) {conn : Nat} (owned : conn ∈ (p.pc t).owns) :
    conn < p.made ∧ conn ∉ p.conns ∧ ∀ u, u ≠ t → conn ∉ (p.pc u).owns := by
  have busy : p.pc t ≠ .idle := by
    intro idle
    rw [idle] at owned
    exact absurd owned List.not_mem_nil
  have bound := bound_of_busy sound busy
  have once : (p.conns ++ p.held ++ p.deleted ++
      (List.range n).flatMap fun t => (p.pc t).owns).Nodup :=
    sound.places.nodup_iff.mpr List.nodup_range
  have inside : conn ∈ (List.range n).flatMap fun t => (p.pc t).owns :=
    List.mem_flatMap.mpr ⟨t, List.mem_range.mpr bound, owned⟩
  obtain ⟨-, hands, across⟩ := List.nodup_append.mp once
  refine ⟨?_, fun idle => ?_, fun u other owns => ?_⟩
  · exact List.mem_range.mp (sound.places.mem_iff.mp (List.mem_append_right _ inside))
  · exact across conn (by simp [idle]) conn inside rfl
  · have ubound : u < n := by
      apply bound_of_busy sound
      intro idle
      rw [idle] at owns
      exact absurd owns List.not_mem_nil
    have : Std.Symm (Function.onFun List.Disjoint fun t => (p.pc t).owns) :=
      ⟨fun _ _ disjoint _ second first => disjoint first second⟩
    have apart := (List.nodup_flatMap.mp hands).2.forall
    exact apart (List.mem_range.mpr ubound) (List.mem_range.mpr bound) other owns owned

theorem Sound.conn_lt (sound : Sound n p) {conn : Nat} (idle : conn ∈ p.conns) :
    conn < p.made :=
  List.mem_range.mp (sound.places.mem_iff.mp (by simp [idle]))

/-- A thread goes on with no connection to put back, and no connection changes. -/
theorem Kept.quiet (kept : Kept n p) (sound : Sound n p') (objects : p'.objects = p.objects)
    (maxRequest : p'.maxRequest = p.maxRequest) (conns : ∀ conn ∈ p'.conns, conn ∈ p.conns)
    (moves : p'.pc = Function.update p.pc t pc) (not_back : ∀ conn, pc ≠ .putBack conn) :
    Kept n p' := by
  refine ⟨sound, ?_, ?_, ?_⟩
  · rw [objects]
    exact kept.created
  · rw [objects, maxRequest]
    exact fun conn member => kept.idle conn (conns conn member)
  · rw [objects, maxRequest, moves]
    intro u conn is
    by_cases same : u = t
    · subst same
      rw [Function.update_self] at is
      exact absurd is (not_back conn)
    · rw [Function.update_of_ne same] at is
      exact kept.back u conn is

theorem takeLoop_rest (p : HttpConnectionPool) (now : UInt64) (closed conns : List Nat) :
    ∀ conn ∈ (takeLoop p now closed conns).2.2, conn ∈ conns := by
  intro conn member
  exact (takeLoop_perm p now closed conns).mem_iff.mp (List.mem_append_left _ member)

/-- `ReleasePtr` counts the request of the connection in its hands. -/
theorem Kept.test (kept : Kept n p) {conn : Nat} {object : HttpConnection}
    (holds : p.pc t = .release conn) (sound : Sound n p')
    (objects : p'.objects = Function.update p.objects conn object)
    (created : object.createTime = 0) (maxRequest : p'.maxRequest = p.maxRequest)
    (conns : p'.conns = p.conns) (moves : p'.pc = Function.update p.pc t pc)
    (back : ∀ c, pc = .putBack c → c = conn ∧ object.request < p.maxRequest) : Kept n p' := by
  have owned : conn ∈ (p.pc t).owns := by simp [holds, Pc.owns]
  obtain ⟨-, not_idle, not_others⟩ := kept.sound.apart owned
  refine ⟨sound, fun c => ?_, fun c member => ?_, fun u c is => ?_⟩
  · rw [objects]
    by_cases same : c = conn
    · simpa [same] using created
    · simpa [same] using kept.created c
  · rw [conns] at member
    rw [objects, maxRequest]
    have other : c ≠ conn := fun same => not_idle (same ▸ member)
    simpa [other] using kept.idle c member
  · rw [objects, maxRequest]
    rw [moves] at is
    by_cases here : u = t
    · subst here
      rw [Function.update_self] at is
      obtain ⟨rfl, fewer⟩ := back c is
      simpa using fewer
    · rw [Function.update_of_ne here] at is
      have owned : c ∈ (p.pc u).owns := by simp [is, Pc.owns]
      have other : c ≠ conn := fun same => not_others u here (same ▸ owned)
      simpa [other] using kept.back u c is

theorem kept_step {label : Label} (kept : Kept n p) (stepped : Pool.step n p label = some p') :
    Kept n p' := by
  have sound' := sound_step kept.sound stepped
  cases label with
  | take t now closed =>
    obtain ⟨-, same⟩ := Option.ite_none_right_eq_some.mp stepped
    obtain rfl := Option.some.inj same
    exact kept.quiet sound' rfl rfl (takeLoop_rest p now closed p.conns) rfl (by simp)
  | delete t =>
    simp only [Pool.step] at stepped
    split at stepped
    next =>
      obtain rfl := Option.some.inj stepped
      exact kept.quiet sound' rfl rfl (fun _ member => member) rfl (by simp)
    next => cases stepped
  | subtract t =>
    simp only [Pool.step] at stepped
    split at stepped
    next =>
      obtain rfl := Option.some.inj stepped
      exact kept.quiet sound' rfl rfl (fun _ member => member) rfl (by simp)
    next =>
      obtain rfl := Option.some.inj stepped
      exact kept.quiet sound' rfl rfl (fun _ member => member) rfl (by simp)
    next => cases stepped
  | connect t ok =>
    obtain ⟨holds, same⟩ := Option.ite_none_right_eq_some.mp stepped
    split at same
    next =>
      obtain rfl := Option.some.inj same
      -- the new connection is none of those that were there
      refine ⟨sound', fun conn => ?_, fun conn member => ?_, fun u conn is => ?_⟩
      · by_cases new : conn = p.made
        · simp [HttpConnectionPool.write, HttpConnectionPool.goto, new]
        · simpa [HttpConnectionPool.write, HttpConnectionPool.goto, new] using kept.created conn
      · have old : conn ≠ p.made := Nat.ne_of_lt (kept.sound.conn_lt member)
        simpa [HttpConnectionPool.write, HttpConnectionPool.goto, old] using kept.idle conn member
      · have is : p.pc u = .putBack conn := by
          by_cases here : u = t
          · simp [HttpConnectionPool.goto, here] at is
          · simpa [HttpConnectionPool.goto, HttpConnectionPool.write, here] using is
        have old : conn ≠ p.made :=
          Nat.ne_of_lt (kept.sound.apart (t := u) (by simp [is, Pc.owns])).1
        simpa [HttpConnectionPool.write, HttpConnectionPool.goto, old] using kept.back u conn is
    next =>
      obtain rfl := Option.some.inj same
      exact kept.quiet sound' rfl rfl (fun _ member => member) rfl (by simp)
  | count t =>
    simp only [Pool.step] at stepped
    split at stepped
    next =>
      obtain rfl := Option.some.inj stepped
      exact kept.quiet sound' rfl rfl (fun _ member => member) rfl (by simp)
    next => cases stepped
  | drop t conn =>
    obtain ⟨-, same⟩ := Option.ite_none_right_eq_some.mp stepped
    obtain rfl := Option.some.inj same
    exact kept.quiet sound' rfl rfl (fun _ member => member) rfl (by simp)
  | test t now connected =>
    simp only [Pool.step] at stepped
    split at stepped
    next conn holds =>
      split at stepped
      next =>
        obtain rfl := Option.some.inj stepped
        exact kept.test holds sound' rfl (kept.created conn) rfl rfl rfl (by simp)
      next passes =>
        obtain rfl := Option.some.inj stepped
        refine kept.test holds sound' rfl (kept.created conn) rfl rfl rfl fun c is => ?_
        simp only [Bool.or_eq_true, decide_eq_true_eq, not_or] at passes
        exact ⟨(Pc.putBack.inj is).symm, UInt64.not_le.mp passes.2⟩
    next => cases stepped
  | discount t =>
    simp only [Pool.step] at stepped
    split at stepped
    next =>
      obtain rfl := Option.some.inj stepped
      exact kept.quiet sound' rfl rfl (fun _ member => member) rfl (by simp)
    next => cases stepped
  | putBack t =>
    simp only [Pool.step] at stepped
    split at stepped
    next conn holds =>
      obtain rfl := Option.some.inj stepped
      have back := kept.back t conn holds
      refine ⟨sound', kept.created, fun c member => ?_, fun u c is => ?_⟩
      · rcases List.mem_append.mp member with member | last
        · exact kept.idle c member
        · exact List.mem_singleton.mp last ▸ back
      · apply kept.back u c
        by_cases here : u = t
        · simp [HttpConnectionPool.goto, here] at is
        · simpa [HttpConnectionPool.goto, here] using is
    next => cases stepped

/-- A call that will make a connection. -/
def needs (p : HttpConnectionPool) : Label → Bool
  | .take _ now closed => (takeLoop p now closed p.conns).2.1.isNone
  | _ => false

/-- What a step of a thread does to the connections there are and to those that are asked for: only a
call of `GetConnection` that finds nothing adds to them. -/
structure Counted (n : Nat) (p p' : HttpConnectionPool) (label : Label) : Prop where
  maxAliveTime : p'.maxAliveTime = p.maxAliveTime
  maxRequest : p'.maxRequest = p.maxRequest
  bound : label.thread < n
  others : ∀ u, u ≠ label.thread → p'.pc u = p.pc u
  fewer : p'.made + (p'.pc label.thread).asks.length + p.deleted.length ≤
    p.made + (p.pc label.thread).asks.length + p'.deleted.length + (needs p label).toNat

theorem goto_others (p : HttpConnectionPool) (t : Nat) (pc : Pc) (u : Nat) (other : u ≠ t) :
    (p.goto t pc).pc u = p.pc u := Function.update_of_ne other ..

theorem goto_self (p : HttpConnectionPool) (t : Nat) (pc : Pc) : (p.goto t pc).pc t = pc :=
  Function.update_self ..

theorem step_counted (sound : Sound n p) {label : Label} (stepped : Pool.step n p label = some p') :
    Counted n p p' label := by
  have busy : ∀ {t : Nat} {pc : Pc}, p.pc t = pc → pc ≠ .idle → t < n := fun at_ not_idle =>
    bound_of_busy sound (at_ ▸ not_idle)
  cases label with
  | take t now closed =>
    obtain ⟨⟨bound, idle⟩, same⟩ := Option.ite_none_right_eq_some.mp stepped
    obtain rfl := Option.some.inj same
    refine ⟨rfl, rfl, bound, goto_others _ t _, ?_⟩
    simp only [Label.thread, goto_self, needs, idle]
    cases (takeLoop p now closed p.conns).2.1 with
    | none =>
      simp [HttpConnectionPool.goto, Pc.asks]
      omega
    | some conn => simp [HttpConnectionPool.goto, Pc.asks]
  | delete t =>
    simp only [Pool.step] at stepped
    split at stepped
    next conn rest invalid ptr at_ =>
      obtain rfl := Option.some.inj stepped
      refine ⟨rfl, rfl, busy at_ (by simp), goto_others _ t _, ?_⟩
      simp only [Label.thread, goto_self, at_]
      cases ptr <;> simp [HttpConnectionPool.goto, Pc.asks, needs]
    next => cases stepped
  | subtract t =>
    simp only [Pool.step] at stepped
    split at stepped
    next at_ =>
      obtain rfl := Option.some.inj stepped
      refine ⟨rfl, rfl, busy at_ (by simp), goto_others _ t _, ?_⟩
      simp [Label.thread, at_, HttpConnectionPool.goto, Pc.asks]
    next at_ =>
      obtain rfl := Option.some.inj stepped
      refine ⟨rfl, rfl, busy at_ (by simp), goto_others _ t _, ?_⟩
      simp [Label.thread, at_, HttpConnectionPool.goto, Pc.asks]
    next => cases stepped
  | connect t ok =>
    obtain ⟨at_, same⟩ := Option.ite_none_right_eq_some.mp stepped
    -- what was asked for is there, or the call gives up
    split at same
    next =>
      obtain rfl := Option.some.inj same
      refine ⟨rfl, rfl, busy at_ (by simp), goto_others _ t _, ?_⟩
      simp only [Label.thread, goto_self, at_]
      simp [HttpConnectionPool.goto, HttpConnectionPool.write, Pc.asks]
    next =>
      obtain rfl := Option.some.inj same
      refine ⟨rfl, rfl, busy at_ (by simp), goto_others _ t _, ?_⟩
      simp only [Label.thread, goto_self, at_]
      simp [HttpConnectionPool.goto, Pc.asks]
      omega
  | count t =>
    simp only [Pool.step] at stepped
    split at stepped
    next at_ =>
      obtain rfl := Option.some.inj stepped
      refine ⟨rfl, rfl, busy at_ (by simp), goto_others _ t _, ?_⟩
      simp [Label.thread, at_, HttpConnectionPool.goto, Pc.asks]
    next => cases stepped
  | drop t conn =>
    obtain ⟨⟨bound, idle, -⟩, same⟩ := Option.ite_none_right_eq_some.mp stepped
    obtain rfl := Option.some.inj same
    refine ⟨rfl, rfl, bound, goto_others _ t _, ?_⟩
    simp [Label.thread, idle, HttpConnectionPool.goto, Pc.asks]
  | test t now connected =>
    simp only [Pool.step] at stepped
    split at stepped
    next at_ =>
      split at stepped
      next =>
        obtain rfl := Option.some.inj stepped
        refine ⟨rfl, rfl, busy at_ (by simp), goto_others _ t _, ?_⟩
        simp [Label.thread, at_, HttpConnectionPool.goto, HttpConnectionPool.write, Pc.asks]
        omega
      next =>
        obtain rfl := Option.some.inj stepped
        refine ⟨rfl, rfl, busy at_ (by simp), goto_others _ t _, ?_⟩
        simp [Label.thread, at_, HttpConnectionPool.goto, HttpConnectionPool.write, Pc.asks]
    next => cases stepped
  | discount t =>
    simp only [Pool.step] at stepped
    split at stepped
    next at_ =>
      obtain rfl := Option.some.inj stepped
      refine ⟨rfl, rfl, busy at_ (by simp), goto_others _ t _, ?_⟩
      simp [Label.thread, at_, HttpConnectionPool.goto, Pc.asks]
    next => cases stepped
  | putBack t =>
    simp only [Pool.step] at stepped
    split at stepped
    next at_ =>
      obtain rfl := Option.some.inj stepped
      refine ⟨rfl, rfl, busy at_ (by simp), goto_others _ t _, ?_⟩
      simp [Label.thread, at_, HttpConnectionPool.goto, Pc.asks]
    next => cases stepped

/-- With `create_time_` at 0 the test of the age depends on the clock only. -/
theorem takeLoop_ptr (created : ∀ conn, (p.objects conn).createTime = 0) (now : UInt64)
    (closed conns : List Nat) :
    (takeLoop p now closed conns).2.1 =
      if now < p.maxAliveTime then none else conns.find? fun conn => !decide (conn ∈ closed) := by
  induction conns with
  | nil => simp [takeLoop]
  | cons conn conns ih =>
    simp only [takeLoop, created, UInt64.zero_add]
    by_cases shut : conn ∈ closed
    · simp [shut, ih]
    · by_cases early : now < p.maxAliveTime
      · simp [shut, early, ih]
      · simp [shut, early]

theorem takeLoop_request (kept : Kept n p) {now : UInt64} {closed : List Nat} {conn : Nat}
    (takes : (takeLoop p now closed p.conns).2.1 = some conn) :
    conn ∉ closed ∧ (p.objects conn).request < p.maxRequest := by
  rw [takeLoop_ptr kept.created] at takes
  obtain ⟨-, found⟩ := Option.ite_none_left_eq_some.mp takes
  have connected := List.find?_some found
  simp only [Bool.not_eq_true', decide_eq_false_iff_not] at connected
  exact ⟨connected, kept.idle conn (List.mem_of_find?_eq_some found)⟩

theorem Sound.deleted_le (sound : Sound n p) : p.deleted.length ≤ p.made := by
  have counted := sound.places.length_eq
  simp only [List.length_append, List.length_range] at counted
  omega

theorem test_spec (created : ∀ conn, (p.objects conn).createTime = 0) {conn : Nat}
    {now : UInt64} {connected : Bool} (holds : p.pc t = .release conn)
    (stepped : Pool.step n p (.test t now connected) = some p') :
    (p'.objects conn).request = (p.objects conn).request + 1 ∧
      (p'.pc t = .putBack conn ↔ connected = true ∧ p.maxAliveTime < now ∧
        (p.objects conn).request + 1 < p.maxRequest) := by
  simp only [Pool.step, holds, created, UInt64.zero_add] at stepped
  split at stepped
  next deletes =>
    obtain rfl := Option.some.inj stepped
    refine ⟨by simp [HttpConnectionPool.goto, HttpConnectionPool.write], ?_⟩
    simp only [HttpConnectionPool.goto, Function.update_self, reduceCtorEq, false_iff]
    rintro ⟨connected, beyond, fewer⟩
    simp [connected, UInt64.not_le.mpr beyond, UInt64.not_le.mpr fewer] at deletes
  next keeps =>
    obtain rfl := Option.some.inj stepped
    refine ⟨by simp [HttpConnectionPool.goto, HttpConnectionPool.write], ?_⟩
    simpa [HttpConnectionPool.goto, and_assoc] using keeps

namespace Timed

variable {s s' : Timed} {action : Label × UInt64}

theorem step_some (stepped : s.step n action = some s') :
    ∃ p', Pool.step n s.pool action.1 = some p' ∧ s'.pool = p' ∧ s'.maxSize = s.maxSize ∧
      s'.events = s.events ++ s.observe p' action.1 := by
  obtain ⟨p', moved, same⟩ := Option.map_eq_some_iff.mp stepped
  subst same
  exact ⟨p', moved, rfl, rfl, rfl⟩

/-- What a call takes is connected, has a request left and is no older than what is idle. -/
theorem observe_take (kept : Kept n s.pool) (p' : HttpConnectionPool) {t : Nat} {now : UInt64}
    {closed : List Nat} (allowed : s.within n (.take t now closed) = true) :
    ∀ e ∈ s.observe p' (.take t now closed), e.Lawful s.pool := by
  have ptr := takeLoop_ptr kept.created now closed s.pool.conns
  obtain ⟨young, -⟩ := Bool.and_eq_true _ _ ▸ allowed
  intro e member
  simp only [observe] at member
  split at member
  next conn takes =>
    obtain rfl := List.mem_singleton.mp member
    obtain ⟨connected, fewer⟩ := takeLoop_request kept takes
    rw [takes] at ptr
    obtain ⟨late, found⟩ := Option.ite_none_left_eq_some.mp ptr.symm
    have idle := List.mem_of_find?_eq_some found
    simp only [late, decide_false, Bool.false_or, List.all_eq_true] at young
    have age := young conn idle
    simp only [connected, decide_false, Bool.false_or, decide_eq_true_eq] at age
    exact ⟨decide_eq_true connected, age, fewer⟩
  next => cases member

/-- A connection that could be used again goes to the idle list when the clock is beyond
`max_alive_time_`, whatever its age. -/
theorem observe_test (kept : Kept n s.pool) {now : UInt64} {connected : Bool}
    (allowed : s.within n (.test t now connected) = true)
    (stepped : Pool.step n s.pool (.test t now connected) = some p') :
    ∀ e ∈ s.observe p' (.test t now connected), e.Lawful s.pool := by
  cases holds : s.pool.pc t with
  | release conn =>
    obtain ⟨request, back⟩ := test_spec kept.created holds stepped
    intro e member
    simp only [observe, holds, request, List.mem_singleton] at member
    subst member
    intro usable
    have beyond : s.pool.maxAliveTime < now := by
      simp only [within, holds, Bool.or_eq_true, Bool.not_eq_true', decide_eq_false_iff_not,
        decide_eq_true_eq] at allowed
      exact allowed.resolve_left (not_not_intro usable)
    -- the two other tests are passed by what is usable
    exact decide_eq_true (back.mpr ⟨usable.1, beyond, usable.2.2⟩)
  | idle | collect | connect | count | discount | putBack => simp [Pool.step, holds] at stepped

theorem observe_lawful (kept : Kept n s.pool) {label : Label} (allowed : s.within n label = true)
    (stepped : Pool.step n s.pool label = some p') : ∀ e ∈ s.observe p' label, e.Lawful s.pool := by
  cases label with
  | take t now closed => exact observe_take kept p' allowed
  | test t now connected => exact observe_test kept allowed stepped
  | connect | delete | subtract | count | drop | discount | putBack => simp [observe]

/-- Who asks for a connection finds one or there is room for one more. -/
theorem room_of_within (kept : Kept n s.pool) {label : Label} (allowed : s.within n label = true)
    (asks : needs s.pool label = true) : s.existing + s.asking n < s.maxSize.toNat := by
  cases label with
  | take t now closed =>
    obtain ⟨-, room⟩ := Bool.and_eq_true _ _ ▸ allowed
    rw [Bool.or_eq_true, decide_eq_true_eq] at room
    refine room.resolve_left fun finds => ?_
    simp only [Bool.and_eq_true, Bool.not_eq_true', decide_eq_false_iff_not, List.any_eq_true] at finds
    obtain ⟨late, conn, idle, connected⟩ := finds
    rw [needs, takeLoop_ptr kept.created, if_neg late, Option.isNone_iff_eq_none,
      List.find?_eq_none] at asks
    exact asks conn idle (by simpa using connected)
  | _ => cases asks

/-- All that exists and is asked for stays within `max_size_`. -/
structure Roomy (n : Nat) (s : Timed) : Prop where
  events : ∀ e ∈ s.events, e.Lawful s.pool
  room : s.existing + s.asking n ≤ s.maxSize.toNat

theorem roomy_step (kept : Kept n s.pool) (roomy : s.Roomy n) (allowed : s.within n action.1 = true)
    (stepped : s.step n action = some s') : s'.Roomy n := by
  obtain ⟨p', moved, pool, size, events⟩ := step_some stepped
  have counted := step_counted kept.sound moved
  refine ⟨fun e member => ?_, ?_⟩
  · have lawful : e.Lawful s'.pool ↔ e.Lawful s.pool := by
      cases e <;> simp [Event.Lawful, Seen.Usable, pool, counted.maxAliveTime, counted.maxRequest]
    rw [lawful]
    rw [events] at member
    rcases List.mem_append.mp member with old | new
    · exact roomy.events e old
    · exact observe_lawful kept allowed moved e new
  · have places := kept.sound.deleted_le
    have places' := (sound_step kept.sound moved).deleted_le
    have before := roomy.room
    have change := (@Family.flatMap_change _ _ _ counted.bound (fun t => (s.pool.pc t).asks)
      (fun t => (p'.pc t).asks) fun u other => by rw [counted.others u other]).length_eq
    have fewer := counted.fewer
    have room : needs s.pool action.1 = true → s.existing + s.asking n < s.maxSize.toNat :=
      room_of_within kept allowed
    simp only [List.length_append] at change
    rw [size]
    simp only [existing, asking, pool] at *
    cases asks : needs s.pool action.1 with
    | false =>
      rw [asks, Bool.toNat_false] at fewer
      omega
    | true =>
      have more := room asks
      rw [asks, Bool.toNat_true] at fewer
      omega

end Timed

end Steps

/-- In every run of calls that do not meet what the code misses, all that is taken and released, and
the number of connections, is as it should be. -/
theorem limited_within {n : Nat} {maxSize maxAliveTime maxRequest : UInt32}
    {actions : List (Label × UInt64)} {s : Timed}
    (steps : Run.Steps (Timed.step n) (fun s action => s.within n action.1 = true)
      (.new maxSize maxAliveTime maxRequest) actions s) : s.Limited := by
  have start : (Timed.new maxSize maxAliveTime maxRequest).Roomy n := by
    refine ⟨fun e member => absurd member List.not_mem_nil, ?_⟩
    simp [Timed.existing, Timed.asking, Timed.new, HttpConnectionPool.new, Pc.asks]
  have both : Kept n s.pool ∧ s.Roomy n := by
    refine Run.Steps.invariant (P := fun s => Kept n s.pool ∧ s.Roomy n) ?_ steps ⟨kept_new n _ _, start⟩
    rintro s action s' ⟨kept, roomy⟩ allowed stepped
    refine ⟨?_, Timed.roomy_step kept roomy allowed stepped⟩
    obtain ⟨p', moved, pool, -, -⟩ := Timed.step_some stepped
    rw [pool]
    exact kept_step kept moved
  exact ⟨both.2.events, Nat.le_of_add_right_le both.2.room⟩

/-- One connection, used twice in its time. -/
theorem limited_within_reuse :
    ∃ s, Run.Steps (Timed.step 1) (fun s action => s.within 1 action.1 = true) (.new 1 10 3)
      [(.take 0 100 [], 0), (.subtract 0, 0), (.connect 0 true, 100), (.count 0, 0),
        (.drop 0 0, 0), (.test 0 105 true, 0), (.putBack 0, 0), (.take 0 108 [], 0)] s ∧
      s.events = [.released ⟨0, 105, true, 100, 1⟩ true, .taken ⟨0, 108, true, 100, 1⟩] ∧
      s.Limited := by
  obtain ⟨s, steps⟩ := Run.Steps.of_admissible (Timed.step 1)
    (fun s action => s.within 1 action.1 = true) (.new 1 10 3)
    [(.take 0 100 [], 0), (.subtract 0, 0), (.connect 0 true, 100), (.count 0, 0),
      (.drop 0 0, 0), (.test 0 105 true, 0), (.putBack 0, 0), (.take 0 108 [], 0)] (by decide)
  have events : ((Run.run (Timed.step 1) (.new 1 10 3)
      [(.take 0 100 [], 0), (.subtract 0, 0), (.connect 0 true, 100), (.count 0, 0),
        (.drop 0 0, 0), (.test 0 105 true, 0), (.putBack 0, 0), (.take 0 108 [], 0)]).map
      Timed.events) =
      some [.released ⟨0, 105, true, 100, 1⟩ true, .taken ⟨0, 108, true, 100, 1⟩] := by
    decide
  rw [steps.run] at events
  exact ⟨s, steps, Option.some.inj events, limited_within steps⟩

/-- With a time of 10 a connection made at 100 is taken at 200, and one made at 5 and released at
6 is deleted; with a size of 1 two threads have a connection each. -/
theorem limits_exceeded :
    (∃ s, Run.run (Timed.step 1) (.new 1 10 3)
      [(.take 0 100 [], 0), (.subtract 0, 0), (.connect 0 true, 100), (.count 0, 0),
        (.drop 0 0, 0), (.test 0 105 true, 0), (.putBack 0, 0), (.take 0 200 [], 0)] = some s ∧
      .taken ⟨0, 200, true, 100, 1⟩ ∈ s.events ∧ ¬ s.Limited) ∧
    (∃ s, Run.run (Timed.step 1) (.new 1 10 3)
      [(.take 0 5 [], 0), (.subtract 0, 0), (.connect 0 true, 5), (.count 0, 0),
        (.drop 0 0, 0), (.test 0 6 true, 0)] = some s ∧
      .released ⟨0, 6, true, 5, 1⟩ false ∈ s.events ∧ ¬ s.Limited) ∧
    ∃ s, Run.run (Timed.step 2) (.new 1 10 3)
      [(.take 0 100 [], 0), (.take 1 100 [], 0), (.subtract 0, 0), (.subtract 1, 0),
        (.connect 0 true, 100), (.connect 1 true, 100)] = some s ∧
      s.existing = 2 ∧ ¬ s.Limited := by
  refine ⟨?_, ?_, ?_⟩
  · have runs : ((Run.run (Timed.step 1) (.new 1 10 3)
        [(.take 0 100 [], 0), (.subtract 0, 0), (.connect 0 true, 100), (.count 0, 0),
          (.drop 0 0, 0), (.test 0 105 true, 0), (.putBack 0, 0), (.take 0 200 [], 0)]).map
        fun s => (s.events, s.pool.maxAliveTime)) =
        some ([.released ⟨0, 105, true, 100, 1⟩ true, .taken ⟨0, 200, true, 100, 1⟩], 10) := by
      decide
    obtain ⟨s, ran, ends⟩ := Option.map_eq_some_iff.mp runs
    obtain ⟨events, maxAliveTime⟩ := Prod.mk.inj ends
    have taken : .taken ⟨0, 200, true, 100, 1⟩ ∈ s.events := by simp [events]
    refine ⟨s, ran, taken, fun limited => ?_⟩
    have usable := limited.events _ taken
    simp [Event.Lawful, Seen.Usable, maxAliveTime] at usable
  · have runs : ((Run.run (Timed.step 1) (.new 1 10 3)
        [(.take 0 5 [], 0), (.subtract 0, 0), (.connect 0 true, 5), (.count 0, 0),
          (.drop 0 0, 0), (.test 0 6 true, 0)]).map
        fun s => (s.events, s.pool.maxAliveTime, s.pool.maxRequest)) =
        some ([.released ⟨0, 6, true, 5, 1⟩ false], 10, 3) := by
      decide
    obtain ⟨s, ran, ends⟩ := Option.map_eq_some_iff.mp runs
    obtain ⟨events, maxAliveTime, maxRequest⟩ := by simpa using ends
    have released : .released ⟨0, 6, true, 5, 1⟩ false ∈ s.events := by simp [events]
    refine ⟨s, ran, released, fun limited => ?_⟩
    have kept := limited.events _ released
    simp [Event.Lawful, Seen.Usable, maxAliveTime, maxRequest] at kept
  · have runs : ((Run.run (Timed.step 2) (.new 1 10 3)
        [(.take 0 100 [], 0), (.take 1 100 [], 0), (.subtract 0, 0), (.subtract 1, 0),
          (.connect 0 true, 100), (.connect 1 true, 100)]).map
        fun s => (s.existing, s.maxSize)) = some (2, 1) := by
      decide
    obtain ⟨s, ran, ends⟩ := Option.map_eq_some_iff.mp runs
    obtain ⟨existing, maxSize⟩ := Prod.mk.inj ends
    refine ⟨s, ran, existing, fun limited => ?_⟩
    have fits := limited.existing
    simp [existing, maxSize] at fits

end ServerFrame.Pool
