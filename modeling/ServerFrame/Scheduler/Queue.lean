import Mathlib.Data.List.Perm.Basic
import ServerFrame.Lib.Family
import ServerFrame.Lib.Run
import ServerFrame.Scheduler.Model

/-!
# Conservation of the task queue

Each accepted entry is in `fibers_`, with one worker, or done. A step of a worker does
one of five things to these books, and most steps do nothing to them; all invariants
are proved for the five effects and never look at the steps again.
-/
namespace ServerFrame.Scheduler

/-- The entry a pass of the loop is about. -/
def Job.entry : Job → Option Nat
  | .fiber _ entry => some entry
  | .cb _ entry => some entry
  | .idle => none

/-- The entry a worker has taken, from its dequeue to the matching decrement. -/
def Pc.entry : Pc → Option Nat
  | .testTerm e => some e.id
  | .testExcept e _ => some e.id
  | .drop entry _ => some entry
  | .swapAssert j => j.entry
  | .swapSet j => j.entry
  | .swapLoad j => j.entry
  | .running j => j.entry
  | .yieldAssert j _ => j.entry
  | .yieldWrite j _ => j.entry
  | .swapOut j => j.entry
  | .decrement j => j.entry
  | _ => none

/-- The entries in the hands of the workers. -/
def held (s : Scheduler) : List Nat :=
  (List.range s.threads).filterMap fun w => (s.workers w).pc.entry

/-! ## The locked block -/

theorem scan_some {fibers : Nat → Fiber} {w : Nat} {queue left : List Entry} {e : Entry}
    (found : scan fibers w queue = some (e, left)) :
    ∃ front back, queue = front ++ e :: back ∧ left = front ++ back ∧
      (∀ x ∈ front, skips fibers w x = true) ∧ skips fibers w e = false := by
  induction queue generalizing left with
  | nil => cases found
  | cons x rest ih =>
    rw [scan] at found
    split at found
    next skipped =>
      split at found
      next => cases found
      next found' left' inner =>
        cases found
        obtain ⟨front, back, rfl, rfl, skipped', taken⟩ := ih inner
        refine ⟨x :: front, back, rfl, rfl, ?_, taken⟩
        intro y member
        rcases List.mem_cons.mp member with rfl | member
        · exact skipped
        · exact skipped' y member
    next taken =>
      cases found
      exact ⟨[], rest, rfl, rfl, by simp, by simpa using taken⟩

/-- An entry that is not skipped is for any thread or for this one. -/
theorem thread_of_taken {fibers : Nat → Fiber} {w : Nat} {e : Entry}
    (taken : skips fibers w e = false) : e.thread = -1 ∨ e.thread = w := by
  simp only [skips, Bool.or_eq_false_iff, Bool.and_eq_false_iff, bne_eq_false_iff_eq] at taken
  exact taken.1

theorem state_of_taken {s : Scheduler} {w : Nat} {e : Entry}
    (taken : skips s.fibers w e = false) : s.entryState e ≠ some .exec := by
  simp only [skips, Bool.or_eq_false_iff] at taken
  have state := taken.2
  cases kind : e.work with
  | fiber f =>
    rw [kind] at state
    simpa [entryState, kind, stateOf] using state
  | cb id => simp [entryState, kind]

/-! ## What a step does to the books -/

/-- The part of the state that accounts for entries. -/
structure Books where
  queue : List Entry
  active : Nat
  issued : Nat
  taken : List Dequeue
  finished : List Nat
  dropped : List (Nat × FiberState)

def books (s : Scheduler) : Books :=
  ⟨s.queue, s.activeThreadCount, s.issued, s.taken, s.finished, s.dropped⟩

@[simp] theorem books_setPc (s : Scheduler) (w : Nat) (pc : Pc) : (s.setPc w pc).books = s.books :=
  rfl

/-- The effect of a step of worker `w` on the books and on the entry it holds. -/
inductive Effect (s : Scheduler) (w : Nat) (s' : Scheduler) : Prop
  | quiet (books_eq : s'.books = s.books)
      (entry_eq : (s'.workers w).pc.entry = (s.workers w).pc.entry)
  | take (e : Entry) (left : List Entry) (free : (s.workers w).pc.entry = none)
      (found : scan s.fibers w s.queue = some (e, left))
      (books_eq : s'.books = { s.books with
        queue := left
        active := s.activeThreadCount + 1
        taken := s.taken ++ [⟨e, w, s.entryState e⟩] })
      (entry_eq : (s'.workers w).pc.entry = some e.id)
  | finish (entry : Nat) (had : (s.workers w).pc.entry = some entry)
      (books_eq : s'.books = { s.books with
        active := s.activeThreadCount - 1
        finished := s.finished ++ [entry] })
      (free : (s'.workers w).pc.entry = none)
  | drop (entry : Nat) (st : FiberState) (had : (s.workers w).pc = .drop entry st)
      (books_eq : s'.books = { s.books with
        active := s.activeThreadCount - 1
        dropped := s.dropped ++ [(entry, st)] })
      (free : (s'.workers w).pc.entry = none)
  | push (work : Work) (free : (s.workers w).pc.entry = none)
      (books_eq : s'.books = { s.books with
        queue := s.queue ++ [⟨s.issued, work, -1⟩]
        issued := s.issued + 1 })
      (free' : (s'.workers w).pc.entry = none)

/-- Only worker `w` moves, and it gives up an entry only for a terminated fiber. -/
structure Moved (s : Scheduler) (w : Nat) (s' : Scheduler) : Prop where
  threads_eq : s'.threads = s.threads
  others : ∀ v, v ≠ w → s'.workers v = s.workers v
  ended : ∀ entry st, (s'.workers w).pc = .drop entry st → st.terminated = true

/-- A step that leaves the books alone and brings the worker to `pc`. -/
private theorem quietly {s s' : Scheduler} {w : Nat} {pc : Pc} (pc_eq : (s'.workers w).pc = pc)
    (threads_eq : s'.threads = s.threads) (others : ∀ v, v ≠ w → s'.workers v = s.workers v)
    (books_eq : s'.books = s.books) (entry_eq : pc.entry = (s.workers w).pc.entry)
    (ended : ∀ entry st, pc = .drop entry st → st.terminated = true) :
    Moved s w s' ∧ Effect s w s' := by
  subst pc_eq
  exact ⟨⟨threads_eq, others, ended⟩, .quiet books_eq entry_eq⟩

/-- The worker only goes from one place to another. -/
private theorem quietly_to {s : Scheduler} {w : Nat} {pc : Pc}
    (entry_eq : pc.entry = (s.workers w).pc.entry)
    (ended : ∀ entry st, pc = .drop entry st → st.terminated = true) :
    Moved s w (s.setPc w pc) ∧ Effect s w (s.setPc w pc) :=
  quietly (pc_setPc ..) rfl (fun _ other => workers_setPc_of_ne _ _ _ _ other) rfl entry_eq ended

/-- It also writes to a fiber. -/
private theorem quietly_writing {s : Scheduler} {w : Nat} {j : Job} {fiber : Fiber} {pc : Pc}
    (entry_eq : pc.entry = (s.workers w).pc.entry)
    (ended : ∀ entry st, pc = .drop entry st → st.terminated = true) :
    Moved s w ((s.setFiberOf w j fiber).setPc w pc) ∧
      Effect s w ((s.setFiberOf w j fiber).setPc w pc) := by
  refine quietly (pc_setPc ..) ?_ (fun v other => ?_) ?_ entry_eq ended
  · cases j <;> rfl
  · rw [workers_setPc_of_ne _ _ _ _ other, workers_setFiberOf_of_ne _ _ _ _ _ other]
  · cases j <;> rfl

/-- It stays where it is and the program ends. -/
private theorem quietly_failing {s : Scheduler} {w : Nat} {fault : Fault}
    (ended : ∀ entry st, (s.workers w).pc = .drop entry st → st.terminated = true) :
    Moved s w (s.fail fault) ∧ Effect s w (s.fail fault) :=
  quietly rfl rfl (fun _ _ => rfl) rfl rfl ended

theorem dequeue_effect {s : Scheduler} {w : Nat} (at_ : (s.workers w).pc = .top) :
    Moved s w (s.dequeue w) ∧ Effect s w (s.dequeue w) := by
  rw [dequeue]
  split
  next => exact quietly_to (by rw [at_]; rfl) nofun
  next e left found =>
    refine ⟨⟨rfl, fun v other => workers_setPc_of_ne _ _ _ _ other, ?_⟩,
      .take e left (by rw [at_]; rfl) found rfl (by rw [pc_setPc]; rfl)⟩
    intro entry st is_drop
    rw [pc_setPc] at is_drop
    cases is_drop

theorem prepare_effect {s : Scheduler} {w : Nat} {e : Entry} (at_ : (s.workers w).pc = .testTerm e) :
    Moved s w (s.prepare w e.id) ∧ Effect s w (s.prepare w e.id) := by
  rw [prepare]
  split
  next f _ =>
    split
    · exact quietly (pc_setPc ..) rfl (fun _ other => workers_setPc_of_ne _ _ _ _ other) rfl
        (by rw [at_]; rfl) nofun
    · exact quietly_failing (by rw [at_]; nofun)
  next =>
    refine quietly (pc_setPc ..) rfl (fun v other => ?_) rfl (by rw [at_]; rfl) nofun
    rw [workers_setPc_of_ne _ _ _ _ other, workers_setCbFiber_of_ne _ _ _ _ other]
    rfl

/-- The decrement gives up the entry of the pass. -/
theorem release_effect {s : Scheduler} {w : Nat} {j : Job} {entry : Nat}
    (at_ : (s.workers w).pc = .decrement j) (had : j.entry = some entry) :
    Moved s w ((s.release entry).setPc w (.readReady j)) ∧
      Effect s w ((s.release entry).setPc w (.readReady j)) := by
  refine ⟨⟨rfl, fun v other => workers_setPc_of_ne _ _ _ _ other, ?_⟩,
    .finish entry (by rw [at_]; exact had) rfl (by rw [pc_setPc]; rfl)⟩
  intro entry st is_drop
  rw [pc_setPc] at is_drop
  cases is_drop

/-- Putting a fiber back is a `Schedule` for any thread. -/
theorem reschedule_effect {s : Scheduler} {w f : Nat} {j : Job}
    (at_ : (s.workers w).pc = .reschedule j) :
    Moved s w ((s.scheduleNoLock (some (.fiber f)) (-1)).setPc w .top) ∧
      Effect s w ((s.scheduleNoLock (some (.fiber f)) (-1)).setPc w .top) := by
  refine ⟨⟨rfl, fun v other => workers_setPc_of_ne _ _ _ _ other, ?_⟩,
    .push (.fiber f) (by rw [at_]; rfl) rfl (by rw [pc_setPc]; rfl)⟩
  intro entry st is_drop
  rw [pc_setPc] at is_drop
  cases is_drop

/-- Every step of a worker has one of the five effects. -/
theorem workerStep_effect {s s' : Scheduler} {w : Nat} (stepped : s.workerStep w = some s') :
    Moved s w s' ∧ Effect s w s' := by
  unfold workerStep at stepped
  -- only `top`, `drop`, `decrement` and `reschedule` touch the books; the rest is quiet
  split at stepped
  next at_ =>
    cases stepped
    exact dequeue_effect at_
  next e at_ =>
    split at stepped
    next f _ =>
      split at stepped
      · cases stepped
        exact quietly_to (by rw [at_]; rfl) (by rintro _ _ ⟨⟩; rfl)
      · cases stepped
        exact quietly_to (by rw [at_]; rfl) nofun
    next =>
      cases stepped
      exact prepare_effect at_
  next e f at_ =>
    split at stepped
    · cases stepped
      exact quietly_to (by rw [at_]; rfl) (by rintro _ _ ⟨⟩; rfl)
    · cases stepped
      exact quietly_to (by rw [at_]; rfl) nofun
  next entry st at_ =>
    cases stepped
    -- the worker gives its entry up without having run it
    refine ⟨⟨rfl, fun v other => workers_setPc_of_ne _ _ _ _ other, ?_⟩,
      .drop entry st at_ rfl (by rw [pc_setPc]; rfl)⟩
    intro entry st is_drop
    rw [pc_setPc] at is_drop
    cases is_drop
  next at_ =>
    split at stepped
    · cases stepped
      exact quietly_to (by rw [at_]; rfl) nofun
    · cases stepped
      exact quietly_to (by rw [at_]; rfl) nofun
  next j at_ =>
    split at stepped
    · cases stepped
      exact quietly_failing (by rw [at_]; nofun)
    · cases stepped
      exact quietly_to (by rw [at_]; rfl) nofun
  next j at_ =>
    cases stepped
    exact quietly_writing (by rw [at_]; rfl) nofun
  next j at_ =>
    split at stepped
    · cases stepped
      exact quietly_writing (by rw [at_]; rfl) nofun
    · cases stepped
      exact quietly_failing (by rw [at_]; nofun)
  next => cases stepped
  next j st at_ =>
    split at stepped
    · cases stepped
      exact quietly_to (by rw [at_]; rfl) nofun
    · cases stepped
      exact quietly_failing (by rw [at_]; nofun)
  next j st at_ =>
    cases stepped
    exact quietly_writing (by rw [at_]; rfl) nofun
  next j at_ =>
    cases stepped
    refine quietly_writing ?_ ?_
    · rw [at_]
      cases j <;> rfl
    · cases j <;> nofun
  next j at_ =>
    split at stepped
    next =>
      cases stepped
      exact release_effect at_ rfl
    next =>
      cases stepped
      exact release_effect at_ rfl
    next => cases stepped
  next j at_ =>
    split at stepped
    next =>
      split at stepped
      · cases stepped
        exact quietly_to (by rw [at_]; rfl) nofun
      · cases stepped
        exact quietly_to (by rw [at_]; rfl) nofun
    next =>
      split at stepped
      · cases stepped
        -- `cb_fiber` is given to the queue and no longer kept
        refine quietly (pc_setPc ..) rfl (fun v other => ?_) rfl (by rw [at_]; rfl) nofun
        rw [workers_setPc_of_ne _ _ _ _ other, workers_setCbFiber_of_ne _ _ _ _ other]
      · cases stepped
        exact quietly_to (by rw [at_]; rfl) nofun
    next => cases stepped
  next j at_ =>
    split at stepped
    next =>
      cases stepped
      exact reschedule_effect at_
    next =>
      cases stepped
      exact reschedule_effect at_
    next => cases stepped
  next j at_ =>
    split at stepped
    · cases stepped
      exact quietly_to (by rw [at_]; cases j <;> rfl) (by cases j <;> nofun)
    · split at stepped
      · cases stepped
        exact quietly_to (by rw [at_]; rfl) nofun
      · cases stepped
        exact quietly_to (by rw [at_]; rfl) nofun
  next j at_ =>
    split at stepped
    · cases stepped
      exact quietly_to (by rw [at_]; cases j <;> rfl) (by cases j <;> nofun)
    · split at stepped
      · cases stepped
        exact quietly_to (by rw [at_]; rfl) nofun
      · cases stepped
        exact quietly_to (by rw [at_]; rfl) nofun
  next j at_ =>
    dsimp only at stepped
    split at stepped
    · cases stepped
      refine quietly (pc_setPc ..) rfl (fun v other => ?_) rfl (by rw [at_]; rfl) nofun
      rw [workers_setPc_of_ne _ _ _ _ other, workers_setCbFiber_of_ne _ _ _ _ other,
        workers_setFiberOf_of_ne _ _ _ _ _ other]
    · cases stepped
      exact quietly_writing (by rw [at_]; rfl) nofun
  next j at_ =>
    split at stepped
    · cases stepped
      exact quietly_writing (by rw [at_]; rfl) nofun
    · cases stepped
      exact quietly_failing (by rw [at_]; nofun)
  next => cases stepped

/-- The code of a fiber does not touch the books. -/
theorem fiberStep_effect {s s' : Scheduler} {w : Nat} {j : Job} {choice : Choice}
    (at_ : (s.workers w).pc = .running j) (stepped : s.fiberStep w j choice = some s') :
    Moved s w s' ∧ Effect s w s' := by
  cases choice <;> simp only [fiberStep] at stepped <;> split at stepped <;> cases stepped
  · exact quietly rfl rfl (fun _ _ => rfl) rfl rfl (by rw [at_]; nofun)
  · exact quietly rfl rfl (fun _ _ => rfl) rfl rfl (by rw [at_]; nofun)
  · exact quietly_to (by rw [at_]; rfl) nofun
  · exact quietly_to (by rw [at_]; rfl) nofun
  · exact quietly_to (by rw [at_]; rfl) nofun
  · exact quietly_to (by rw [at_]; rfl) nofun
  · exact quietly_to (by rw [at_]; rfl) nofun

/-! ## The invariant -/

structure QueueInv (s : Scheduler) : Prop where
  ledger : (s.queue.map Entry.id ++ s.held ++ s.finished ++ s.dropped.map Prod.fst).Perm
    (List.range s.issued)
  ordered : (s.queue.map Entry.id).Pairwise (· < ·)
  active_eq : s.activeThreadCount = s.held.length
  taken_once : (s.taken.map fun d => d.entry.id).Perm
    (s.held ++ s.finished ++ s.dropped.map Prod.fst)
  pinned : ∀ d ∈ s.taken, d.entry.thread = -1 ∨ d.entry.thread = d.worker
  notExec : ∀ d ∈ s.taken, d.state ≠ some .exec
  ended : ∀ d ∈ s.dropped, d.2.terminated = true
  dropping : ∀ w entry st, (s.workers w).pc = .drop entry st → st.terminated = true

theorem queueInv_start (threads : Nat) : QueueInv (start threads) := by
  have nothing : (start threads).held = [] := by
    rw [held, List.filterMap_eq_nil_iff]
    exact fun _ _ => rfl
  refine ⟨?_, .nil, ?_, ?_, nofun, nofun, nofun, nofun⟩
  · rw [nothing]
    exact .refl _
  · rw [nothing]
    rfl
  · rw [nothing]
    exact .refl _

/-- What the move of one worker does to the entries in the workers' hands. -/
theorem Moved.held {s s' : Scheduler} {w : Nat} (moved : Moved s w s') (bound : w < s.threads) :
    (s'.held ++ (s.workers w).pc.entry.toList).Perm
      (s.held ++ (s'.workers w).pc.entry.toList) := by
  have same : ∀ v, v ≠ w → (fun u => (s'.workers u).pc.entry) v = (fun u => (s.workers u).pc.entry) v := by
    intro v other
    dsimp only
    rw [moved.others v other]
  rw [Scheduler.held, Scheduler.held, moved.threads_eq]
  exact Family.filterMap_change bound same

theorem Moved.dropping {s s' : Scheduler} {w : Nat} (moved : Moved s w s') (inv : QueueInv s) :
    ∀ v entry st, (s'.workers v).pc = .drop entry st → st.terminated = true := by
  intro v entry st is_drop
  by_cases same : v = w
  · subst same
    exact moved.ended entry st is_drop
  · rw [moved.others v same] at is_drop
    exact inv.dropping v entry st is_drop

/-- Entries in the queue were issued before now. -/
theorem QueueInv.id_lt {s : Scheduler} (inv : QueueInv s) {e : Entry} (member : e ∈ s.queue) :
    e.id < s.issued := by
  have counted : e.id ∈ List.range s.issued := by
    rw [← inv.ledger.mem_iff]
    simp only [List.mem_append]
    exact .inl (.inl (.inl (List.mem_map_of_mem member)))
  exact List.mem_range.mp counted

/-- Accepting an entry: it goes to the end of the queue with the next number. -/
theorem QueueInv.push {s s' : Scheduler} {work : Work} {thread : Int} (inv : QueueInv s)
    (books_eq : s'.books = { s.books with
      queue := s.queue ++ [⟨s.issued, work, thread⟩]
      issued := s.issued + 1 })
    (held_eq : s'.held.Perm s.held)
    (dropping : ∀ w entry st, (s'.workers w).pc = .drop entry st → st.terminated = true) :
    QueueInv s' := by
  simp only [books, Books.mk.injEq] at books_eq
  obtain ⟨queue_eq, active_eq, issued_eq, taken_eq, finished_eq, dropped_eq⟩ := books_eq
  refine ⟨?_, ?_, ?_, ?_, ?_, ?_, ?_, dropping⟩
  · have ledger := inv.ledger
    simp only [queue_eq, issued_eq, finished_eq, dropped_eq, List.map_append, List.map_cons,
      List.map_nil, List.range_succ, List.perm_iff_count, List.count_append] at ledger held_eq ⊢
    intro a
    have := ledger a
    have := held_eq a
    omega
  · rw [queue_eq, List.map_append, List.pairwise_append]
    refine ⟨inv.ordered, List.pairwise_singleton _ _, ?_⟩
    intro a before b last
    obtain ⟨e, member, rfl⟩ := List.mem_map.mp before
    rw [List.map_singleton, List.mem_singleton] at last
    rw [last]
    exact inv.id_lt member
  · rw [active_eq, inv.active_eq, held_eq.length_eq]
  · rw [taken_eq, finished_eq, dropped_eq]
    exact inv.taken_once.trans ((held_eq.symm.append_right _).append_right _)
  · rw [taken_eq]
    exact inv.pinned
  · rw [taken_eq]
    exact inv.notExec
  · rw [dropped_eq]
    exact inv.ended

/-- Giving up an entry: it leaves the worker's hands and is done. -/
theorem QueueInv.close {s s' : Scheduler} {entry : Nat} (inv : QueueInv s)
    (held_eq : (s'.held ++ [entry]).Perm s.held) (queue_eq : s'.queue = s.queue)
    (active_eq : s'.activeThreadCount = s.activeThreadCount - 1) (issued_eq : s'.issued = s.issued)
    (taken_eq : s'.taken = s.taken)
    (done : (s'.finished ++ s'.dropped.map Prod.fst).Perm
      (s.finished ++ s.dropped.map Prod.fst ++ [entry]))
    (ended : ∀ d ∈ s'.dropped, d.2.terminated = true)
    (dropping : ∀ w entry st, (s'.workers w).pc = .drop entry st → st.terminated = true) :
    QueueInv s' := by
  refine ⟨?_, ?_, ?_, ?_, ?_, ?_, ended, dropping⟩
  · have ledger := inv.ledger
    simp only [queue_eq, issued_eq, List.perm_iff_count, List.count_append] at ledger held_eq done ⊢
    intro a
    have := ledger a
    have := held_eq a
    have := done a
    omega
  · rw [queue_eq]
    exact inv.ordered
  · have counted := held_eq.length_eq
    rw [List.length_append, List.length_singleton] at counted
    rw [active_eq, inv.active_eq, ← counted, Nat.add_sub_cancel]
  · have once := inv.taken_once
    simp only [taken_eq, List.perm_iff_count, List.count_append] at once held_eq done ⊢
    intro a
    have := once a
    have := held_eq a
    have := done a
    omega
  · rw [taken_eq]
    exact inv.pinned
  · rw [taken_eq]
    exact inv.notExec

/-- The five effects keep the invariant. -/
theorem QueueInv.effect {s s' : Scheduler} {w : Nat} (inv : QueueInv s) (bound : w < s.threads)
    (moved : Moved s w s') (effect : Effect s w s') : QueueInv s' := by
  have changed := moved.held bound
  have dropping := moved.dropping inv
  -- the ledger: issued entries are queued, in the hands of a worker, finished or dropped
  cases effect with
  | quiet books_eq entry_eq =>
    rw [entry_eq] at changed
    have held_eq := (List.perm_append_right_iff _).mp changed
    simp only [books, Books.mk.injEq] at books_eq
    obtain ⟨queue_eq, active_eq, issued_eq, taken_eq, finished_eq, dropped_eq⟩ := books_eq
    refine ⟨?_, ?_, ?_, ?_, ?_, ?_, ?_, dropping⟩
    · rw [queue_eq, issued_eq, finished_eq, dropped_eq]
      exact (((held_eq.append_left _).append_right _).append_right _).trans inv.ledger
    · rw [queue_eq]
      exact inv.ordered
    · rw [active_eq, inv.active_eq, held_eq.length_eq]
    · rw [taken_eq, finished_eq, dropped_eq]
      exact inv.taken_once.trans ((held_eq.symm.append_right _).append_right _)
    · rw [taken_eq]
      exact inv.pinned
    · rw [taken_eq]
      exact inv.notExec
    · rw [dropped_eq]
      exact inv.ended
  | take e left free found books_eq entry_eq =>
    obtain ⟨front, back, queue_eq', left_eq, -, taken⟩ := scan_some found
    rw [free, entry_eq, Option.toList_none, List.append_nil, Option.toList_some] at changed
    simp only [books, Books.mk.injEq] at books_eq
    obtain ⟨queue_eq, active_eq, issued_eq, taken_eq, finished_eq, dropped_eq⟩ := books_eq
    rw [left_eq] at queue_eq
    refine ⟨?_, ?_, ?_, ?_, ?_, ?_, ?_, dropping⟩
    · -- the entry goes from the queue into the hands of the worker
      have ledger := inv.ledger
      simp only [queue_eq, queue_eq', issued_eq, finished_eq, dropped_eq, List.map_append,
        List.map_cons, List.perm_iff_count, List.count_append, List.count_cons, List.count_nil]
        at ledger changed ⊢
      intro a
      have := ledger a
      have := changed a
      omega
    · -- erasing from the middle keeps the order of the rest
      have ordered := inv.ordered
      rw [queue_eq', List.map_append, List.map_cons] at ordered
      rw [queue_eq, List.map_append]
      exact ordered.sublist ((List.sublist_cons_self _ _).append_left _)
    · have counted := changed.length_eq
      rw [List.length_append, List.length_singleton] at counted
      rw [active_eq, inv.active_eq, counted]
    · -- it is taken here for the first time
      have once := inv.taken_once
      simp only [taken_eq, finished_eq, dropped_eq, List.map_append, List.map_cons, List.map_nil,
        List.perm_iff_count, List.count_append] at once changed ⊢
      intro a
      have := once a
      have := changed a
      omega
    · rw [taken_eq]
      intro d member
      rcases List.mem_append.mp member with old | new
      · exact inv.pinned d old
      · rw [List.mem_singleton.mp new]
        exact thread_of_taken taken
    · rw [taken_eq]
      intro d member
      rcases List.mem_append.mp member with old | new
      · exact inv.notExec d old
      · rw [List.mem_singleton.mp new]
        exact state_of_taken taken
    · rw [dropped_eq]
      exact inv.ended
  | finish entry had books_eq free =>
    rw [free, had, Option.toList_none, List.append_nil, Option.toList_some] at changed
    simp only [books, Books.mk.injEq] at books_eq
    obtain ⟨queue_eq, active_eq, issued_eq, taken_eq, finished_eq, dropped_eq⟩ := books_eq
    refine inv.close changed queue_eq active_eq issued_eq taken_eq ?_ ?_ dropping
    · rw [finished_eq, dropped_eq, List.append_assoc, List.append_assoc]
      exact List.perm_append_comm.append_left _
    · rw [dropped_eq]
      exact inv.ended
  | drop entry st had books_eq free =>
    rw [free, had, Option.toList_none, List.append_nil] at changed
    simp only [books, Books.mk.injEq] at books_eq
    obtain ⟨queue_eq, active_eq, issued_eq, taken_eq, finished_eq, dropped_eq⟩ := books_eq
    refine inv.close changed queue_eq active_eq issued_eq taken_eq ?_ ?_ dropping
    · rw [finished_eq, dropped_eq, List.map_append, List.append_assoc]
      exact .refl _
    · rw [dropped_eq]
      intro d member
      rcases List.mem_append.mp member with old | new
      · exact inv.ended d old
      · rw [List.mem_singleton.mp new]
        exact inv.dropping w entry st had
  | push work free books_eq free' =>
    rw [free, free', Option.toList_none, List.append_nil, List.append_nil] at changed
    exact inv.push books_eq changed dropping

theorem scheduleNoLock_keeps {s : Scheduler} (inv : QueueInv s) (work : Option Work) (thread : Int) :
    QueueInv (s.scheduleNoLock work thread) := by
  cases work with
  | none => exact inv
  | some work => exact inv.push rfl (.refl _) inv.dropping

/-- `Schedule` over a range accepts its items one after the other. -/
theorem schedule_keeps {s : Scheduler} (inv : QueueInv s) (items : List (Option Work × Int)) :
    QueueInv (s.schedule items) := by
  induction items generalizing s with
  | nil => exact inv
  | cons item items ih => exact ih (scheduleNoLock_keeps inv item.1 item.2)

/-- A part of the state that the books do not mention may change. -/
theorem QueueInv.of_same {s s' : Scheduler} (inv : QueueInv s) (books_eq : s'.books = s.books)
    (threads_eq : s'.threads = s.threads) (workers_eq : s'.workers = s.workers) : QueueInv s' := by
  have held_eq : s'.held = s.held := by rw [held, held, threads_eq, workers_eq]
  simp only [books, Books.mk.injEq] at books_eq
  obtain ⟨queue_eq, active_eq, issued_eq, taken_eq, finished_eq, dropped_eq⟩ := books_eq
  refine ⟨?_, ?_, ?_, ?_, ?_, ?_, ?_, ?_⟩
  · rw [queue_eq, held_eq, finished_eq, dropped_eq, issued_eq]
    exact inv.ledger
  · rw [queue_eq]
    exact inv.ordered
  · rw [active_eq, held_eq]
    exact inv.active_eq
  · rw [taken_eq, held_eq, finished_eq, dropped_eq]
    exact inv.taken_once
  · rw [taken_eq]
    exact inv.pinned
  · rw [taken_eq]
    exact inv.notExec
  · rw [dropped_eq]
    exact inv.ended
  · rw [workers_eq]
    exact inv.dropping

theorem step_queueInv {s s' : Scheduler} {action : Action} (inv : QueueInv s)
    (stepped : s.step action = some s') : QueueInv s' := by
  unfold step at stepped
  split at stepped
  · cases stepped
  cases action with
  | worker w =>
    dsimp only at stepped
    split at stepped
    next bound =>
      obtain ⟨moved, effect⟩ := workerStep_effect stepped
      exact inv.effect bound moved effect
    next => cases stepped
  | fiber w choice =>
    dsimp only at stepped
    split at stepped
    next bound =>
      split at stepped
      next j at_ =>
        obtain ⟨moved, effect⟩ := fiberStep_effect at_ stepped
        exact inv.effect bound moved effect
      next => cases stepped
    next => cases stepped
  | makeFiber =>
    cases stepped
    exact inv.of_same rfl rfl rfl
  | schedule items =>
    dsimp only at stepped
    split at stepped
    · cases stepped
      exact schedule_keeps inv items
    · cases stepped
  | setAutoStop =>
    cases stepped
    exact inv.of_same rfl rfl rfl
  | setStopping =>
    cases stepped
    exact inv.of_same rfl rfl rfl

theorem run_queueInv {threads : Nat} {actions : List Action} {s : Scheduler}
    (ran : Run.run step (start threads) actions = some s) : QueueInv s :=
  Run.run_invariant (fun _ _ _ inv stepped => step_queueInv inv stepped) (queueInv_start threads) ran

/-- **Queue conservation**: for any number of workers and any interleaving, each accepted
entry is in exactly one place (queued, with one worker, run, or dropped because its
fiber had terminated) and was taken at most once; a pinned entry was taken by its own
thread only, and an entry whose fiber was executing by none; the queue is in the order
of scheduling; and `active_thread_count_` counts the workers between a dequeue and the
matching decrement. -/
theorem queue_conserved (threads : Nat) (actions : List Action) (s : Scheduler)
    (ran : Run.run step (start threads) actions = some s) :
    (s.queue.map Entry.id ++ s.held ++ s.finished ++ s.dropped.map Prod.fst).Perm
      (List.range s.issued) ∧
    (s.taken.map fun d => d.entry.id).Nodup ∧
    (∀ d ∈ s.taken, d.entry.thread ≠ -1 → d.entry.thread = d.worker) ∧
    (∀ d ∈ s.taken, d.state ≠ some .exec) ∧
    (∀ d ∈ s.dropped, d.2.terminated = true) ∧
    (s.queue.map Entry.id).Pairwise (· < ·) ∧
    s.activeThreadCount =
      (List.range s.threads).countP fun w => (s.workers w).pc.entry.isSome := by
  have inv := run_queueInv ran
  refine ⟨inv.ledger, ?_, fun d member pinned => (inv.pinned d member).resolve_left pinned,
    inv.notExec, inv.ended, inv.ordered, ?_⟩
  · -- a taken entry is in one of three of the four places
    have places : (s.queue.map Entry.id ++ (s.held ++ s.finished ++ s.dropped.map Prod.fst)).Nodup := by
      have nodup := inv.ledger.nodup_iff.mpr List.nodup_range
      simpa only [List.append_assoc] using nodup
    exact inv.taken_once.nodup_iff.mpr (List.nodup_append.mp places).2.1
  · rw [inv.active_eq, held, List.length_filterMap_eq_countP]

/-- A range with a fiber, a null entry and a callback pinned to thread 1: thread 0 takes
the fiber while thread 1 takes the callback. -/
theorem queue_conserved_two_workers :
    ∃ s, Run.run step (start 2) [.makeFiber,
        .schedule [(some (.fiber 0), -1), (none, -1), (some (.cb 7), 1)],
        .worker 0, .worker 1, .worker 0, .worker 0, .worker 1] = some s ∧
      s.activeThreadCount =
        (List.range s.threads).countP fun w => (s.workers w).pc.entry.isSome := by
  have ran : (Run.run step (start 2) [.makeFiber,
      .schedule [(some (.fiber 0), -1), (none, -1), (some (.cb 7), 1)],
      .worker 0, .worker 1, .worker 0, .worker 0, .worker 1]).isSome = true := by
    decide
  obtain ⟨s, ran⟩ := Option.isSome_iff_exists.mp ran
  exact ⟨s, ran, (queue_conserved 2 _ s ran).2.2.2.2.2.2⟩

end ServerFrame.Scheduler
