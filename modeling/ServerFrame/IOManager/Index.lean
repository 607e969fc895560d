import ServerFrame.IOManager.Growth

/-!
# Indices into the event table

Which places of `fd_contexts_` the members of `IOManager` use when the descriptor is any
`int`. Only the number of places is kept; `Growth` has the contexts, for descriptors from 0 on.
-/
namespace ServerFrame.IOManager.Index

open Growth (toInt grownSize toInt_le)

/-- What a critical section of a member function comes to. -/
inductive Outcome where
  /-- The member returns its failure value. -/
  | failed
  /-- `fd_contexts_[fd]`, with the length that the table has then. -/
  | indexed (fd : Int) (length : Nat)
  /-- `fd * 1.5` is below zero and has no value as a `size_t`. -/
  | noSize
  deriving DecidableEq

def Outcome.InBounds : Outcome → Prop
  | .failed => True
  | .indexed fd length => 0 ≤ fd ∧ fd < length
  | .noSize => False

instance : DecidablePred Outcome.InBounds
  | .failed => .isTrue trivial
  | .indexed fd length => inferInstanceAs (Decidable (0 ≤ fd ∧ fd < length))
  | .noSize => .isFalse id

/-- `growing t` is the descriptor of an `AddEvent` that has found the table too small. -/
structure State where
  size : Nat
  growing : Nat → Option Int
  outcomes : List Outcome

def State.new : State := ⟨32, fun _ => none, []⟩

def State.index (s : State) (fd : Int) : State :=
  { s with outcomes := s.outcomes ++ [.indexed fd s.size] }

/-- `AddEvent` under the read lock. -/
def addEvent (t : Nat) (fd : Int) (s : State) : State :=
  if toInt s.size > fd then s.index fd
  else { s with growing := Function.update s.growing t (some fd) }

/-- `AddEvent` under the write lock: `ContextResize(fd * 1.5)` and the index. -/
def addEventGrow (t : Nat) (fd : Int) (s : State) : State :=
  let s := { s with growing := Function.update s.growing t none }
  if 0 ≤ fd then { s with size := grownSize fd.toNat }.index fd
  else { s with outcomes := s.outcomes ++ [.noSize] }

/-- The look-up that the members that remove events begin with. -/
def find (fd : Int) (s : State) : State :=
  if toInt s.size ≤ fd then { s with outcomes := s.outcomes ++ [.failed] } else s.index fd

def delEvent : Int → State → State := find

def cancelEvent : Int → State → State := find

def cancelAll : Int → State → State := find

inductive Call where
  | addEvent (t : Nat) (fd : Int)
  | addEventGrow (t : Nat)
  | delEvent (fd : Int)
  | cancelEvent (fd : Int)
  | cancelAll (fd : Int)
  deriving DecidableEq

/-- A descriptor is an `int`. -/
def isInt (fd : Int) : Bool := decide (-2 ^ 31 ≤ fd) && decide (fd < 2 ^ 31)

def step (s : State) : Call → Option State
  | .addEvent t fd =>
    if isInt fd && (s.growing t).isNone then some (addEvent t fd s) else none
  | .addEventGrow t => (s.growing t).map fun fd => addEventGrow t fd s
  | .delEvent fd => if isInt fd then some (delEvent fd s) else none
  | .cancelEvent fd => if isInt fd then some (cancelEvent fd s) else none
  | .cancelAll fd => if isInt fd then some (cancelAll fd s) else none

/-! ## The callers -/

/-- The descriptor of a `Socket`. -/
structure Socket where
  sockfd : Int
  isConnected : Bool

namespace Socket

def new : Socket := ⟨-1, false⟩

def close (sock : Socket) : Bool × Socket :=
  if !sock.isConnected && sock.sockfd == -1 then (true, sock)
  else (false, ⟨-1, false⟩)

def cancelRead (sock : Socket) : Call := .cancelEvent sock.sockfd

def cancelWrite (sock : Socket) : Call := .cancelEvent sock.sockfd

def cancelAccept (sock : Socket) : Call := .cancelEvent sock.sockfd

def cancelAll (sock : Socket) : Call := .cancelAll sock.sockfd

end Socket

/-! ## When the indices are in bounds -/

/-- A descriptor that passes the test of the size is not negative, and one for which the table
is enlarged is at least 2. -/
def Safe (s : State) : Call → Prop
  | .addEvent _ fd => toInt s.size ≤ fd ∨ 0 ≤ fd
  | .addEventGrow t => ∀ fd ∈ s.growing t, 2 ≤ fd
  | .delEvent fd => toInt s.size ≤ fd ∨ 0 ≤ fd
  | .cancelEvent fd => toInt s.size ≤ fd ∨ 0 ≤ fd
  | .cancelAll fd => toInt s.size ≤ fd ∨ 0 ≤ fd

/-- What the calls so far have come to. -/
def AllInBounds (s : State) : Prop := ∀ outcome ∈ s.outcomes, outcome.InBounds

section Steps

variable {s s' : State} {t : Nat} {fd : Int}

theorem allInBounds_append {outcome : Outcome} (before : AllInBounds s)
    (appended : s'.outcomes = s.outcomes ++ [outcome]) :
    AllInBounds s' ↔ outcome.InBounds := by
  unfold AllInBounds at *
  rw [appended, List.forall_mem_append, List.forall_mem_singleton]
  exact and_iff_right before

/-- The test lets no index through that is too large. -/
theorem index_tested_iff (before : AllInBounds s) (tested : fd < toInt s.size) :
    AllInBounds (s.index fd) ↔ toInt s.size ≤ fd ∨ 0 ≤ fd := by
  have appended : (s.index fd).outcomes = s.outcomes ++ [.indexed fd s.size] := rfl
  rw [allInBounds_append before appended, Outcome.InBounds]
  have size := toInt_le s.size
  omega

theorem find_iff (before : AllInBounds s) :
    AllInBounds (find fd s) ↔ toInt s.size ≤ fd ∨ 0 ≤ fd := by
  unfold find
  split
  next outside =>
    rw [allInBounds_append before rfl]
    exact iff_of_true trivial (.inl outside)
  next inside => exact index_tested_iff before (Int.not_le.mp inside)

theorem addEvent_iff (before : AllInBounds s) :
    AllInBounds (addEvent t fd s) ↔ toInt s.size ≤ fd ∨ 0 ≤ fd := by
  unfold addEvent
  split
  next inside => exact index_tested_iff before inside
  next outside => exact iff_of_true before (.inl (Int.not_lt.mp outside))

/-- The table as it has been enlarged holds the descriptor unless that is 0 or 1. -/
theorem addEventGrow_iff (before : AllInBounds s) :
    AllInBounds (addEventGrow t fd s) ↔ 2 ≤ fd := by
  unfold addEventGrow
  dsimp only
  split
  next inside =>
    rw [allInBounds_append before rfl]
    simp only [Outcome.InBounds, grownSize]
    omega
  next negative =>
    rw [allInBounds_append before rfl]
    exact iff_of_false id (by omega)

theorem step_iff {call : Call} (before : AllInBounds s) (stepped : step s call = some s') :
    AllInBounds s' ↔ Safe s call := by
  cases call with
  | addEventGrow t =>
    obtain ⟨fd, waits, rfl⟩ := Option.map_eq_some_iff.mp stepped
    rw [addEventGrow_iff before, Safe, waits]
    simp
  | addEvent t fd =>
    obtain ⟨-, same⟩ := Option.ite_none_right_eq_some.mp stepped
    exact Option.some.inj same ▸ addEvent_iff before
  | delEvent fd | cancelEvent fd | cancelAll fd =>
    obtain ⟨-, same⟩ := Option.ite_none_right_eq_some.mp stepped
    exact Option.some.inj same ▸ find_iff before

end Steps

/-- In every run of calls that are safe when they are made, by any number of threads, every
index is in bounds; and the next call keeps it so exactly when it is safe. -/
theorem indices_in_bounds {calls : List Call} {s : State}
    (steps : Run.Steps step Safe State.new calls s) :
    AllInBounds s ∧ ∀ call s', step s call = some s' → (AllInBounds s' ↔ Safe s call) := by
  have before : AllInBounds s :=
    steps.invariant (fun _ _ _ before safe stepped => (step_iff before stepped).mpr safe)
      (fun _ member => absurd member List.not_mem_nil)
  exact ⟨before, fun call s' stepped => step_iff before stepped⟩

/-- Descriptor 40 does not fit into the table of 32 places at first. -/
theorem indices_in_bounds_grown :
    ∃ s, Run.Steps step Safe State.new
        [.delEvent 40, .addEvent 0 40, .addEventGrow 0, .cancelAll 40] s ∧ AllInBounds s ∧
      s.outcomes = [.failed, .indexed 40 60, .indexed 40 60] := by
  have steps : Run.Steps step Safe State.new
      [.delEvent 40, .addEvent 0 40, .addEventGrow 0, .cancelAll 40] _ :=
    .cons (.inl (by decide)) rfl (.cons (.inl (by decide)) rfl
      (.cons (by rintro fd ⟨⟩; decide) rfl (.cons (.inr (by decide)) rfl (.nil _))))
  exact ⟨_, steps, (indices_in_bounds steps).1, rfl⟩

/-- `CancelRead` of a socket that has been closed uses the index -1. -/
theorem closed_socket_outside :
    let sock := (Socket.close ⟨7, true⟩).2
    ∃ s, Run.run step State.new [sock.cancelRead] = some s ∧ s.outcomes = [.indexed (-1) 32] ∧
      ¬ AllInBounds s := by
  refine ⟨_, rfl, rfl, fun all => ?_⟩
  exact absurd (all (.indexed (-1) 32) (by decide)) (by decide)

end ServerFrame.IOManager.Index
