import ServerFrame.Lib.Run
import Mathlib.Algebra.Order.BigOperators.Group.Finset
import Mathlib.Data.List.Nodup
import Mathlib.Logic.Function.Basic

/-!
# Starting and stopping a `TcpServer`

`Start` schedules `StartAccept` for each listening socket, and `Stop` sets `is_stop_` and schedules
a task that cancels the sockets and closes them. All these run on the threads of the accept worker
beside each other: a call of the kernel, of the `IOManager` or of the table of descriptors is one
step. A descriptor that is closed is not given out again here, and two tasks of `Stop` do not
overlap.
-/
namespace ServerFrame.Tcp.Accepting

/-- Where a fiber stands in `StartAccept`. -/
inductive Pc where
  /-- At `while (!is_stop_)`. -/
  | test
  /-- Before `::accept(sockfd_)` looks the descriptor up. -/
  | accept
  /-- At `retry` in `DoIo`. -/
  | call
  /-- `accept_f` has said `EAGAIN`. -/
  | addEvent
  /-- Behind `YieldToHold`. -/
  | hold
  /-- `accept_f` has returned this client. -/
  | client (c : Nat)
  | gone
  deriving DecidableEq, Repr

structure Acceptor where
  sock : Nat
  pc : Pc

/-- A listening socket with its descriptor. `event` is the fiber that waits for `kRead`; `came` are
the clients in the order in which they came, `taken` those that `accept_f` returned, `dealt` what
became of these, and `refused` those that waited when the descriptor was closed. -/
structure Listening where
  /-- `sockfd_` is not -1. -/
  sockfd : Bool
  /-- `FdManager` has a context for it. -/
  context : Bool
  isOpen : Bool
  event : Option Nat
  backlog : List Nat
  came : List Nat
  taken : List Nat
  dealt : List (Nat × Bool)
  refused : List Nat

def Listening.closed : Listening := ⟨false, false, false, none, [], [], [], [], []⟩

def Listening.new : Listening := { Listening.closed with sockfd := true, context := true, isOpen := true }

/-- `close_f`; an event that is still registered will not be reported any more. -/
def Listening.shut (l : Listening) : Listening :=
  { l with isOpen := false, backlog := [], refused := l.refused ++ l.backlog }

/-- What the task of `Stop` does next to the first of its sockets: `CancelAll`, then `Close`, whose
`close` cancels again, deletes the context and closes the descriptor. -/
inductive Pass where
  | cancelAll
  | cancel
  | delete
  | close
  | reset
  deriving DecidableEq, Repr

structure State where
  isStop : Bool
  socks : List Nat
  made : Nat
  listening : Nat → Listening
  /-- The scheduled calls of `StartAccept`. -/
  scheduled : List Nat
  begun : Nat
  acceptors : Nat → Acceptor
  /-- The scheduled tasks of `Stop`. -/
  stops : Nat
  closing : Option (Pass × List Nat)
  clients : Nat
  /-- An assertion has failed. -/
  fault : Bool

def start : State where
  isStop := true
  socks := []
  made := 0
  listening := fun _ => .closed
  scheduled := []
  begun := 0
  acceptors := fun _ => ⟨0, .gone⟩
  stops := 0
  closing := none
  clients := 0
  fault := false

namespace State

def goto (s : State) (i : Nat) (pc : Pc) : State :=
  { s with acceptors := Function.update s.acceptors i { s.acceptors i with pc := pc } }

def write (s : State) (k : Nat) (l : Listening) : State :=
  { s with listening := Function.update s.listening k l }

/-- The fiber that waits at the socket goes on. -/
def trigger (s : State) (k : Nat) : State :=
  match (s.listening k).event with
  | some i => (s.write k { s.listening k with event := none }).goto i .call
  | none => s

/-- `accept_f`: the next client, or `EAGAIN`. -/
def take (s : State) (i k : Nat) (again : Pc) : State :=
  match (s.listening k).backlog with
  | c :: backlog => (s.write k { s.listening k with
      backlog := backlog, taken := (s.listening k).taken ++ [c] }).goto i (.client c)
  | [] => s.goto i again

end State

inductive Action where
  /-- `Bind` of one address, which is successful. -/
  | bind
  | start
  | stop
  /-- The next step of the task of `Stop`. -/
  | close
  /-- A thread takes up a call of `StartAccept`. -/
  | begin
  /-- The next step of a fiber in `StartAccept`; `ok` is what `Init` answers. -/
  | accept (i : Nat) (ok : Bool)
  /-- `accept_f` fails. -/
  | fails (i : Nat)
  /-- `epoll_wait` reports the descriptor. -/
  | ready (k : Nat)
  /-- A client comes. -/
  | arrive (k : Nat)
  deriving DecidableEq, Repr

def step (s : State) : Action → Option State
  | .bind => some { s.write s.made .new with made := s.made + 1, socks := s.socks ++ [s.made] }
  | .start =>
    if s.isStop then some { s with isStop := false, scheduled := s.scheduled ++ s.socks } else some s
  | .stop => some { s with isStop := true, stops := s.stops + 1 }
  | .close =>
    match s.closing with
    | none =>
      if 0 < s.stops then some { s with stops := s.stops - 1, closing := some (.cancelAll, s.socks) }
      else none
    | some (_, []) => some { s with socks := [], closing := none }
    | some (.cancelAll, k :: rest) => some { s.trigger k with closing := some (.cancel, k :: rest) }
    | some (.cancel, k :: rest) => some { s.trigger k with closing := some (.delete, k :: rest) }
    | some (.delete, k :: rest) =>
      some { s.write k { s.listening k with context := false } with closing := some (.close, k :: rest) }
    | some (.close, k :: rest) =>
      some { s.write k (s.listening k).shut with closing := some (.reset, k :: rest) }
    | some (.reset, k :: rest) =>
      some { s.write k { s.listening k with sockfd := false } with closing := some (.cancelAll, rest) }
  | .begin =>
    match s.scheduled with
    | k :: scheduled => some { s with
        scheduled := scheduled
        begun := s.begun + 1
        acceptors := Function.update s.acceptors s.begun ⟨k, .test⟩ }
    | [] => none
  | .accept i ok =>
    if i < s.begun then
      let k := (s.acceptors i).sock
      let l := s.listening k
      match (s.acceptors i).pc with
      | .test => some (s.goto i (if s.isStop then .gone else .accept))
      | .accept =>
        if !l.sockfd then some (s.goto i .test)
        else if l.context then some (s.goto i .call)
        -- without a context `accept_f` is called once
        else if l.isOpen then some (s.take i k .test)
        else some (s.goto i .test)
      | .call => if l.isOpen then some (s.take i k .addEvent) else some (s.goto i .test)
      | .addEvent =>
        if l.event.isSome then some { s with fault := true }
        else if l.isOpen then some ((s.write k { l with event := some i }).goto i .hold)
        else some (s.goto i .test)
      | .client c => some ((s.write k { l with dealt := l.dealt ++ [(c, ok)] }).goto i .test)
      | .hold => none
      | .gone => none
    else none
  | .fails i =>
    if i < s.begun ∧ (s.acceptors i).pc = .call then some (s.goto i .test) else none
  | .ready k =>
    if (s.listening k).isOpen ∧ (s.listening k).event.isSome ∧ (s.listening k).backlog ≠ [] then
      some (s.trigger k)
    else none
  | .arrive k =>
    if k < s.made ∧ (s.listening k).isOpen then
      let l := s.listening k
      some { s.write k { l with backlog := l.backlog ++ [s.clients], came := l.came ++ [s.clients] } with
        clients := s.clients + 1 }
    else none

namespace State

def Alive (s : State) (i : Nat) : Prop := i < s.begun ∧ (s.acceptors i).pc ≠ .gone

/-- Nothing of an earlier `Start` or `Stop` goes on. -/
def Quiet (s : State) : Prop :=
  s.scheduled = [] ∧ s.stops = 0 ∧ s.closing = none ∧ ∀ i < s.begun, (s.acceptors i).pc = .gone

/-- The sockets that the task of `Stop` will close, or the next one would. -/
def open_ (s : State) : List Nat :=
  match s.closing with
  | none => s.socks
  | some (.reset, _ :: rest) => rest
  | some (_, socks) => socks

/-- The descriptor is between its last `CancelAll` and `close_f`. -/
def Closing (s : State) (k : Nat) : Prop :=
  ∃ pass rest, s.closing = some (pass, k :: rest) ∧ (pass = .delete ∨ pass = .close)

end State

/-- `Bind` does not run beside a task of `Stop`, and `Start` begins when nothing of an earlier one
goes on. No fiber is registered for a descriptor between `CancelAll` and `close_f`, which cannot
be where the accept worker has one thread. -/
def admitted (s : State) : Action → Prop
  | .bind => s.stops = 0 ∧ s.closing = none
  | .start => s.isStop = true → s.Quiet
  | .accept i _ => (s.acceptors i).pc = .addEvent → ¬ s.Closing (s.acceptors i).sock
  | _ => True

/-- The socket whose descriptor is between its last `CancelAll` and `close_f`. -/
def closingSocket : Option (Pass × List Nat) → Option Nat
  | some (.delete, k :: _) => some k
  | some (.close, k :: _) => some k
  | _ => none

theorem closing_iff (s : State) (k : Nat) : closingSocket s.closing = some k ↔ s.Closing k := by
  constructor
  · intro is
    unfold closingSocket at is
    split at is
    next rest closing_eq =>
      cases is
      exact ⟨.delete, rest, closing_eq, .inl rfl⟩
    next rest closing_eq =>
      cases is
      exact ⟨.close, rest, closing_eq, .inr rfl⟩
    next => cases is
  · rintro ⟨pass, rest, closing_eq, rfl | rfl⟩ <;> rw [closing_eq] <;> rfl

instance decidableClosing (s : State) (k : Nat) : Decidable (s.Closing k) :=
  decidable_of_iff (closingSocket s.closing = some k) (closing_iff s k)

instance decidableQuiet (s : State) : Decidable s.Quiet :=
  inferInstanceAs (Decidable (_ ∧ _ ∧ _ ∧ _))

instance decidableAdmitted (s : State) (a : Action) : Decidable (admitted s a) :=
  match a with
  | .bind => inferInstanceAs (Decidable (_ ∧ _))
  | .start => inferInstanceAs (Decidable (s.isStop = true → s.Quiet))
  | .accept i _ => inferInstanceAs (Decidable ((s.acceptors i).pc = .addEvent → ¬ s.Closing (s.acceptors i).sock))
  | .stop | .close | .begin | .fails _ | .ready _ | .arrive _ => .isTrue trivial

/-! ## What holds in every state -/

/-- The client that a fiber has in its hands. -/
def Pc.hand : Pc → List Nat
  | .client c => [c]
  | _ => []

/-- Each client that came was taken, waits or was refused, in this order. -/
structure Clients (l : Listening) : Prop where
  came : l.came = l.taken ++ l.backlog ++ l.refused
  backlog : l.isOpen = false → l.backlog = []
  refused : l.isOpen = true → l.refused = []

/-- A socket has one fiber at most; a fiber that waits is registered, and the socket is open. Of the
clients taken all are dealt with but the one in a hand. -/
structure Sound (s : State) : Prop where
  fault : s.fault = false
  running : s.isStop = false → s.stops = 0 ∧ s.closing = none
  opened : ∀ k, (s.listening k).isOpen = true ↔ k ∈ s.open_
  once : s.open_.Nodup
  known : ∀ k ∈ s.open_, k < s.made
  sockets : ∀ i, s.Alive i → (s.acceptors i).sock < s.made
  waiting : s.scheduled.Nodup ∧ ∀ k ∈ s.scheduled, k < s.made
  apart : ∀ i j, s.Alive i → s.Alive j → (s.acceptors i).sock = (s.acceptors j).sock → i = j
  unscheduled : ∀ i, s.Alive i → (s.acceptors i).sock ∉ s.scheduled
  hold : ∀ i < s.begun, (s.acceptors i).pc = .hold →
    (s.listening (s.acceptors i).sock).event = some i ∧
      (s.listening (s.acceptors i).sock).isOpen = true ∧ ¬ s.Closing (s.acceptors i).sock
  event : ∀ k i, (s.listening k).event = some i →
    i < s.begun ∧ (s.acceptors i).pc = .hold ∧ (s.acceptors i).sock = k
  stopped : s.isStop = true → s.stops = 0 → s.closing = none →
    (∀ i, s.Alive i → (s.listening (s.acceptors i).sock).isOpen = false) ∧
      ∀ k ∈ s.scheduled, (s.listening k).isOpen = false
  clients : ∀ k, Clients (s.listening k)
  dealt : ∀ i, s.Alive i → (s.listening (s.acceptors i).sock).taken =
    (s.listening (s.acceptors i).sock).dealt.map Prod.fst ++ (s.acceptors i).pc.hand
  idle : ∀ k, (∀ i, s.Alive i → (s.acceptors i).sock ≠ k) →
    (s.listening k).taken = (s.listening k).dealt.map Prod.fst

theorem sound_start : Sound start where
  fault := rfl
  running := nofun
  opened := fun k => by simp [start, Listening.closed, State.open_]
  once := .nil
  known := fun k member => absurd member List.not_mem_nil
  sockets := fun i alive => absurd alive.1 (Nat.not_lt_zero i)
  waiting := ⟨.nil, fun k member => absurd member List.not_mem_nil⟩
  apart := fun i _ alive => absurd alive.1 (Nat.not_lt_zero i)
  unscheduled := fun i alive => absurd alive.1 (Nat.not_lt_zero i)
  hold := fun i bound => absurd bound (Nat.not_lt_zero i)
  event := nofun
  stopped := fun _ _ _ => ⟨fun i alive => absurd alive.1 (Nat.not_lt_zero i),
    fun k member => absurd member List.not_mem_nil⟩
  clients := fun _ => ⟨rfl, fun _ => rfl, fun _ => rfl⟩
  dealt := fun i alive => absurd alive.1 (Nat.not_lt_zero i)
  idle := fun _ _ => rfl

section Steps

variable {s s' : State} {i k : Nat} {pc : Pc} {l : Listening}

theorem alive_of_pc (bound : i < s.begun) (at_ : (s.acceptors i).pc = pc) (going : pc ≠ .gone) : s.Alive i :=
  ⟨bound, at_ ▸ going⟩

theorem goto_sock (s : State) (i j : Nat) (pc : Pc) :
    ((s.goto i pc).acceptors j).sock = (s.acceptors j).sock := by
  by_cases same : j = i
  · subst same
    simp only [State.goto, Function.update_self]
  · simp only [State.goto, Function.update_of_ne same]

/-- A fiber makes a step, and only its own socket changes. -/
theorem Sound.move (sound : Sound s) (alive : s.Alive i) (sock : (s.acceptors i).sock = k)
    (open_eq : l.isOpen = (s.listening k).isOpen) (clients : Clients l)
    (holds : pc = .hold → l.event = some i ∧ l.isOpen = true ∧ ¬ s.Closing k)
    (event : ∀ j, l.event = some j → j = i ∧ pc = .hold)
    (dealt : l.taken = l.dealt.map Prod.fst ++ pc.hand) : Sound ((s.write k l).goto i pc) := by
  have mine : ((s.write k l).goto i pc).acceptors i = ⟨k, pc⟩ := by
    simp only [State.goto, State.write, Function.update_self, sock]
  have theirs : ∀ j, j ≠ i → ((s.write k l).goto i pc).acceptors j = s.acceptors j := fun j other => by
    simp only [State.goto, State.write, Function.update_of_ne other]
  have here : ((s.write k l).goto i pc).listening k = l := Function.update_self ..
  have there : ∀ c, c ≠ k → ((s.write k l).goto i pc).listening c = s.listening c := fun c other =>
    Function.update_of_ne other ..
  have sock_eq : ∀ j, (((s.write k l).goto i pc).acceptors j).sock = (s.acceptors j).sock := fun j =>
    goto_sock (s.write k l) i j pc
  have still : ∀ j, ((s.write k l).goto i pc).Alive j → s.Alive j := by
    rintro j ⟨bound, going⟩
    by_cases same : j = i
    · exact same ▸ alive
    · rw [theirs j same] at going
      exact ⟨bound, going⟩
  -- the fibers of the other sockets see no change
  have elsewhere : ∀ j, s.Alive j → j ≠ i → (s.acceptors j).sock ≠ k := fun j alive' other same =>
    other (sound.apart j i alive' alive (same.trans sock.symm))
  have isOpen_eq : ∀ c, (((s.write k l).goto i pc).listening c).isOpen = (s.listening c).isOpen := by
    intro c
    by_cases same : c = k
    · rw [same, here, open_eq]
    · rw [there c same]
  refine ⟨sound.fault, sound.running, fun c => ?_, sound.once, sound.known, fun j alive' => ?_,
    sound.waiting, fun j j' alive' alive'' same => ?_, fun j alive' => ?_, fun j bound holding => ?_,
    fun c j registered => ?_, fun is none_ closing_eq => ?_, fun c => ?_, fun j alive' => ?_, fun c nobody => ?_⟩
  · rw [isOpen_eq]
    exact sound.opened c
  · rw [sock_eq]
    exact sound.sockets j (still j alive')
  · rw [sock_eq, sock_eq] at same
    exact sound.apart j j' (still j alive') (still j' alive'') same
  · rw [sock_eq]
    exact sound.unscheduled j (still j alive')
  · by_cases same : j = i
    · subst same
      rw [mine] at holding ⊢
      rw [here]
      exact holds holding
    · rw [theirs j same] at holding ⊢
      rw [there _ (elsewhere j (alive_of_pc bound holding nofun) same)]
      exact sound.hold j bound holding
  · by_cases same : c = k
    · subst same
      rw [here] at registered
      obtain ⟨rfl, is⟩ := event j registered
      exact ⟨alive.1, by rw [mine]; exact is, by rw [mine]⟩
    · rw [there c same] at registered
      obtain ⟨bound, holding, at_⟩ := sound.event c j registered
      have other : j ≠ i := fun eq => same (at_.symm.trans (eq ▸ sock))
      rw [theirs j other]
      exact ⟨bound, holding, at_⟩
  · obtain ⟨acceptors, scheduled⟩ := sound.stopped is none_ closing_eq
    refine ⟨fun j alive' => ?_, fun c member => ?_⟩
    · rw [isOpen_eq, sock_eq]
      exact acceptors j (still j alive')
    · rw [isOpen_eq]
      exact scheduled c member
  · by_cases same : c = k
    · rw [same, here]
      exact clients
    · rw [there c same]
      exact sound.clients c
  · by_cases same : j = i
    · subst same
      rw [mine, here]
      exact dealt
    · rw [theirs j same, there _ (elsewhere j (still j alive') same)]
      exact sound.dealt j (still j alive')
  · by_cases same : c = k
    · subst same
      have ended : pc = .gone := by
        by_contra going
        exact nobody i ⟨alive.1, by rw [mine]; exact going⟩ (by rw [mine])
      rw [here, dealt, ended]
      exact List.append_nil _
    · rw [there c same]
      refine sound.idle c fun j alive' at_ => ?_
      by_cases mover : j = i
      · exact same (at_.symm.trans (mover ▸ sock))
      · exact nobody j ⟨alive'.1, by rw [theirs j mover]; exact alive'.2⟩ (by rw [theirs j mover]; exact at_)

theorem write_self (s : State) (k : Nat) : s.write k (s.listening k) = s := by
  rw [State.write, Function.update_eq_self]

/-- A fiber that is not registered goes on, and nothing else changes. -/
theorem Sound.goto (sound : Sound s) (alive : s.Alive i) (not_hold : (s.acceptors i).pc ≠ .hold)
    (hand : pc.hand = (s.acceptors i).pc.hand) (other : pc ≠ .hold) : Sound (s.goto i pc) := by
  have dealt := sound.dealt i alive
  have moved : Sound ((s.write (s.acceptors i).sock (s.listening (s.acceptors i).sock)).goto i pc) := by
    refine sound.move alive rfl rfl (sound.clients _) (fun is => absurd is other) (fun j registered => ?_)
      (by rw [hand]; exact dealt)
    obtain ⟨bound, holding, same⟩ := sound.event _ j registered
    obtain rfl := sound.apart j i (alive_of_pc bound holding nofun) alive same
    exact absurd holding not_hold
  rwa [write_self] at moved

/-- No fiber is registered for the socket of one that does not wait. -/
theorem Sound.unregistered (sound : Sound s) (alive : s.Alive i) (sock : (s.acceptors i).sock = k)
    (not_hold : (s.acceptors i).pc ≠ .hold) : (s.listening k).event = none := by
  cases registered : (s.listening k).event with
  | none => rfl
  | some j =>
    obtain ⟨bound, holding, same⟩ := sound.event k j registered
    obtain rfl := sound.apart j i (alive_of_pc bound holding nofun) alive (same.trans sock.symm)
    exact absurd holding not_hold

theorem Sound.trigger (sound : Sound s) (k : Nat) :
    Sound (s.trigger k) ∧ ((s.trigger k).listening k).event = none ∧ (s.trigger k).closing = s.closing := by
  unfold State.trigger
  split
  next i registered =>
    obtain ⟨bound, holding, sock⟩ := sound.event k i registered
    have alive := alive_of_pc bound holding nofun
    have dealt := sound.dealt i alive
    rw [holding, sock] at dealt
    have clients := sound.clients k
    refine ⟨sound.move alive sock rfl ⟨clients.came, clients.backlog, clients.refused⟩ nofun nofun dealt,
      ?_, rfl⟩
    simp only [State.goto, State.write, Function.update_self]
  next none_ => exact ⟨sound, none_, rfl⟩

/-- `accept_f` on an open descriptor. -/
theorem Sound.take {again : Pc} (sound : Sound s) (alive : s.Alive i) (sock : (s.acceptors i).sock = k)
    (not_hold : (s.acceptors i).pc ≠ .hold) (empty : (s.acceptors i).pc.hand = [])
    (open_ : (s.listening k).isOpen = true) (other : again ≠ .hold) (none_ : again.hand = []) :
    Sound (s.take i k again) := by
  have dealt := sound.dealt i alive
  rw [sock, empty, List.append_nil] at dealt
  have clients := sound.clients k
  unfold State.take
  split
  next c backlog waits =>
    refine sound.move alive sock rfl ⟨?_, fun closed => ?_, clients.refused⟩ nofun (fun j registered => ?_) ?_
    · have came := clients.came
      rw [waits] at came
      rw [List.append_assoc, List.append_assoc, List.singleton_append, ← List.cons_append, ← List.append_assoc]
      exact came
    · rw [open_] at closed
      cases closed
    · rw [sound.unregistered alive sock not_hold] at registered
      cases registered
    · dsimp only
      rw [dealt]
      rfl
  next => exact sound.goto alive not_hold (by rw [none_, empty]) other

theorem sound_accept {ok : Bool} (sound : Sound s) (allowed : admitted s (.accept i ok))
    (stepped : step s (.accept i ok) = some s') : Sound s' := by
  simp only [step] at stepped
  split at stepped
  next bound =>
    split at stepped
    next at_ =>
      cases stepped
      have alive := alive_of_pc bound at_ nofun
      split
      next => exact sound.goto alive (by rw [at_]; nofun) (by rw [at_]; rfl) nofun
      next => exact sound.goto alive (by rw [at_]; nofun) (by rw [at_]; rfl) nofun
    next at_ =>
      have alive := alive_of_pc bound at_ nofun
      have not_hold : (s.acceptors i).pc ≠ .hold := by rw [at_]; nofun
      have empty : (s.acceptors i).pc.hand = [] := by rw [at_]; rfl
      split at stepped
      next =>
        cases stepped
        exact sound.goto alive not_hold empty.symm nofun
      next =>
        split at stepped
        next =>
          cases stepped
          exact sound.goto alive not_hold empty.symm nofun
        next =>
          split at stepped
          next open_ =>
            cases stepped
            exact sound.take alive rfl not_hold empty open_ nofun rfl
          next =>
            cases stepped
            exact sound.goto alive not_hold empty.symm nofun
    next at_ =>
      have alive := alive_of_pc bound at_ nofun
      have not_hold : (s.acceptors i).pc ≠ .hold := by rw [at_]; nofun
      have empty : (s.acceptors i).pc.hand = [] := by rw [at_]; rfl
      split at stepped
      next open_ =>
        cases stepped
        exact sound.take alive rfl not_hold empty open_ nofun rfl
      next =>
        cases stepped
        exact sound.goto alive not_hold empty.symm nofun
    next at_ =>
      have alive := alive_of_pc bound at_ nofun
      have not_hold : (s.acceptors i).pc ≠ .hold := by rw [at_]; nofun
      have empty : (s.acceptors i).pc.hand = [] := by rw [at_]; rfl
      have unregistered := sound.unregistered alive rfl not_hold
      rw [unregistered] at stepped
      split at stepped
      next is => cases is
      next =>
        split at stepped
        next open_ =>
          cases stepped
          have clients := sound.clients (s.acceptors i).sock
          have dealt := sound.dealt i alive
          rw [empty] at dealt
          exact sound.move alive rfl rfl ⟨clients.came, clients.backlog, clients.refused⟩
            (fun _ => ⟨rfl, open_, allowed at_⟩) (fun j is => ⟨(Option.some.inj is).symm, rfl⟩) dealt
        next =>
          cases stepped
          exact sound.goto alive not_hold empty.symm nofun
    next c at_ =>
      cases stepped
      have alive := alive_of_pc bound at_ nofun
      have not_hold : (s.acceptors i).pc ≠ .hold := by rw [at_]; nofun
      have clients := sound.clients (s.acceptors i).sock
      have dealt := sound.dealt i alive
      rw [at_] at dealt
      refine sound.move alive rfl rfl ⟨clients.came, clients.backlog, clients.refused⟩ nofun
        (fun j registered => ?_) ?_
      · rw [sound.unregistered alive rfl not_hold] at registered
        cases registered
      · dsimp only [Pc.hand]
        rw [dealt, List.map_append, List.append_nil]
        rfl
    next => cases stepped
    next => cases stepped
  next => cases stepped

theorem sound_fails (sound : Sound s) (stepped : step s (.fails i) = some s') : Sound s' := by
  simp only [step] at stepped
  split at stepped
  next here =>
    cases stepped
    obtain ⟨bound, at_⟩ := here
    exact sound.goto (alive_of_pc bound at_ nofun) (by rw [at_]; nofun) (by rw [at_]; rfl) nofun
  next => cases stepped

/-- What a write leaves as it is. -/
theorem write_field {β : Type} {f : Listening → β} (same : f l = f (s.listening k)) (c : Nat) :
    f ((s.write k l).listening c) = f (s.listening c) := by
  by_cases at_ : c = k
  · subst at_
    simp only [State.write, Function.update_self, same]
  · simp only [State.write, Function.update_of_ne at_]

/-- A socket changes, but for what the fibers look at. -/
theorem Sound.write (sound : Sound s) (isOpen : l.isOpen = (s.listening k).isOpen)
    (event : l.event = (s.listening k).event) (taken : l.taken = (s.listening k).taken)
    (dealt : l.dealt = (s.listening k).dealt) (clients : Clients l) : Sound (s.write k l) := by
  have isOpen_eq := write_field (f := Listening.isOpen) isOpen
  have event_eq := write_field (f := Listening.event) event
  have taken_eq := write_field (f := Listening.taken) taken
  have dealt_eq := write_field (f := Listening.dealt) dealt
  refine ⟨sound.fault, sound.running, fun c => ?_, sound.once, sound.known, sound.sockets, sound.waiting,
    sound.apart, sound.unscheduled, fun i bound holding => ?_, fun c i registered => ?_,
    fun is none_ closing_eq => ?_, fun c => ?_, fun i alive => ?_, fun c nobody => ?_⟩
  · rw [isOpen_eq]
    exact sound.opened c
  · rw [isOpen_eq, event_eq]
    exact sound.hold i bound holding
  · rw [event_eq] at registered
    exact sound.event c i registered
  · obtain ⟨acceptors, scheduled⟩ := sound.stopped is none_ closing_eq
    refine ⟨fun i alive => ?_, fun c member => ?_⟩
    · rw [isOpen_eq]
      exact acceptors i alive
    · rw [isOpen_eq]
      exact scheduled c member
  · by_cases at_ : c = k
    · subst at_
      simp only [State.write, Function.update_self]
      exact clients
    · simp only [State.write, Function.update_of_ne at_]
      exact sound.clients c
  · rw [taken_eq, dealt_eq]
    exact sound.dealt i alive
  · rw [taken_eq, dealt_eq]
    exact sound.idle c nobody

theorem sound_arrive (sound : Sound s) (stepped : step s (.arrive k) = some s') : Sound s' := by
  simp only [step] at stepped
  split at stepped
  next here =>
    cases stepped
    obtain ⟨-, open_⟩ := here
    have clients := sound.clients k
    have came : (s.listening k).came ++ [s.clients] =
        (s.listening k).taken ++ ((s.listening k).backlog ++ [s.clients]) ++ (s.listening k).refused := by
      rw [clients.came, clients.refused open_]
      simp
    have written := sound.write (l := { s.listening k with
        backlog := (s.listening k).backlog ++ [s.clients], came := (s.listening k).came ++ [s.clients] })
      rfl rfl rfl rfl ⟨came, fun closed => absurd open_ (by rw [closed]; nofun), clients.refused⟩
    exact { written with }
  next => cases stepped

theorem sound_ready (sound : Sound s) (stepped : step s (.ready k) = some s') : Sound s' := by
  simp only [step] at stepped
  split at stepped
  next =>
    cases stepped
    exact (sound.trigger k).1
  next => cases stepped

theorem sound_bind (sound : Sound s) (allowed : admitted s .bind) (stepped : step s .bind = some s') :
    Sound s' := by
  cases stepped
  obtain ⟨-, closing_eq⟩ := allowed
  have open_eq : s.open_ = s.socks := by rw [State.open_, closing_eq]
  have fresh : s.made ∉ s.socks := fun member =>
    Nat.lt_irrefl _ (sound.known s.made (open_eq ▸ member))
  have there : ∀ c, c ≠ s.made → Function.update s.listening s.made Listening.new c = s.listening c :=
    fun c other => Function.update_of_ne other ..
  have mine : ∀ i, s.Alive i → (s.acceptors i).sock ≠ s.made := fun i alive =>
    Nat.ne_of_lt (sound.sockets i alive)
  have open_eq' : ∀ l, State.open_ { s with listening := l, made := s.made + 1, socks := s.socks ++ [s.made] } =
      s.socks ++ [s.made] := fun l => by simp only [State.open_, closing_eq]
  refine ⟨sound.fault, sound.running, fun c => ?_, ?_, fun c member => ?_, fun i alive => ?_, ?_, sound.apart,
    sound.unscheduled, fun i bound holding => ?_, fun c i registered => ?_, fun is none_ _ => ?_, fun c => ?_,
    fun i alive => ?_, fun c nobody => ?_⟩
  · have opened := sound.opened c
    rw [open_eq] at opened
    simp only [State.write, open_eq', List.mem_append, List.mem_singleton]
    by_cases at_ : c = s.made
    · subst at_
      simp only [Function.update_self, Listening.new, or_true]
    · rw [there c at_, opened]
      simp only [at_, or_false]
  · have once := sound.once
    rw [open_eq] at once
    simp only [State.write, open_eq']
    exact List.nodup_append.mpr ⟨once, List.nodup_singleton _, fun c member d last same =>
      fresh (List.mem_singleton.mp last ▸ same ▸ member)⟩
  · simp only [State.write, open_eq', List.mem_append, List.mem_singleton] at member
    rcases member with before | rfl
    · exact Nat.lt_succ_of_lt (sound.known c (open_eq ▸ before))
    · exact Nat.lt_succ_self _
  · exact Nat.lt_succ_of_lt (sound.sockets i alive)
  · exact ⟨sound.waiting.1, fun c member => Nat.lt_succ_of_lt (sound.waiting.2 c member)⟩
  · have alive := alive_of_pc bound holding (fun ended => by cases ended)
    simp only [State.write, there _ (mine i alive)]
    exact sound.hold i bound holding
  · by_cases at_ : c = s.made
    · subst at_
      simp only [State.write, Function.update_self] at registered
      cases registered
    · simp only [State.write, there c at_] at registered
      exact sound.event c i registered
  · obtain ⟨acceptors, scheduled⟩ := sound.stopped is none_ closing_eq
    refine ⟨fun i alive => ?_, fun c member => ?_⟩
    · simp only [State.write, there _ (mine i alive)]
      exact acceptors i alive
    · simp only [State.write, there c (Nat.ne_of_lt (sound.waiting.2 c member))]
      exact scheduled c member
  · by_cases at_ : c = s.made
    · subst at_
      simp only [State.write, Function.update_self]
      exact ⟨rfl, fun _ => rfl, fun _ => rfl⟩
    · simp only [State.write, there c at_]
      exact sound.clients c
  · simp only [State.write, there _ (mine i alive)]
    exact sound.dealt i alive
  · by_cases at_ : c = s.made
    · subst at_
      simp only [State.write, Function.update_self]
      rfl
    · simp only [State.write, there c at_]
      exact sound.idle c nobody

theorem sound_run (sound : Sound s) (allowed : admitted s .start) (stepped : step s .start = some s') :
    Sound s' := by
  simp only [step] at stepped
  split at stepped
  next is =>
    cases stepped
    obtain ⟨no_calls, no_stops, closing_eq, all_gone⟩ := allowed is
    have open_eq : s.open_ = s.socks := by rw [State.open_, closing_eq]
    have nobody : ∀ i, ¬ s.Alive i := fun i alive => alive.2 (all_gone i alive.1)
    have once := sound.once
    have known := sound.known
    rw [open_eq] at once known
    exact { sound with
      running := fun _ => ⟨no_stops, closing_eq⟩
      waiting := by
        rw [no_calls, List.nil_append]
        exact ⟨once, known⟩
      unscheduled := fun i alive => absurd alive (nobody i)
      stopped := nofun }
  next =>
    cases stepped
    exact sound

theorem sound_stop (sound : Sound s) (stepped : step s .stop = some s') : Sound s' := by
  cases stepped
  exact { sound with
    running := nofun
    stopped := fun _ none_ => absurd none_ (Nat.succ_ne_zero _) }

theorem sound_begin (sound : Sound s) (stepped : step s .begin = some s') : Sound s' := by
  simp only [step] at stepped
  split at stepped
  next k scheduled calls =>
    cases stepped
    have first : k ∈ s.scheduled := by rw [calls]; exact List.mem_cons_self ..
    have rest : ∀ c ∈ scheduled, c ∈ s.scheduled := fun c member => by
      rw [calls]
      exact List.mem_cons_of_mem _ member
    have once := sound.waiting.1
    rw [calls, List.nodup_cons] at once
    have before : ∀ i < s.begun, Function.update s.acceptors s.begun ⟨k, .test⟩ i = s.acceptors i :=
      fun i bound => Function.update_of_ne (Nat.ne_of_lt bound) ..
    have last : Function.update s.acceptors s.begun ⟨k, .test⟩ s.begun = ⟨k, .test⟩ :=
      Function.update_self ..
    have cases_of : ∀ i, i < s.begun + 1 → (Function.update s.acceptors s.begun ⟨k, .test⟩ i).pc ≠ .gone →
        i = s.begun ∨ s.Alive i := by
      intro i bound going
      rcases Nat.lt_succ_iff_lt_or_eq.mp bound with earlier | rfl
      · rw [before i earlier] at going
        exact .inr ⟨earlier, going⟩
      · exact .inl rfl
    refine ⟨sound.fault, sound.running, sound.opened, sound.once, sound.known, ?_, ?_, ?_, ?_, ?_, ?_, ?_,
      sound.clients, ?_, ?_⟩
    · rintro i ⟨bound, going⟩
      rcases cases_of i bound going with rfl | alive
      · simp only [last]
        exact sound.waiting.2 k first
      · simp only [before i alive.1]
        exact sound.sockets i alive
    · exact ⟨once.2, fun c member => sound.waiting.2 c (rest c member)⟩
    · rintro i j ⟨bound, going⟩ ⟨bound', going'⟩ same
      rcases cases_of i bound going with rfl | alive
      · rcases cases_of j bound' going' with rfl | alive'
        · rfl
        · simp only [last, before j alive'.1] at same
          exact absurd (same ▸ first) (sound.unscheduled j alive')
      · rcases cases_of j bound' going' with rfl | alive'
        · simp only [last, before i alive.1] at same
          exact absurd (same ▸ first) (sound.unscheduled i alive)
        · simp only [before i alive.1, before j alive'.1] at same
          exact sound.apart i j alive alive' same
    · rintro i ⟨bound, going⟩
      rcases cases_of i bound going with rfl | alive
      · simp only [last]
        exact once.1
      · simp only [before i alive.1]
        exact fun member => sound.unscheduled i alive (rest _ member)
    · intro i bound holding
      rcases cases_of i bound (by rw [holding]; nofun) with rfl | alive
      · simp only [last] at holding
        cases holding
      · simp only [before i alive.1] at holding ⊢
        exact sound.hold i alive.1 holding
    · intro c i registered
      obtain ⟨bound, holding, at_⟩ := sound.event c i registered
      simp only [before i bound]
      exact ⟨Nat.lt_succ_of_lt bound, holding, at_⟩
    · intro is none_ closing_eq
      obtain ⟨acceptors, waiting⟩ := sound.stopped is none_ closing_eq
      refine ⟨?_, fun c member => waiting c (rest c member)⟩
      rintro i ⟨bound, going⟩
      rcases cases_of i bound going with rfl | alive
      · simp only [last]
        exact waiting k first
      · simp only [before i alive.1]
        exact acceptors i alive
    · rintro i ⟨bound, going⟩
      rcases cases_of i bound going with rfl | alive
      · simp only [last]
        have idle := sound.idle k fun j alive at_ => sound.unscheduled j alive (at_ ▸ first)
        rw [idle]
        exact (List.append_nil _).symm
      · simp only [before i alive.1]
        exact sound.dealt i alive
    · intro c nobody
      refine sound.idle c fun i alive at_ => nobody i ?_ ?_
      · exact ⟨Nat.lt_succ_of_lt alive.1, by simp only [before i alive.1]; exact alive.2⟩
      · simp only [before i alive.1]
        exact at_
  next => cases stepped

/-- The task of `Stop` goes on, and the same sockets are still to be closed. -/
theorem Sound.pass {x : Pass × List Nat} (sound : Sound s) (is : s.isStop = true)
    (open_eq : State.open_ { s with closing := some x } = s.open_)
    (free : ∀ k, State.Closing { s with closing := some x } k → (s.listening k).event = none) :
    Sound { s with closing := some x } := by
  refine { sound with
    running := fun going => by rw [is] at going; cases going
    opened := fun k => by rw [open_eq]; exact sound.opened k
    once := by rw [open_eq]; exact sound.once
    known := by rw [open_eq]; exact sound.known
    hold := fun i bound holding => ?_
    stopped := nofun }
  obtain ⟨registered, open_, -⟩ := sound.hold i bound holding
  refine ⟨registered, open_, fun between => ?_⟩
  rw [free _ between] at registered
  cases registered

theorem Sound.is_stop (sound : Sound s) (busy : 0 < s.stops ∨ s.closing ≠ none) : s.isStop = true := by
  cases is : s.isStop with
  | true => rfl
  | false =>
    obtain ⟨none_, closing_eq⟩ := sound.running is
    rcases busy with some_ | some_
    · exact absurd none_ (Nat.ne_of_gt some_)
    · exact absurd closing_eq some_

/-- `CancelAll` in the task of `Stop`. -/
theorem Sound.cancel {pass pass' : Pass} {rest : List Nat} (sound : Sound s)
    (at_ : s.closing = some (pass, k :: rest)) (earlier : pass ≠ .reset) (later : pass' ≠ .reset) :
    Sound { s.trigger k with closing := some (pass', k :: rest) } := by
  obtain ⟨triggered, none_, closing_eq⟩ := sound.trigger k
  rw [at_] at closing_eq
  refine triggered.pass (triggered.is_stop (.inr (by rw [closing_eq]; nofun))) ?_ fun c between => ?_
  · simp only [State.open_, closing_eq]
    cases pass with
    | reset => exact absurd rfl earlier
    | _ =>
      cases pass' with
      | reset => exact absurd rfl later
      | _ => rfl
  · obtain ⟨_, _, is, -⟩ := between
    cases is
    exact none_

theorem Sound.free (sound : Sound s) (between : s.Closing k) : (s.listening k).event = none := by
  cases registered : (s.listening k).event with
  | none => rfl
  | some i =>
    obtain ⟨bound, holding, sock⟩ := sound.event k i registered
    have apart := (sound.hold i bound holding).2.2
    rw [sock] at apart
    exact absurd between apart

/-- `close_f` in the task of `Stop`. -/
theorem Sound.close {rest : List Nat} (sound : Sound s) (closing_eq : s.closing = some (.close, k :: rest)) :
    Sound { s.write k (s.listening k).shut with closing := some (.reset, k :: rest) } := by
  have is := sound.is_stop (.inr (by rw [closing_eq]; nofun))
  have open_eq : s.open_ = k :: rest := by simp only [State.open_, closing_eq]
  have once := sound.once
  rw [open_eq, List.nodup_cons] at once
  have free := sound.free ⟨.close, rest, closing_eq, .inr rfl⟩
  have clients := sound.clients k
  have was_open : (s.listening k).isOpen = true := (sound.opened k).mpr (open_eq ▸ List.mem_cons_self ..)
  have closed : Clients (s.listening k).shut := by
    refine ⟨?_, fun _ => rfl, nofun⟩
    simp only [Listening.shut]
    rw [clients.came, clients.refused was_open]
    simp
  -- no fiber looks at the socket that is closed
  have there : ∀ l, ∀ c, c ≠ k → Function.update s.listening k l c = s.listening c := fun l c other =>
    Function.update_of_ne other ..
  have elsewhere : ∀ i < s.begun, (s.acceptors i).pc = .hold → (s.acceptors i).sock ≠ k := by
    intro i bound holding at_
    have registered := (sound.hold i bound holding).1
    rw [at_, free] at registered
    cases registered
  have event_eq := write_field (s := s) (k := k) (f := Listening.event) (l := (s.listening k).shut) rfl
  have taken_eq := write_field (s := s) (k := k) (f := Listening.taken) (l := (s.listening k).shut) rfl
  have dealt_eq := write_field (s := s) (k := k) (f := Listening.dealt) (l := (s.listening k).shut) rfl
  refine ⟨sound.fault, fun going => absurd (is.symm.trans going) nofun, fun c => ?_, once.2,
    fun c member => ?_, sound.sockets, sound.waiting, sound.apart, sound.unscheduled, fun i bound holding => ?_, fun c i registered => ?_, nofun, fun c => ?_,
    fun i alive => ?_, fun c nobody => ?_⟩
  · by_cases at_ : c = k
    · subst at_
      simp only [State.write, Function.update_self]
      exact iff_of_false nofun once.1
    · simp only [State.write, there _ c at_]
      rw [sound.opened c, open_eq]
      exact ⟨fun member => (List.mem_cons.mp member).resolve_left at_, List.mem_cons_of_mem _⟩
  · exact sound.known c (open_eq ▸ List.mem_cons_of_mem _ member)
  · simp only [State.write, there _ _ (elsewhere i bound holding)]
    obtain ⟨registered, open_, -⟩ := sound.hold i bound holding
    refine ⟨registered, open_, ?_⟩
    rintro ⟨_, _, at_, late⟩
    cases at_
    rcases late with late | late <;> cases late
  · rw [event_eq] at registered
    exact sound.event c i registered
  · by_cases at_ : c = k
    · subst at_
      simp only [State.write, Function.update_self]
      exact closed
    · simp only [State.write, there _ c at_]
      exact sound.clients c
  · rw [taken_eq, dealt_eq]
    exact sound.dealt i alive
  · rw [taken_eq, dealt_eq]
    exact sound.idle c nobody

/-- The task of `Stop` has gone through its sockets. -/
theorem Sound.clear {pass : Pass} (sound : Sound s) (closing_eq : s.closing = some (pass, [])) :
    Sound { s with socks := [], closing := none } := by
  have is := sound.is_stop (.inr (by rw [closing_eq]; nofun))
  have open_eq : s.open_ = [] := by simp only [State.open_, closing_eq]
  have all_closed : ∀ k, (s.listening k).isOpen = false := by
    intro k
    rw [Bool.eq_false_iff]
    intro is_open
    have member := (sound.opened k).mp is_open
    rw [open_eq] at member
    cases member
  exact { sound with
    running := fun going => absurd (is.symm.trans going) nofun
    opened := fun k => by simp only [all_closed, State.open_, Bool.false_eq_true, List.not_mem_nil]
    once := .nil
    known := fun k member => absurd member List.not_mem_nil
    hold := fun i bound holding => absurd (sound.hold i bound holding).2.1 (by rw [all_closed]; nofun)
    stopped := fun _ _ _ => ⟨fun i _ => all_closed _, fun k _ => all_closed k⟩ }

theorem sound_close (sound : Sound s) (stepped : step s .close = some s') : Sound s' := by
  simp only [step] at stepped
  split at stepped
  next closing_eq =>
    split at stepped
    next some_ =>
      cases stepped
      have is := sound.is_stop (.inl some_)
      have passed := sound.pass (x := (.cancelAll, s.socks)) is (by simp only [State.open_, closing_eq]) ?_
      · exact { passed with
          running := fun going => absurd (is.symm.trans going) nofun
          stopped := nofun }
      · rintro c ⟨pass, _, at_, late⟩
        obtain rfl : Pass.cancelAll = pass := congrArg Prod.fst (Option.some.inj at_)
        rcases late with late | late <;> cases late
    next => cases stepped
  next pass closing_eq =>
    cases stepped
    exact sound.clear closing_eq
  next k rest closing_eq =>
    cases stepped
    exact sound.cancel closing_eq nofun nofun
  next k rest closing_eq =>
    cases stepped
    exact sound.cancel closing_eq nofun nofun
  next k rest closing_eq =>
    cases stepped
    have clients := sound.clients k
    have written := sound.write (l := { s.listening k with context := false }) rfl rfl rfl rfl
      ⟨clients.came, clients.backlog, clients.refused⟩
    have free := written.free (k := k) ⟨.delete, rest, closing_eq, .inl rfl⟩
    refine written.pass (written.is_stop (.inr fun none_ => ?_)) ?_ fun c between => ?_
    · cases closing_eq.symm.trans none_
    · simp only [State.open_, State.write, closing_eq]
    · obtain ⟨_, _, at_, -⟩ := between
      cases at_
      exact free
  next k rest closing_eq =>
    cases stepped
    exact sound.close closing_eq
  next k rest closing_eq =>
    cases stepped
    have clients := sound.clients k
    have written := sound.write (l := { s.listening k with sockfd := false }) rfl rfl rfl rfl
      ⟨clients.came, clients.backlog, clients.refused⟩
    refine written.pass (written.is_stop (.inr fun none_ => ?_)) ?_ fun c between => ?_
    · cases closing_eq.symm.trans none_
    · simp only [State.open_, State.write, closing_eq]
    · obtain ⟨_, _, at_, late⟩ := between
      cases at_
      rcases late with late | late <;> cases late

theorem sound_step (a : Action) (sound : Sound s) (allowed : admitted s a) (stepped : step s a = some s') :
    Sound s' := by
  cases a with
  | bind => exact sound_bind sound allowed stepped
  | start => exact sound_run sound allowed stepped
  | stop => exact sound_stop sound stepped
  | close => exact sound_close sound stepped
  | begin => exact sound_begin sound stepped
  | accept i ok => exact sound_accept sound allowed stepped
  | fails i => exact sound_fails sound stepped
  | ready k => exact sound_ready sound stepped
  | arrive k => exact sound_arrive sound stepped

end Steps

/-- Two clients come to a socket, and the first of them is dealt with. -/
def served : List Action :=
  [.bind, .start, .begin, .accept 0 true, .accept 0 true, .accept 0 true, .accept 0 true, .arrive 0, .arrive 0,
    .ready 0, .accept 0 true, .accept 0 true]

/-- A second `Start` while the fiber of the first still waits: two fibers accept from the socket, and
the assertion in `AddEvent` fails. -/
example : (Run.run step start [.bind, .start, .begin, .accept 0 true, .accept 0 true, .accept 0 true,
    .accept 0 true, .stop, .start, .begin, .accept 1 true, .accept 1 true, .accept 1 true,
    .accept 1 true]).map State.fault = some true := by decide +kernel

/-! ## Behind a `Stop` -/

/-- The fiber has passed the test and not taken a client. -/
def Pc.loops : Pc → Bool
  | .accept => true
  | .call => true
  | .addEvent => true
  | .hold => true
  | _ => false

namespace State

/-- A fiber at socket `k` will take a client without a test before. -/
def Loops (s : State) (k : Nat) : Prop :=
  ∃ i < s.begun, (s.acceptors i).sock = k ∧ (s.acceptors i).pc.loops = true

end State

/-- What happens to the clients of a socket behind a `Stop`: one more is taken at most, and then no
fiber will take another. -/
def Wanes (s s' : State) (k : Nat) : Prop :=
  (s'.listening k).taken = (s.listening k).taken ∧ (s'.Loops k → s.Loops k) ∨
    (∃ c, (s'.listening k).taken = (s.listening k).taken ++ [c]) ∧ s.Loops k ∧ ¬ s'.Loops k

section Waning

variable {s s' s'' : State} {i k : Nat} {pc : Pc} {l : Listening}

theorem Wanes.trans (first : Wanes s s' k) (second : Wanes s' s'' k) : Wanes s s'' k := by
  rcases first with ⟨same, loops⟩ | ⟨⟨c, taken⟩, looping, ended⟩
  · rcases second with ⟨same', loops'⟩ | ⟨⟨c, taken⟩, looping, ended⟩
    · exact .inl ⟨same'.trans same, fun is => loops (loops' is)⟩
    · exact .inr ⟨⟨c, by rw [taken, same]⟩, loops looping, ended⟩
  · rcases second with ⟨same', loops'⟩ | ⟨-, looping', -⟩
    · exact .inr ⟨⟨c, by rw [same', taken]⟩, looping, fun is => ended (loops' is)⟩
    · exact absurd looping' ended

end Waning

/-- The fiber has passed the test when `Stop` is called, and the second client is taken as well. -/
def stopped : List Action := served ++ [.accept 0 true, .stop]

/-- The steps that a fiber will still make behind a `Stop`. -/
def Listening.rank (l : Listening) : Pc → Nat
  | .gone => 0
  | .test => 1
  | .client _ => 2
  | .hold => 4
  | .addEvent => 5
  -- without a client the fiber will wait first
  | .call => if l.isOpen = true ∧ l.backlog = [] then 6 else 3
  | .accept => 7

/-- The step and those behind it at the same socket; a cancel may let a fiber make two more. -/
def Pass.work : Pass → Nat
  | .cancelAll => 9
  | .cancel => 6
  | .delete => 3
  | .close => 2
  | .reset => 1

def closingWork : Option (Pass × List Nat) → Nat
  | none => 0
  | some (_, []) => 1
  | some (pass, _ :: rest) => pass.work + 9 * rest.length + 1

namespace State

def rank (s : State) (i : Nat) : Nat := (s.listening (s.acceptors i).sock).rank (s.acceptors i).pc

/-- The tasks that have not begun, and the task of `Stop`. -/
def queued (s : State) : Nat :=
  2 * s.scheduled.length + s.stops * (9 * s.socks.length + 2) + closingWork s.closing

def work (s : State) : Nat := (∑ i ∈ Finset.range s.begun, s.rank i) + s.queued

end State

section Working

variable {s s' : State} {i k a b : Nat} {pc : Pc} {l : Listening}

end Working

/-- A fiber is registered between the last `CancelAll` and `close_f`: the task of `Stop` has ended,
and the fiber waits for an event that will not come. -/
example : (Run.run step start [.bind, .start, .begin, .accept 0 true, .accept 0 true, .accept 0 true, .stop,
    .close, .close, .close, .accept 0 true, .close, .close, .close, .close]).map (fun s =>
      (s.closing, s.stops, (s.listening 0).isOpen, (s.acceptors 0).pc)) = some (none, 0, false, .hold) := by
  decide +kernel


end ServerFrame.Tcp.Accepting
