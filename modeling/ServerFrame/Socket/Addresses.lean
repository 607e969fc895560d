import ServerFrame.Lib.Run

/-!
# The addresses that a socket keeps

`Socket` asks for its two addresses once and keeps the answers, while `Bind` and `Connect` make a
new descriptor where there is none. What the system calls answer is given with each call.
-/
namespace ServerFrame.Addresses

/-- What the kernel keeps for a descriptor: what `getsockname` reports, and whom it is connected
to. -/
structure Descriptor (α : Type) where
  name : α
  peer : Option α

/-- `sockfd_` is `none` for -1. The addresses that a connection was attempted to are recorded, and
the last one that there was a connection to. -/
structure Socket (α : Type) where
  family : Int
  sockfd : Option (Descriptor α)
  isConnected : Bool
  localAddress : Option α
  remoteAddress : Option α
  attempts : List α
  connectedTo : Option α

/-- What the system calls of a member function answer: the name of the new descriptor, that of the
descriptor when it is bound, its name and its peer when it is connected (`none` is a failure), whether
the addresses can be had, and whether somebody serves the path that is to be bound to. The peer need
not be the address that `connect` was called with: `0.0.0.0` leads to `127.0.0.1`. -/
structure Answers (α : Type) where
  socket : Option α
  bind : Option α
  connect : Option (α × α)
  getsockname : Bool
  getpeername : Bool
  served : Bool

/-- Which addresses are those of `AF_UNIX`, and the family of each. -/
structure Kinds (α : Type) where
  isUnix : α → Bool
  getFamily : α → Int

namespace Socket

variable {α : Type}

def new (family : Int) : Socket α := ⟨family, none, false, none, none, [], none⟩

/-- `NewSock`. -/
def newSock (ans : Answers α) (s : Socket α) : Socket α :=
  { s with sockfd := ans.socket.map fun name => ⟨name, none⟩ }

/-- `GetRemoteAddress`; the result `none` is an `UnknownAddress`. -/
def getRemoteAddress (getpeername : Bool) (s : Socket α) : Option α × Socket α :=
  match s.remoteAddress with
  | some addr => (some addr, s)
  | none =>
    match s.sockfd.bind Descriptor.peer, getpeername with
    | some addr, true => (some addr, { s with remoteAddress := some addr })
    | _, _ => (none, s)

/-- `GetLocalAddress`. -/
def getLocalAddress (getsockname : Bool) (s : Socket α) : Option α × Socket α :=
  match s.localAddress with
  | some addr => (some addr, s)
  | none =>
    match s.sockfd, getsockname with
    | some d, true => (some d.name, { s with localAddress := some d.name })
    | _, _ => (none, s)

/-- `Close`. -/
def close (s : Socket α) : Bool × Socket α :=
  if s.isConnected = false ∧ s.sockfd.isNone then (true, s)
  else (false, { s with isConnected := false, sockfd := none })

/-- `Bind`. An address of another family is only logged. -/
def bind (kinds : Kinds α) (addr : α) (ans : Answers α) (s : Socket α) : Bool × Socket α :=
  let s := if s.sockfd.isNone then newSock ans s else s
  match s.sockfd with
  | none => (false, s)
  | some d =>
    if kinds.isUnix addr && ans.served then (false, s)
    else
      match ans.bind with
      | none => (false, s)
      | some name =>
        (true, (getLocalAddress ans.getsockname { s with sockfd := some { d with name := name } }).2)

/-- `Connect`, where `addr` may be a null pointer, which is followed when there is a descriptor.
`connect_with_timeout` is a `connect` that has one more reason to fail. -/
def connect (kinds : Kinds α) (addr : Option α) (ans : Answers α) (s : Socket α) :
    Option (Bool × Socket α) :=
  let s := { s with remoteAddress := addr }
  let s := if s.sockfd.isNone then newSock ans s else s
  match s.sockfd with
  | none => some (false, s)
  | some _ =>
    match addr with
    | none => none
    | some addr =>
      if kinds.getFamily addr ≠ s.family then some (false, s)
      else
        let s := { s with attempts := s.attempts ++ [addr] }
        match ans.connect with
        | none => some (false, (close s).2)
        | some (name, peer) =>
          let s := { s with
            sockfd := some ⟨name, some peer⟩
            isConnected := true
            connectedTo := some addr }
          let s := (getRemoteAddress ans.getpeername s).2
          some (true, (getLocalAddress ans.getsockname s).2)

/-- `Reconnect`. -/
def reconnect (kinds : Kinds α) (ans : Answers α) (s : Socket α) : Option (Bool × Socket α) :=
  if s.remoteAddress.isSome then some (false, s)
  else connect kinds s.remoteAddress ans { s with localAddress := none }

end Socket

inductive Call (α : Type) where
  | bind (addr : α)
  | connect (addr : α)
  | close
  | reconnect

section Calls

variable {α : Type} (kinds : Kinds α)

open Socket

/-- A call with what the system calls answer: what it returns, and the state after it. -/
def perform (s : Socket α) : Call α × Answers α → Option (Bool × Socket α)
  | (.bind addr, ans) => some (s.bind kinds addr ans)
  | (.connect addr, ans) => s.connect kinds (some addr) ans
  | (.close, _) => some s.close
  | (.reconnect, ans) => s.reconnect kinds ans

def step (s : Socket α) (call : Call α × Answers α) : Option (Socket α) :=
  (perform kinds s call).map Prod.snd

/-! ## What the addresses are for -/

/-- The two addresses are those of the descriptor. -/
def Socket.AddressesFollow (s : Socket α) : Prop :=
  ∃ d, s.sockfd = some d ∧ d.peer.isSome ∧ (s.getRemoteAddress true).1 = d.peer ∧
    (s.getLocalAddress true).1 = some d.name

/-- A call that connects leaves the addresses of the descriptor, and `Reconnect` on a socket whose
connection is closed attempts to connect it again, if it has or gets a descriptor: `Bind` may have
made one in between. -/
def Follows (s : Socket α) (call : Call α × Answers α) : Prop :=
  match call with
  | (.connect _, _) => ∀ s', perform kinds s call = some (true, s') → s'.AddressesFollow
  | (.reconnect, ans) =>
    (∀ s', perform kinds s call = some (true, s') → s'.AddressesFollow) ∧
    ∀ addr, s.connectedTo = some addr → s.isConnected = false → s.sockfd.isSome ∨ ans.socket.isSome →
      ∃ out, perform kinds s call = some out ∧ out.2.attempts = s.attempts ++ [addr]
  | _ => True

/-- A call that connects leads to the address that it is given, and finds no local address, or the one
that the descriptor then has. There is no `Reconnect` on a socket whose connection is closed, where it
has or gets a descriptor. -/
def Met (s : Socket α) : Call α × Answers α → Prop
  | (.connect addr, ans) => s.sockfd.isSome ∨ ans.socket.isSome → kinds.getFamily addr = s.family →
    ∀ name peer, ans.connect = some (name, peer) →
      peer = addr ∧ (s.localAddress = none ∨ s.localAddress = some name)
  | (.reconnect, ans) =>
    ¬(s.connectedTo.isSome ∧ s.isConnected = false ∧ (s.sockfd.isSome ∨ ans.socket.isSome))
  | _ => True

/-! ## One call -/

variable {kinds} {s s' : Socket α} {addr : α} {ans : Answers α}

/-- The state behind a connection, before its local address is asked for. -/
def Socket.connected (s : Socket α) (addr name peer : α) : Socket α :=
  { s with
    sockfd := some ⟨name, some peer⟩
    isConnected := true
    remoteAddress := some addr
    attempts := s.attempts ++ [addr]
    connectedTo := some addr }

/-- When `Connect` succeeds, and what it leaves. -/
theorem connect_returns_iff : s.connect kinds (some addr) ans = some (true, s') ↔
    (s.sockfd.isSome ∨ ans.socket.isSome) ∧ kinds.getFamily addr = s.family ∧
      ∃ name peer, ans.connect = some (name, peer) ∧
        ((s.connected addr name peer).getLocalAddress ans.getsockname).2 = s' := by
  unfold Socket.connect
  cases descriptor : s.sockfd with
  | none =>
    cases made : ans.socket with
    | none => simp [newSock, made]
    | some name =>
      by_cases other : kinds.getFamily addr = s.family
      · cases answer : ans.connect with
        | none => simp [newSock, made, other]
        | some pair =>
          obtain ⟨name', peer⟩ := pair
          simp [newSock, made, other, getRemoteAddress, connected]
      · simp [newSock, made, other]
  | some d =>
    by_cases other : kinds.getFamily addr = s.family
    · cases answer : ans.connect with
      | none => simp [other]
      | some pair =>
        obtain ⟨name, peer⟩ := pair
        simp [other, getRemoteAddress, connected]
    · simp [other]

/-- The local address that is found is the one that is kept, and so is the address that is given. -/
theorem addressesFollow_iff {name peer : α} (getsockname : Bool) :
    ((s.connected addr name peer).getLocalAddress getsockname).2.AddressesFollow ↔
      peer = addr ∧ (s.localAddress = none ∨ s.localAddress = some name) := by
  unfold getLocalAddress connected AddressesFollow
  cases cached : s.localAddress with
  | none => cases getsockname <;> simp [getRemoteAddress, getLocalAddress, @eq_comm _ addr peer]
  | some old => simp [getRemoteAddress, getLocalAddress, @eq_comm _ addr peer]

/-- `Reconnect` never gets as far as an attempt. -/
theorem reconnect_fails {out : Bool × Socket α} (performed : s.reconnect kinds ans = some out) :
    out.1 = false ∧ out.2.attempts = s.attempts := by
  unfold reconnect at performed
  split at performed
  · obtain rfl := Option.some.inj performed
    exact ⟨rfl, rfl⟩
  next never =>
    -- the null pointer is followed unless there is no descriptor
    have unset : s.remoteAddress = none := by simpa using never
    rw [unset, Socket.connect] at performed
    split at performed
    · obtain rfl := Option.some.inj performed
      cases s.sockfd <;> exact ⟨rfl, rfl⟩
    · cases performed

theorem follows_iff {call : Call α × Answers α} : Follows kinds s call ↔ Met kinds s call := by
  obtain ⟨call, ans⟩ := call
  cases call with
  | bind addr => rfl
  | close => rfl
  | connect addr =>
    constructor
    · intro follows descriptor family name peer answer
      have returned := connect_returns_iff.mpr ⟨descriptor, family, name, peer, answer, rfl⟩
      exact (addressesFollow_iff ans.getsockname).mp (follows _ returned)
    · intro met s' returned
      obtain ⟨descriptor, family, name, peer, answer, rfl⟩ := connect_returns_iff.mp returned
      exact (addressesFollow_iff ans.getsockname).mpr (met descriptor family name peer answer)
  | reconnect =>
    constructor
    · rintro ⟨-, attempted⟩ ⟨was, closed, made⟩
      obtain ⟨addr, last⟩ := Option.isSome_iff_exists.mp was
      obtain ⟨out, performed, attempts⟩ := attempted addr last closed made
      rw [(reconnect_fails performed).2] at attempts
      simp at attempts
    · intro met
      constructor
      · intro s' returned
        cases (reconnect_fails returned).1
      · intro addr last closed made
        exact absurd ⟨by rw [last]; rfl, closed, made⟩ met

end Calls

/-- In a run every call leaves the addresses that it should exactly when every call meets the
condition. -/
theorem addresses_follow_iff {α : Type} (kinds : Kinds α) (s t : Socket α)
    (calls : List (Call α × Answers α)) :
    Run.Steps (step kinds) (Follows kinds) s calls t ↔
      Run.Steps (step kinds) (Met kinds) s calls t :=
  Run.Steps.congr fun _ _ => follows_iff

/-- What the system calls answer where nothing fails. -/
def answers (name name' peer : Nat) : Answers Nat :=
  ⟨some name, some name', some (name', peer), true, true, false⟩

/-- All addresses are of one family. -/
def inet : Kinds Nat := ⟨fun _ => false, fun _ => 2⟩

/-- The second connection has the local address 40 and the socket says 30; the one before it had
30. A socket whose connection is closed does not try to connect again, be it bound in between or not.
One that was bound to the address 0 keeps that address, and one that is connected to the address 0 and
so to 7 says that it is connected to 0. -/
theorem addresses_do_not_follow :
    (∃ s s', Run.run (step inet) (Socket.new 2) [(.connect 1, answers 0 30 1), (.close, answers 0 0 0)] =
        some s ∧
      perform inet s (.connect 2, answers 0 40 2) = some (true, s') ∧ ¬s'.AddressesFollow ∧
      ¬ Follows inet s (.reconnect, answers 0 40 1)) ∧
    (∃ s, Run.run (step inet) (Socket.new 2) [(.connect 1, answers 0 30 1), (.close, answers 0 0 0),
        (.bind 5, answers 0 50 0)] = some s ∧
      ¬ Follows inet s (.reconnect, answers 0 40 1)) ∧
    (∃ s s', Run.run (step inet) (Socket.new 2) [(.bind 0, answers 0 0 0)] = some s ∧
      perform inet s (.connect 1, answers 0 30 1) = some (true, s') ∧ ¬s'.AddressesFollow) ∧
    ∃ s', perform inet (Socket.new 2) (.connect 0, answers 0 30 7) = some (true, s') ∧
      ¬s'.AddressesFollow := by
  refine ⟨⟨_, _, rfl, rfl, ?_, ?_⟩, ⟨_, rfl, ?_⟩, ⟨_, _, rfl, rfl, ?_⟩, ⟨_, rfl, ?_⟩⟩
  · rintro ⟨d, descriptor, -, -, own⟩
    obtain rfl := Option.some.inj descriptor
    exact absurd own (by decide)
  · intro follows
    exact absurd (follows_iff.mp follows) (not_not_intro ⟨rfl, rfl, .inr rfl⟩)
  · intro follows
    exact absurd (follows_iff.mp follows) (not_not_intro ⟨rfl, rfl, .inl rfl⟩)
  · rintro ⟨d, descriptor, -, -, own⟩
    obtain rfl := Option.some.inj descriptor
    exact absurd own (by decide)
  · rintro ⟨d, descriptor, -, remote, -⟩
    obtain rfl := Option.some.inj descriptor
    exact absurd remote (by decide)

end ServerFrame.Addresses
