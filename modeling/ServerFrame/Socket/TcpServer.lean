import ServerFrame.Socket.Addresses

/-!
# `TcpServer::Bind`

The server makes a listening socket for each of the addresses that it is given. The listening
sockets of all calls stand in one vector.
-/
namespace ServerFrame.Tcp

open Addresses

/-- What the system calls answer for one address; `listen` says that `listen` does not fail. -/
structure Kernel (α : Type) where
  answers : Answers α
  listen : Bool

/-- A socket in `socks_`, which may be an `SSLSocket`. -/
structure Listener (α : Type) where
  ssl : Bool
  sock : Socket α

structure TcpServer (α : Type) where
  socks : List (Listener α)
  ssl : Bool

section Bind

variable {α : Type} (kinds : Kinds α) (world : Nat → Kernel α)

/-- `Socket::Listen`. -/
def listen (ok : Bool) (sock : Socket α) : Bool := if sock.sockfd.isNone then false else ok

/-- `CreateTCP`, `Bind` and `Listen` for the `i`-th address. -/
def serve (ssl : Bool) (addr : α) (i : Nat) : Option (Listener α) :=
  match (Socket.new (kinds.getFamily addr)).bind kinds addr (world i).answers with
  | (false, _) => none
  | (true, sock) => if listen (world i).listen sock then some ⟨ssl, sock⟩ else none

/-- The loop over the addresses, from the `i`-th on. -/
def bindLoop (ssl : Bool) : List α → Nat → List α → List (Listener α) → List α × List (Listener α)
  | [], _, fails, socks => (fails, socks)
  | addr :: addrs, i, fails, socks =>
    match serve kinds world ssl addr i with
    | none => bindLoop ssl addrs (i + 1) (fails ++ [addr]) socks
    | some sock => bindLoop ssl addrs (i + 1) fails (socks ++ [sock])

/-- `Bind(addrs, fails, ssl)`: what it returns, `fails` and the server. -/
def bind (addrs fails : List α) (ssl : Bool) (server : TcpServer α) :
    Bool × List α × TcpServer α :=
  match bindLoop kinds world ssl addrs 0 fails server.socks with
  | (fails, socks) =>
    if !fails.isEmpty then (false, fails, ⟨[], ssl⟩) else (true, fails, ⟨socks, ssl⟩)

/-! ## What the function is for -/

/-- The addresses that cannot be bound to or listened at, from the `i`-th on. -/
def failed (ssl : Bool) (addrs : List α) (i : Nat) : List α :=
  ((addrs.zipIdx i).filter fun (addr, j) => (serve kinds world ssl addr j).isNone).map Prod.fst

/-- A call that fails changes nothing but `fails`, and one that succeeds adds a listening socket for
each address. -/
def Atomic (addrs fails : List α) (ssl : Bool) (server : TcpServer α)
    (out : Bool × List α × TcpServer α) : Prop :=
  (out.1 = false → out.2.2 = server ∧ out.2.1 = fails ++ failed kinds world ssl addrs 0) ∧
  (out.1 = true → ∃ socks, out.2.2.socks = server.socks ++ socks ∧
    List.Forall₂ (fun p sock => serve kinds world ssl p.1 p.2 = some sock) addrs.zipIdx socks)

/-! ## The loop -/

variable {addrs : List α}

/-- What the loop adds to both vectors; where nothing fails, each address has its socket. -/
theorem bindLoop_spec (ssl : Bool) (i : Nat) (fails : List α) (socks : List (Listener α)) :
    ∃ added, bindLoop kinds world ssl addrs i fails socks =
        (fails ++ failed kinds world ssl addrs i, socks ++ added) ∧
      (failed kinds world ssl addrs i = [] →
        List.Forall₂ (fun p sock => serve kinds world ssl p.1 p.2 = some sock) (addrs.zipIdx i)
          added) := by
  induction addrs generalizing i fails socks with
  | nil =>
    refine ⟨[], ?_, fun _ => .nil⟩
    simp [bindLoop, failed]
  | cons addr addrs ih =>
    cases served : serve kinds world ssl addr i with
    | none =>
      obtain ⟨added, looped, -⟩ := ih (i + 1) (fails ++ [addr]) socks
      have first : failed kinds world ssl (addr :: addrs) i =
          addr :: failed kinds world ssl addrs (i + 1) := by
        simp [failed, List.zipIdx_cons, served]
      refine ⟨added, ?_, fun all => ?_⟩
      · rw [bindLoop, served, first]
        simpa using looped
      · rw [first] at all
        cases all
    | some sock =>
      obtain ⟨added, looped, each⟩ := ih (i + 1) fails (socks ++ [sock])
      have first : failed kinds world ssl (addr :: addrs) i =
          failed kinds world ssl addrs (i + 1) := by
        simp [failed, List.zipIdx_cons, served]
      refine ⟨sock :: added, ?_, fun all => ?_⟩
      · rw [bindLoop, served, first]
        simpa using looped
      · rw [first] at all
        rw [List.zipIdx_cons]
        exact .cons served (each all)

end Bind

/-- A call is atomic exactly when it is given no failures and makes none, or when there are no
sockets of earlier calls and `ssl_` stays as it is. -/
theorem bind_atomic_iff {α : Type} (kinds : Kinds α) (world : Nat → Kernel α) (addrs fails : List α)
    (ssl : Bool) (server : TcpServer α) :
    Atomic kinds world addrs fails ssl server (bind kinds world addrs fails ssl server) ↔
      (fails = [] ∧ ∀ p ∈ addrs.zipIdx, (serve kinds world ssl p.1 p.2).isSome) ∨
        (server.socks = [] ∧ server.ssl = ssl) := by
  obtain ⟨added, looped, each⟩ := bindLoop_spec kinds world ssl 0 fails server.socks
  have all_iff : (∀ p ∈ addrs.zipIdx, (serve kinds world ssl p.1 p.2).isSome) ↔
      failed kinds world ssl addrs 0 = [] := by
    rw [failed, List.map_eq_nil_iff, List.filter_eq_nil_iff]
    simp [Option.isSome_iff_ne_none]
  rw [all_iff, bind, looped]
  dsimp only
  by_cases none_failed : fails ++ failed kinds world ssl addrs 0 = []
  · obtain ⟨none, all⟩ := List.append_eq_nil_iff.mp none_failed
    rw [if_neg (by rw [none_failed]; exact Bool.false_ne_true)]
    exact iff_of_true ⟨fun no => Bool.noConfusion no, fun _ => ⟨added, rfl, each all⟩⟩ (.inl ⟨none, all⟩)
  · rw [if_pos (by simpa using none_failed)]
    constructor
    · rintro ⟨kept, -⟩
      exact .inr ⟨congrArg TcpServer.socks (kept rfl).1.symm, congrArg TcpServer.ssl (kept rfl).1.symm⟩
    · rintro (⟨none, all⟩ | ⟨no_socks, same⟩)
      · exact absurd (List.append_eq_nil_iff.mpr ⟨none, all⟩) none_failed
      · refine ⟨fun _ => ⟨?_, rfl⟩, fun yes => Bool.noConfusion yes⟩
        rw [← no_socks, ← same]

/-- No address can be bound to. -/
def refused : Kernel Nat := ⟨⟨some 0, none, none, true, true, false⟩, true⟩

/-- An address that is in use takes the socket of an earlier call away and turns `ssl_` on; and a
call that binds its only address fails because another one has failed before. -/
theorem bind_not_atomic :
    (∃ server : TcpServer Nat, bind inet (fun _ => ⟨answers 0 0 0, true⟩) [8000] [] false ⟨[], false⟩ =
        (true, [], server) ∧ server.socks.length = 1 ∧
      bind inet (fun _ => refused) [8001] [] true server = (false, [8001], ⟨[], true⟩)) ∧
    bind inet (fun _ => ⟨⟨some 0, some 8001, none, true, true, false⟩, true⟩) [8001] [8000] false
      ⟨[⟨false, Socket.new 2⟩], false⟩ = (false, [8000], ⟨[], false⟩) := by
  exact ⟨⟨_, rfl, rfl, rfl⟩, rfl⟩

end ServerFrame.Tcp
