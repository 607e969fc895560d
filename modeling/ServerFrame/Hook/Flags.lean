import Mathlib.Algebra.Ring.Nat
import Mathlib.Data.List.Basic

/-!
# The non-blocking flag of a hooked socket

`FdContext` keeps what the user asked for apart from what the kernel has: a managed
socket is to stay non-blocking in the kernel whatever the user sets. The kernel's side is
the status flags of the descriptor. `settable` are the bits that `F_SETFL` can change,
and a call of `F_SETFL` may fail.
-/
namespace ServerFrame.Hook

abbrev Flags := BitVec 32

def oNonblock : Flags := 0x800#32

/-- `flags & O_NONBLOCK` as a condition. -/
def nonblock (flags : Flags) : Bool := flags &&& oNonblock != 0

/-- `ygw::handle::FdContext`. -/
structure FdContext where
  isInit : Bool
  isSocket : Bool
  isSysNonblock : Bool
  isUserNonblock : Bool
  isClosed : Bool
  recvTimeout : UInt64
  sendTimeout : UInt64
  deriving DecidableEq, Repr

/-- A descriptor in the kernel: whether it is a socket, and its status flags. -/
structure Descriptor where
  isSocket : Bool
  flags : Flags
  deriving DecidableEq, Repr

/-- `fcntl_f(fd, F_SETFL, arg)`. -/
def setfl (settable : Flags) (d : Descriptor) (arg : Flags) : Descriptor :=
  { d with flags := d.flags &&& ~~~settable ||| arg &&& settable }

/-- `ioctl_f(fd, FIONBIO, &value)`. -/
def fionbio (d : Descriptor) (value : BitVec 32) : Descriptor :=
  { d with flags := if value = 0 then d.flags &&& ~~~oNonblock else d.flags ||| oNonblock }

/-- `FdContext::FdContext` with `Init`. The first component is what the kernel has
afterwards; a descriptor that exists passes `fstat` and takes `O_NONBLOCK`. -/
def FdContext.init (settable : Flags) (d : Descriptor) : Descriptor × FdContext :=
  let d' := if d.isSocket && !nonblock d.flags then setfl settable d (d.flags ||| oNonblock) else d
  (d', { isInit := true
         isSocket := d.isSocket
         isSysNonblock := d.isSocket
         isUserNonblock := false
         isClosed := false
         recvTimeout := -1
         sendTimeout := -1 })

/-- A managed descriptor. -/
structure Managed where
  kernel : Descriptor
  ctx : FdContext
  deriving DecidableEq, Repr

/-- What the hooked `socket` and `accept` leave for a descriptor of the kernel. `FdContextManager::Get`
makes a context only where the table has none for the number. -/
def Managed.create (settable : Flags) (existing : Option FdContext) (d : Descriptor) : Managed :=
  match existing with
  | some ctx => ⟨d, ctx⟩
  | none => ⟨(FdContext.init settable d).1, (FdContext.init settable d).2⟩

/-- The hooked calls on one descriptor; `ok` is what the kernel says to `F_SETFL`. -/
inductive Call where
  | setfl (arg : Flags) (ok : Bool)
  | getfl
  | fionbio (value : BitVec 32)
  deriving DecidableEq, Repr

/-- `fcntl(fd, F_SETFL, arg)`. -/
def fcntlSetfl (settable : Flags) (s : Managed) (arg : Flags) (ok : Bool) : Managed :=
  if s.ctx.isClosed || !s.ctx.isSocket then
    { s with kernel := if ok then setfl settable s.kernel arg else s.kernel }
  else
    let ctx := { s.ctx with isUserNonblock := nonblock arg }
    let arg := if ctx.isSysNonblock then arg ||| oNonblock else arg &&& ~~~oNonblock
    ⟨if ok then setfl settable s.kernel arg else s.kernel, ctx⟩

/-- `fcntl(fd, F_GETFL)`. -/
def fcntlGetfl (s : Managed) : Flags :=
  if s.ctx.isClosed || !s.ctx.isSocket then s.kernel.flags
  else if s.ctx.isUserNonblock then s.kernel.flags ||| oNonblock
  else s.kernel.flags &&& ~~~oNonblock

/-- `ioctl(fd, FIONBIO, &value)`. -/
def ioctlFionbio (s : Managed) (value : BitVec 32) : Managed :=
  if s.ctx.isClosed || !s.ctx.isSocket then { s with kernel := fionbio s.kernel value }
  else ⟨fionbio s.kernel value, { s.ctx with isUserNonblock := value != 0 }⟩

def Managed.call (settable : Flags) (s : Managed) : Call → Managed
  | .setfl arg ok => fcntlSetfl settable s arg ok
  | .getfl => s
  | .fionbio value => ioctlFionbio s value

/-- What the table may have for a number: nothing, or the context of an earlier socket with this number
that was closed while the hooks were off. Its timeouts may have been set. -/
inductive Stored (settable : Flags) : Option FdContext → Prop
  | none : Stored settable none
  | left {existing : Option FdContext} (before : Stored settable existing) {d : Descriptor}
      (socket : d.isSocket = true) (calls : List Call) (recvTimeout sendTimeout : UInt64) :
      Stored settable (some
        { (calls.foldl (Managed.call settable) (.create settable existing d)).ctx with
          recvTimeout := recvTimeout
          sendTimeout := sendTimeout })

/-! ## What the user is to see -/

/-- What the user last asked for, and the other flags as the kernel would have them. -/
structure Wanted where
  nonblock : Bool
  others : Flags

def Wanted.create (d : Descriptor) : Wanted := ⟨false, d.flags &&& ~~~oNonblock⟩

def Wanted.call (settable : Flags) (w : Wanted) : Call → Wanted
  | .setfl arg ok =>
    { nonblock := Hook.nonblock arg
      others := if ok then (w.others &&& ~~~settable ||| arg &&& settable) &&& ~~~oNonblock
        else w.others }
  | .getfl => w
  | .fionbio value => { w with nonblock := value != 0 }

/-- The kernel's descriptor is non-blocking before and after every call, and every
`F_GETFL` answers with the other flags and with `O_NONBLOCK` exactly when the user asked
for it last. -/
def Virtualised (settable : Flags) : Managed → Wanted → List Call → Prop
  | s, _, [] => nonblock s.kernel.flags = true
  | s, w, call :: calls =>
    nonblock s.kernel.flags = true ∧
    (call = .getfl → nonblock (fcntlGetfl s) = w.nonblock ∧
      fcntlGetfl s &&& ~~~oNonblock = w.others) ∧
    Virtualised settable (s.call settable call) (w.call settable call) calls

theorem nonblock_eq (flags : Flags) : nonblock flags = flags.getLsbD 11 := by
  have bit : oNonblock = BitVec.twoPow 32 11 := by decide
  rw [nonblock, bit, BitVec.and_twoPow]
  cases flags.getLsbD 11 <;> decide

theorem getLsbD_oNonblock (i : Nat) : oNonblock.getLsbD i = decide (i = 11) := by
  have bit : oNonblock = BitVec.twoPow 32 11 := by decide
  rw [bit, BitVec.getLsbD_twoPow]
  simp [eq_comm]

/-- A socket as the hooks keep it. -/
structure Kept (s : Managed) (w : Wanted) : Prop where
  socket : s.ctx.isSocket = true
  not_closed : s.ctx.isClosed = false
  sys : s.ctx.isSysNonblock = true
  user : s.ctx.isUserNonblock = w.nonblock
  kernel : nonblock s.kernel.flags = true
  others : s.kernel.flags &&& ~~~oNonblock = w.others

section Calls

variable {settable : Flags} {s : Managed} {w : Wanted}

theorem kept_create {d : Descriptor} (mask : nonblock settable = true)
    (socket : d.isSocket = true) : Kept (.create settable none d) (.create d) := by
  have kernel : nonblock (Managed.create settable none d).kernel.flags = true ∧
      (Managed.create settable none d).kernel.flags &&& ~~~oNonblock = d.flags &&& ~~~oNonblock := by
    simp only [Managed.create, FdContext.init, socket, Bool.true_and]
    cases before : nonblock d.flags with
    | true => simp [before]
    | false =>
      rw [nonblock_eq] at mask
      simp only [Bool.not_false, if_true, setfl]
      constructor
      · simp [nonblock_eq, getLsbD_oNonblock, mask]
      · apply BitVec.eq_of_getLsbD_eq
        intro i _
        simp only [BitVec.getLsbD_and, BitVec.getLsbD_or, BitVec.getLsbD_not]
        cases d.flags.getLsbD i <;> cases settable.getLsbD i <;> cases oNonblock.getLsbD i <;> simp
  exact ⟨socket, rfl, socket, rfl, kernel.1, kernel.2⟩

theorem getfl_of_kept (kept : Kept s w) :
    nonblock (fcntlGetfl s) = w.nonblock ∧ fcntlGetfl s &&& ~~~oNonblock = w.others := by
  have open_ : (s.ctx.isClosed || !s.ctx.isSocket) = false := by
    rw [kept.not_closed, kept.socket]
    rfl
  rw [fcntlGetfl, open_, if_neg Bool.false_ne_true, kept.user, ← kept.others]
  cases w.nonblock with
  | true =>
    refine ⟨by simp [nonblock_eq, getLsbD_oNonblock], ?_⟩
    apply BitVec.eq_of_getLsbD_eq
    intro i _
    simp only [if_true, BitVec.getLsbD_and, BitVec.getLsbD_or, BitVec.getLsbD_not]
    cases s.kernel.flags.getLsbD i <;> cases oNonblock.getLsbD i <;> simp
  | false =>
    refine ⟨by simp [nonblock_eq, getLsbD_oNonblock], ?_⟩
    apply BitVec.eq_of_getLsbD_eq
    intro i _
    simp only [Bool.false_eq_true, if_false, BitVec.getLsbD_and, BitVec.getLsbD_not]
    cases s.kernel.flags.getLsbD i <;> cases oNonblock.getLsbD i <;> simp

theorem kept_setfl (mask : nonblock settable = true) (kept : Kept s w) (arg : Flags) (ok : Bool) :
    Kept (fcntlSetfl settable s arg ok) (w.call settable (.setfl arg ok)) := by
  have open_ : (s.ctx.isClosed || !s.ctx.isSocket) = false := by
    rw [kept.not_closed, kept.socket]
    rfl
  rw [fcntlSetfl, open_, if_neg Bool.false_ne_true]
  simp only [kept.sys, if_true]
  cases ok with
  | false =>
    exact ⟨kept.socket, kept.not_closed, rfl, rfl, kept.kernel, kept.others⟩
  | true =>
    rw [nonblock_eq] at mask
    refine ⟨kept.socket, kept.not_closed, rfl, rfl, ?_, ?_⟩
    · simp [setfl, nonblock_eq, getLsbD_oNonblock, mask]
    · simp only [Wanted.call, if_true, setfl, ← kept.others]
      apply BitVec.eq_of_getLsbD_eq
      intro i _
      simp only [BitVec.getLsbD_and, BitVec.getLsbD_or, BitVec.getLsbD_not]
      cases s.kernel.flags.getLsbD i <;> cases settable.getLsbD i <;> cases arg.getLsbD i <;>
        cases oNonblock.getLsbD i <;> simp

theorem kept_fionbio (settable : Flags) (kept : Kept s w) {value : BitVec 32} (on : value ≠ 0) :
    Kept (ioctlFionbio s value) (w.call settable (.fionbio value)) := by
  have open_ : (s.ctx.isClosed || !s.ctx.isSocket) = false := by
    rw [kept.not_closed, kept.socket]
    rfl
  rw [ioctlFionbio, open_, if_neg Bool.false_ne_true]
  refine ⟨kept.socket, kept.not_closed, kept.sys, rfl, ?_, ?_⟩
  · simp only [fionbio, if_neg on, nonblock_eq, BitVec.getLsbD_or, getLsbD_oNonblock]
    simp
  · rw [show (w.call settable (.fionbio value)).others = w.others from rfl, ← kept.others]
    simp only [fionbio, if_neg on]
    apply BitVec.eq_of_getLsbD_eq
    intro i _
    simp only [BitVec.getLsbD_and, BitVec.getLsbD_or, BitVec.getLsbD_not]
    cases s.kernel.flags.getLsbD i <;> cases oNonblock.getLsbD i <;> simp

/-- Switching the flag off goes through to the kernel. -/
theorem blocking_of_fionbio (s : Managed) : nonblock (ioctlFionbio s 0).kernel.flags = false := by
  rw [ioctlFionbio]
  split <;> simp [fionbio, nonblock_eq, getLsbD_oNonblock]

theorem kernel_of_virtualised {calls : List Call} (holds : Virtualised settable s w calls) :
    nonblock s.kernel.flags = true := by
  cases calls with
  | nil => exact holds
  | cons call calls => exact holds.1

theorem virtualised_iff_of_kept (mask : nonblock settable = true) {calls : List Call}
    (kept : Kept s w) : Virtualised settable s w calls ↔ .fionbio 0 ∉ calls := by
  induction calls generalizing s w with
  | nil => simpa [Virtualised] using kept.kernel
  | cons call calls ih =>
    cases call with
    -- `fcntl` adds `O_NONBLOCK` to what the kernel gets
    | setfl arg ok =>
      have next := ih (kept_setfl mask kept arg ok)
      rw [Virtualised, show s.call settable (.setfl arg ok) = fcntlSetfl settable s arg ok from rfl,
        next]
      simp [kept.kernel]
    | getfl =>
      have next := ih kept
      have seen := getfl_of_kept kept
      rw [Virtualised, show s.call settable .getfl = s from rfl,
        show w.call settable .getfl = w from rfl, next]
      simp [kept.kernel, seen]
    | fionbio value =>
      by_cases off : value = 0
      · subst off
        -- `ioctl` hands the zero on to the kernel, and the socket blocks
        have blocking := blocking_of_fionbio s
        constructor
        · intro holds
          have kernel := kernel_of_virtualised holds.2.2
          rw [Managed.call, blocking] at kernel
          cases kernel
        · intro absent
          exact absurd (List.mem_cons_self ..) absent
      · have next := ih (kept_fionbio settable kept off)
        have other : Call.fionbio 0 ≠ .fionbio value := fun same => off (Call.fionbio.inj same).symm
        simp only [Virtualised, kept.kernel, true_and, List.mem_cons, other, false_or]
        rw [show s.call settable (.fionbio value) = ioctlFionbio s value from rfl, next]
        simp

/-- The context of a socket that has not been closed through the hooks. -/
structure FdContext.OfSocket (ctx : FdContext) : Prop where
  socket : ctx.isSocket = true
  not_closed : ctx.isClosed = false
  sys : ctx.isSysNonblock = true

theorem ofSocket_call (of_socket : s.ctx.OfSocket) (call : Call) :
    (s.call settable call).ctx.OfSocket := by
  obtain ⟨socket, not_closed, sys⟩ := of_socket
  cases call with
  | getfl => exact ⟨socket, not_closed, sys⟩
  | setfl arg ok | fionbio value =>
    constructor <;> simp [Managed.call, fcntlSetfl, ioctlFionbio, socket, not_closed, sys]

theorem ofSocket_stored {existing : Option FdContext} (stored : Stored settable existing) :
    ∀ ctx, existing = some ctx → ctx.OfSocket := by
  induction stored with
  | none => nofun
  | @left existing before d is_socket calls recvTimeout sendTimeout ih =>
    rintro _ ⟨rfl⟩
    have created : (Managed.create settable existing d).ctx.OfSocket := by
      cases existing with
      | none => exact ⟨is_socket, rfl, is_socket⟩
      | some ctx => exact ih ctx rfl
    have called : (calls.foldl (Managed.call settable) (.create settable existing d)).ctx.OfSocket :=
      List.foldlRecOn (motive := fun s : Managed => s.ctx.OfSocket) calls _ created
        fun s of_socket call _ => ofSocket_call of_socket call
    exact ⟨called.socket, called.not_closed, called.sys⟩

/-- A call that sets the flag makes what was asked for before of no account. -/
theorem virtualised_cons_congr {call : Call} (sets : call ≠ .getfl) (asked : Bool)
    (calls : List Call) : Virtualised settable s w (call :: calls) ↔
      Virtualised settable s { w with nonblock := asked } (call :: calls) := by
  cases call with
  | getfl => exact absurd rfl sets
  | setfl arg ok | fionbio value => simp [Virtualised, Wanted.call]

/-- A socket that is given the context of an earlier one. -/
theorem virtualised_reused_iff (mask : nonblock settable = true) {d : Descriptor} {ctx : FdContext}
    (of_socket : ctx.OfSocket) (calls : List Call) :
    Virtualised settable ⟨d, ctx⟩ (.create d) calls ↔ .fionbio 0 ∉ calls ∧
      nonblock d.flags = true ∧ (ctx.isUserNonblock = true → calls.head? ≠ some .getfl) := by
  cases kernel : nonblock d.flags with
  | false =>
    refine iff_of_false (fun holds => ?_) (by simp)
    have blocking := kernel_of_virtualised holds
    rw [kernel] at blocking
    cases blocking
  | true =>
    have kept : Kept ⟨d, ctx⟩ ⟨ctx.isUserNonblock, d.flags &&& ~~~oNonblock⟩ :=
      ⟨of_socket.socket, of_socket.not_closed, of_socket.sys, rfl, kernel, rfl⟩
    cases user : ctx.isUserNonblock with
    | false =>
      rw [user] at kept
      simpa [Wanted.create] using virtualised_iff_of_kept mask kept
    | true =>
      rw [user] at kept
      cases calls with
      | nil => simp [Virtualised, kernel]
      | cons call calls =>
        by_cases reads : call = .getfl
        · -- the first answer is what the earlier user asked for
          subst reads
          refine iff_of_false (fun ⟨_, seen, _⟩ => ?_) (by simp)
          have same := (getfl_of_kept kept).1.symm.trans (seen rfl).1
          simp [Wanted.create] at same
        · rw [virtualised_cons_congr reads true]
          have known := @virtualised_iff_of_kept _ _ _ mask (call :: calls) kept
          rw [Wanted.create, known]
          simp [reads]

end Calls

/-- A socket made by the hooked `socket` or `accept`, under any sequence of calls, is kept as it should
be exactly when none of them switches the flag off by `FIONBIO` and the table has no context for the
number, or the socket was opened non-blocking and the flag is not read first where the earlier user
had set it. -/
theorem virtualised_iff {settable : Flags} (mask : nonblock settable = true)
    {existing : Option FdContext} (stored : Stored settable existing) {d : Descriptor}
    (socket : d.isSocket = true) (calls : List Call) :
    Virtualised settable (.create settable existing d) (.create d) calls ↔
      .fionbio 0 ∉ calls ∧ ∀ ctx, existing = some ctx →
        nonblock d.flags = true ∧ (ctx.isUserNonblock = true → calls.head? ≠ some .getfl) := by
  cases existing with
  | none =>
    rw [virtualised_iff_of_kept mask (kept_create mask socket)]
    simp
  | some ctx =>
    rw [Managed.create, virtualised_reused_iff mask (ofSocket_stored stored ctx rfl)]
    simp

/-- What a socket leaves that was closed as it was made. -/
theorem stored_earlier :
    Stored 0x46c00#32 (some (Managed.create 0x46c00#32 none ⟨true, 0x2#32⟩).ctx) :=
  Stored.left (d := ⟨true, 0x2#32⟩) .none rfl [] (-1) (-1)

/-- With the bits that `F_SETFL` can change on Linux, for a socket opened for reading and writing, and
for one that is opened non-blocking and is given the context of an earlier one. -/
theorem virtualised_iff_linux :
    nonblock 0x46c00#32 = true ∧
    Virtualised 0x46c00#32 (.create 0x46c00#32 none ⟨true, 0x2#32⟩) (.create ⟨true, 0x2#32⟩)
      [.getfl, .setfl 0xc02#32 true, .getfl, .fionbio 1, .setfl 0x0#32 true, .getfl] ∧
    Virtualised 0x46c00#32
      (.create 0x46c00#32 (some (Managed.create 0x46c00#32 none ⟨true, 0x2#32⟩).ctx) ⟨true, 0x802#32⟩)
      (.create ⟨true, 0x802#32⟩) [.getfl, .fionbio 1, .getfl] := by
  refine ⟨by decide, (virtualised_iff (by decide) .none rfl _).mpr ⟨by decide, nofun⟩, ?_⟩
  exact (virtualised_iff (by decide) stored_earlier rfl _).mpr ⟨by decide, by rintro _ ⟨rfl⟩; decide⟩

/-- `ioctl(fd, FIONBIO, 0)` on a new socket makes it blocking. So is a new socket that is given the
context of one that was closed while the hooks were off. -/
theorem fionbio_makes_blocking :
    (¬ Virtualised 0x46c00#32 (.create 0x46c00#32 none ⟨true, 0x2#32⟩) (.create ⟨true, 0x2#32⟩)
        [.fionbio 0] ∧
      nonblock (Managed.call 0x46c00#32 (.create 0x46c00#32 none ⟨true, 0x2#32⟩)
        (.fionbio 0)).kernel.flags = false) ∧
    ∃ existing, Stored 0x46c00#32 existing ∧
      ¬ Virtualised 0x46c00#32 (.create 0x46c00#32 existing ⟨true, 0x2#32⟩) (.create ⟨true, 0x2#32⟩)
        [] ∧
      nonblock (Managed.create 0x46c00#32 existing ⟨true, 0x2#32⟩).kernel.flags = false := by
  refine ⟨⟨?_, by decide⟩, some (Managed.create 0x46c00#32 none ⟨true, 0x2#32⟩).ctx,
    stored_earlier, ?_, by decide⟩
  · rintro ⟨-, -, kernel⟩
    exact absurd kernel (by rw [Virtualised]; decide)
  · rw [Virtualised]
    decide

end ServerFrame.Hook
