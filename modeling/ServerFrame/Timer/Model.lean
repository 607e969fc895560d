import ServerFrame.Lib.EState
import ServerFrame.Lib.OrderedSet
import Mathlib.Logic.Function.Basic

/-!
# Timers and `TimerManager`

A `Timer` is an object of its own that the set `timers_` points to, so the set's order
depends on fields of objects that the operations change. Objects are numbered in the
order in which they are made; the address decides the order of two timers with one
deadline and comes from the allocator. Erasing at `end` and changing the deadline of a
timer that is in the set are undefined for `std::set` and are faults here. The clock is
an argument of every operation that reads it.
-/
namespace ServerFrame

structure Timer (γ : Type) where
  addr : Nat
  recurring : Bool
  ms : UInt64
  next : UInt64
  cb : Option γ
  deriving DecidableEq, Repr

/-- `Timer::Timer(ms, cb, recurring, manager)`. -/
def Timer.new {γ : Type} (addr : Nat) (ms : UInt64) (cb : Option γ) (recurring : Bool)
    (now : UInt64) : Timer γ where
  addr := addr
  recurring := recurring
  ms := ms
  next := now + ms
  cb := cb

/-- `Timer::Timer(next)`. -/
def Timer.ofNext {γ : Type} (addr : Nat) (next : UInt64) : Timer γ where
  addr := addr
  recurring := false
  ms := 0
  next := next
  cb := none

/-- `Timer::Comparator`. -/
def Timer.comparator {γ : Type} : Option (Timer γ) → Option (Timer γ) → Bool
  | none, none => false
  | none, some _ => true
  | some _, none => false
  | some lhs, some rhs =>
    if lhs.next < rhs.next then true
    else if rhs.next < lhs.next then false
    else decide (lhs.addr < rhs.addr)

/-- `objects` are all `Timer` objects, `made` of them so far. -/
structure TimerManager (γ : Type) where
  objects : Nat → Timer γ
  made : Nat
  timers : List Nat
  tickled : Bool
  previouseTime : UInt64

inductive TimerFault where
  | eraseEnd
  | keyChanged
  deriving DecidableEq, Repr

abbrev TimerM (γ : Type) := EStateM TimerFault (TimerManager γ)

namespace TimerManager

variable {γ : Type}

def new (now : UInt64) : TimerManager γ where
  objects := fun _ => .ofNext 0 0
  made := 0
  timers := []
  tickled := false
  previouseTime := now

/-- The order of `timers_`. -/
def less (m : TimerManager γ) (i j : Nat) : Bool :=
  Timer.comparator (some (m.objects i)) (some (m.objects j))

def make (timer : Timer γ) : TimerM γ Nat := do
  let m ← get
  set { m with objects := Function.update m.objects m.made timer, made := m.made + 1 }
  pure m.made

def write (m : TimerManager γ) (i : Nat) (timer : Timer γ) : TimerManager γ :=
  { m with objects := Function.update m.objects i timer }

def setCb (i : Nat) (cb : Option γ) : TimerM γ Unit :=
  modify fun m => m.write i { m.objects i with cb := cb }

def setMs (i : Nat) (ms : UInt64) : TimerM γ Unit :=
  modify fun m => m.write i { m.objects i with ms := ms }

def setNext (i : Nat) (next : UInt64) : TimerM γ Unit := do
  let m ← get
  if i ∈ m.timers then throw .keyChanged
  set (m.write i { m.objects i with next := next })

/-- `timers_.find`. -/
def find (i : Nat) : TimerM γ Nat := do
  let m ← get
  pure (OrderedSet.find m.less i m.timers)

/-- `timers_.erase`. -/
def erase (it : Nat) : TimerM γ Unit := do
  let m ← get
  if it < m.timers.length then
    set { m with timers := m.timers.eraseIdx it }
  else
    throw .eraseEnd

/-- `timers_.insert`. -/
def insert (i : Nat) : TimerM γ Nat := do
  let m ← get
  let (it, timers) := OrderedSet.insert m.less i m.timers
  set { m with timers := timers }
  pure it

/-- `AddTimer(val, lock)`; the result tells whether `OnTimerInsertedAtFront` is called
after the lock is released. -/
def addTimerLocked (val : Nat) : TimerM γ Bool := do
  let it ← insert val
  let m ← get
  let atFront := it == 0 && !m.tickled
  if atFront then
    set { m with tickled := true }
  pure atFront

def addTimer (addr : Nat) (ms : UInt64) (cb : Option γ) (recurring : Bool) (now : UInt64) :
    TimerM γ (Nat × Bool) := do
  let timer ← make (.new addr ms cb recurring now)
  let notify ← addTimerLocked timer
  pure (timer, notify)

def getNextTimer (now : UInt64) : TimerM γ UInt64 := do
  modify fun m => { m with tickled := false }
  let m ← get
  match m.timers with
  | [] => pure (~~~0)
  | next :: _ =>
    if (m.objects next).next ≤ now then pure 0
    else pure ((m.objects next).next - now)

def detectClockRollover (now : UInt64) : TimerM γ Bool := do
  let m ← get
  set { m with previouseTime := now }
  pure (decide (now < m.previouseTime) && decide (now < m.previouseTime - 60 * 60 * 1000))

/-- The body of the loop over the expired timers: a recurring timer is put back and any
other loses its callback. -/
def collectOne (now : UInt64) (i : Nat) : TimerM γ (Option γ) := do
  let timer := (← get).objects i
  if timer.recurring then
    setNext i (now + timer.ms)
    discard (insert i)
  else
    setCb i none
  pure timer.cb

def collect (now : UInt64) : List Nat → TimerM γ (List (Option γ))
  | [] => pure []
  | i :: expired => do
    let cb ← collectOne now i
    let cbs ← collect now expired
    pure (cb :: cbs)

/-- The end of the expired range: behind the last timer that is not later than `now`. -/
def expiredEnd (now : UInt64) (nowTimer : Nat) (m : TimerManager γ) : Nat :=
  let it := OrderedSet.lowerBound m.less nowTimer m.timers
  it + ((m.timers.drop it).takeWhile fun i => (m.objects i).next == now).length

/-- `ListExpiredCb` behind its tests: takes the expired range out of the set. -/
def takeExpired (now : UInt64) (rollover : Bool) (addr : Nat) :
    TimerM γ (List Nat × List (Option γ)) := do
  let nowTimer ← make (.ofNext addr now)
  let m ← get
  let it := if rollover then m.timers.length else expiredEnd now nowTimer m
  let expired := m.timers.take it
  set { m with timers := m.timers.drop it }
  let cbs ← collect now expired
  pure (expired, cbs)

/-- The result holds the timers that were collected and their callbacks; `addr` is where
`now_timer` is. The test for an empty set is made under the read lock and again under the
write lock. -/
def listExpiredCb (now : UInt64) (addr : Nat) : TimerM γ (List Nat × List (Option γ)) := do
  match (← get).timers with
  | [] => pure ([], [])
  | front :: _ =>
    let rollover ← detectClockRollover now
    if !rollover && decide (now < ((← get).objects front).next) then
      pure ([], [])
    else
      takeExpired now rollover addr

end TimerManager

namespace Timer

open TimerManager

variable {γ : Type}

def cancel (i : Nat) : TimerM γ Bool := do
  if ((← get).objects i).cb.isSome then
    setCb i none
    let it ← find i
    erase it
    pure true
  else
    pure false

def refresh (i : Nat) (now : UInt64) : TimerM γ Bool := do
  if ((← get).objects i).cb.isNone then
    pure false
  else
    let it ← find i
    if it = (← get).timers.length then
      pure false
    else
      erase it
      setNext i (now + ((← get).objects i).ms)
      discard (insert i)
      pure true

/-- `Reset` behind the test that is made without the lock; the second result tells
whether `OnTimerInsertedAtFront` is called. -/
def resetLocked (i : Nat) (ms : UInt64) (fromNow : Bool) (now : UInt64) :
    TimerM γ (Bool × Bool) := do
  if ((← get).objects i).cb.isNone then
    pure (false, false)
  else
    let it ← find i
    if it = (← get).timers.length then
      pure (false, false)
    else
      erase it
      let timer := (← get).objects i
      let start := if fromNow then now else timer.next - timer.ms
      setMs i ms
      setNext i (start + ms)
      let notify ← addTimerLocked i
      pure (true, notify)

def reset (i : Nat) (ms : UInt64) (fromNow : Bool) (now : UInt64) : TimerM γ (Bool × Bool) := do
  if ms = ((← get).objects i).ms && !fromNow then
    pure (true, false)
  else
    resetLocked i ms fromNow now

end Timer

end ServerFrame
