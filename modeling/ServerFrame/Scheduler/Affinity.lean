import ServerFrame.Scheduler.PutBack

/-!
# Fibers that are to stay on one thread

`Schedule(fiber, thread)` keeps the thread in the entry of the queue and not in the fiber. What a
fiber is scheduled for is carried along here with the fiber: from the call of `Schedule` it waits for
the next pass of the fiber, whichever entry brings that about, and from there to the `YieldToHold`,
the end or the exception of the fiber. A fiber that yields with `kReady` goes on waiting for the same
threads.
-/
namespace ServerFrame.Scheduler

/-- `asked f` are the threads for which `f` was scheduled since its last pass, each with the number of
its entry; those of a pass that ended with `YieldToReady` have none. `pins w` are those of the pass
of worker `w`. -/
structure Traced where
  scheduler : Scheduler
  asked : Nat → List (Option Nat × Int)
  pins : Nat → List Int

namespace Traced

def start (threads : Nat) : Traced := ⟨.start threads, fun _ => [], fun _ => []⟩

def ask (t : Traced) (f : Nat) (asks : List (Option Nat × Int)) : Traced :=
  { t with asked := Function.update t.asked f (t.asked f ++ asks) }

/-- Any thread will do for `-1`. -/
def asks (entry : Nat) (thread : Int) : List (Option Nat × Int) :=
  if thread = -1 then [] else [(some entry, thread)]

/-- `ScheduleNoLock` on one item. -/
def accept (t : Traced) (work : Work) (thread : Int) : Traced :=
  let accepted := { t with scheduler := t.scheduler.scheduleNoLock (some work) thread }
  match work with
  | .fiber f => accepted.ask f (asks t.scheduler.issued thread)
  | .cb _ => accepted

def schedule (t : Traced) : List (Option Work × Int) → Traced
  | [] => t
  | (none, _) :: items => t.schedule items
  | (some work, thread) :: items => (t.accept work thread).schedule items

/-- The pass of worker `w` begins: it is for all that its fiber was scheduled for. What other entries
ask for stays asked for. -/
def resume (t : Traced) (w : Nat) (j : Job) : Traced :=
  match j.user with
  | some f =>
    { t with
      asked := Function.update t.asked f
        ((t.asked f).filter fun ask => ask.1.isSome && ask.1 != j.entry)
      pins := Function.update t.pins w ((t.asked f).map Prod.snd) }
  | none => t

/-- What a step of worker `w` does to the two records. -/
def advance (t : Traced) (w : Nat) : Traced :=
  match (t.scheduler.workers w).pc with
  | .testTerm e =>
    match e.work with
    -- a callback asks for its thread when it is given to a fiber
    | .cb _ => t.ask (t.scheduler.callbackFiber w) (asks e.id e.thread)
    | .fiber _ => t
  -- the fiber is over and the entry is gone
  | .drop entry _ => { t with asked := fun f => (t.asked f).filter fun ask => ask.1 != some entry }
  | .swapLoad j => t.resume w j
  | _ => t

/-- What the code of the fiber does to them. -/
def act (t : Traced) (w : Nat) (j : Job) : Choice → Traced
  | .register => t
  | .yieldToReady =>
    match j.user with
    | some f =>
      { t.ask f ((t.pins w).map (none, ·)) with pins := Function.update t.pins w [] }
    | none => t
  | _ => { t with pins := Function.update t.pins w [] }

/-- The two records behind a step. -/
def after (t : Traced) : Action → Traced
  | .worker w => t.advance w
  | .fiber w choice =>
    match (t.scheduler.workers w).pc with
    | .running j => t.act w j choice
    | _ => t
  | .schedule items => t.schedule items
  | _ => t

def step (t : Traced) (action : Action) : Option Traced :=
  (t.scheduler.step action).map fun s' => { t.after action with scheduler := s' }

/-- What runs in a fiber runs on the thread that it was scheduled for. -/
def OnThread (t : Traced) : Prop :=
  ∀ w < t.scheduler.threads, ∀ j f, (t.scheduler.workers w).pc = .running j → j.user = some f →
    ∀ pin ∈ t.pins w, pin = w

/-! ## What the code misses -/

/-- An entry for `thread` can only come to thread `pin`. -/
def Fits (threads : Nat) (pin thread : Int) : Prop :=
  pin ≠ -1 ∧ thread = pin ∨ threads ≤ 1 ∧ pin = 0

instance (threads : Nat) (pin thread : Int) : Decidable (Fits threads pin thread) :=
  inferInstanceAs (Decidable (_ ∨ _))

/-- All that `f` is scheduled for fits an entry for `thread`. -/
def Follows (t : Traced) (f : Nat) (thread : Int) : Prop :=
  ∀ ask ∈ t.asked f, Fits t.scheduler.threads ask.2 thread

/-- Nothing through which `f` may be resumed leads past thread `pin`: no entry of it, no worker that
has taken it, and none that is to put it back. -/
structure Leads (t : Traced) (f : Nat) (pin : Int) : Prop where
  queue : ∀ e ∈ t.scheduler.queue, e.work = .fiber f → Fits t.scheduler.threads pin e.thread
  carries : ∀ w < t.scheduler.threads, t.scheduler.carries w f = true → pin = w
  returns : ∀ w < t.scheduler.threads, t.scheduler.returns w f = true →
    t.scheduler.threads ≤ 1 ∧ pin = 0

instance (t : Traced) (f : Nat) (thread : Int) : Decidable (t.Follows f thread) :=
  inferInstanceAs (Decidable (∀ ask ∈ _, _))

instance (t : Traced) (f : Nat) (pin : Int) : Decidable (t.Leads f pin) :=
  decidable_of_iff
    ((∀ e ∈ t.scheduler.queue, e.work = .fiber f → Fits t.scheduler.threads pin e.thread) ∧
      (∀ w < t.scheduler.threads, t.scheduler.carries w f = true → pin = w) ∧
      ∀ w < t.scheduler.threads, t.scheduler.returns w f = true →
        t.scheduler.threads ≤ 1 ∧ pin = 0)
    ⟨fun ⟨queue, carries, returns⟩ => ⟨queue, carries, returns⟩,
      fun leads => ⟨leads.queue, leads.carries, leads.returns⟩⟩

/-- A fiber is scheduled for `thread`. -/
def Admits (t : Traced) (f : Nat) (thread : Int) : Prop :=
  t.Follows f thread ∧ (thread ≠ -1 → t.Leads f thread)

instance (t : Traced) (f : Nat) (thread : Int) : Decidable (t.Admits f thread) :=
  inferInstanceAs (Decidable (_ ∧ _))

def AdmitsAll (t : Traced) : List (Option Work × Int) → Prop
  | [] => True
  | (none, _) :: items => t.AdmitsAll items
  | (some (.fiber f), thread) :: items =>
    t.Admits f thread ∧ (t.accept (.fiber f) thread).AdmitsAll items
  | (some (.cb id), thread) :: items => (t.accept (.cb id) thread).AdmitsAll items

instance decidableAdmitsAll (t : Traced) : DecidablePred t.AdmitsAll
  | [] => .isTrue trivial
  | (none, _) :: items => decidableAdmitsAll t items
  | (some (.fiber f), thread) :: items =>
    have := decidableAdmitsAll (t.accept (.fiber f) thread) items
    inferInstanceAs (Decidable (_ ∧ _))
  | (some (.cb id), thread) :: items => decidableAdmitsAll (t.accept (.cb id) thread) items

/-- A step does not meet what the code misses: what a fiber is scheduled for fits all that it was
scheduled for before and everything through which it may be resumed, also when a worker gives a
callback to a fiber; and a fiber that was scheduled for a thread does not yield with `kReady`, unless
there is one thread only. -/
def KeepsPins (t : Traced) : Action → Prop
  | .worker w =>
    match (t.scheduler.workers w).pc.callback with
    | some e => t.Follows (t.scheduler.callbackFiber w) w ∧
      (e.thread ≠ -1 → t.Leads (t.scheduler.callbackFiber w) e.thread)
    | none => True
  | .fiber w .yieldToReady =>
    match (t.scheduler.workers w).pc with
    | .running j => ∀ f ∈ j.user, ∀ pin ∈ t.pins w ++ (t.asked f).map Prod.snd,
      t.scheduler.threads ≤ 1 ∧ pin = 0
    | _ => True
  | .schedule items => t.AdmitsAll items
  | _ => True

instance (t : Traced) : DecidablePred t.KeepsPins := fun action => by
  unfold KeepsPins
  split
  · split <;> infer_instance
  · split <;> infer_instance
  · infer_instance
  · infer_instance

/-! ## What a run keeps -/

structure Affine (t : Traced) : Prop where
  queue : ∀ e ∈ t.scheduler.queue, ∀ f, e.work = .fiber f → t.Follows f e.thread
  carries : ∀ w < t.scheduler.threads, ∀ f, t.scheduler.carries w f = true →
    ∀ ask ∈ t.asked f, ask.2 = w
  returns : ∀ w < t.scheduler.threads, ∀ f, t.scheduler.returns w f = true →
    ∀ ask ∈ t.asked f, t.scheduler.threads ≤ 1 ∧ ask.2 = 0
  tests : ∀ w < t.scheduler.threads, ∀ e, (t.scheduler.workers w).pc = .testTerm e →
    e.thread = -1 ∨ e.thread = w
  pins : t.OnThread

section Steps

variable {t t' : Traced} {s' : Scheduler} {w f : Nat}

/-- An entry comes only to a thread that it fits. -/
theorem Fits.of_taken {threads : Nat} {pin : Int} {fibers : Nat → Fiber} {e : Entry}
    (fits : Fits threads pin e.thread) (bound : w < threads) (taken : skips fibers w e = false) :
    pin = w := by
  rcases fits with ⟨pinned, own⟩ | ⟨single, zero⟩
  · exact own ▸ (thread_of_taken taken).resolve_left (own ▸ pinned)
  · omega

/-- Asking for more where everything fits it. -/
theorem Affine.ask (affine : Affine t) {more : List (Option Nat × Int)}
    (leads : ∀ ask ∈ more, t.Leads f ask.2) : Affine (t.ask f more) := by
  have cases_ (g : Nat) {ask : Option Nat × Int} (member : ask ∈ (t.ask f more).asked g) :
      ask ∈ t.asked g ∨ g = f ∧ ask ∈ more := by
    by_cases same : g = f
    · subst same
      simpa [Traced.ask] using member
    · exact .inl (by simpa [Traced.ask, Function.update_of_ne same] using member)
  refine ⟨fun e inside g is ask member => ?_, fun v bound g carries ask member => ?_,
    fun v bound g returns ask member => ?_, affine.tests, affine.pins⟩
  · rcases cases_ g member with old | ⟨rfl, new⟩
    · exact affine.queue e inside g is ask old
    · exact (leads ask new).queue e inside is
  · rcases cases_ g member with old | ⟨rfl, new⟩
    · exact affine.carries v bound g carries ask old
    · exact (leads ask new).carries v bound carries
  · rcases cases_ g member with old | ⟨rfl, new⟩
    · exact affine.returns v bound g returns ask old
    · exact (leads ask new).returns v bound returns

theorem Leads.single {pin : Int} (single : t.scheduler.threads ≤ 1) (zero : pin = 0) :
    t.Leads f pin :=
  ⟨fun _ _ _ => .inr ⟨single, zero⟩, fun _ bound _ => (by omega), fun _ _ _ => ⟨single, zero⟩⟩

/-- Asking for less. -/
theorem Affine.forget (affine : Affine t) {asked : Nat → List (Option Nat × Int)}
    {pins : Nat → List Int} (fewer : ∀ f, asked f ⊆ t.asked f)
    (onThread : Traced.OnThread ⟨t.scheduler, asked, pins⟩) : Affine ⟨t.scheduler, asked, pins⟩ :=
  ⟨fun e inside f is ask member => affine.queue e inside f is ask (fewer f member),
    fun v bound f carries ask member => affine.carries v bound f carries ask (fewer f member),
    fun v bound f returns ask member => affine.returns v bound f returns ask (fewer f member),
    affine.tests, onThread⟩

/-- A step of a worker, when the records are at what it does to them. -/
theorem Affine.moved (affine : Affine t) (bound : w < t.scheduler.threads)
    (moves : Moves t.scheduler w s')
    (callback : ∀ e, (t.scheduler.workers w).pc.callback = some e →
      ∀ ask ∈ t.asked (t.scheduler.callbackFiber w), ask.2 = w)
    (begins : ∀ j f, (t.scheduler.workers w).pc = .swapLoad j → j.user = some f →
      ∀ pin ∈ t.pins w, pin = w) : Affine { t with scheduler := s' } := by
  have threads := moves.threads_eq
  refine ⟨fun e inside f is ask member => ?_, fun v inside f carries ask member => ?_,
    fun v inside f returns ask member => ?_, fun v inside e tests => ?_,
    fun v inside j f runs user pin member => ?_⟩
  · simp only [threads]
    rcases moves.queue e inside with old | ⟨g, is', any, back⟩
    · exact affine.queue e old f is ask member
    · -- what is put back can go anywhere, and was not asked for a thread
      obtain rfl : g = f := Work.fiber.inj (is'.symm.trans is)
      exact .inr (affine.returns w bound g back ask member)
  · rw [threads] at inside
    by_cases same : v = w
    · subst same
      rcases moves.carries f carries with was | ⟨e, inside', is, fits⟩ | ⟨e, here, rfl⟩
      · exact affine.carries v bound f was ask member
      · exact (affine.queue e inside' f is ask member).of_taken bound fits
      · exact callback e here ask member
    · rw [Scheduler.carries, moves.others v same] at carries
      exact affine.carries v inside f carries ask member
  · simp only [threads] at inside ⊢
    rcases moves.returned returns with was | was
    · exact affine.returns v inside f was ask member
    · exact affine.returns w bound f was ask member
  · rw [threads] at inside
    by_cases same : v = w
    · subst same
      rcases moves.tests e tests with was | fits
      · exact affine.tests v bound e was
      · exact thread_of_taken fits
    · rw [moves.others v same] at tests
      exact affine.tests v inside e tests
  · rw [threads] at inside
    by_cases same : v = w
    · subst same
      exact begins j f (moves.runs j runs) user pin member
    · rw [moves.others v same] at runs
      exact affine.pins v inside j f runs user pin member

/-- A step of the code of a fiber, likewise. -/
theorem Affine.acted (affine : Affine t) {j : Job} {choice : Choice}
    (at_ : (t.scheduler.workers w).pc = .running j) (acts : Acts t.scheduler w j choice s')
    (free : choice = .yieldToReady → ∀ f ∈ j.user, ∀ ask ∈ t.asked f,
      t.scheduler.threads ≤ 1 ∧ ask.2 = 0) : Affine { t with scheduler := s' } := by
  have threads := acts.threads_eq
  refine ⟨fun e inside f is ask member => ?_, fun v inside f carries ask member => ?_,
    fun v inside f returns ask member => ?_, fun v inside e tests => ?_,
    fun v inside k f runs user pin member => ?_⟩
  · simp only [threads]
    exact affine.queue e (acts.queue ▸ inside) f is ask member
  · rw [threads] at inside
    by_cases same : v = w
    · rw [same, acts.carries f] at carries
      cases carries
    · rw [Scheduler.carries, acts.others v same] at carries
      exact affine.carries v inside f carries ask member
  · simp only [threads] at inside ⊢
    rcases acts.returned returns with was | ⟨ready, user⟩
    · exact affine.returns v inside f was ask member
    · exact free ready f user ask member
  · rw [threads] at inside
    by_cases same : v = w
    · exact absurd (same ▸ tests) (acts.tests e)
    · rw [acts.others v same] at tests
      exact affine.tests v inside e tests
  · rw [threads] at inside
    by_cases same : v = w
    · subst same
      obtain ⟨rfl, -⟩ := acts.runs k runs
      exact affine.pins v inside k f at_ user pin member
    · rw [acts.others v same] at runs
      exact affine.pins v inside k f runs user pin member

theorem mem_asks {entry : Nat} {thread : Int} {ask : Option Nat × Int}
    (member : ask ∈ asks entry thread) : thread ≠ -1 ∧ ask.2 = thread := by
  unfold asks at member
  split at member
  · cases member
  next pinned =>
    obtain rfl := List.mem_singleton.mp member
    exact ⟨pinned, rfl⟩

/-- A worker that has a callback gives it to a fiber. -/
theorem Affine.callback (affine : Affine t) (bound : w < t.scheduler.threads) {e : Entry}
    (at_ : (t.scheduler.workers w).pc = .testTerm e) {id : Nat} (is : e.work = .cb id)
    (keeps : t.KeepsPins (.worker w)) (moves : Moves t.scheduler w s') :
    Affine { t.ask (t.scheduler.callbackFiber w) (asks e.id e.thread) with scheduler := s' } := by
  have here : (t.scheduler.workers w).pc.callback = some e := by simp [at_, Pc.callback, is]
  simp only [KeepsPins, here] at keeps
  obtain ⟨follows, leads⟩ := keeps
  have asked : Affine (t.ask (t.scheduler.callbackFiber w) (asks e.id e.thread)) := by
    refine affine.ask fun ask member => ?_
    obtain ⟨pinned, same⟩ := mem_asks member
    exact same ▸ leads pinned
  refine Affine.moved asked bound moves (fun _ _ ask member => ?_) fun j f loads => ?_
  · have member : ask ∈ t.asked (t.scheduler.callbackFiber w) ++ asks e.id e.thread := by
      simpa [Traced.ask] using member
    rcases List.mem_append.mp member with old | new
    · rcases follows ask old with ⟨-, own⟩ | ⟨single, zero⟩
      · exact own.symm
      · omega
    · -- the entry was taken by the thread that it asks for
      obtain ⟨pinned, same⟩ := mem_asks new
      exact same.trans ((affine.tests w bound e at_).resolve_left pinned)
  · change (t.scheduler.workers w).pc = .swapLoad j at loads
    rw [at_] at loads
    cases loads

/-- A pass begins on the thread for which its fiber was scheduled. -/
theorem Affine.resume (affine : Affine t) (bound : w < t.scheduler.threads) {j : Job}
    (at_ : (t.scheduler.workers w).pc = .swapLoad j) (moves : Moves t.scheduler w s') :
    Affine { t.resume w j with scheduler := s' } := by
  have no_callback (e : Entry) : (t.scheduler.workers w).pc.callback ≠ some e := by
    simp [at_, Pc.callback]
  unfold Traced.resume
  split
  next f user =>
    have carries : t.scheduler.carries w f = true := by simp [Scheduler.carries, at_, Pc.carries, user]
    have fewer : Affine ⟨t.scheduler, Function.update t.asked f
        ((t.asked f).filter fun ask => ask.1.isSome && ask.1 != j.entry),
        Function.update t.pins w ((t.asked f).map Prod.snd)⟩ := by
      refine affine.forget (fun g => ?_) fun v inside k g runs user' pin member => ?_
      · by_cases same : g = f
        · subst same
          simp
        · simp [Function.update_of_ne same]
      · by_cases same : v = w
        · rw [same, at_] at runs
          cases runs
        · simp only [Function.update_of_ne same] at member
          exact affine.pins v inside k g runs user' pin member
    refine Affine.moved fewer bound moves (fun e here => absurd here (no_callback e)) ?_
    intro k g _ _ pin member
    simp only [Function.update_self] at member
    obtain ⟨ask, asked, rfl⟩ := List.mem_map.mp member
    exact affine.carries w bound f carries ask asked
  next user =>
    refine affine.moved bound moves (fun e here => absurd here (no_callback e)) fun k f loads user' => ?_
    obtain rfl := Pc.swapLoad.inj (at_.symm.trans loads)
    rw [user] at user'
    cases user'

theorem Affine.worker (affine : Affine t) (bound : w < t.scheduler.threads)
    (keeps : t.KeepsPins (.worker w)) (moves : Moves t.scheduler w s') :
    Affine { t.advance w with scheduler := s' } := by
  unfold Traced.advance
  split
  next e at_ =>
    split
    next id is => exact affine.callback bound at_ is keeps moves
    next f is =>
      refine affine.moved bound moves (fun e here => ?_) fun j f loads => ?_
      · simp [at_, Pc.callback, is] at here
      · rw [at_] at loads
        cases loads
  next entry st at_ =>
    have fewer : Affine { t with
        asked := fun f => (t.asked f).filter fun ask => ask.1 != some entry } :=
      affine.forget (fun f _ member => List.mem_of_mem_filter member) affine.pins
    refine Affine.moved fewer bound moves (fun e here => ?_) fun j f loads => ?_
    · simp [at_, Pc.callback] at here
    · simp [at_] at loads
  next j at_ => exact affine.resume bound at_ moves
  next not_test _ not_load =>
    refine affine.moved bound moves (fun e here => ?_) fun j f loads => absurd loads (not_load j)
    unfold Pc.callback at here
    split at here
    next e' at_ => exact absurd at_ (not_test e')
    next => cases here

/-- The pass is over. -/
theorem Affine.leave (affine : Affine t) : Affine { t with pins := Function.update t.pins w [] } := by
  refine affine.forget (fun f => List.Subset.refl _) fun v inside j f runs user pin member => ?_
  by_cases same : v = w
  · subst same
    simp at member
  · simp only [Function.update_of_ne same] at member
    exact affine.pins v inside j f runs user pin member

theorem Affine.fiber (affine : Affine t) {j : Job} {choice : Choice}
    (at_ : (t.scheduler.workers w).pc = .running j) (keeps : t.KeepsPins (.fiber w choice))
    (acts : Acts t.scheduler w j choice s') : Affine { t.act w j choice with scheduler := s' } := by
  cases choice with
  | register => exact affine.acted at_ acts nofun
  | yieldToHold | finish | throw | swapOut => exact affine.leave.acted at_ acts nofun
  | yieldToReady =>
    simp only [KeepsPins, at_] at keeps
    simp only [Traced.act]
    split
    next f user =>
      have free := keeps f user
      have asked : Affine (t.ask f ((t.pins w).map (none, ·))) := by
        refine affine.ask fun ask member => ?_
        obtain ⟨pin, inside, rfl⟩ := List.mem_map.mp member
        obtain ⟨single, zero⟩ := free pin (List.mem_append_left _ inside)
        exact .single single zero
      refine asked.leave.acted at_ acts fun _ g user' ask member => ?_
      obtain rfl := Option.some.inj (user.symm.trans user')
      have member : ask ∈ t.asked f ++ (t.pins w).map (none, ·) := by
        simpa [Traced.ask] using member
      rcases List.mem_append.mp member with old | new
      · exact free ask.2 (List.mem_append_right _ (List.mem_map_of_mem old))
      · obtain ⟨pin, inside, rfl⟩ := List.mem_map.mp new
        exact free pin (List.mem_append_left _ inside)
    next user =>
      refine affine.acted at_ acts fun _ f user' => ?_
      rw [user] at user'
      cases user'

/-- An entry that asks for the thread that it is meant for. -/
theorem Affine.accept (affine : Affine t) {work : Work} {thread : Int}
    (admits : ∀ f, work = .fiber f → t.Admits f thread) : Affine (t.accept work thread) := by
  have inside {e : Entry} (member : e ∈ (t.scheduler.scheduleNoLock (some work) thread).queue) :
      e ∈ t.scheduler.queue ∨ e = ⟨t.scheduler.issued, work, thread⟩ := by
    simpa [scheduleNoLock] using member
  have accepted : Affine { t with scheduler := t.scheduler.scheduleNoLock (some work) thread } := by
    refine ⟨fun e member f is => ?_, affine.carries, affine.returns, affine.tests, affine.pins⟩
    rcases inside member with old | rfl
    · exact affine.queue e old f is
    · exact (admits f is).1
  cases work with
  | cb id => exact accepted
  | fiber f =>
    refine accepted.ask fun ask member => ?_
    obtain ⟨pinned, same⟩ := mem_asks member
    have leads := (admits f rfl).2 pinned
    rw [same]
    refine ⟨fun e member is => ?_, leads.carries, leads.returns⟩
    rcases inside member with old | rfl
    · exact leads.queue e old is
    · exact .inl ⟨pinned, rfl⟩

theorem Affine.schedule (affine : Affine t) {items : List (Option Work × Int)}
    (admits : t.AdmitsAll items) : Affine (t.schedule items) := by
  induction items generalizing t with
  | nil => exact affine
  | cons item items ih =>
    obtain ⟨work, thread⟩ := item
    match work, admits with
    | none, admits => exact ih affine admits
    | some (.fiber f), ⟨first, rest⟩ =>
      exact ih (affine.accept fun g is => Work.fiber.inj is ▸ first) rest
    | some (.cb id), admits => exact ih (affine.accept nofun) admits

/-- What neither adds an entry nor moves a worker. -/
theorem Affine.of_same (affine : Affine t) (queue : s'.queue = t.scheduler.queue)
    (threads : s'.threads = t.scheduler.threads) (workers : s'.workers = t.scheduler.workers)
    (ready : ∀ f, s'.stateOf f = .ready → t.scheduler.stateOf f = .ready) :
    Affine { t with scheduler := s' } := by
  refine ⟨fun e inside f is ask member => ?_, fun v inside f carries ask member => ?_,
    fun v inside f returns ask member => ?_, fun v inside e tests => ?_,
    fun v inside j f runs user pin member => ?_⟩
  · simp only [threads]
    exact affine.queue e (queue ▸ inside) f is ask member
  · rw [Scheduler.carries, workers] at carries
    exact affine.carries v (threads ▸ inside) f carries ask member
  · simp only [threads] at inside ⊢
    rw [Scheduler.returns, workers] at returns
    exact affine.returns v inside f (Pc.returns_mono (ready f) returns) ask member
  · exact affine.tests v (threads ▸ inside) e (workers ▸ tests)
  · exact affine.pins v (threads ▸ inside) j f (workers ▸ runs) user pin member

end Steps

end Traced
end ServerFrame.Scheduler
