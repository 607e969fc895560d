import ServerFrame.Log.Loggers
import ServerFrame.Lib.Run

/-!
# The formatter an appender inherits

An appender without a formatter of its own holds a copy of the logger's pointer. The copy is made
where the appender is added and where the logger is given another formatter. Here appenders are
objects, so that one can be taken out, changed and added again.
-/
namespace ServerFrame.Log.Inheritance

/-- The formatter of a logger, its appenders, and all appenders there are. -/
structure State where
  formatter : Option String
  appenders : List Nat
  objects : Nat → Appender

/-- A call; `none` is the null pointer. -/
inductive Op where
  | addAppender (appender : Nat)
  | delAppender (appender : Nat)
  | clearAppenders
  /-- `Logger::SetFormatter(LogFormatter::ptr)` -/
  | setFormatter (val : Option String)
  /-- `Logger::SetFormatter(const std::string&)` -/
  | setPattern (val : String)
  /-- `LogAppender::SetFormatter` -/
  | setAppenderFormatter (appender : Nat) (val : Option String)
  deriving DecidableEq, Repr

namespace State

/-- `Logger::AddAppender`. It looks at the pointer, not at `has_formatter_`. -/
def addAppender (s : State) (appender : Nat) : State :=
  let ap := s.objects appender
  let ap := if ap.formatter = none then { ap with formatter := s.formatter } else ap
  { s with
    objects := Function.update s.objects appender ap
    appenders := s.appenders ++ [appender] }

/-- `Logger::DelAppender`: the first one is erased. -/
def delAppender (s : State) (appender : Nat) : State :=
  { s with appenders := s.appenders.erase appender }

/-- `Logger::ClearAppenders`. -/
def clearAppenders (s : State) : State := { s with appenders := [] }

/-- A pass of the loop in `Logger::SetFormatter`. -/
def inherit (val : Option String) (objects : Nat → Appender) (i : Nat) : Nat → Appender :=
  if (objects i).hasFormatter then objects
  else Function.update objects i { objects i with formatter := val }

/-- `Logger::SetFormatter(LogFormatter::ptr)`. -/
def setFormatter (s : State) (val : Option String) : State :=
  { s with formatter := val, objects := s.appenders.foldl (inherit val) s.objects }

/-- `Logger::SetFormatter(const std::string&)`. -/
def setPattern (s : State) (val : String) : State :=
  if LogFormatter.isError val then s else s.setFormatter (some val)

/-- `LogAppender::SetFormatter`. Null takes the flag away, and leaves the pointer. -/
def setAppenderFormatter (s : State) (appender : Nat) (val : Option String) : State :=
  let ap := s.objects appender
  let ap := match val with
    | some val => { ap with formatter := some val, hasFormatter := true }
    | none => { ap with hasFormatter := false }
  { s with objects := Function.update s.objects appender ap }

def step (s : State) : Op → State
  | .addAppender appender => s.addAppender appender
  | .delAppender appender => s.delAppender appender
  | .clearAppenders => s.clearAppenders
  | .setFormatter val => s.setFormatter val
  | .setPattern val => s.setPattern val
  | .setAppenderFormatter appender val => s.setAppenderFormatter appender val

/-- A new logger, and appenders that are not added yet. -/
def fresh (destination : Nat → Destination) : State :=
  ⟨some defaultPattern, [], fun i => Appender.new (destination i)⟩

/-- The state behind the calls. -/
def after (destination : Nat → Destination) (ops : List Op) : State :=
  ops.foldl step (fresh destination)

end State

/-- What a call gives an appender as its own. -/
def give (op : Op) (i : Nat) (given : Option String) : Option String :=
  match op with
  | .setAppenderFormatter appender val => if appender = i then val else given
  | _ => given

/-- What `LogAppender::SetFormatter` has given an appender and not taken away again. -/
def own (ops : List Op) (i : Nat) : Option String :=
  ops.foldl (fun given op => give op i given) none

/-- An appender without a formatter of its own formats with that of the logger, and one with a
formatter of its own has kept it. -/
structure Inherits (s : State) (own : Nat → Option String) : Prop where
  inherited : ∀ i ∈ s.appenders, (s.objects i).hasFormatter = false →
    (s.objects i).formatter = s.formatter
  kept : ∀ i, (s.objects i).hasFormatter = true →
    ∃ val, own i = some val ∧ (s.objects i).formatter = some val

/-- What is asked of a call. An appender that is added without a formatter of its own has none at
all, or that of the logger. One whose formatter is taken away is not attached, or was given that
of the logger. -/
def Admitted (s : State) : Op → Prop
  | .addAppender i => (s.objects i).hasFormatter = false →
    (s.objects i).formatter = none ∨ (s.objects i).formatter = s.formatter
  | .setAppenderFormatter i none => i ∈ s.appenders → (s.objects i).formatter = s.formatter
  | _ => True

/-! ## The loop -/

theorem inherit_ne {i j : Nat} (other : j ≠ i) (val : Option String) (objects : Nat → Appender) :
    State.inherit val objects i j = objects j := by
  unfold State.inherit
  split
  · rfl
  · exact Function.update_of_ne other _ _

/-- Every attached appender without a formatter of its own is given that of the logger, and no other
appender changes. -/
theorem foldl_inherit (val : Option String) (appenders : List Nat) (objects : Nat → Appender)
    (j : Nat) : appenders.foldl (State.inherit val) objects j =
      if j ∈ appenders ∧ (objects j).hasFormatter = false then
        { objects j with formatter := val } else objects j := by
  induction appenders generalizing objects with
  | nil => simp
  | cons i appenders ih =>
    rw [List.foldl_cons, ih]
    by_cases here : j = i
    · subst here
      -- a second pass over it writes the same
      by_cases flag : (objects j).hasFormatter = true
      · simp [State.inherit, flag]
      · simp [State.inherit, flag]
    · simp [inherit_ne here, here]

namespace State

theorem setFormatter_objects (s : State) (val : Option String) (j : Nat) :
    (s.setFormatter val).objects j =
      if j ∈ s.appenders ∧ (s.objects j).hasFormatter = false then
        { s.objects j with formatter := val } else s.objects j :=
  foldl_inherit val s.appenders s.objects j

theorem addAppender_objects_ne (s : State) {i j : Nat} (other : j ≠ i) :
    (s.addAppender i).objects j = s.objects j :=
  Function.update_of_ne other _ _

theorem addAppender_objects_self (s : State) (i : Nat) :
    (s.addAppender i).objects i =
      if (s.objects i).formatter = none then { s.objects i with formatter := s.formatter }
      else s.objects i :=
  Function.update_self ..

theorem setAppenderFormatter_objects_ne (s : State) {i j : Nat} (other : j ≠ i)
    (val : Option String) : (s.setAppenderFormatter i val).objects j = s.objects j :=
  Function.update_of_ne other _ _

theorem setAppenderFormatter_objects_some (s : State) (i : Nat) (val : String) :
    (s.setAppenderFormatter i (some val)).objects i =
      { s.objects i with formatter := some val, hasFormatter := true } :=
  Function.update_self ..

theorem setAppenderFormatter_objects_none (s : State) (i : Nat) :
    (s.setAppenderFormatter i none).objects i = { s.objects i with hasFormatter := false } :=
  Function.update_self ..

end State

/-! ## An appender with a formatter of its own -/

/-- The flag tells whether there is one, and the pointer is to it. -/
def Owns (ap : Appender) (given : Option String) : Prop :=
  ap.hasFormatter = given.isSome ∧ ∀ val, given = some val → ap.formatter = some val

theorem owns_setFormatter {s : State} {j : Nat} {given : Option String}
    (owns : Owns (s.objects j) given) (val : Option String) :
    Owns ((s.setFormatter val).objects j) given := by
  rw [State.setFormatter_objects]
  split
  next without =>
    -- without the flag nothing was given
    have nothing : given.isSome = false := owns.1.symm.trans without.2
    refine ⟨owns.1, fun val some_val => ?_⟩
    rw [some_val] at nothing
    cases nothing
  next => exact owns

/-- No call takes it away but that of its own `SetFormatter`. -/
theorem Owns.step {s : State} {j : Nat} {given : Option String} (owns : Owns (s.objects j) given)
    (op : Op) : Owns ((s.step op).objects j) (give op j given) := by
  obtain ⟨flag, pointer⟩ := owns
  cases op with
  | addAppender i =>
    by_cases here : j = i
    · subst here
      rw [State.step, State.addAppender_objects_self]
      split
      next empty =>
        -- one that is null is nobody's own
        refine ⟨flag, fun val some_val => ?_⟩
        have held := pointer val some_val
        rw [empty] at held
        cases held
      next => exact ⟨flag, pointer⟩
    · rw [State.step, State.addAppender_objects_ne s here]
      exact ⟨flag, pointer⟩
  | delAppender i => exact ⟨flag, pointer⟩
  | clearAppenders => exact ⟨flag, pointer⟩
  | setFormatter val => exact owns_setFormatter ⟨flag, pointer⟩ val
  | setPattern val =>
    rw [State.step, State.setPattern]
    split
    · exact ⟨flag, pointer⟩
    · exact owns_setFormatter ⟨flag, pointer⟩ (some val)
  | setAppenderFormatter i val =>
    by_cases here : j = i
    · subst here
      rw [give, if_pos rfl, State.step]
      cases val with
      | some val =>
        rw [State.setAppenderFormatter_objects_some]
        exact ⟨rfl, fun _ same => same⟩
      | none =>
        rw [State.setAppenderFormatter_objects_none]
        exact ⟨rfl, fun _ same => nomatch same⟩
    · rw [give, if_neg (Ne.symm here), State.step, State.setAppenderFormatter_objects_ne s here]
      exact ⟨flag, pointer⟩

/-- So an appender keeps what it was given, whatever is called. -/
theorem owns_after (destination : Nat → Destination) (ops : List Op) (i : Nat) :
    Owns ((State.after destination ops).objects i) (own ops i) := by
  induction ops using List.reverseRecOn with
  | nil => exact ⟨rfl, fun _ same => nomatch same⟩
  | append_singleton ops op ih =>
    rw [State.after, own, List.foldl_append, List.foldl_append]
    exact ih.step op

/-! ## An appender without -/

/-- The attached appenders without a formatter of their own hold that of the logger. -/
def Inherited (s : State) : Prop :=
  ∀ i ∈ s.appenders, (s.objects i).hasFormatter = false → (s.objects i).formatter = s.formatter

section
variable {s : State}

theorem Inherited.addAppender_iff (good : Inherited s) (i : Nat) :
    Inherited (s.addAppender i) ↔ Admitted s (.addAppender i) := by
  constructor
  · -- what is in the new list has the logger's formatter, so that the added one has
    intro next flag
    have flag' : ((s.addAppender i).objects i).hasFormatter = false := by
      rw [State.addAppender_objects_self]
      split <;> exact flag
    have copied := next i (by simp [State.addAppender]) flag'
    rw [State.addAppender_objects_self] at copied
    split at copied
    next empty => exact .inl empty
    next => exact .inr copied
  · intro allowed j attached flag
    by_cases here : j = i
    · subst here
      rw [State.addAppender_objects_self] at flag ⊢
      split at flag
      next empty =>
        rw [if_pos empty]
        rfl
      next held =>
        rw [if_neg held]
        exact (allowed flag).resolve_left held
    · rw [State.addAppender_objects_ne s here] at flag ⊢
      have before : j ∈ s.appenders := by
        simpa [State.addAppender, here] using attached
      exact good j before flag

/-- Fewer appenders are attached, and nothing else is different. -/
theorem Inherited.detach (good : Inherited s) {appenders : List Nat}
    (fewer : ∀ i ∈ appenders, i ∈ s.appenders) : Inherited { s with appenders := appenders } :=
  fun i attached flag => good i (fewer i attached) flag

/-- The loop brings every copy up to date. -/
theorem inherited_setFormatter (s : State) (val : Option String) :
    Inherited (s.setFormatter val) := by
  intro i attached flag
  rw [State.setFormatter_objects] at flag ⊢
  split at flag
  next without =>
    rw [if_pos without]
    rfl
  next other => exact absurd ⟨attached, flag⟩ other

theorem Inherited.setPattern (good : Inherited s) (val : String) :
    Inherited (s.setPattern val) := by
  unfold State.setPattern
  split
  · exact good
  · exact inherited_setFormatter s (some val)

theorem Inherited.setAppenderFormatter_iff (good : Inherited s) (i : Nat) (val : Option String) :
    Inherited (s.setAppenderFormatter i val) ↔ Admitted s (.setAppenderFormatter i val) := by
  -- the others are as they were
  have others : ∀ j ∈ s.appenders, j ≠ i →
      ((s.setAppenderFormatter i val).objects j).hasFormatter = false →
      ((s.setAppenderFormatter i val).objects j).formatter = s.formatter := by
    intro j attached other flag
    rw [State.setAppenderFormatter_objects_ne s other] at flag ⊢
    exact good j attached flag
  cases val with
  | some val =>
    -- it has one of its own now, and inherits nothing
    refine iff_of_true (fun j attached flag => ?_) trivial
    by_cases here : j = i
    · subst here
      rw [State.setAppenderFormatter_objects_some] at flag
      cases flag
    · exact others j attached here flag
  | none =>
    -- from now on it inherits, with the pointer that it has
    constructor
    · intro next attached
      have copied := next i attached
      rw [State.setAppenderFormatter_objects_none] at copied
      exact copied rfl
    · intro allowed j attached flag
      by_cases here : j = i
      · subst here
        rw [State.setAppenderFormatter_objects_none]
        exact allowed attached
      · exact others j attached here flag

/-- A call keeps the inheritance exactly if it is admitted. -/
theorem Inherited.step_iff (good : Inherited s) (op : Op) :
    Inherited (s.step op) ↔ Admitted s op := by
  cases op with
  | addAppender i => exact good.addAppender_iff i
  | delAppender i => exact iff_of_true (good.detach fun j => List.mem_of_mem_erase) trivial
  | clearAppenders => exact iff_of_true (good.detach fun j inside => nomatch inside) trivial
  | setFormatter val => exact iff_of_true (inherited_setFormatter s val) trivial
  | setPattern val => exact iff_of_true (good.setPattern val) trivial
  | setAppenderFormatter i val => exact good.setAppenderFormatter_iff i val

end

/-! ## All calls -/

/-- What can go wrong is the inheritance alone. -/
theorem inherits_after_iff (destination : Nat → Destination) (ops : List Op) :
    Inherits (State.after destination ops) (own ops) ↔ Inherited (State.after destination ops) := by
  constructor
  · intro both
    exact both.inherited
  · intro good
    refine ⟨good, fun i flag => ?_⟩
    obtain ⟨told, pointer⟩ := owns_after destination ops i
    obtain ⟨val, given⟩ := Option.isSome_iff_exists.1 (told.symm.trans flag)
    exact ⟨val, given, pointer val given⟩

/-- The formatters are inherited behind every call, if and only if every call is admitted where it
is made. -/
theorem inherits_iff (destination : Nat → Destination) (ops : List Op) :
    (∀ pre, pre <+: ops → Inherits (State.after destination pre) (own pre)) ↔
      ∀ pre op, pre ++ [op] <+: ops → Admitted (State.after destination pre) op := by
  simp only [inherits_after_iff]
  apply Run.prefixes_iff (fun pre => Inherited (State.after destination pre))
    (fun pre op => Admitted (State.after destination pre) op)
  · exact fun i attached => nomatch attached
  · intro pre op good
    have last : State.after destination (pre ++ [op]) = (State.after destination pre).step op := by
      rw [State.after, List.foldl_append]
      rfl
    rw [last]
    exact good.step_iff op

/-- An attached appender whose formatter is taken away goes on with it. -/
theorem formatter_taken_away : ¬ ∀ (destination : Nat → Destination) (ops : List Op),
    Inherits (State.after destination ops) (own ops) := by
  intro all
  have copied := (all (fun _ => .stdout) [.addAppender 0, .setAppenderFormatter 0 (some "%m"),
    .setAppenderFormatter 0 none]).inherited 0 (by decide) (by decide)
  revert copied
  decide

end ServerFrame.Log.Inheritance
