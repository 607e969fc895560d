import Mathlib.Data.String.Basic
import Mathlib.Data.List.Nodup
import ServerFrame.Log.Pattern
import ServerFrame.Lib.Containers

/-!
# Loggers and their configuration

The variable `logs` holds a set of definitions. Its only listener compares the old set with the
new one and changes the loggers.
-/
namespace ServerFrame.Log

open Containers

/-! ## Loggers -/

/-- `LogFormatter(pattern).IsError()`. -/
def LogFormatter.isError (pattern : String) : Bool := (LogFormatter.init pattern).2

inductive Destination where
  | file (filename : String)
  | stdout
  deriving DecidableEq, Repr

/-- A formatter is told by its pattern. It is null in an appender that was not added yet. -/
structure Appender where
  destination : Destination
  level : LogLevel
  hasFormatter : Bool
  formatter : Option String
  deriving DecidableEq, Repr

structure Logger where
  level : LogLevel
  formatter : String
  appenders : List Appender
  deriving DecidableEq, Repr

def defaultPattern : String := "%d{%Y-%m-%d %H:%M:%S}%T%t%T%N%T%F%T[%p]%T[%c]%T%f:%l%T%m%n"

namespace Appender

def new (destination : Destination) : Appender := ⟨destination, .debug, false, none⟩

def setLevel (ap : Appender) (val : LogLevel) : Appender := { ap with level := val }

def setFormatter (ap : Appender) (val : String) : Appender :=
  { ap with formatter := some val, hasFormatter := true }

end Appender

namespace Logger

def new : Logger := ⟨.debug, defaultPattern, []⟩

def setLevel (logger : Logger) (val : LogLevel) : Logger := { logger with level := val }

/-- An appender without a formatter of its own is given that of the logger. -/
def setFormatter (logger : Logger) (val : String) : Logger :=
  if LogFormatter.isError val then logger
  else { logger with
    formatter := val
    appenders := logger.appenders.map fun i =>
      if i.hasFormatter then i else { i with formatter := some val } }

def clearAppenders (logger : Logger) : Logger := { logger with appenders := [] }

def addAppender (logger : Logger) (appender : Appender) : Logger :=
  let appender :=
    if appender.formatter = none then { appender with formatter := some logger.formatter }
    else appender
  { logger with appenders := logger.appenders ++ [appender] }

end Logger

/-! ## Definitions -/

/-- `type` is 1 for a file and 2 for the standard output. -/
structure LogAppenderDefine where
  type : Int
  level : LogLevel
  formatter : String
  file : String
  deriving DecidableEq, Repr

structure LogDefine where
  name : String
  level : LogLevel
  formatter : String
  appenders : List LogAppenderDefine
  deriving DecidableEq, Repr

/-- `operator==`. It compares the appenders with themselves. -/
def LogDefine.eq (i oth : LogDefine) : Bool :=
  i.name == oth.name && i.level == oth.level && i.formatter == oth.formatter &&
    i.appenders == i.appenders

/-- `operator<` compares the names. -/
abbrev LogDefines := Tree LogDefine.name

namespace LogDefines

def find (defines : LogDefines) (i : LogDefine) : Option LogDefine :=
  defines.elems.find? fun it => it.name == i.name

/-- `operator==` of sets. -/
def eq (defines oth : LogDefines) : Bool := defines.elems.isEqv oth.elems LogDefine.eq

end LogDefines

/-! ## The listener -/

/-- The appender for a definition. The pointer stays null for another type. -/
def LogAppenderDefine.create (a : LogAppenderDefine) : Option Appender := do
  let ap ←
    if a.type = 1 then some (Appender.new (.file a.file))
    else if a.type = 2 then some (Appender.new .stdout)
    else none
  let ap := ap.setLevel a.level
  if a.formatter ≠ "" ∧ !LogFormatter.isError a.formatter then pure (ap.setFormatter a.formatter)
  else pure ap

/-- What is done to a new or a changed logger. -/
def LogDefine.configure (i : LogDefine) (logger : Logger) : Option Logger :=
  let logger := logger.setLevel i.level
  let logger := if i.formatter ≠ "" then logger.setFormatter i.formatter else logger
  i.appenders.foldlM (fun logger a => do pure (logger.addAppender (← a.create)))
    logger.clearAppenders

/-- The loggers of the manager, by their names. -/
abbrev Loggers := String → Option Logger

/-- `YGW_LOG_NAME(name)`, and what is done to the logger. -/
def Loggers.change (loggers : Loggers) (name : String) (f : Logger → Option Logger) :
    Option Loggers := do
  let logger ← f ((loggers name).getD Logger.new)
  pure (Function.update loggers name (some logger))

/-- A round of the loop over the new definitions. -/
def renew (oldValue : LogDefines) (loggers : Loggers) (i : LogDefine) : Option Loggers :=
  match oldValue.find i with
  | none => loggers.change i.name i.configure
  | some it => if !i.eq it then loggers.change i.name i.configure else some loggers

/-- A round of the loop over the old definitions. -/
def remove (newValue : LogDefines) (loggers : Loggers) (i : LogDefine) : Option Loggers :=
  if newValue.find i = none then
    loggers.change i.name fun logger => some (logger.setLevel .unknown).clearAppenders
  else some loggers

/-- The listener of `LogIniter`. -/
def onChange (oldValue newValue : LogDefines) (loggers : Loggers) : Option Loggers := do
  let loggers ← newValue.elems.foldlM (renew oldValue) loggers
  oldValue.elems.foldlM (remove newValue) loggers

/-- The variable `logs` and the loggers. -/
structure Logs where
  val : LogDefines
  loggers : Loggers

/-- `SetValue`. -/
def Logs.setValue (s : Logs) (v : LogDefines) : Option Logs :=
  if v.eq s.val then some s
  else do
    let loggers ← onChange s.val v s.loggers
    pure ⟨v, loggers⟩

/-! ## What a definition asks for -/

/-- The types are known and the formatters have no error. -/
structure LogDefine.Legal (d : LogDefine) : Prop where
  types : ∀ a ∈ d.appenders, a.type = 1 ∨ a.type = 2
  formatter : LogFormatter.isError d.formatter = false
  formatters : ∀ a ∈ d.appenders, LogFormatter.isError a.formatter = false

/-- The appender of a logger whose formatter has this pattern. -/
def LogAppenderDefine.appender (pattern : String) (a : LogAppenderDefine) : Appender where
  destination := if a.type = 1 then .file a.file else .stdout
  level := a.level
  hasFormatter := a.formatter ≠ ""
  formatter := some (if a.formatter ≠ "" then a.formatter else pattern)

/-- A logger is as it is defined. -/
structure Logger.Follows (logger : Logger) (d : LogDefine) : Prop where
  level : logger.level = d.level
  formatter : d.formatter ≠ "" → logger.formatter = d.formatter
  appenders : logger.appenders = d.appenders.map (LogAppenderDefine.appender logger.formatter)

def Loggers.Follow (loggers : Loggers) (d : LogDefine) : Prop :=
  ∃ logger, loggers d.name = some logger ∧ logger.Follows d

/-- The new definitions are in force, the old ones are no more, and nothing else has changed. -/
structure InForce (oldValue newValue : LogDefines) (before after : Loggers) : Prop where
  defined : ∀ d ∈ newValue.elems, after.Follow d
  removed : ∀ d ∈ oldValue.elems, d.name ∉ newValue.elems.map LogDefine.name →
    ∃ logger, after d.name = some logger ∧ logger.level = .unknown ∧ logger.appenders = []
  others : ∀ name, name ∉ oldValue.elems.map LogDefine.name →
    name ∉ newValue.elems.map LogDefine.name → after name = before name

/-! ## One logger -/

section OneLogger

variable {a : LogAppenderDefine} {d : LogDefine}

/-- A new appender has a formatter only when one is given. -/
theorem create_eq (known : a.type = 1 ∨ a.type = 2)
    (valid : LogFormatter.isError a.formatter = false) : a.create = some
      { a.appender "" with formatter := if a.formatter ≠ "" then some a.formatter else none } := by
  by_cases own : a.formatter = ""
  · rcases known with file | stdout
    · simp [LogAppenderDefine.create, LogAppenderDefine.appender, Appender.new, Appender.setLevel, file,
        own]
    · simp [LogAppenderDefine.create, LogAppenderDefine.appender, Appender.new, Appender.setLevel,
        stdout, own]
  · rcases known with file | stdout
    · simp [LogAppenderDefine.create, LogAppenderDefine.appender, Appender.new, Appender.setLevel,
        Appender.setFormatter, file, own, valid]
    · simp [LogAppenderDefine.create, LogAppenderDefine.appender, Appender.new, Appender.setLevel,
        Appender.setFormatter, stdout, own, valid]

/-- An appender that is created and added is the one that is defined. -/
theorem create_add (known : a.type = 1 ∨ a.type = 2)
    (valid : LogFormatter.isError a.formatter = false) (logger : Logger) :
    ∃ ap, a.create = some ap ∧ logger.addAppender ap =
      { logger with appenders := logger.appenders ++ [a.appender logger.formatter] } := by
  refine ⟨_, create_eq known valid, ?_⟩
  by_cases own : a.formatter = ""
  · simp [Logger.addAppender, LogAppenderDefine.appender, own]
  · simp [Logger.addAppender, LogAppenderDefine.appender, own]

theorem add_appenders {appenders : List LogAppenderDefine}
    (known : ∀ a ∈ appenders, a.type = 1 ∨ a.type = 2)
    (valid : ∀ a ∈ appenders, LogFormatter.isError a.formatter = false) (logger : Logger) :
    appenders.foldlM (fun logger a => do pure (logger.addAppender (← a.create))) logger =
      some { logger with
        appenders := logger.appenders ++ appenders.map (LogAppenderDefine.appender logger.formatter) } := by
  induction appenders generalizing logger with
  | nil => simp
  | cons a appenders ih =>
    obtain ⟨ap, created, added⟩ := create_add (known a (by simp)) (valid a (by simp)) logger
    rw [List.foldlM_cons, created]
    have rest := ih (fun b member => known b (by simp [member])) (fun b member => valid b (by simp [member]))
      (logger.addAppender ap)
    rw [added] at rest
    simpa [added] using rest

/-- What a definition is applied to does not matter. -/
theorem configure_follows (legal : d.Legal) (logger : Logger) :
    ∃ logger', d.configure logger = some logger' ∧ logger'.Follows d := by
  refine ⟨_, add_appenders legal.types legal.formatters _, ?_, ?_, ?_⟩
  · by_cases given : d.formatter = "" <;>
      simp [given, Logger.clearAppenders, Logger.setFormatter, legal.formatter, Logger.setLevel]
  · intro given
    simp [given, Logger.clearAppenders, Logger.setFormatter, legal.formatter]
  · simp [Logger.clearAppenders]

end OneLogger

/-! ## The loops -/

/-- A loop whose rounds change one entry each, and none twice. -/
theorem foldlM_update {ι κ V : Type} [DecidableEq κ] {key : ι → κ} {xs : List ι}
    {step : (κ → V) → ι → Option (κ → V)} {Change : ι → V → V → Prop}
    (own : ∀ x ∈ xs, ∀ m, ∃ v, step m x = some (Function.update m (key x) v) ∧
      Change x (m (key x)) v)
    (distinct : (xs.map key).Nodup) (m : κ → V) :
    ∃ m', xs.foldlM step m = some m' ∧ (∀ x ∈ xs, Change x (m (key x)) (m' (key x))) ∧
      ∀ k, k ∉ xs.map key → m' k = m k := by
  induction xs generalizing m with
  | nil => exact ⟨m, rfl, by simp, fun _ _ => rfl⟩
  | cons x xs ih =>
    obtain ⟨fresh, distinct⟩ := List.nodup_cons.mp distinct
    obtain ⟨v, ran, changed⟩ := own x List.mem_cons_self m
    obtain ⟨m', rest, at_key, elsewhere⟩ := ih (fun y member => own y (List.mem_cons_of_mem x member))
      distinct (Function.update m (key x) v)
    refine ⟨m', ?_, ?_, ?_⟩
    · rw [List.foldlM_cons, ran]
      exact rest
    · intro y member
      rcases List.mem_cons.mp member with rfl | later
      · rwa [elsewhere _ fresh, Function.update_self]
      · have other : key y ≠ key x := fun same => fresh (same ▸ List.mem_map_of_mem later)
        have changed' := at_key y later
        rwa [Function.update_of_ne other] at changed'
    · intro k absent
      rw [List.map_cons, List.mem_cons, not_or] at absent
      rw [elsewhere k absent.2, Function.update_of_ne absent.1]

namespace LogDefines

variable {defines : LogDefines} {d i o : LogDefine}

theorem names_nodup (defines : LogDefines) : (defines.elems.map LogDefine.name).Nodup :=
  (List.pairwise_map.mpr (defines.sorted.imp fun less => ne_of_lt less))

theorem find_eq_none_iff : defines.find i = none ↔ i.name ∉ defines.elems.map LogDefine.name := by
  simp [find]

theorem find_eq_some_iff : defines.find i = some o ↔ o ∈ defines.elems ∧ o.name = i.name := by
  constructor
  · intro found
    exact ⟨List.mem_of_find?_eq_some found, by simpa using List.find?_some found⟩
  · rintro ⟨member, same⟩
    rcases found : defines.find i with _ | it
    · exact absurd (List.mem_map.mpr ⟨o, member, same⟩) (find_eq_none_iff.mp found)
    · have named : it.name = i.name := by simpa using List.find?_some found
      have unique := List.inj_on_of_nodup_map (names_nodup defines) (List.mem_of_find?_eq_some found)
        member (named.trans same.symm)
      rw [unique]

end LogDefines

theorem LogDefine.eq_iff {i oth : LogDefine} : i.eq oth = true ↔
    i.name = oth.name ∧ i.level = oth.level ∧ i.formatter = oth.formatter := by
  simp [LogDefine.eq, and_assoc]

/-- The comparison finds an old definition that it takes for this one. -/
def LogDefines.Has (defines : LogDefines) (d : LogDefine) : Prop :=
  ∃ o ∈ defines.elems, o.name = d.name ∧ o.level = d.level ∧ o.formatter = d.formatter

section Change

variable {oldValue newValue : LogDefines} {loggers : Loggers} {d : LogDefine}

theorem change_eq {name : String} {f : Logger → Option Logger} {logger : Logger}
    (done : f ((loggers name).getD Logger.new) = some logger) :
    loggers.change name f = some (Function.update loggers name (some logger)) := by
  rw [Loggers.change, done]
  rfl

/-- What a round of the first loop makes of the logger that it is about. -/
def Renewed (oldValue : LogDefines) (d : LogDefine) (cell cell' : Option Logger) : Prop :=
  (oldValue.Has d ∧ cell' = cell) ∨
    (¬oldValue.Has d ∧ ∃ logger, cell' = some logger ∧ logger.Follows d)

/-- What a round of the second loop makes of the logger that it is about. -/
def Removed (newValue : LogDefines) (d : LogDefine) (cell cell' : Option Logger) : Prop :=
  (d.name ∈ newValue.elems.map LogDefine.name ∧ cell' = cell) ∨
    (d.name ∉ newValue.elems.map LogDefine.name ∧
      ∃ logger, cell' = some logger ∧ logger.level = .unknown ∧ logger.appenders = [])

theorem renew_round (oldValue : LogDefines) (legal : d.Legal) (loggers : Loggers) :
    ∃ cell, renew oldValue loggers d = some (Function.update loggers d.name cell) ∧
      Renewed oldValue d (loggers d.name) cell := by
  by_cases has : oldValue.Has d
  · refine ⟨loggers d.name, ?_, .inl ⟨has, rfl⟩⟩
    obtain ⟨o, member, name, level, formatter⟩ := id has
    have same : d.eq o = true := LogDefine.eq_iff.mpr ⟨name.symm, level.symm, formatter.symm⟩
    simp [renew, LogDefines.find_eq_some_iff.mpr ⟨member, name⟩, same]
  · obtain ⟨logger, done, follows⟩ := configure_follows legal ((loggers d.name).getD Logger.new)
    refine ⟨some logger, ?_, .inr ⟨has, logger, rfl, follows⟩⟩
    rw [renew]
    rcases found : oldValue.find d with _ | it
    · exact change_eq done
    · obtain ⟨member, name⟩ := LogDefines.find_eq_some_iff.mp found
      have differs : d.eq it = false := by
        rw [Bool.eq_false_iff]
        intro same
        obtain ⟨-, level, formatter⟩ := LogDefine.eq_iff.mp same
        exact has ⟨it, member, name, level.symm, formatter.symm⟩
      simpa [differs] using change_eq done

theorem remove_round (newValue : LogDefines) (d : LogDefine) (loggers : Loggers) :
    ∃ cell, remove newValue loggers d = some (Function.update loggers d.name cell) ∧
      Removed newValue d (loggers d.name) cell := by
  by_cases stays : d.name ∈ newValue.elems.map LogDefine.name
  · refine ⟨loggers d.name, ?_, .inl ⟨stays, rfl⟩⟩
    rw [remove, if_neg fun none => LogDefines.find_eq_none_iff.mp none stays,
      Function.update_eq_self]
  · refine ⟨some (((loggers d.name).getD Logger.new).setLevel .unknown).clearAppenders, ?_,
      .inr ⟨stays, _, rfl, rfl, rfl⟩⟩
    rw [remove, if_pos (LogDefines.find_eq_none_iff.mpr stays)]
    exact change_eq rfl

theorem onChange_spec (oldValue : LogDefines) (legal : ∀ d ∈ newValue.elems, d.Legal) (loggers : Loggers) :
    ∃ after, onChange oldValue newValue loggers = some after ∧
      (∀ d ∈ newValue.elems, Renewed oldValue d (loggers d.name) (after d.name)) ∧
      (∀ d ∈ oldValue.elems, d.name ∉ newValue.elems.map LogDefine.name →
        ∃ logger, after d.name = some logger ∧ logger.level = .unknown ∧ logger.appenders = []) ∧
      ∀ name, name ∉ oldValue.elems.map LogDefine.name →
        name ∉ newValue.elems.map LogDefine.name → after name = loggers name := by
  obtain ⟨middle, ran, made, kept⟩ := foldlM_update
    (fun d member m => renew_round oldValue (legal d member) m)
    newValue.names_nodup loggers
  obtain ⟨after, ran', dropped, kept'⟩ := foldlM_update
    (fun d (_ : d ∈ oldValue.elems) m => remove_round newValue d m) oldValue.names_nodup middle
  refine ⟨after, by rw [onChange, ran]; exact ran', ?_, ?_, ?_⟩
  · intro d member
    -- the second loop leaves a name of the new set as it is
    have named : d.name ∈ newValue.elems.map LogDefine.name := List.mem_map_of_mem member
    have unchanged : after d.name = middle d.name := by
      by_cases old : d.name ∈ oldValue.elems.map LogDefine.name
      · obtain ⟨o, member', same⟩ := List.mem_map.mp old
        rcases dropped o member' with ⟨-, unchanged⟩ | ⟨gone, -⟩
        · rwa [same] at unchanged
        · exact absurd (same ▸ named) gone
      · exact kept' d.name old
    rw [unchanged]
    exact made d member
  · intro d member gone
    rcases dropped d member with ⟨stays, -⟩ | ⟨-, cleared⟩
    · exact absurd stays gone
    · exact cleared
  · intro name notOld notNew
    rw [kept' name notOld, kept name notNew]

theorem has_of_eq {xs ys : List LogDefine} (same : xs.isEqv ys LogDefine.eq = true) :
    (∀ d ∈ xs, ∃ o ∈ ys, o.name = d.name ∧ o.level = d.level ∧ o.formatter = d.formatter) ∧
      ∀ o ∈ ys, o.name ∈ xs.map LogDefine.name := by
  induction xs generalizing ys with
  | nil =>
    cases ys with
    | nil => simp
    | cons o ys => exact absurd same (by simp [List.isEqv])
  | cons d xs ih =>
    cases ys with
    | nil => exact absurd same (by simp [List.isEqv])
    | cons o ys =>
      rw [List.isEqv, Bool.and_eq_true, LogDefine.eq_iff] at same
      obtain ⟨⟨name, level, formatter⟩, rest⟩ := same
      obtain ⟨has, named⟩ := ih rest
      constructor
      · intro d' member
        rcases List.mem_cons.mp member with rfl | later
        · exact ⟨o, by simp, name.symm, level.symm, formatter.symm⟩
        · obtain ⟨o', among, fields⟩ := has d' later
          exact ⟨o', by simp [among], fields⟩
      · intro o' member
        rcases List.mem_cons.mp member with rfl | later
        · simp [name]
        · exact List.mem_cons_of_mem _ (named o' later)

/-- The set is taken for the old one when each definition is. -/
theorem setValue_spec (legal : ∀ d ∈ newValue.elems, d.Legal) (s : Logs) :
    ∃ after, s.setValue newValue = some after ∧
      (∀ d ∈ newValue.elems, Renewed s.val d (s.loggers d.name) (after.loggers d.name)) ∧
      (∀ d ∈ s.val.elems, d.name ∉ newValue.elems.map LogDefine.name →
        ∃ logger, after.loggers d.name = some logger ∧ logger.level = .unknown ∧
          logger.appenders = []) ∧
      ∀ name, name ∉ s.val.elems.map LogDefine.name →
        name ∉ newValue.elems.map LogDefine.name → after.loggers name = s.loggers name := by
  by_cases same : newValue.eq s.val
  · obtain ⟨has, named⟩ := has_of_eq same
    refine ⟨s, by rw [Logs.setValue, if_pos same], ?_, ?_, fun _ _ _ => rfl⟩
    · exact fun d member => .inl ⟨has d member, rfl⟩
    · exact fun d member gone => absurd (named d member) gone
  · obtain ⟨after, ran, facts⟩ := onChange_spec s.val legal s.loggers
    exact ⟨⟨newValue, after⟩, by rw [Logs.setValue, if_neg same, ran]; rfl, facts⟩

end Change

/-! ## The claim -/

/-- What a definition says about its appender. The standard output has no file. -/
def LogAppenderDefine.meaning (a : LogAppenderDefine) : LogAppenderDefine :=
  if a.type = 2 then { a with file := "" } else a

/-- A formatter of its own and one that is inherited are told apart, whatever their patterns. -/
theorem formatter_eq_iff {f g pattern : String} :
    (decide (f ≠ "") = decide (g ≠ "") ∧
      some (if f ≠ "" then f else pattern) = some (if g ≠ "" then g else pattern)) ↔ f = g := by
  by_cases empty : f = "" <;> by_cases empty' : g = "" <;> simp [empty, empty', eq_comm]

theorem appender_eq_iff {a b : LogAppenderDefine} (known : a.type = 1 ∨ a.type = 2)
    (known' : b.type = 1 ∨ b.type = 2) (pattern : String) :
    a.appender pattern = b.appender pattern ↔ a.meaning = b.meaning := by
  obtain ⟨type, level, formatter, file⟩ := a
  obtain ⟨type', level', formatter', file'⟩ := b
  rw [LogAppenderDefine.appender, LogAppenderDefine.appender, Appender.mk.injEq, formatter_eq_iff]
  dsimp only at known known' ⊢
  rcases known with rfl | rfl <;> rcases known' with rfl | rfl
  · simp only [LogAppenderDefine.meaning, reduceIte, Destination.file.injEq, Int.reduceEq,
      LogAppenderDefine.mk.injEq]
    tauto
  · simp [LogAppenderDefine.meaning]
  · simp [LogAppenderDefine.meaning]
  · simp only [LogAppenderDefine.meaning, reduceIte, Int.reduceEq, LogAppenderDefine.mk.injEq]
    tauto

theorem map_appender_eq_iff {xs ys : List LogAppenderDefine}
    (known : ∀ a ∈ xs, a.type = 1 ∨ a.type = 2) (known' : ∀ a ∈ ys, a.type = 1 ∨ a.type = 2)
    (pattern : String) :
    xs.map (LogAppenderDefine.appender pattern) = ys.map (LogAppenderDefine.appender pattern) ↔
      xs.map LogAppenderDefine.meaning = ys.map LogAppenderDefine.meaning := by
  induction xs generalizing ys with
  | nil => cases ys <;> simp
  | cons a xs ih =>
    cases ys with
    | nil => simp
    | cons b ys =>
      rw [List.map_cons, List.map_cons, List.map_cons, List.map_cons, List.cons.injEq, List.cons.injEq]
      rw [appender_eq_iff (known a (by simp)) (known' b (by simp))]
      rw [ih (fun a member => known a (by simp [member])) fun b member => known' b (by simp [member])]

theorem inForce_iff {newValue : LogDefines} {s : Logs} (legalOld : ∀ d ∈ s.val.elems, d.Legal)
    (legalNew : ∀ d ∈ newValue.elems, d.Legal)
    (configured : ∀ d ∈ s.val.elems, s.loggers.Follow d) :
    ∃ after, s.setValue newValue = some after ∧
      (InForce s.val newValue s.loggers after.loggers ↔
        ∀ d ∈ newValue.elems, ∀ o ∈ s.val.elems,
          o.name = d.name → o.level = d.level → o.formatter = d.formatter →
            o.appenders.map LogAppenderDefine.meaning =
              d.appenders.map LogAppenderDefine.meaning) := by
  obtain ⟨after, ran, defined, removed, others⟩ := setValue_spec legalNew s
  refine ⟨after, ran, ?_, ?_⟩
  · rintro ⟨defined', -, -⟩ d member o member' name level formatter
    rcases defined d member with ⟨-, unchanged⟩ | ⟨new, -⟩
    · -- the logger is the old one, and it has to follow both
      obtain ⟨logger, found, follows⟩ := defined' d member
      obtain ⟨logger', found', follows'⟩ := configured o member'
      rw [unchanged, ← name, found'] at found
      obtain rfl := Option.some.inj found
      rw [← map_appender_eq_iff (legalOld o member').types (legalNew d member).types logger'.formatter]
      exact follows'.appenders.symm.trans follows.appenders
    · exact absurd ⟨o, member', name, level, formatter⟩ new
  · intro same
    refine ⟨fun d member => ?_, removed, others⟩
    rcases defined d member with ⟨⟨o, member', name, level, formatter⟩, unchanged⟩ | ⟨-, follows⟩
    · obtain ⟨logger, found, follows⟩ := configured o member'
      refine ⟨logger, by rw [unchanged, ← name, found], follows.level.trans level, ?_, ?_⟩
      · intro given
        rw [follows.formatter (formatter ▸ given), formatter]
      · rw [follows.appenders, map_appender_eq_iff (legalOld o member').types (legalNew d member).types]
        exact same d member o member' name level formatter
    · exact follows

/-- One logger, which writes to the standard output. -/
def stdoutOnly (level : LogLevel) (appenders : LogLevel) : LogDefines :=
  ⟨[⟨"system", level, "", [⟨2, appenders, "", ""⟩]⟩], List.pairwise_singleton _ _⟩

/-- The loggers that are configured so. -/
def stdoutLoggers (level : LogLevel) (appenders : LogLevel) : Loggers := fun name =>
  if name = "system" then
    some ⟨level, defaultPattern, [⟨.stdout, appenders, false, some defaultPattern⟩]⟩
  else none

theorem isError_empty : LogFormatter.isError "" = false := by
  rw [LogFormatter.isError, LogFormatter.init, String.toList_empty, scan_nil]
  rfl

private theorem stdoutOnly_legal (level appenders : LogLevel) :
    ∀ d ∈ (stdoutOnly level appenders).elems, d.Legal := by
  intro d member
  obtain rfl := List.mem_singleton.mp member
  refine ⟨fun a among => ?_, isError_empty, fun a among => ?_⟩
  · obtain rfl := List.mem_singleton.mp among
    exact .inr rfl
  · obtain rfl := List.mem_singleton.mp among
    exact isError_empty

private theorem stdoutLoggers_follow (level appenders : LogLevel) :
    ∀ d ∈ (stdoutOnly level appenders).elems, (stdoutLoggers level appenders).Follow d := by
  intro d member
  obtain rfl := List.mem_singleton.mp member
  exact ⟨_, rfl, rfl, fun given => absurd rfl given, rfl⟩

theorem inForce_iff_level : ∃ after,
    (⟨stdoutOnly .info .warn, stdoutLoggers .info .warn⟩ : Logs).setValue (stdoutOnly .error .error) =
      some after ∧
    InForce (stdoutOnly .info .warn) (stdoutOnly .error .error) (stdoutLoggers .info .warn)
      after.loggers := by
  obtain ⟨after, ran, inForce⟩ := inForce_iff
    (s := ⟨stdoutOnly .info .warn, stdoutLoggers .info .warn⟩) (stdoutOnly_legal _ _)
    (stdoutOnly_legal .error .error) (stdoutLoggers_follow _ _)
  refine ⟨after, ran, inForce.mpr fun d member o member' _ level => ?_⟩
  obtain rfl := List.mem_singleton.mp member
  obtain rfl := List.mem_singleton.mp member'
  exact absurd level (by decide)

/-- Only an appender is changed, and the set is taken for the old one. -/
theorem appender_not_changed :
    (∀ d ∈ (stdoutOnly .info .warn).elems, d.Legal) ∧
    (∀ d ∈ (stdoutOnly .info .error).elems, d.Legal) ∧
    (∀ d ∈ (stdoutOnly .info .warn).elems, (stdoutLoggers .info .warn).Follow d) ∧
    (⟨stdoutOnly .info .warn, stdoutLoggers .info .warn⟩ : Logs).setValue (stdoutOnly .info .error) =
      some ⟨stdoutOnly .info .warn, stdoutLoggers .info .warn⟩ ∧
    ¬InForce (stdoutOnly .info .warn) (stdoutOnly .info .error) (stdoutLoggers .info .warn)
      (stdoutLoggers .info .warn) := by
  refine ⟨stdoutOnly_legal _ _, stdoutOnly_legal _ _, stdoutLoggers_follow _ _, ?_, ?_⟩
  · have same : (stdoutOnly .info .error).eq (stdoutOnly .info .warn) = true := by decide
    rw [Logs.setValue, if_pos same]
  · intro inForce
    obtain ⟨logger, found, follows⟩ := inForce.defined _ List.mem_cons_self
    obtain rfl := Option.some.inj found
    exact absurd follows.appenders (by decide)

end ServerFrame.Log
