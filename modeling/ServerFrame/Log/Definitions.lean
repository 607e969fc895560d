import ServerFrame.Config.Yaml
import ServerFrame.Log.Loggers

/-!
# `LexicalCast` of log definitions

The writer and the reader list the fields by hand.
-/
namespace ServerFrame.Log

open Config

/-! ## The conversions -/

/-- `LogLevel::FromString`. -/
def LogLevel.fromString (str : String) : LogLevel :=
  if str = "debug" then .debug
  else if str = "info" then .info
  else if str = "warn" then .warn
  else if str = "error" then .error
  else if str = "fatal" then .fatal
  else if str = "DEBUG" then .debug
  else if str = "INFO" then .info
  else if str = "WARN" then .warn
  else if str = "ERROR" then .error
  else if str = "FATAL" then .fatal
  else .unknown

namespace LogAppenderDefine

/-- The tree of an appender. With another type and nothing else it would be null. -/
def node (a : LogAppenderDefine) : Config.Node :=
  .map ((if a.type = 1 then [("type", .scalar "FileLogAppender"), ("file", .scalar a.file)]
      else if a.type = 2 then [("type", .scalar "StdoutLogAppender")]
      else []) ++
    (if a.level ≠ .unknown then [("level", .scalar a.level.toString)] else []) ++
    (if a.formatter ≠ "" then [("formatter", .scalar a.formatter)] else []))

/-- A round of the loop over the appenders. The rounds that end in `continue` give nothing. -/
def read (level : LogLevel) (a : Config.Node) : Option (Option LogAppenderDefine) := do
  match ← a.get "type" with
  | none => pure none
  | some type =>
    let type ← Config.Node.asString (some type)
    if type = "FileLogAppender" then
      match ← a.get "file" with
      | none => pure none
      | some file =>
        let file ← Config.Node.asString (some file)
        let formatter ← a.stringOr "formatter" defaultPattern
        pure (some ⟨1, level, formatter, file⟩)
    else if type = "StdoutLogAppender" then
      let formatter ← a.stringOr "formatter" defaultPattern
      pure (some ⟨2, level, formatter, ""⟩)
    else pure none

end LogAppenderDefine

namespace LogDefine

/-- The tree of a definition. -/
def node (d : LogDefine) : Config.Node :=
  .map ([("name", .scalar d.name)] ++
    (if d.level ≠ .unknown then [("level", .scalar d.level.toString)] else []) ++
    (if d.formatter ≠ "" then [("formatter", .scalar d.formatter)] else []) ++
    (if d.appenders ≠ [] then
      [("appenders", .sequence (d.appenders.map LogAppenderDefine.node))] else []))

/-- `LexicalCast<LogDefine, std::string>`. -/
def toText (yaml : Yaml) (d : LogDefine) : String := yaml.emit d.node

/-- The appenders of a definition with this level. -/
def readAppenders (level : LogLevel) (n : Config.Node) : Option (List LogAppenderDefine) := do
  match ← n.get "appenders" with
  | none => pure []
  | some appenders =>
    let found ← (← appenders.items).mapM (LogAppenderDefine.read level)
    pure (found.filterMap id)

/-- `LexicalCast<std::string, LogDefine>`, which may throw. -/
def fromText (yaml : Yaml) (v : String) : Option LogDefine := do
  let n ← yaml.load v
  let name ← Config.Node.asString (← n.get "name")
  let level ← n.stringOr "level" ""
  let formatter ← n.stringOr "formatter" ""
  let appenders ← readAppenders (LogLevel.fromString level) n
  pure ⟨name, LogLevel.fromString level, formatter, appenders⟩

end LogDefine

/-! ## The round trip -/

theorem LogLevel.fromString_toString (level : LogLevel) :
    LogLevel.fromString level.toString = level := by
  cases level <;> rfl

/-- What is read from the tree of an appender in a definition with this level. -/
def LogAppenderDefine.reread (level : LogLevel) (a : LogAppenderDefine) : LogAppenderDefine where
  type := a.type
  level := level
  formatter := if a.formatter ≠ "" then a.formatter else defaultPattern
  file := if a.type = 1 then a.file else ""

namespace LogAppenderDefine

variable {a : LogAppenderDefine}

theorem get_type (known : a.type = 1 ∨ a.type = 2) : a.node.get "type" =
    some (some (.scalar (if a.type = 1 then "FileLogAppender" else "StdoutLogAppender"))) := by
  rcases known with file | stdout
  · simp [node, file]
  · simp [node, stdout]

theorem get_file (file : a.type = 1) : a.node.get "file" = some (some (.scalar a.file)) := by
  simp [node, file]

/-- Without a formatter there is a default, whatever that of the logger. -/
theorem formatter_read (known : a.type = 1 ∨ a.type = 2) (level : LogLevel) :
    a.node.stringOr "formatter" defaultPattern = some (a.reread level).formatter := by
  by_cases own : a.formatter = ""
  · have absent : a.node.get "formatter" = some none := by
      rcases known with file | stdout
      · simp [node, file, own]
      · simp [node, stdout, own]
    rw [Config.Node.stringOr_absent absent, reread, if_neg (not_not.mpr own)]
  · have there : a.node.get "formatter" = some (some (.scalar a.formatter)) := by
      rcases known with file | stdout
      · simp [node, file, own]
      · simp [node, stdout, own]
    rw [Config.Node.stringOr_scalar a.formatter there, reread, if_pos own]

theorem read_node (known : a.type = 1 ∨ a.type = 2) (level : LogLevel) :
    read level a.node = some (some (a.reread level)) := by
  rw [read, get_type known]
  rcases known with file | stdout
  · simp [file, Config.Node.asString, get_file file, formatter_read (.inl file) level, reread]
  · simp [stdout, Config.Node.asString, formatter_read (.inr stdout) level, reread]

theorem mapM_read {appenders : List LogAppenderDefine}
    (known : ∀ a ∈ appenders, a.type = 1 ∨ a.type = 2) (level : LogLevel) :
    (appenders.map node).mapM (read level) = some (appenders.map fun a => some (a.reread level)) := by
  induction appenders with
  | nil => rfl
  | cons a appenders ih =>
    have rest := ih fun b member => known b (List.mem_cons_of_mem a member)
    rw [List.map_cons, List.mapM_cons, read_node (known a List.mem_cons_self), rest]
    rfl

/-- What an appender must say to be read as it was written. -/
theorem reread_eq_iff (known : a.type = 1 ∨ a.type = 2) (level : LogLevel) :
    a.reread level = a ↔ a.level = level ∧ a.formatter ≠ "" ∧ (a.type = 2 → a.file = "") := by
  have given : defaultPattern ≠ "" := by decide
  have fields : a.reread level = a ↔ (a.reread level).level = a.level ∧
      (a.reread level).formatter = a.formatter ∧ (a.reread level).file = a.file := by
    obtain ⟨type, level', formatter, file⟩ := a
    simp [reread]
  have formatter : (a.reread level).formatter = a.formatter ↔ a.formatter ≠ "" := by
    by_cases own : a.formatter = "" <;> simp [reread, own, given]
  have file : (a.reread level).file = a.file ↔ (a.type = 2 → a.file = "") := by
    rcases known with first | second
    · simp [reread, first]
    · simp only [reread, second, Int.reduceEq, reduceIte, true_imp_iff]
      exact eq_comm
  rw [fields, formatter, file, reread, eq_comm]

end LogAppenderDefine

namespace LogDefine

variable {d : LogDefine}

theorem get_name : d.node.get "name" = some (some (.scalar d.name)) := by
  simp [node]

theorem level_read : d.node.stringOr "level" "" =
    some (if d.level ≠ .unknown then d.level.toString else "") := by
  by_cases unknown : d.level = .unknown
  · rw [Config.Node.stringOr_absent (by simp [node, unknown]), if_neg (not_not.mpr unknown)]
  · rw [Config.Node.stringOr_scalar d.level.toString (by simp [node, unknown]), if_pos unknown]

/-- A level that is left out is the one that stands for no level. -/
theorem fromString_level (d : LogDefine) :
    LogLevel.fromString (if d.level ≠ .unknown then d.level.toString else "") = d.level := by
  split
  next => exact d.level.fromString_toString
  next unknown =>
    rw [not_not.mp unknown]
    rfl

theorem formatter_read : d.node.stringOr "formatter" "" = some d.formatter := by
  by_cases none : d.formatter = ""
  · rw [Config.Node.stringOr_absent (by simp [node, none]), none]
  · exact Config.Node.stringOr_scalar d.formatter (by simp [node, none])

theorem readAppenders_node (known : ∀ a ∈ d.appenders, a.type = 1 ∨ a.type = 2)
    (level : LogLevel) :
    readAppenders level d.node = some (d.appenders.map (LogAppenderDefine.reread level)) := by
  by_cases empty : d.appenders = []
  · have absent : d.node.get "appenders" = some none := by simp [node, empty]
    rw [readAppenders, absent, empty]
    rfl
  · have there : d.node.get "appenders" =
        some (some (.sequence (d.appenders.map LogAppenderDefine.node))) := by
      simp [node, empty]
    rw [readAppenders, there]
    simp [Config.Node.items, LogAppenderDefine.mapM_read known level]

/-- What is read from the text of a definition. -/
theorem fromText_written {yaml : Yaml} (known : ∀ a ∈ d.appenders, a.type = 1 ∨ a.type = 2)
    (loads : yaml.load (yaml.emit d.node) = some d.node) :
    fromText yaml (d.toText yaml) =
      some { d with appenders := d.appenders.map (LogAppenderDefine.reread d.level) } := by
  rw [fromText, toText, loads]
  simp only [Option.bind_eq_bind, Option.bind_some, get_name, Config.Node.asString, level_read,
    formatter_read, fromString_level, readAppenders_node known]
  rfl

/-- A definition comes back if its appenders have its level and a formatter each, and name a file
only when they write to one. -/
theorem reload_iff {yaml : Yaml} (known : ∀ a ∈ d.appenders, a.type = 1 ∨ a.type = 2)
    (loads : yaml.load (yaml.emit d.node) = some d.node) :
    fromText yaml (d.toText yaml) = some d ↔
      ∀ a ∈ d.appenders, a.level = d.level ∧ a.formatter ≠ "" ∧ (a.type = 2 → a.file = "") := by
  have same : ({ d with appenders := d.appenders.map (LogAppenderDefine.reread d.level) } : LogDefine)
      = d ↔ d.appenders.map (LogAppenderDefine.reread d.level) = d.appenders.map id := by
    obtain ⟨name, level, formatter, appenders⟩ := d
    simp
  rw [fromText_written known loads, Option.some.injEq, same]
  refine List.map_inj_left.trans ?_
  exact forall₂_congr fun a member => LogAppenderDefine.reread_eq_iff (known a member) d.level

end LogDefine

/-- A logger that writes to the standard output. -/
def stdoutDefine (formatter : String) : LogDefine :=
  ⟨"system", .info, "", [⟨2, .info, formatter, ""⟩]⟩

theorem reload_iff_stdout :
    let text := "name: system\nlevel: INFO\nappenders:\n  - type: StdoutLogAppender\n" ++
      "    level: INFO\n    formatter: \"%m\""
    let yaml := Yaml.single text (stdoutDefine "%m").node
    LogDefine.fromText yaml ((stdoutDefine "%m").toText yaml) = some (stdoutDefine "%m") := by
  intro text yaml
  refine (LogDefine.reload_iff (d := stdoutDefine "%m") ?_
    (Yaml.single_loads text (stdoutDefine "%m").node)).mpr ?_
  · simp [stdoutDefine]
  · simp [stdoutDefine]

/-- The appender has the level of its definition and the default formatter after the reload. -/
theorem appender_changed_by_reload :
    let d : LogDefine := ⟨"system", .info, "", [⟨2, .warn, "", ""⟩]⟩
    let text := "name: system\nlevel: INFO\nappenders:\n  - type: StdoutLogAppender\n" ++
      "    level: WARN"
    let yaml := Yaml.single text d.node
    yaml.load (yaml.emit d.node) = some d.node ∧
      LogDefine.fromText yaml (d.toText yaml) =
        some ⟨"system", .info, "", [⟨2, .info, defaultPattern, ""⟩]⟩ ∧
      LogDefine.fromText yaml (d.toText yaml) ≠ some d := by
  intro d text yaml
  have loads : yaml.load (yaml.emit d.node) = some d.node := Yaml.single_loads text d.node
  have read : LogDefine.fromText yaml (d.toText yaml) =
      some ⟨"system", .info, "", [⟨2, .info, defaultPattern, ""⟩]⟩ := by
    rw [LogDefine.fromText_written (by simp [d]) loads]
    rfl
  refine ⟨loads, read, ?_⟩
  rw [read]
  simp [d]

end ServerFrame.Log
