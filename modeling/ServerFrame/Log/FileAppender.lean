import ServerFrame.Log.Format
import Mathlib.Data.List.Induction

/-!
# `FileLogAppender`

The appender opens its file again when three seconds have passed since it last did.
Opening a stream without a mode truncates the file, so what was written before is lost.
What is written goes to the buffer of the stream first; `std::endl` flushes it, and else the
library hands some of it on when it likes. The file is changed through the appender's stream
only.
-/
namespace ServerFrame.Log

/-- How a library deals with the buffer of a stream: when `text` is written behind what is
`pending` there, a front of both goes on to the file and the rest stays. -/
structure Buffering where
  front : String → String → String
  back : String → String → String
  splits : ∀ pending text, front pending text ++ back pending text = pending ++ text

namespace Buffering

/-- The buffer is never full. -/
def lazy : Buffering := ⟨fun _ _ => "", fun pending text => pending ++ text, fun _ _ => by simp⟩

/-- Nothing is kept. -/
def eager : Buffering := ⟨fun pending text => pending ++ text, fun _ _ => "", fun _ _ => by simp⟩

theorem back_empty (lib : Buffering) : lib.back "" "" = "" := by
  have split := lib.splits "" ""
  rw [String.append_empty, String.append_eq_empty_iff] at split
  exact split.2

end Buffering

/-- An output stream on a file, what the file holds, and what waits in the buffer. -/
structure OFStream where
  isOpen : Bool
  failed : Bool
  content : String
  pending : String
  deriving DecidableEq, Repr

namespace OFStream

/-- `open` without a mode fails on an open stream. -/
def openFile (s : OFStream) : OFStream :=
  if s.isOpen then { s with failed := true }
  else { isOpen := true, failed := false, content := "", pending := "" }

def flush (s : OFStream) : OFStream :=
  if s.failed then s else { s with content := s.content ++ s.pending, pending := "" }

def close (s : OFStream) : OFStream :=
  if s.isOpen then { s.flush with isOpen := false } else { s with failed := true }

def write (lib : Buffering) (s : OFStream) (text : String) : OFStream :=
  if s.failed then s
  else if s.isOpen then
    { s with content := s.content ++ lib.front s.pending text, pending := lib.back s.pending text }
  else { s with failed := true }

/-- All that was written since the file was opened. -/
def text (s : OFStream) : String := s.content ++ s.pending

end OFStream

structure FileLogAppender where
  level : LogLevel
  formatter : Option LogFormatter
  fileout : OFStream
  lastTime : UInt64
  deriving DecidableEq, Repr

namespace FileLogAppender

/-- The constructor, on a file that holds `content`. -/
def new (content : String) : FileLogAppender where
  level := .debug
  formatter := none
  fileout := OFStream.openFile ⟨false, false, content, ""⟩
  lastTime := 0

def reOpen (a : FileLogAppender) : Bool × FileLogAppender :=
  let closed := if a.fileout.failed then a.fileout else a.fileout.close
  let fileout := closed.openFile
  (fileout.failed, { a with fileout := fileout })

end FileLogAppender

variable (lib : Buffering) (strftime : String → UInt64 → String)

/-- The item for `%n` ends with `std::endl`. -/
def FormatItem.flushes : FormatItem → Bool
  | .newLine => true
  | _ => false

/-- `FormatItem::Format` into a stream. -/
def FormatItem.write (level : LogLevel) (event : LogEvent) (s : OFStream) (item : FormatItem) :
    OFStream :=
  let wrote := s.write lib (item.format strftime level event)
  if item.flushes then wrote.flush else wrote

/-- `LogFormatter::Format` into a stream. -/
def LogFormatter.write (formatter : LogFormatter) (level : LogLevel) (event : LogEvent)
    (s : OFStream) : OFStream :=
  formatter.items.foldl (FormatItem.write lib strftime level event) s

/-- `FileLogAppender::Log`; an appender without a formatter dereferences a null pointer. -/
def FileLogAppender.log (a : FileLogAppender) (level : LogLevel) (event : LogEvent) :
    Option FileLogAppender :=
  if a.level ≤ level then
    let now := event.time
    let a := if a.lastTime + 3 ≤ now then { a.reOpen.2 with lastTime := now } else a
    match a.formatter with
    | none => none
    | some formatter => some { a with fileout := formatter.write lib strftime level event a.fileout }
  else
    some a

/-- A call of `Log`. -/
structure Call where
  level : LogLevel
  event : LogEvent
  deriving DecidableEq, Repr

def FileLogAppender.logAll (a : FileLogAppender) (calls : List Call) : Option FileLogAppender :=
  calls.foldlM (fun a call => a.log lib strftime call.level call.event) a

/-! ## One event -/

/-- An appender that can write. -/
structure Ready (formatter : LogFormatter) (level : LogLevel) (a : FileLogAppender) : Prop where
  formatter : a.formatter = some formatter
  level : a.level = level
  isOpen : a.fileout.isOpen = true
  good : a.fileout.failed = false

/-- What an item writes, and whether it flushes behind that. -/
abbrev Piece := String × Bool

def LogFormatter.pieces (formatter : LogFormatter) (level : LogLevel) (event : LogEvent) : List Piece :=
  formatter.items.map fun item => (item.format strftime level event, item.flushes)

/-- What is left in the buffer behind some pieces. -/
def leave (pending : String) (pieces : List Piece) : String :=
  pieces.foldl (fun pending piece => if piece.2 then "" else lib.back pending piece.1) pending

/-- Every piece that is not empty flushes, or one behind it does. -/
def Flushed (pieces : List Piece) : Prop :=
  ∀ before piece after, pieces = before ++ piece :: after →
    piece.1 = "" ∨ ∃ p ∈ piece :: after, p.2 = true

section Pieces

variable {lib : Buffering} {pieces more : List Piece}

theorem flushed_nil : Flushed [] := by
  intro before piece after split
  simp at split

theorem flushed_concat (pieces : List Piece) (piece : Piece) :
    Flushed (pieces ++ [piece]) ↔ piece.2 = true ∨ Flushed pieces ∧ piece.1 = "" := by
  constructor
  · intro flushed
    by_cases flushes : piece.2 = true
    · exact .inl flushes
    · refine .inr ⟨fun before first after split => ?_, ?_⟩
      · rcases flushed before first (after ++ [piece]) (by simp [split]) with empty | ⟨p, member, is⟩
        · exact .inl empty
        · refine .inr ⟨p, ?_, is⟩
          -- the last piece is not the one that flushes
          rcases List.mem_append.mp (show p ∈ (first :: after) ++ [piece] from member) with inside | last
          · exact inside
          · rw [List.mem_singleton.mp last] at is
            exact absurd is flushes
      · rcases flushed pieces piece [] rfl with empty | ⟨p, member, is⟩
        · exact empty
        · rw [List.mem_singleton.mp member] at is
          exact absurd is flushes
  · rintro (flushes | ⟨flushed, empty⟩) before first after split
    · refine .inr ⟨piece, ?_, flushes⟩
      have last : piece ∈ before ++ first :: after := split ▸ List.mem_append_right _ (List.mem_singleton_self _)
      rcases List.eq_nil_or_concat after with rfl | ⟨after, piece', rfl⟩
      · obtain ⟨-, same⟩ := List.append_inj' split rfl
        exact List.cons.inj same |>.1 ▸ List.mem_cons_self ..
      · have split' : pieces ++ [piece] = (before ++ first :: after) ++ [piece'] := by simpa using split
        obtain ⟨-, same⟩ := List.append_inj' split' rfl
        simp [List.cons.inj same |>.1]
    · rcases List.eq_nil_or_concat after with rfl | ⟨after, piece', rfl⟩
      · obtain ⟨-, same⟩ := List.append_inj' split rfl
        exact .inl (List.cons.inj same |>.1 ▸ empty)
      · have split' : pieces ++ [piece] = (before ++ first :: after) ++ [piece'] := by simpa using split
        rcases flushed before first after (List.append_inj' split' rfl).1 with empty' | ⟨p, member, is⟩
        · exact .inl empty'
        · refine .inr ⟨p, ?_, is⟩
          rcases List.mem_cons.mp member with rfl | later
          · exact List.mem_cons_self ..
          · rw [List.concat_eq_append]
            exact List.mem_cons_of_mem _ (List.mem_append_left _ later)

theorem leave_concat (pending : String) (pieces : List Piece) (piece : Piece) :
    leave lib pending (pieces ++ [piece]) =
      if piece.2 then "" else lib.back (leave lib pending pieces) piece.1 := by
  rw [leave, List.foldl_append]
  rfl

/-- Where all is flushed, nothing is left. -/
theorem leave_of_flushed {pending : String} (before : Flushed pieces → pending = "")
    (flushed : Flushed (pieces ++ more)) : leave lib pending more = "" := by
  induction more using List.reverseRecOn with
  | nil =>
    rw [List.append_nil] at flushed
    exact before flushed
  | append_singleton more piece ih =>
    rw [← List.append_assoc, flushed_concat] at flushed
    rw [leave_concat]
    rcases flushed with flushes | ⟨flushed, empty⟩
    · rw [if_pos flushes]
    · rw [ih flushed, empty, lib.back_empty, ite_self]

/-- A lazy library leaves all that is not flushed. -/
theorem flushed_of_leave {pending : String} (before : pending = "" → Flushed pieces)
    (nothing : leave .lazy pending more = "") : Flushed (pieces ++ more) := by
  induction more using List.reverseRecOn with
  | nil =>
    rw [List.append_nil]
    exact before nothing
  | append_singleton more piece ih =>
    rw [← List.append_assoc, flushed_concat]
    rw [leave_concat] at nothing
    split at nothing
    next flushes => exact .inl flushes
    next =>
      obtain ⟨left, empty⟩ := String.append_eq_empty_iff.mp nothing
      exact .inr ⟨ih left, empty⟩

theorem leave_eager (pieces : List Piece) : leave .eager "" pieces = "" := by
  induction pieces with
  | nil => rfl
  | cons piece pieces ih =>
    rw [leave, List.foldl_cons]
    have first : (if piece.2 then "" else Buffering.eager.back "" piece.1) = "" := by
      split <;> rfl
    rw [first]
    exact ih

end Pieces

section Step

variable {lib : Buffering} {strftime : String → UInt64 → String} {formatter : LogFormatter}
  {level : LogLevel} {a : FileLogAppender}

theorem join_append (xs ys : List String) :
    String.join (xs ++ ys) = String.join xs ++ String.join ys := by
  induction xs with
  | nil => simp
  | cons x xs ih => simp [ih, String.append_assoc]

theorem join_eq_empty_iff (xs : List String) : String.join xs = "" ↔ ∀ x ∈ xs, x = "" := by
  induction xs with
  | nil => simp
  | cons x xs ih => simp [ih, String.append_eq_empty_iff]

/-- What a stream on which all went well looks like behind some items. -/
structure Wrote (lib : Buffering) (s s' : OFStream) (text : String) (pieces : List Piece) : Prop where
  isOpen : s'.isOpen = true
  good : s'.failed = false
  text_eq : s'.text = s.text ++ text
  pending_eq : s'.pending = leave lib s.pending pieces

theorem write_item (at_level : LogLevel) (event : LogEvent) (item : FormatItem) {s : OFStream}
    (isOpen : s.isOpen = true) (good : s.failed = false) :
    Wrote lib s (item.write lib strftime at_level event s) (item.format strftime at_level event)
      [(item.format strftime at_level event, item.flushes)] := by
  have wrote : s.write lib (item.format strftime at_level event) = { s with
      content := s.content ++ lib.front s.pending (item.format strftime at_level event)
      pending := lib.back s.pending (item.format strftime at_level event) } := by
    simp [OFStream.write, isOpen, good]
  have split := lib.splits s.pending (item.format strftime at_level event)
  rw [FormatItem.write, wrote]
  cases flushes : item.flushes with
  | true =>
    refine ⟨?_, ?_, ?_, ?_⟩
    · simp [OFStream.flush, good, isOpen]
    · simp [OFStream.flush, good]
    · simp [OFStream.flush, OFStream.text, good, String.append_assoc, split]
    · simp [OFStream.flush, good, leave]
  | false => exact ⟨isOpen, good, by simp [OFStream.text, String.append_assoc, split], by simp [leave]⟩

/-- The items write the formatted text one after the other. -/
theorem write_format (at_level : LogLevel) (event : LogEvent) {s : OFStream}
    (isOpen : s.isOpen = true) (good : s.failed = false) :
    Wrote lib s (formatter.write lib strftime at_level event s)
      (formatter.format strftime at_level event) (formatter.pieces strftime at_level event) := by
  obtain ⟨items⟩ := formatter
  simp only [LogFormatter.write, LogFormatter.format, LogFormatter.pieces]
  induction items generalizing s with
  | nil => exact ⟨isOpen, good, by simp, rfl⟩
  | cons item items ih =>
    have first := @write_item lib strftime at_level event item _ isOpen good
    have rest := ih first.isOpen first.good
    refine ⟨rest.isOpen, rest.good, ?_, ?_⟩
    · rw [List.foldl_cons, rest.text_eq, first.text_eq, List.map_cons, String.join_cons,
        String.append_assoc]
    · rw [List.foldl_cons, rest.pending_eq, first.pending_eq]
      rfl

/-- Opening the file again empties it, and the buffer. -/
theorem reOpen_content (ready : Ready formatter level a) :
    a.reOpen.2 = { a with fileout := { a.fileout with content := "", pending := "" } } := by
  obtain ⟨-, -, isOpen, good⟩ := ready
  simp [FileLogAppender.reOpen, OFStream.close, OFStream.openFile, isOpen, good]

theorem log_refused (ready : Ready formatter level a) {call : Call} (refused : ¬ level ≤ call.level) :
    a.log lib strftime call.level call.event = some a := by
  rw [FileLogAppender.log, ready.level, if_neg refused]

theorem log_accepted (ready : Ready formatter level a) {call : Call} (accepted : level ≤ call.level) :
    ∃ a', a.log lib strftime call.level call.event = some a' ∧ Ready formatter level a' ∧
      a'.lastTime =
        (if a.lastTime + 3 ≤ call.event.time then call.event.time else a.lastTime) ∧
      a'.fileout.text =
        (if a.lastTime + 3 ≤ call.event.time then "" else a.fileout.text) ++
          formatter.format strftime call.level call.event ∧
      a'.fileout.pending =
        leave lib (if a.lastTime + 3 ≤ call.event.time then "" else a.fileout.pending)
          (formatter.pieces strftime call.level call.event) := by
  rw [FileLogAppender.log, ready.level, if_pos accepted]
  -- the file is opened anew and is empty, or written on
  by_cases passed : a.lastTime + 3 ≤ call.event.time
  · simp only [if_pos passed, reOpen_content ready, ready.formatter]
    have wrote := @write_format lib strftime formatter call.level call.event
      { a.fileout with content := "", pending := "" } ready.isOpen ready.good
    exact ⟨_, rfl, ⟨rfl, ready.level, wrote.isOpen, wrote.good⟩, rfl, wrote.text_eq, wrote.pending_eq⟩
  · simp only [if_neg passed, ready.formatter]
    have wrote := @write_format lib strftime formatter call.level call.event _ ready.isOpen ready.good
    exact ⟨_, rfl, ⟨rfl, ready.level, wrote.isOpen, wrote.good⟩, rfl, wrote.text_eq, wrote.pending_eq⟩

end Step

/-! ## Runs -/

def Call.text (formatter : LogFormatter) (call : Call) : String :=
  formatter.format strftime call.level call.event

def accepted (level : LogLevel) (calls : List Call) : List Call :=
  calls.filter fun call => decide (level ≤ call.level)

/-- When the file was last opened again, after events were accepted. -/
def lastReOpen (calls : List Call) : UInt64 :=
  calls.foldl (fun last call => if last + 3 ≤ call.event.time then call.event.time else last) 0

/-- The pieces of the texts of all calls. -/
def allPieces (formatter : LogFormatter) (calls : List Call) : List Piece :=
  calls.flatMap fun call => formatter.pieces strftime call.level call.event

/-- Nothing but empty texts was written before an event that opens the file again. -/
def Spared (formatter : LogFormatter) (calls : List Call) : Prop :=
  ∀ before call after, calls = before ++ call :: after →
    lastReOpen before + 3 ≤ call.event.time → ∀ earlier ∈ before, earlier.text strftime formatter = ""

section Run

variable {lib : Buffering} {strftime : String → UInt64 → String} {formatter : LogFormatter}
  {level : LogLevel}

theorem lastReOpen_concat (calls : List Call) (call : Call) :
    lastReOpen (calls ++ [call]) =
      if lastReOpen calls + 3 ≤ call.event.time then call.event.time else lastReOpen calls := by
  rw [lastReOpen, List.foldl_append]
  rfl

theorem spared_concat (calls : List Call) (call : Call) :
    Spared strftime formatter (calls ++ [call]) ↔
      Spared strftime formatter calls ∧
        (lastReOpen calls + 3 ≤ call.event.time →
          ∀ earlier ∈ calls, earlier.text strftime formatter = "") := by
  constructor
  · intro spared
    refine ⟨fun before call' after split => ?_, spared calls call [] rfl⟩
    exact spared before call' (after ++ [call]) (by simp [split])
  · rintro ⟨spared, last⟩ before call' after split
    -- the event that opens the file again is the last one or stands before it
    rcases List.eq_nil_or_concat after with rfl | ⟨after, call'', rfl⟩
    · obtain ⟨rfl, same⟩ := List.append_inj' split rfl
      cases same
      exact last
    · have split' : calls ++ [call] = (before ++ call' :: after) ++ [call''] := by simpa using split
      exact spared before call' after (List.append_inj' split' rfl).1

/-- Texts that are empty need no flush. -/
theorem flushed_of_empty {calls : List Call}
    (empty : ∀ call ∈ calls, call.text strftime formatter = "") :
    Flushed (allPieces strftime formatter calls) := by
  intro before piece after split
  left
  have member : piece ∈ allPieces strftime formatter calls := by simp [split]
  obtain ⟨call, inside, here⟩ := List.mem_flatMap.mp member
  obtain ⟨item, is_item, rfl⟩ := List.mem_map.mp here
  exact (join_eq_empty_iff _).mp (empty call inside) _ (List.mem_map_of_mem is_item)

/-- What the stream has after a run: everything that was accepted, unless an event opened
the file again when it was not empty. Where all of it is flushed nothing is pending, with a lazy
library just then, and with an eager one never. -/
structure Logged (lib : Buffering) (strftime : String → UInt64 → String) (formatter : LogFormatter)
    (calls : List Call) (s : OFStream) : Prop where
  text : s.text = String.join (calls.map (Call.text strftime formatter)) ↔
    Spared strftime formatter calls
  flushed : Spared strftime formatter calls → Flushed (allPieces strftime formatter calls) →
    s.pending = ""
  lazy : lib = .lazy → Spared strftime formatter calls → s.pending = "" →
    Flushed (allPieces strftime formatter calls)
  eager : lib = .eager → s.pending = ""

theorem Logged.concat {calls : List Call} {s s' : OFStream} (logged : Logged lib strftime formatter calls s)
    {call : Call} (text_eq : s'.text =
      (if lastReOpen calls + 3 ≤ call.event.time then "" else s.text) ++ call.text strftime formatter)
    (pending_eq : s'.pending = leave lib
      (if lastReOpen calls + 3 ≤ call.event.time then "" else s.pending)
      (formatter.pieces strftime call.level call.event)) :
    Logged lib strftime formatter (calls ++ [call]) s' := by
  have pieces_eq : allPieces strftime formatter (calls ++ [call]) =
      allPieces strftime formatter calls ++ formatter.pieces strftime call.level call.event := by
    simp [allPieces]
  refine ⟨?_, fun spared flushed => ?_, fun is spared nothing => ?_, fun is => ?_⟩
  · rw [text_eq, List.map_append, join_append, spared_concat]
    simp only [List.map_cons, List.map_nil, String.join_cons, String.join_nil, String.append_empty]
    rw [String.append_left_inj]
    by_cases passed : lastReOpen calls + 3 ≤ call.event.time
    · -- nothing is lost only if nothing had been written
      rw [if_pos passed, eq_comm, join_eq_empty_iff]
      simp only [passed, true_implies, List.forall_mem_map]
      refine ⟨fun all_empty => ⟨?_, all_empty⟩, And.right⟩
      intro before call' after split _ earlier member
      exact all_empty earlier (by rw [split]; exact List.mem_append_left _ member)
    · rw [if_neg passed, logged.text]
      simp [passed]
  · rw [pieces_eq] at flushed
    obtain ⟨before, -⟩ := (spared_concat calls call).mp spared
    rw [pending_eq]
    refine leave_of_flushed (fun flushed => ?_) flushed
    split
    · rfl
    · exact logged.flushed before flushed
  · obtain ⟨before, all_empty⟩ := (spared_concat calls call).mp spared
    rw [pieces_eq]
    rw [pending_eq, is] at nothing
    refine flushed_of_leave (fun nothing => ?_) nothing
    split at nothing
    next passed => exact flushed_of_empty (all_empty passed)
    next => exact logged.lazy is before nothing
  · rw [pending_eq]
    have nothing : (if lastReOpen calls + 3 ≤ call.event.time then "" else s.pending) = "" := by
      split
      · rfl
      · exact logged.eager is
    rw [nothing, is]
    exact leave_eager _

theorem logAll_spec {a : FileLogAppender} (ready : Ready formatter level a)
    (empty : a.fileout.text = "") (fresh : a.lastTime = 0) (calls : List Call) :
    ∃ a', a.logAll lib strftime calls = some a' ∧ Ready formatter level a' ∧
      a'.lastTime = lastReOpen (accepted level calls) ∧
      Logged lib strftime formatter (accepted level calls) a'.fileout := by
  induction calls using List.reverseRecOn with
  | nil =>
    have nothing := (String.append_eq_empty_iff.mp empty).2
    have spared : Spared strftime formatter (accepted level []) := by
      intro before call after split
      simp [accepted] at split
    exact ⟨a, rfl, ready, fresh, iff_of_true (by simp [empty, accepted]) spared,
      fun _ _ => nothing, fun _ _ _ => flushed_nil, fun _ => nothing⟩
  | append_singleton calls call ih =>
    obtain ⟨mid, ran, ready, last, logged⟩ := ih
    have ran' : a.logAll lib strftime (calls ++ [call]) =
        mid.log lib strftime call.level call.event := by
      simp only [FileLogAppender.logAll] at ran ⊢
      rw [List.foldlM_append, ran]
      simp
    rw [ran']
    by_cases taken : level ≤ call.level
    · have grown : accepted level (calls ++ [call]) = accepted level calls ++ [call] := by
        simp [accepted, taken]
      obtain ⟨a', wrote, ready', last', text_eq, pending_eq⟩ :=
        @log_accepted lib strftime _ _ _ ready _ taken
      rw [last] at text_eq pending_eq
      exact ⟨a', wrote, ready', by rw [last', grown, lastReOpen_concat, last],
        grown ▸ logged.concat text_eq pending_eq⟩
    · -- the level of the appender keeps the event out
      have same : accepted level (calls ++ [call]) = accepted level calls := by
        simp [accepted, taken]
      rw [same]
      exact ⟨mid, log_refused ready taken, ready, last, logged⟩

end Run

/-- After any sequence of calls the file holds the texts of all accepted events, in order and
whatever the library does with its buffers, exactly if every text that was written before an event
that opens the file again is empty, and every piece that is not empty is flushed. -/
theorem file_complete_iff (old : String) (formatter : LogFormatter) (level : LogLevel)
    (calls : List Call) :
    (∀ lib, ∃ a, { FileLogAppender.new old with formatter := some formatter, level := level }.logAll lib
        strftime calls = some a ∧
      a.fileout.content = String.join ((accepted level calls).map (Call.text strftime formatter))) ↔
    Spared strftime formatter (accepted level calls) ∧
      Flushed (allPieces strftime formatter (accepted level calls)) := by
  have ready : Ready formatter level
      { FileLogAppender.new old with formatter := some formatter, level := level } :=
    ⟨rfl, rfl, rfl, rfl⟩
  have runs := fun lib => @logAll_spec lib strftime _ _ _ ready rfl rfl calls
  constructor
  · intro complete
    -- an eager library shows what is lost by opening, a lazy one what is not flushed
    have spared : Spared strftime formatter (accepted level calls) := by
      obtain ⟨a, ran, -, -, logged⟩ := runs .eager
      obtain ⟨a', ran', all⟩ := complete .eager
      obtain rfl := Option.some.inj (ran.symm.trans ran')
      rw [← logged.text, OFStream.text, logged.eager rfl, String.append_empty]
      exact all
    obtain ⟨a, ran, -, -, logged⟩ := runs .lazy
    obtain ⟨a', ran', all⟩ := complete .lazy
    obtain rfl := Option.some.inj (ran.symm.trans ran')
    have whole := logged.text.mpr spared
    rw [OFStream.text, all] at whole
    exact ⟨spared, logged.lazy rfl spared (String.append_eq_left_iff.mp whole)⟩
  · rintro ⟨spared, flushed⟩ lib
    obtain ⟨a, ran, -, -, logged⟩ := runs lib
    have whole := logged.text.mpr spared
    rw [OFStream.text, logged.flushed spared flushed, String.append_empty] at whole
    exact ⟨a, ran, whole⟩

/-- Two events three seconds apart: the second one opens the file again and the first text
is gone, with a library that keeps nothing too. One event without a line end: the text waits in the
buffer. -/
theorem reOpen_loses_text :
    let event : UInt64 → String → LogEvent := fun time content =>
      ⟨"main.cc", 1, 0, 1, 0, time, "main", content, "root"⟩
    let calls : List Call := [⟨.info, event 3 "a"⟩, ⟨.info, event 6 "b"⟩]
    let formatter : LogFormatter := ⟨[.message]⟩
    (∃ a, { FileLogAppender.new "" with formatter := some formatter }.logAll .eager (fun _ _ => "") calls =
        some a ∧ accepted .debug calls = calls ∧ a.fileout.content = "b" ∧
      a.fileout.content ≠ String.join (calls.map (Call.text (fun _ _ => "") formatter))) ∧
    ∃ a, { FileLogAppender.new "" with formatter := some formatter }.logAll .lazy (fun _ _ => "")
        [⟨.info, event 1 "a"⟩] = some a ∧ a.fileout.content = "" := by
  intro event calls formatter
  exact ⟨⟨_, rfl, by decide, by decide, by decide⟩, _, rfl, by decide⟩

end ServerFrame.Log
