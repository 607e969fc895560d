import ServerFrame.Http.Rules
import ServerFrame.Http.Segmentation

/-!
# `HttpRequest::Dump`

`HttpRequest::Dump` writes a request, `RecvRequest` reads it back. The parser takes the
parts one after the other, and each comes back as it was written.
-/
namespace ServerFrame.Http

open Regular Segments

def httpMethodToString (m : HttpMethod) : String :=
  ((httpMethodMap.find? fun entry => entry.1 = m).map (·.2)).getD "<unknown>"

/-- A number as a stream writes it. -/
def printed (n : Nat) : List UInt8 := (Nat.toDigits 10 n).map fun c => c.toNat.toUInt8

def headerLine (name value : List UInt8) : List UInt8 := name ++ ascii ": " ++ value ++ ascii "\r\n"

/-- `Dump`; `websocket` is `websocket_`. -/
def HttpRequest.dump (r : HttpRequest) (websocket : Bool) : List UInt8 :=
  ascii (httpMethodToString r.method) ++ ascii " " ++ r.path ++
    (if r.query = [] then [] else ascii "?") ++ r.query ++
    (if r.fragment = [] then [] else ascii "#") ++ r.fragment ++
    ascii " HTTP/" ++ printed (r.version >>> 4).toNat ++ ascii "." ++
    printed (r.version &&& 0x0f).toNat ++ ascii "\r\n" ++
    (if websocket then []
      else headerLine (ascii "connection") (ascii (if r.close then "close" else "keep-alive"))) ++
    r.headers.flatMap (fun (name, value) =>
      if !websocket && strcasecmp name (ascii "connection") == .eq then []
      else headerLine name value) ++
    if r.body = [] then ascii "\r\n"
    else headerLine (ascii "content-length") (printed r.body.length) ++ ascii "\r\n" ++ r.body

/-! ## The parser on one part -/

/-- The parser inside of a header: its state and its marks, its position, what is left, and
the request so far. -/
structure Place where
  cs : Nat
  m : Marks
  pos : Nat
  rest : List UInt8
  data : HttpRequest

/-- The header `head` comes out the same from both places. -/
structure Same (uriRelaxed : Bool) (head : List UInt8) (a b : Place) : Prop where
  completes : completes uriRelaxed a.cs a.rest = completes uriRelaxed b.cs b.rest
  delivers : deliverAll head (fun _ => 0) (a.data, 0) (scan uriRelaxed a.cs a.m a.pos a.rest) =
    deliverAll head (fun _ => 0) (b.data, 0) (scan uriRelaxed b.cs b.m b.pos b.rest)

section Parts

variable {uriRelaxed : Bool} {head : List UInt8}

theorem Same.trans {a b c : Place} (first : Same uriRelaxed head a b)
    (second : Same uriRelaxed head b c) : Same uriRelaxed head a c :=
  ⟨first.completes.trans second.completes, first.delivers.trans second.delivers⟩

theorem text_here {pos : Nat} {w rest : List UInt8} (here : head.drop pos = w ++ rest) :
    Span.text ⟨pos, pos + w.length⟩ head = w := by
  rw [Span.text, here, Nat.add_sub_cancel_left, List.take_left]

theorem drop_next {pos : Nat} {w rest : List UInt8} {b : UInt8}
    (here : head.drop pos = w ++ b :: rest) : head.drop (pos + w.length + 1) = rest := by
  rw [Nat.add_assoc, ← List.drop_drop, here, ← List.drop_drop, List.drop_left]
  rfl

variable {cs pos : Nat} {w rest : List UInt8} (m : Marks) (data : HttpRequest) {data' : HttpRequest}

/-- One part and the byte behind it. -/
theorem same_part {c : Rules.Closer} (tested : Rules.passes uriRelaxed cs w c = true)
    (not_done : .done ∉ c.reports)
    (delivered : deliverAll head (fun _ => 0) (data, 0)
      ((m.setAll pos (Rules.opening cs)).tokens (pos + w.length) c.reports) = .ok (data', 0)) :
    Same uriRelaxed head ⟨cs, m, pos, w ++ c.byte :: rest, data⟩
      ⟨c.target, (m.setAll pos (Rules.opening cs)).setAll (pos + w.length) c.reports,
        pos + w.length + 1, rest, data'⟩ := by
  obtain ⟨completes_eq, scan_eq⟩ := Rules.scan_part tested not_done m pos rest
  refine ⟨completes_eq, ?_⟩
  simp only [scan_eq, deliverAll_append, delivered, Except.bind]

/-- A single byte that reports nothing. -/
theorem same_byte {b : UInt8} {target : Nat} {acts : List Act}
    (moves : transition uriRelaxed cs b = some (target, acts)) (not_done : .done ∉ acts)
    (quiet : m.tokens pos acts = []) :
    Same uriRelaxed head ⟨cs, m, pos, b :: rest, data⟩
      ⟨target, m.setAll pos acts, pos + 1, rest, data⟩ := by
  refine ⟨?_, ?_⟩
  · simp only [completes, moves, if_neg not_done]
  · simp only [scan, moves, quiet, List.nil_append]

theorem same_path (is : Matches (Rules.relativePart uriRelaxed) w) {c : Rules.Closer}
    (member : c ∈ Rules.pathClosers) (here : head.drop pos = w ++ c.byte :: rest) :
    ∃ m', Same uriRelaxed head ⟨3, m, pos, w ++ c.byte :: rest, data⟩
      ⟨c.target, m', pos + w.length + 1, rest, { data with path := w }⟩ := by
  have tested := Rules.passes_of_reads (Rules.reads_relativePart uriRelaxed) is member
  have reported : deliverAll head (fun _ => 0) (data, 0) [.path ⟨pos, pos + w.length⟩] =
      .ok ({ data with path := w }, 0) := by
    simp only [deliverAll, deliver, text_after_zero, text_here here]
  simp only [Rules.pathClosers, List.mem_cons, List.not_mem_nil, or_false] at member
  rcases member with rfl | rfl | rfl
  all_goals exact ⟨_, same_part m data tested (by decide) reported⟩

theorem same_query (is : Matches (Rules.query uriRelaxed) w) {c : Rules.Closer}
    (member : c ∈ Rules.queryClosers) (here : head.drop pos = w ++ c.byte :: rest) :
    ∃ m', Same uriRelaxed head ⟨29, m, pos, w ++ c.byte :: rest, data⟩
      ⟨c.target, m', pos + w.length + 1, rest, { data with query := w }⟩ := by
  have tested := Rules.passes_of_reads (Rules.reads_query uriRelaxed) is member
  have whole : ¬ pos + w.length < pos := by omega
  have reported : deliverAll head (fun _ => 0) (data, 0) [.query ⟨pos, pos + w.length⟩] =
      .ok ({ data with query := w }, 0) := by
    simp only [deliverAll, deliver, Nat.sub_self, Nat.add_zero, if_neg whole, text_here here]
  simp only [Rules.queryClosers, List.mem_cons, List.not_mem_nil, or_false] at member
  rcases member with rfl | rfl
  all_goals exact ⟨_, same_part m data tested (by decide) reported⟩

theorem same_fragment (is : Matches (Rules.fragment uriRelaxed) w)
    (here : head.drop pos = w ++ 32 :: rest) :
    ∃ m', Same uriRelaxed head ⟨20, m, pos, w ++ 32 :: rest, data⟩
      ⟨4, m', pos + w.length + 1, rest, { data with fragment := w }⟩ := by
  have tested := Rules.passes_of_reads (Rules.reads_fragment uriRelaxed) is
    (List.mem_singleton.mpr rfl)
  have reported : deliverAll head (fun _ => 0) (data, 0) [.fragment ⟨pos, pos + w.length⟩] =
      .ok ({ data with fragment := w }, 0) := by
    simp only [deliverAll, deliver, text_after_zero, text_here here]
  exact ⟨_, same_part m data tested (by decide) reported⟩

/-- The path, the query and the fragment as `Dump` writes them. -/
def HttpRequest.target (r : HttpRequest) : List UInt8 :=
  r.path ++ ((if r.query = [] then [] else ascii "?") ++ (r.query ++
    ((if r.fragment = [] then [] else ascii "#") ++ r.fragment)))

/-- What lies between the path and the version. -/
theorem same_target {r : HttpRequest} (path : Matches (Rules.relativePart uriRelaxed) r.path)
    (query : Matches (Rules.query uriRelaxed) r.query)
    (fragment : Matches (Rules.fragment uriRelaxed) r.fragment) (no_query : data.query = [])
    (no_fragment : data.fragment = []) (here : head.drop pos = r.target ++ 32 :: rest) :
    ∃ m', Same uriRelaxed head ⟨3, m, pos, r.target ++ 32 :: rest, data⟩
      ⟨4, m', pos + r.target.length + 1, rest,
        { data with path := r.path, query := r.query, fragment := r.fragment }⟩ := by
  have query_mark : ascii "?" = [63] := by decide
  have fragment_mark : ascii "#" = [35] := by decide
  by_cases q : r.query = []
  · by_cases f : r.fragment = []
    · have target_eq : r.target = r.path := by simp [HttpRequest.target, q, f]
      rw [target_eq] at here ⊢
      obtain ⟨m₁, first⟩ := same_path m data path (List.mem_cons_self ..) here
      exact ⟨m₁, by simpa [q, f, no_query, no_fragment] using first⟩
    · have target_eq : r.target = r.path ++ 35 :: r.fragment := by
        simp [HttpRequest.target, q, f, fragment_mark]
      rw [target_eq, List.append_assoc, List.cons_append] at here
      have member : ⟨35, 20, [.requestPath, .requestUri]⟩ ∈ Rules.pathClosers := by decide
      obtain ⟨m₁, first⟩ := same_path m data path member here
      obtain ⟨m₂, second⟩ := same_fragment m₁ { data with path := r.path } fragment (drop_next here)
      have position : pos + r.path.length + 1 + r.fragment.length + 1 =
          pos + r.target.length + 1 := by
        simp only [target_eq, List.length_append, List.length_cons]
        omega
      have both := first.trans second
      rw [position] at both
      refine ⟨m₂, ?_⟩
      rw [target_eq, List.append_assoc, List.cons_append, ← target_eq]
      simpa [q, no_query] using both
  · by_cases f : r.fragment = []
    · have target_eq : r.target = r.path ++ 63 :: r.query := by
        simp [HttpRequest.target, q, f, query_mark]
      rw [target_eq, List.append_assoc, List.cons_append] at here
      have member : ⟨63, 29, [.requestPath]⟩ ∈ Rules.pathClosers := by decide
      obtain ⟨m₁, first⟩ := same_path m data path member here
      obtain ⟨m₂, second⟩ := same_query m₁ { data with path := r.path } query
        (List.mem_cons_self ..) (drop_next here)
      have position : pos + r.path.length + 1 + r.query.length + 1 = pos + r.target.length + 1 := by
        simp only [target_eq, List.length_append, List.length_cons]
        omega
      have both := first.trans second
      rw [position] at both
      refine ⟨m₂, ?_⟩
      rw [target_eq, List.append_assoc, List.cons_append, ← target_eq]
      simpa [f, no_fragment] using both
    · have target_eq : r.target = r.path ++ 63 :: (r.query ++ 35 :: r.fragment) := by
        simp [HttpRequest.target, q, f, query_mark, fragment_mark]
      rw [target_eq, List.append_assoc, List.cons_append, List.append_assoc, List.cons_append] at here
      have member : ⟨63, 29, [.requestPath]⟩ ∈ Rules.pathClosers := by decide
      have member' : ⟨35, 20, [.queryString, .requestUri]⟩ ∈ Rules.queryClosers := by decide
      obtain ⟨m₁, first⟩ := same_path m data path member here
      have here₁ := drop_next here
      obtain ⟨m₂, second⟩ := same_query m₁ { data with path := r.path } query member' here₁
      obtain ⟨m₃, third⟩ := same_fragment m₂ { data with path := r.path, query := r.query } fragment
        (drop_next here₁)
      have position : pos + r.path.length + 1 + r.query.length + 1 + r.fragment.length + 1 =
          pos + r.target.length + 1 := by
        simp only [target_eq, List.length_append, List.length_cons]
        omega
      have all := (first.trans second).trans third
      rw [position] at all
      refine ⟨m₃, ?_⟩
      rw [target_eq, List.append_assoc, List.cons_append, List.append_assoc, List.cons_append,
        ← target_eq]
      exact all

/-- The end of a line. -/
theorem same_newline :
    Same uriRelaxed head ⟨17, m, pos, 10 :: rest, data⟩ ⟨13, m, pos + 1, rest, data⟩ := by
  have moves : transition uriRelaxed 17 10 = some (13, []) := by
    cases uriRelaxed <;> decide
  exact same_byte m data moves (by simp) rfl

theorem same_version {version : UInt8}
    (written : Rules.passes uriRelaxed 4 w ⟨13, 17, [.httpVersion]⟩ = true)
    (is : versionOf w = some version) (here : head.drop pos = w ++ 13 :: 10 :: rest) :
    ∃ m', Same uriRelaxed head ⟨4, m, pos, w ++ 13 :: 10 :: rest, data⟩
      ⟨13, m', pos + w.length + 2, rest, { data with version := version }⟩ := by
  have reported : deliverAll head (fun _ => 0) (data, 0) [.version ⟨pos, pos + w.length⟩] =
      .ok ({ data with version := version }, 0) := by
    simp only [deliverAll, deliver, text_after_zero, text_here here, is]
  exact ⟨_, (same_part m data written (by decide) reported).trans (same_newline _ _)⟩

/-- One header. -/
theorem same_field {name value : List UInt8} (is_name : Matches Rules.fieldName name)
    (is_value : Matches Rules.fieldValue value) (named : name ≠ [])
    (here : head.drop pos = headerLine name value ++ rest) :
    ∃ m', Same uriRelaxed head ⟨13, m, pos, headerLine name value ++ rest, data⟩
      ⟨13, m', pos + (headerLine name value).length, rest, data.setHeader name value⟩ := by
  have line_eq : headerLine name value ++ rest =
      name ++ 58 :: ([] ++ 32 :: (value ++ 13 :: 10 :: rest)) := by
    simp [headerLine, show ascii ": " = [58, 32] by decide, show ascii "\r\n" = [13, 10] by decide]
  have name_read := Rules.passes_of_reads (Rules.reads_fieldName uriRelaxed) is_name
    (List.mem_singleton.mpr rfl)
  have value_read := Rules.passes_of_reads (Rules.reads_fieldValue uriRelaxed) is_value
    (List.mem_singleton.mpr rfl)
  have blank : transition uriRelaxed 15 32 = some (15, [.mark]) := by
    cases uriRelaxed <;> decide
  rw [line_eq] at here ⊢
  have here₁ := drop_next here
  have here₂ := drop_next here₁
  obtain ⟨m₁, m₁_eq⟩ : ∃ m₁, m₁ =
      (m.setAll pos [.startField]).setAll (pos + name.length) [.writeField] := ⟨_, rfl⟩
  have after_name : Same uriRelaxed head
      ⟨13, m, pos, name ++ 58 :: ([] ++ 32 :: (value ++ 13 :: 10 :: rest)), data⟩
      ⟨15, m₁, pos + name.length + 1, 32 :: (value ++ 13 :: 10 :: rest), data⟩ :=
    m₁_eq ▸ same_part m data name_read (by decide) rfl
  have after_blank : Same uriRelaxed head
      ⟨15, m₁, pos + name.length + 1, 32 :: (value ++ 13 :: 10 :: rest), data⟩
      ⟨15, m₁.setAll (pos + name.length + 1) [.mark], pos + name.length + 1 + 1,
        value ++ 13 :: 10 :: rest, data⟩ :=
    same_byte m₁ data blank (by simp) rfl
  -- the marks of the name stand until the value is reported
  have fields_eq : m₁.fieldStart = pos ∧ m₁.fieldStop = pos + name.length := by
    rw [m₁_eq]
    exact ⟨rfl, rfl⟩
  have reported : deliverAll head (fun _ => 0) (data, 0)
      [.field ⟨m₁.fieldStart, m₁.fieldStop⟩
        ⟨pos + name.length + 1 + 1, pos + name.length + 1 + 1 + value.length⟩] =
      .ok (data.setHeader name value, 0) := by
    have name_text := text_here here
    have value_text := text_here here₂
    simp only [List.length_nil, Nat.add_zero] at value_text
    rw [fields_eq.1, fields_eq.2]
    simp only [deliverAll, deliver, addField, text_after_zero, name_text, value_text, if_neg named]
    rfl
  obtain ⟨m₂, after_value⟩ : ∃ m₂, Same uriRelaxed head
      ⟨15, m₁.setAll (pos + name.length + 1) [.mark], pos + name.length + 1 + 1,
        value ++ 13 :: 10 :: rest, data⟩
      ⟨17, m₂, pos + name.length + 1 + 1 + value.length + 1, 10 :: rest,
        data.setHeader name value⟩ :=
    ⟨_, same_part _ data value_read (by decide) reported⟩
  have length_eq : pos + (headerLine name value).length =
      pos + name.length + 1 + 1 + value.length + 1 + 1 := by
    have lengths := congrArg List.length line_eq
    simp only [List.length_append, List.length_cons, List.length_nil] at lengths
    omega
  rw [length_eq]
  exact ⟨m₂, ((after_name.trans after_blank).trans after_value).trans (same_newline m₂ _)⟩

/-- `m[name] = value` for each of the entries. -/
def HttpRequest.setHeaders (r : HttpRequest) (entries : List (List UInt8 × List UInt8)) : HttpRequest :=
  entries.foldl (fun r e => r.setHeader e.1 e.2) r

def headerLines (entries : List (List UInt8 × List UInt8)) : List UInt8 :=
  entries.flatMap fun e => headerLine e.1 e.2

/-- All headers. -/
theorem same_fields {entries : List (List UInt8 × List UInt8)}
    (good : ∀ e ∈ entries, Matches Rules.fieldName e.1 ∧ Matches Rules.fieldValue e.2 ∧ e.1 ≠ [])
    (here : head.drop pos = headerLines entries ++ rest) :
    ∃ m', Same uriRelaxed head ⟨13, m, pos, headerLines entries ++ rest, data⟩
      ⟨13, m', pos + (headerLines entries).length, rest, data.setHeaders entries⟩ := by
  induction entries generalizing m data pos with
  | nil => exact ⟨m, ⟨rfl, rfl⟩⟩
  | cons e entries ih =>
    obtain ⟨is_name, is_value, named⟩ := good e (List.mem_cons_self ..)
    have lines_eq : headerLines (e :: entries) ++ rest =
        headerLine e.1 e.2 ++ (headerLines entries ++ rest) := by
      simp [headerLines]
    rw [lines_eq] at here ⊢
    obtain ⟨m₁, first⟩ : ∃ m₁, Same uriRelaxed head
        ⟨13, m, pos, headerLine e.1 e.2 ++ (headerLines entries ++ rest), data⟩
        ⟨13, m₁, pos + (headerLine e.1 e.2).length, headerLines entries ++ rest,
          data.setHeader e.1 e.2⟩ :=
      same_field m data is_name is_value named here
    have here₁ : head.drop (pos + (headerLine e.1 e.2).length) = headerLines entries ++ rest := by
      rw [← List.drop_drop, here, List.drop_left]
    obtain ⟨m', later⟩ := ih m₁ (data.setHeader e.1 e.2)
      (fun e member => good e (List.mem_cons_of_mem _ member)) here₁
    refine ⟨m', ?_⟩
    have position : pos + (headerLine e.1 e.2).length + (headerLines entries).length =
        pos + (headerLines (e :: entries)).length := by
      simp only [headerLines, List.flatMap_cons, List.length_append]
      omega
    have both := first.trans later
    rwa [position] at both

/-- The empty line ends the header. -/
theorem ends_header : completes uriRelaxed 13 [13, 10] = true ∧
    scan uriRelaxed 13 m pos [13, 10] = [] := by
  cases uriRelaxed
  · exact ⟨by decide, rfl⟩
  · exact ⟨by decide, rfl⟩

end Parts

end ServerFrame.Http
