import ServerFrame.Http.Dump
import ServerFrame.Http.Headers

/-!
# Requests out and in again

A request that `Dump` writes comes back from `RecvRequest` as it was, except that the grammar
has no method with a hyphen.
-/
namespace ServerFrame.Http

open Regular Segments

/-! ## The header of a request -/

theorem httpMethodToString_mem (m : HttpMethod) : (m, httpMethodToString m) ∈ httpMethodMap := by
  cases m <;> decide

/-- The parser reads every method but `M-SEARCH` as the one that was written. -/
theorem method_read (uriRelaxed : Bool) {m : HttpMethod} (no_hyphen : m ≠ .msearch) :
    Rules.passes uriRelaxed 1 (ascii (httpMethodToString m)) ⟨32, 3, [.requestMethod]⟩ = true ∧
      charsToHttpMethod (ascii (httpMethodToString m)) = some m := by
  have all : ∀ entry ∈ httpMethodMap, entry.1 = .msearch ∨
      Rules.passes uriRelaxed 1 (ascii entry.2) ⟨32, 3, [.requestMethod]⟩ = true ∧
        charsToHttpMethod (ascii entry.2) = some entry.1 := by
    cases uriRelaxed <;> decide
  exact (all _ (httpMethodToString_mem m)).resolve_left no_hyphen

/-- The version as `Dump` writes it. -/
def versionText (version : UInt8) : List UInt8 :=
  ascii "HTTP/" ++ (printed (version >>> 4).toNat ++ (ascii "." ++ printed (version &&& 0x0f).toNat))

theorem version_read (uriRelaxed : Bool) {version : UInt8} (known : version = 0x10 ∨ version = 0x11) :
    Rules.passes uriRelaxed 4 (versionText version) ⟨13, 17, [.httpVersion]⟩ = true ∧
      versionOf (versionText version) = some version := by
  rcases known with rfl | rfl
  all_goals cases uriRelaxed <;> decide

/-- A request as `Dump` can write it: a reference of the grammar, names that are tokens, and
values without control characters and leading blanks. -/
structure HttpRequest.Plain (uriRelaxed : Bool) (r : HttpRequest) : Prop where
  version : r.version = 0x10 ∨ r.version = 0x11
  path : Matches (Rules.relativePart uriRelaxed) r.path
  query : Matches (Rules.query uriRelaxed) r.query
  fragment : Matches (Rules.fragment uriRelaxed) r.fragment
  sorted : MapType.Sorted r.headers
  names : ∀ e ∈ r.headers, e.1 ≠ [] ∧ ∀ b ∈ e.1, b ∈ Rules.token
  values : ∀ e ∈ r.headers, (∀ b ∈ e.2, b ∈ Rules.content) ∧ e.2.head? ≠ some 32
  others : ∀ e ∈ r.headers, strcasecmp e.1 (ascii "connection") ≠ .eq ∧
    strcasecmp e.1 (ascii "content-length") ≠ .eq

theorem matches_fieldName {name : List UInt8} (named : name ≠ []) (is : ∀ b ∈ name, b ∈ Rules.token) :
    Matches Rules.fieldName name := by
  cases name with
  | nil => exact absurd rfl named
  | cons b name =>
    exact .cat (.sym (is b (List.mem_cons_self ..)))
      (matches_star_sym fun c member => is c (List.mem_cons_of_mem _ member))

theorem matches_fieldValue {value : List UInt8} (is : ∀ b ∈ value, b ∈ Rules.content)
    (no_blank : value.head? ≠ some 32) : Matches Rules.fieldValue value := by
  cases value with
  | nil => exact .altRight .eps
  | cons b value =>
    have visible : b ∈ Rules.visible := Rules.visible_of_content (is b (List.mem_cons_self ..))
      fun blank => no_blank (congrArg some blank)
    exact .altLeft (.cat (.sym visible)
      (matches_star_sym fun c member => is c (List.mem_cons_of_mem _ member)))

/-- The headers that `Dump` adds in front and behind. -/
def HttpRequest.connectionHeader (r : HttpRequest) : List UInt8 × List UInt8 :=
  (ascii "connection", ascii (if r.close then "close" else "keep-alive"))

def HttpRequest.lengthHeader (r : HttpRequest) : List (List UInt8 × List UInt8) :=
  if r.body = [] then [] else [(ascii "content-length", printed r.body.length)]

/-- The headers in the order in which `Dump` writes them. -/
def HttpRequest.entries (r : HttpRequest) : List (List UInt8 × List UInt8) :=
  r.connectionHeader :: (r.headers ++ r.lengthHeader)

/-- What `Dump` writes before the body. -/
def HttpRequest.head (r : HttpRequest) : List UInt8 :=
  ascii (httpMethodToString r.method) ++ 32 :: (r.target ++ 32 :: (versionText r.version ++
    13 :: 10 :: (headerLines r.entries ++ [13, 10])))

theorem dump_eq {uriRelaxed : Bool} {r : HttpRequest} (plain : r.Plain uriRelaxed) :
    r.dump false = r.head ++ r.body := by
  have all_written : ∀ write : List UInt8 × List UInt8 → List UInt8,
      (∀ e ∈ r.headers, write e = headerLine e.1 e.2) →
        r.headers.flatMap write = headerLines r.headers :=
    fun write same => List.flatMap_congr same
  have blank : ascii " " = [32] := by decide
  have newline : ascii "\r\n" = [13, 10] := by decide
  have version_eq : ascii " HTTP/" = 32 :: ascii "HTTP/" := by decide
  rw [HttpRequest.dump, all_written]
  · rw [HttpRequest.head, HttpRequest.entries, HttpRequest.target, versionText, blank, newline,
      version_eq]
    by_cases empty : r.body = []
    · simp [headerLines, HttpRequest.connectionHeader, HttpRequest.lengthHeader, empty]
    · simp [headerLines, HttpRequest.connectionHeader, HttpRequest.lengthHeader, empty]
  · -- none of the headers is left out
    intro e member
    have other := beq_eq_false_iff_ne.mpr (plain.others e member).1
    simp only [other, Bool.and_false, Bool.false_eq_true, if_false]

theorem digit_of_mem_printed {n : Nat} {b : UInt8} (member : b ∈ printed n) :
    48 ≤ b.toNat ∧ b.toNat ≤ 57 := by
  obtain ⟨c, is_digit, rfl⟩ := List.mem_map.mp member
  have digit := Nat.isDigit_of_mem_toDigits (by decide) (by decide) is_digit
  rw [Char.isDigit, Bool.and_eq_true, decide_eq_true_eq, decide_eq_true_eq] at digit
  have lower := UInt32.le_iff_toNat_le.mp digit.1
  have upper := UInt32.le_iff_toNat_le.mp digit.2
  have first : ('0' : Char).val.toNat = 48 := rfl
  have last : ('9' : Char).val.toNat = 57 := rfl
  have same : c.toNat.toUInt8.toNat = c.val.toNat := by
    rw [Nat.toUInt8_eq, UInt8.toNat_ofNat', Char.toNat]
    exact Nat.mod_eq_of_lt (by omega)
  omega

theorem matches_printed (n : Nat) : Matches Rules.fieldValue (printed n) := by
  have content : ∀ b ∈ printed n, b ∈ Rules.content := by
    intro b member
    obtain ⟨lower, upper⟩ := digit_of_mem_printed member
    exact (Rules.mem_bytes (by decide)).mpr ⟨(32, 126), by decide, by omega, by omega⟩
  refine matches_fieldValue content fun blank => ?_
  exact absurd (digit_of_mem_printed (List.mem_of_mem_head? blank)).1 (by decide)

/-- The names and values of the fields that `Dump` adds by itself. -/
theorem own_fields :
    (∀ name ∈ [ascii "connection", ascii "content-length", ascii "Set-Cookie"],
      name ≠ [] ∧ ∀ b ∈ name, b ∈ Rules.token) ∧
    ∀ value ∈ [ascii "close", ascii "keep-alive"], ∀ b ∈ value, b ∈ Rules.content := by
  decide +kernel

theorem entries_good {uriRelaxed : Bool} {r : HttpRequest} (plain : r.Plain uriRelaxed) :
    ∀ e ∈ r.entries, Matches Rules.fieldName e.1 ∧ Matches Rules.fieldValue e.2 ∧ e.1 ≠ [] := by
  intro e member
  rw [HttpRequest.entries, List.mem_cons, List.mem_append] at member
  rcases member with rfl | member | member
  · obtain ⟨named, is_name⟩ := own_fields.1 (ascii "connection") (by simp)
    refine ⟨matches_fieldName named is_name, ?_, named⟩
    rw [HttpRequest.connectionHeader]
    cases r.close
    · exact matches_fieldValue (own_fields.2 _ (by simp)) (by decide)
    · exact matches_fieldValue (own_fields.2 _ (by simp)) (by decide)
  · obtain ⟨named, is_name⟩ := plain.names e member
    obtain ⟨is_value, no_blank⟩ := plain.values e member
    exact ⟨matches_fieldName named is_name, matches_fieldValue is_value no_blank, named⟩
  · rw [HttpRequest.lengthHeader] at member
    split at member
    next => cases member
    next =>
      obtain rfl := List.mem_singleton.mp member
      obtain ⟨named, is_name⟩ := own_fields.1 (ascii "content-length") (by simp)
      exact ⟨matches_fieldName named is_name, matches_printed _, named⟩

/-- The request that the parser makes of the first line. -/
def HttpRequest.started (r : HttpRequest) : HttpRequest :=
  { HttpRequest.new with
    method := r.method
    path := r.path
    query := r.query
    fragment := r.fragment
    version := r.version }

/-- The first line of a request. -/
theorem same_line {uriRelaxed : Bool} {head lines : List UInt8} {r : HttpRequest}
    (plain : r.Plain uriRelaxed) (no_hyphen : r.method ≠ .msearch)
    (head_eq : head = ascii (httpMethodToString r.method) ++ 32 :: (r.target ++ 32 ::
      (versionText r.version ++ 13 :: 10 :: lines))) :
    ∃ m pos, head.drop pos = lines ∧
      Same uriRelaxed head ⟨1, .new, 0, head, .new⟩ ⟨13, m, pos, lines, r.started⟩ := by
  obtain ⟨method_passes, method_is⟩ := method_read uriRelaxed no_hyphen
  obtain ⟨version_passes, version_is⟩ := version_read uriRelaxed plain.version
  obtain ⟨data, data_eq⟩ : ∃ data, data = { HttpRequest.new with method := r.method } := ⟨_, rfl⟩
  have here : head.drop 0 = ascii (httpMethodToString r.method) ++ 32 :: (r.target ++ 32 ::
      (versionText r.version ++ 13 :: 10 :: lines)) := head_eq
  have reported : deliverAll head (fun _ => 0) (.new, 0)
      [.method ⟨0, 0 + (ascii (httpMethodToString r.method)).length⟩] = .ok (data, 0) := by
    simp only [deliverAll, deliver, text_after_zero, text_here here, method_is, data_eq]
  obtain ⟨m₁, after_method⟩ : ∃ m₁, Same uriRelaxed head ⟨1, .new, 0, head, .new⟩
      ⟨3, m₁, 0 + (ascii (httpMethodToString r.method)).length + 1,
        r.target ++ 32 :: (versionText r.version ++ 13 :: 10 :: lines), data⟩ := by
    rw [head_eq] at reported ⊢
    exact ⟨_, same_part .new .new method_passes (by decide) reported⟩
  have here₁ := drop_next here
  obtain ⟨m₂, after_target⟩ := same_target m₁ data plain.path plain.query plain.fragment
    (by rw [data_eq]; rfl) (by rw [data_eq]; rfl) here₁
  have here₂ := drop_next here₁
  obtain ⟨m₃, after_version⟩ := same_version m₂
    { data with path := r.path, query := r.query, fragment := r.fragment }
    version_passes version_is here₂
  have here₃ := drop_next (drop_next here₂ : _ = [] ++ 10 :: lines)
  have started_eq : { data with
      path := r.path, query := r.query, fragment := r.fragment, version := r.version } = r.started := by
    rw [data_eq]
    rfl
  rw [started_eq] at after_version
  exact ⟨m₃, _, here₃, (after_method.trans after_target).trans after_version⟩

/-- The parser accepts what `Dump` writes, and finds in it what was written. -/
theorem parses_head {uriRelaxed : Bool} {r : HttpRequest} (plain : r.Plain uriRelaxed)
    (no_hyphen : r.method ≠ .msearch) :
    accepts uriRelaxed r.head = true ∧ Parses uriRelaxed r.head (r.started.setHeaders r.entries) := by
  obtain ⟨m₁, pos, here, after_line⟩ := same_line plain no_hyphen (rfl : r.head = _)
  obtain ⟨m₂, after_fields⟩ := same_fields m₁ r.started (entries_good plain) here
  obtain ⟨complete, silent⟩ := ends_header m₂
  obtain ⟨completes_eq, delivers_eq⟩ := after_line.trans after_fields
  rw [complete] at completes_eq
  rw [silent] at delivers_eq
  refine ⟨completes_eq, ?_⟩
  rw [Parses, tokens, received_eq_some]
  exact delivers_eq

/-! ## The headers -/

theorem setHeaders_headers (r : HttpRequest) (entries : List (List UInt8 × List UInt8)) :
    (r.setHeaders entries).headers = entries.foldl (fun m e => MapType.set e.1 e.2 m) r.headers := by
  induction entries generalizing r with
  | nil => rfl
  | cons e entries ih => exact ih (r.setHeader e.1 e.2)

/-- Assignments in order make the map. -/
theorem foldl_set_sorted {front m : MapType} (sorted : MapType.Sorted (front ++ m)) :
    m.foldl (fun m e => MapType.set e.1 e.2 m) front = front ++ m := by
  induction m generalizing front with
  | nil => rw [List.foldl_nil, List.append_nil]
  | cons e m ih =>
    have last : ∀ f ∈ front, folded f.1 < folded e.1 := fun f member =>
      (List.pairwise_append.mp sorted).2.2 f member e (List.mem_cons_self ..)
    have cons_eq : front ++ e :: m = front ++ [(e.1, e.2)] ++ m := by simp
    rw [List.foldl_cons, MapType.set_of_last last, ih (by rwa [← cons_eq]), ← cons_eq]

/-- The headers that `Dump` adds. -/
def isAdded (name : List UInt8) : Bool :=
  strcasecmp name (ascii "connection") == .eq || strcasecmp name (ascii "content-length") == .eq

theorem isAdded_congr (a b : List UInt8) (same : folded a = folded b) : (!isAdded a) = !isAdded b := by
  have by_name : ∀ name, strcasecmp a name == .eq ↔ strcasecmp b name == .eq := by
    intro name
    rw [beq_iff_eq, beq_iff_eq, strcasecmp_eq_iff, strcasecmp_eq_iff, same]
  simp only [isAdded, Bool.eq_iff_iff.mpr (by_name _)]

section Assignments

variable {entries : List (List UInt8 × List UInt8)}

theorem filter_foldl_set {m : MapType} (kept : ∀ e ∈ entries, isAdded e.1 = false)
    (sorted : MapType.Sorted m) :
    (entries.foldl (fun m e => MapType.set e.1 e.2 m) m).filter (fun e => !isAdded e.1) =
      entries.foldl (fun m e => MapType.set e.1 e.2 m) (m.filter fun e => !isAdded e.1) := by
  induction entries generalizing m with
  | nil => rfl
  | cons e entries ih =>
    have kept_e : (!isAdded e.1) = true := by rw [kept e (List.mem_cons_self ..), Bool.not_false]
    rw [List.foldl_cons, List.foldl_cons,
      ih (fun f member => kept f (List.mem_cons_of_mem _ member)) (MapType.sorted_set sorted),
      MapType.filter_set_of_keeps isAdded_congr kept_e sorted]

theorem find_foldl_set {m : MapType} {name : List UInt8}
    (others : ∀ e ∈ entries, folded e.1 ≠ folded name) :
    (entries.foldl (fun m e => MapType.set e.1 e.2 m) m).find name = m.find name := by
  induction entries generalizing m with
  | nil => rfl
  | cons e entries ih =>
    rw [List.foldl_cons, ih fun f member => others f (List.mem_cons_of_mem _ member),
      MapType.find_set, if_neg (others e (List.mem_cons_self ..))]

end Assignments

section Headers

variable {uriRelaxed : Bool} {r : HttpRequest}

/-- The headers of the request that the parser makes. -/
theorem parsed_headers : (r.started.setHeaders r.entries).headers =
    r.lengthHeader.foldl (fun m e => MapType.set e.1 e.2 m)
      (r.headers.foldl (fun m e => MapType.set e.1 e.2 m) [r.connectionHeader]) := by
  rw [setHeaders_headers, HttpRequest.entries, List.foldl_cons, List.foldl_append]
  rfl

variable (plain : r.Plain uriRelaxed)

include plain

theorem headers_kept :
    (r.started.setHeaders r.entries).headers.filter (fun e => !isAdded e.1) = r.headers := by
  have kept : ∀ e ∈ r.headers, isAdded e.1 = false := by
    intro e member
    obtain ⟨other, other'⟩ := plain.others e member
    rw [isAdded, beq_eq_false_iff_ne.mpr other, beq_eq_false_iff_ne.mpr other', Bool.or_false]
  have length_added : (!isAdded (ascii "content-length")) = false := by decide
  have without_length : ∀ m : MapType,
      (r.lengthHeader.foldl (fun m e => MapType.set e.1 e.2 m) m).filter (fun e => !isAdded e.1) =
        m.filter fun e => !isAdded e.1 := by
    intro m
    rw [HttpRequest.lengthHeader]
    split
    next => rfl
    next => exact MapType.filter_set_of_not_keeps isAdded_congr length_added
  have connection_added : [r.connectionHeader].filter (fun e => !isAdded e.1) = [] := by
    have added : isAdded (ascii "connection") = true := by decide
    simp [HttpRequest.connectionHeader, added]
  rw [parsed_headers, without_length, filter_foldl_set kept (List.pairwise_singleton ..),
    connection_added]
  exact foldl_set_sorted plain.sorted

theorem find_connection : (r.started.setHeaders r.entries).headers.find (ascii "connection") =
    some r.connectionHeader.2 := by
  have not_length : ∀ e ∈ r.lengthHeader, folded e.1 ≠ folded (ascii "connection") := by
    intro e member
    rw [HttpRequest.lengthHeader] at member
    split at member
    next => cases member
    next =>
      obtain rfl := List.mem_singleton.mp member
      exact of_decide_eq_true rfl
  rw [parsed_headers, find_foldl_set not_length,
    find_foldl_set fun e member => mt strcasecmp_eq_iff.mpr (plain.others e member).1]
  exact (MapType.find_cons ..).trans (if_pos rfl)

theorem find_contentLength : (r.started.setHeaders r.entries).headers.find (ascii "content-length") =
    if r.body = [] then none else some (printed r.body.length) := by
  have not_before : (r.headers.foldl (fun m e => MapType.set e.1 e.2 m) [r.connectionHeader]).find
      (ascii "content-length") = none := by
    have other : folded (ascii "connection") ≠ folded (ascii "content-length") := by decide
    rw [find_foldl_set fun e member => mt strcasecmp_eq_iff.mpr (plain.others e member).2]
    exact (MapType.find_cons ..).trans (if_neg other)
  rw [parsed_headers, HttpRequest.lengthHeader]
  split
  next => exact not_before
  next => rw [List.foldl_cons, List.foldl_nil, MapType.find_set, if_pos rfl]

end Headers

/-! ## The round trip -/

/-- The request comes back; the headers but for those that were added. -/
structure HttpRequest.GivesBack (request r : HttpRequest) : Prop where
  method : request.method = r.method
  version : request.version = r.version
  path : request.path = r.path
  query : request.query = r.query
  fragment : request.fragment = r.fragment
  close : request.close = r.close
  body : request.body = r.body
  headers : request.headers.filter (fun e => !isAdded e.1) = r.headers

theorem setHeaders_eq (r : HttpRequest) (entries : List (List UInt8 × List UInt8)) :
    r.setHeaders entries = { r with headers := (r.setHeaders entries).headers } := by
  induction entries generalizing r with
  | nil => rfl
  | cons e entries ih => exact ih (r.setHeader e.1 e.2)

theorem givesBack_parsed {uriRelaxed : Bool} {r : HttpRequest} (plain : r.Plain uriRelaxed) :
    HttpRequest.GivesBack { r.started.setHeaders r.entries with body := r.body }.init r := by
  have frame := setHeaders_eq r.started r.entries
  have connection : HttpRequest.getHeader { r.started.setHeaders r.entries with body := r.body }
      (ascii "connection") = r.connectionHeader.2 := by
    rw [HttpRequest.getHeader, find_connection plain, Option.getD_some]
  have init_eq : { r.started.setHeaders r.entries with body := r.body }.init =
      { r.started.setHeaders r.entries with body := r.body, close := r.close } := by
    simp only [HttpRequest.init, connection, HttpRequest.connectionHeader]
    cases r.close
    · exact if_neg (by decide)
    · exact if_neg (by decide)
  have headers := headers_kept plain
  rw [init_eq]
  rw [frame] at headers ⊢
  exact ⟨rfl, rfl, rfl, rfl, rfl, rfl, rfl, headers⟩

theorem toInt64_toUInt64 {n : Nat} (small : n < 2 ^ 31) : toInt64 n.toUInt64 = n := by
  have value : n.toUInt64.toNat = n := by
    rw [Nat.toUInt64_eq, UInt64.toNat_ofNat']
    exact Nat.mod_eq_of_lt (by omega)
  unfold toInt64
  rw [value]
  exact Int.bmod_eq_of_le (by omega) (by omega)

/-- The header announces the body. -/
theorem contentLength_parsed {uriRelaxed : Bool} {r : HttpRequest}
    {lexicalCast : List UInt8 → Option UInt64} (plain : r.Plain uriRelaxed)
    (cast : lexicalCast (printed r.body.length) = some r.body.length.toUInt64) :
    (r.started.setHeaders r.entries).getHeaderAs lexicalCast (ascii "content-length") 0 =
      r.body.length.toUInt64 := by
  rw [HttpRequest.getHeaderAs, find_contentLength plain]
  by_cases empty : r.body = []
  · simp [empty]
  · simp [empty, cast]

/-- No read ends inside of a header that arrives in one piece. -/
theorem harmless_one_piece {uriRelaxed : Bool} {head body : List UInt8} {data : HttpRequest}
    (parses : Parses uriRelaxed head data) :
    harmless head (cutBefore [head ++ body]) (tokens uriRelaxed head) = true := by
  have one_piece : ∀ p, p < head.length → cutBefore [head ++ body] p = (fun _ => 0) p := by
    intro p inside
    rw [cutBefore, if_pos (by rw [List.length_append]; omega)]
  rw [← received_iff_harmless (cuts_cutBefore _) parses, deliverAll_congr token_ends one_piece]
  exact parses

theorem execute_hyphen (memory : Uninitialized) (rest : List UInt8) :
    ∃ hp, HttpRequestParser.exec (77 :: 45 :: rest) 0 (HttpRequestParser.new memory).enter
      (77 :: 45 :: rest) = .ok (hp, 1) ∧ hp.parser.cs = httpParserError := by
  have first : transition memory.uriRelaxed 1 77 = some (2, [.mark]) := by
    cases memory.uriRelaxed <;> decide
  have second : transition memory.uriRelaxed 2 45 = none := by
    cases memory.uriRelaxed <;> decide
  obtain ⟨hp, hp_eq⟩ : ∃ hp, hp = (HttpRequestParser.new memory).enter := ⟨_, rfl⟩
  have state : hp.parser.cs = 1 ∧ hp.parser.uriRelaxed = memory.uriRelaxed := by
    rw [hp_eq]
    exact ⟨rfl, rfl⟩
  have not_done : ¬ Act.done ∈ [Act.mark] := by decide
  refine ⟨(HttpRequestParser.setCs { hp with parser := { hp.parser with mark := 0 } } 2).setCs
    httpParserError, ?_, rfl⟩
  rw [← hp_eq]
  simp only [HttpRequestParser.exec, state, first, List.foldlM_cons, List.foldlM_nil,
    HttpRequestParser.act, HttpRequestParser.setCs, second, not_done, bind, Except.bind, pure,
    Except.pure, if_false]

/-- `M-SEARCH` is refused at its hyphen. -/
theorem recvRequest_hyphen {env : Env} (memory : Uninitialized) {rest : List UInt8}
    (one_read : read env.bufferSize [77 :: 45 :: rest] = some (77 :: 45 :: rest, [])) :
    returned (recvRequest env memory [77 :: 45 :: rest]) = none := by
  obtain ⟨hp, executed, refused⟩ := execute_hyphen memory rest
  simp only [recvRequest, recvHead, List.length_nil, Nat.sub_zero, one_read, if_neg (List.cons_ne_nil _ _)]
  simp only [HttpRequestParser.execute, if_neg (List.cons_ne_nil _ _), List.nil_append, executed]
  simp only [bind, Except.bind, pure, Except.pure]
  by_cases asserts : HttpRequestParser.asserts { hp.parser with nread := 1 } (77 :: 45 :: rest).length = true
  · rw [if_pos asserts]
    have stops : HttpRequestParser.hasError { hp with parser := { hp.parser with nread := 1 } } = true := by
      simp [HttpRequestParser.hasError, refused]
    simp only [stops, if_true]
    rfl
  · rw [if_neg asserts]
    rfl

theorem length_le_of_read {env : Env} {segment : List UInt8}
    (one_read : read env.bufferSize [segment] = some (segment, [])) : segment.length ≤ env.bufferSize := by
  have small := env.small
  rw [read] at one_read
  split at one_read
  next fits => omega
  next =>
    simp only [Option.some.injEq, Prod.mk.injEq, List.cons_ne_nil, and_false] at one_read

/-- What `Dump` writes is accepted in one read and comes back as it was if and only if the
method is not `M-SEARCH`. -/
theorem recvRequest_dump_iff {env : Env} {memory : Uninitialized} {r : HttpRequest}
    (plain : r.Plain memory.uriRelaxed)
    (one_read : read env.bufferSize [r.dump false] = some (r.dump false, []))
    (cast : env.lexicalCast (printed r.body.length) = some r.body.length.toUInt64) :
    (∃ request rest, recvRequest env memory [r.dump false] = .ok (some (request, rest)) ∧
      request.GivesBack r) ↔ r.method ≠ .msearch := by
  have dumped := dump_eq plain
  constructor
  · -- the grammar has no hyphen in a method
    rintro ⟨request, rest, accepted, -⟩ is_msearch
    obtain ⟨rest', starts⟩ : ∃ rest, r.dump false = 77 :: 45 :: rest := by
      rw [dumped, HttpRequest.head, is_msearch]
      exact ⟨_, rfl⟩
    rw [starts] at one_read accepted
    have refused := recvRequest_hyphen memory one_read
    rw [accepted] at refused
    cases refused
  · intro no_hyphen
    obtain ⟨good, parses⟩ := parses_head plain no_hyphen
    have fits := length_le_of_read one_read
    have small := env.small
    rw [dumped, List.length_append] at fits
    rw [recvMax] at small
    have length : toInt64 ((r.started.setHeaders r.entries).getHeaderAs env.lexicalCast
        (ascii "content-length") 0) = r.body.length := by
      rw [contentLength_parsed plain cast, toInt64_toUInt64 (by omega)]
    have stream : [r.head ++ r.body].flatten = r.head ++ (r.body ++ []) := by simp
    have pos := pos_of_accepts good
    have nonempty : ∀ s ∈ [r.head ++ r.body], s ≠ [] := by
      intro s member
      rw [List.mem_singleton.mp member, ← List.length_pos_iff, List.length_append]
      omega
    have all_read : headRead env [r.head ++ r.body] r.head = r.head.length + r.body.length := by
      rw [headRead, readEnd, List.length_append, if_pos (by omega)]
      omega
    have returns := (recvRequest_iff good (by omega) stream nonempty parses length).mpr
      ⟨harmless_one_piece parses, by rw [all_read, Nat.sub_self]; rfl, rfl⟩
    rw [dumped]
    exact ⟨_, _, returns, givesBack_parsed plain⟩

theorem matches_text (s : String) : Matches (Rules.text s) (ascii s) := by
  rw [Rules.text]
  induction ascii s with
  | nil => exact .eps
  | cons b bytes ih => exact .cat (.sym (List.mem_singleton.mpr rfl)) ih

theorem matches_root (uriRelaxed : Bool) : Matches (Rules.relativePart uriRelaxed) (ascii "/") := by
  have root : Matches (Rules.pathAbsolute uriRelaxed) (ascii "/" ++ []) :=
    .cat (matches_text "/") (.altRight .eps)
  rw [List.append_nil] at root
  exact .altRight (.altLeft root)

/-- A request with everything in it. -/
def updated : HttpRequest where
  method := .put
  version := 0x10
  close := false
  path := ascii "/"
  query := ascii "b"
  fragment := ascii "c"
  body := ascii "abc"
  headers := [(ascii "Host", ascii "d e")]

theorem recvRequest_dump_iff_updated : ∃ request rest,
    recvRequest session ⟨false, 0⟩ [updated.dump false] = .ok (some (request, rest)) ∧
      request.GivesBack updated := by
  have letter : ∀ b ∈ ascii "bc", Matches (Rules.pchar false) [b] := by
    have all : ∀ b ∈ ascii "bc", b ∈ Rules.bytes
        ((128, 255) :: Rules.unreserved ++ Rules.subDelims false ++ [(58, 58), (64, 64)]) := by
      decide +kernel
    exact fun b member => .altLeft (.sym (all b member))
  have plain : updated.Plain false :=
    { version := .inl rfl
      path := matches_root false
      query := .starCons (.altLeft (letter 98 (by decide))) .starNil
      fragment := .starCons (.altLeft (letter 99 (by decide))) .starNil
      sorted := List.pairwise_singleton ..
      names := by decide +kernel
      values := by decide +kernel
      others := by decide }
  exact (recvRequest_dump_iff plain (by decide) (by decide)).mpr (by decide)

/-- A request that `Dump` writes and `RecvRequest` does not accept. -/
theorem msearch_refused :
    HttpRequest.Plain false { HttpRequest.new with method := .msearch } ∧
      read session.bufferSize [{ HttpRequest.new with method := .msearch }.dump false] =
        some ({ HttpRequest.new with method := .msearch }.dump false, []) ∧
      recvRequest session ⟨false, 0⟩ [{ HttpRequest.new with method := .msearch }.dump false] =
        .ok none := by
  refine ⟨?_, by decide, by decide⟩
  exact
    { version := .inr rfl
      path := matches_root false
      query := .starNil
      fragment := .starNil
      sorted := .nil
      names := nofun
      values := nofun
      others := nofun }

end ServerFrame.Http
