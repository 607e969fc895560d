import ServerFrame.Http.Headers
import ServerFrame.Http.Method
import ServerFrame.Http.Segmentation
import Mathlib.Algebra.Order.BigOperators.Group.List
import Mathlib.Algebra.Order.Group.Nat

/-!
# Where a request may be cut

Between the tokens of a request a read may end anywhere. Inside of a path, a query, a fragment or a
line of the header it may not: the condition is on the positions of the reads and of the tokens.
-/
namespace ServerFrame.Http

open Segments

/-- A read that begins at `cut` does not begin behind the first byte of the text. -/
def Span.Undivided (s : Span) (cut : Nat) : Prop := s.start < s.stop → cut ≤ s.start

instance (s : Span) (cut : Nat) : Decidable (s.Undivided cut) :=
  inferInstanceAs (Decidable (_ → _))

/-- No read begins inside of the token. What is left of a method may begin with the same name once
more, and a read may begin right behind a version that is not `HTTP/1.0`, as nothing at all is
taken for `HTTP/1.1`. -/
def Token.Spared (head : List UInt8) (cut : Nat → Nat) : Token → Prop
  | .method s => s.Undivided (cut s.stop) ∨
      ∃ name ∈ methodNames, name <+: s.text head ∧ name <+: (s.after (cut s.stop)).text head
  | .path s => s.Undivided (cut s.stop)
  | .query s => s.Undivided (cut s.stop)
  | .fragment s => s.Undivided (cut s.stop)
  | .version s => s.Undivided (cut s.stop) ∨ cut s.stop = s.stop ∧ s.text head ≠ ascii "HTTP/1.0"
  | .field name value => name.Undivided (cut value.stop) ∧ value.Undivided (cut value.stop)

instance (head : List UInt8) (cut : Nat → Nat) : DecidablePred (Token.Spared head cut)
  | .method _ => inferInstanceAs (Decidable (_ ∨ _))
  | .path _ => inferInstanceAs (Decidable (Span.Undivided ..))
  | .query _ => inferInstanceAs (Decidable (Span.Undivided ..))
  | .fragment _ => inferInstanceAs (Decidable (Span.Undivided ..))
  | .version _ => inferInstanceAs (Decidable (_ ∨ _))
  | .field _ _ => inferInstanceAs (Decidable (_ ∧ _))

/-- The names of the lines of the header. -/
def headerNames (head : List UInt8) (ts : List Token) : List (List UInt8) :=
  ts.filterMap fun
    | .field name _ => some (name.text head)
    | _ => none

/-- No two names are the same but for case, and none is empty. -/
def DistinctNames (head : List UInt8) (ts : List Token) : Prop :=
  ([] :: headerNames head ts).Pairwise fun name other => folded name ≠ folded other

/-! ## Texts -/

section Texts

variable {head : List UInt8} {s : Span} {c : Nat}

theorem Span.text_of_empty (empty : s.stop ≤ s.start) : s.text head = [] := by
  rw [Span.text, Nat.sub_eq_zero_of_le empty, List.take_zero]

theorem Span.length_text : (s.text head).length = min (s.stop - s.start) (head.length - s.start) := by
  rw [Span.text, List.length_take, List.length_drop]

/-- Behind a cut lies a part of the text. -/
theorem Span.text_after (c_le : c ≤ s.stop) :
    (s.after c).text head = (s.text head).drop (c - s.start) := by
  rcases Nat.le_total c s.start with before | behind
  · rw [Span.after_of_le before, Nat.sub_eq_zero_of_le before, List.drop_zero]
  · have position : s.start + (c - s.start) = c := Nat.add_sub_cancel' behind
    have length : s.stop - s.start - (c - s.start) = s.stop - c := by omega
    rw [Span.after, Nat.max_eq_right behind, Span.text, Span.text, List.drop_take, List.drop_drop,
      position, length]

theorem Span.Undivided.text_eq (undivided : s.Undivided c) : (s.after c).text head = s.text head := by
  by_cases empty : s.stop ≤ s.start
  · have also : (s.after c).stop ≤ (s.after c).start := Nat.le_trans empty (Nat.le_max_left ..)
    rw [Span.text_of_empty empty, Span.text_of_empty also]
  · rw [Span.after_of_le (undivided (Nat.not_le.mp empty))]

theorem Span.length_after_le : ((s.after c).text head).length ≤ (s.text head).length := by
  rw [Span.length_text, Span.length_text, Span.after]
  dsimp only
  omega

/-- A text that is as long behind the cut as before is not divided. -/
theorem Span.undivided_of_length (inside : c < head.length)
    (same : ((s.after c).text head).length = (s.text head).length) : s.Undivided c := by
  intro nonempty
  rw [Span.length_text, Span.length_text, Span.after] at same
  dsimp only at same
  omega

end Texts

/-! ## Methods and versions -/

section Values

variable {text text' : List UInt8}

/-- The entries of the table are told apart by their names, and by their methods. -/
theorem httpMethodMap_inj : ∀ entry ∈ httpMethodMap, ∀ other ∈ httpMethodMap,
    entry.1 = other.1 ∨ ascii entry.2 = ascii other.2 → entry = other := by
  decide

theorem charsToHttpMethod_some_iff {m : HttpMethod} :
    charsToHttpMethod text = some m ↔
      ∃ entry ∈ httpMethodMap, entry.1 = m ∧ ascii entry.2 <+: text := by
  rw [charsToHttpMethod, Option.map_eq_some_iff]
  constructor
  · rintro ⟨entry, found, is⟩
    have front := List.find?_some found
    exact ⟨entry, List.mem_of_find?_eq_some found, is, List.isPrefixOf_iff_prefix.mp front⟩
  · rintro ⟨entry, member, rfl, front⟩
    cases found : httpMethodMap.find? fun entry => (ascii entry.2).isPrefixOf text with
    | none =>
      have absent := List.find?_eq_none.mp found entry member
      exact absurd (List.isPrefixOf_iff_prefix.mpr front) absent
    | some other =>
      -- the two names both stand in front, so that one begins with the other
      have other_member := List.mem_of_find?_eq_some found
      have other_found := List.find?_some found
      have other_front := List.isPrefixOf_iff_prefix.mp other_found
      have listed := List.mem_map_of_mem (f := fun entry => ascii entry.2) member
      have other_listed := List.mem_map_of_mem (f := fun entry => ascii entry.2) other_member
      have names : ascii entry.2 = ascii other.2 := by
        rcases List.prefix_or_prefix_of_prefix front other_front with begins | begins
        · exact methodNames_apart _ listed _ other_listed (List.isPrefixOf_iff_prefix.mpr begins)
        · exact (methodNames_apart _ other_listed _ listed (List.isPrefixOf_iff_prefix.mpr begins)).symm
      rw [httpMethodMap_inj entry member other other_member (.inr names)]
      exact ⟨other, rfl, rfl⟩

/-- Two texts read as the same method if and only if they begin with the same name. -/
theorem charsToHttpMethod_eq_iff {m : HttpMethod} (known : charsToHttpMethod text = some m) :
    charsToHttpMethod text' = charsToHttpMethod text ↔
      ∃ name ∈ methodNames, name <+: text ∧ name <+: text' := by
  obtain ⟨entry, member, is, front⟩ := charsToHttpMethod_some_iff.mp known
  rw [known]
  constructor
  · intro same
    obtain ⟨other, other_member, other_is, other_front⟩ := charsToHttpMethod_some_iff.mp same
    obtain rfl := httpMethodMap_inj entry member other other_member (.inl (is.trans other_is.symm))
    exact ⟨_, List.mem_map_of_mem member, front, other_front⟩
  · rintro ⟨name, listed, front, front'⟩
    obtain ⟨other, other_member, rfl⟩ := List.mem_map.mp listed
    have same := charsToHttpMethod_some_iff.mpr ⟨other, other_member, rfl, front⟩
    rw [known] at same
    cases same
    exact charsToHttpMethod_some_iff.mpr ⟨other, other_member, rfl, front'⟩

/-- What is left of a version reads as the same one if and only if it is all of it, or nothing of
one that is not `HTTP/1.0`. -/
theorem versionOf_drop_iff {n : Nat} {v : UInt8} (known : versionOf text = some v)
    (inside : n ≤ text.length) :
    versionOf (text.drop n) = versionOf text ↔ n = 0 ∨ n = text.length ∧ text ≠ ascii "HTTP/1.0" := by
  have fronts : ∀ k ∈ List.range 9, ∀ n ∈ List.range (k + 1),
      (versionOf (((ascii "HTTP/1.1").take k).drop n) = versionOf ((ascii "HTTP/1.1").take k) ↔
        n = 0 ∨ n = k ∧ (ascii "HTTP/1.1").take k ≠ ascii "HTTP/1.0") ∧
      (versionOf (((ascii "HTTP/1.0").take k).drop n) = versionOf ((ascii "HTTP/1.0").take k) ↔
        n = 0 ∨ n = k ∧ (ascii "HTTP/1.0").take k ≠ ascii "HTTP/1.0") := by
    decide +kernel
  have is_front : ∀ version, HttpRequestParser.sameChars text version text.length = true →
      text = (ascii version).take text.length := by
    intro version same
    rw [HttpRequestParser.sameChars, List.take_length, beq_iff_eq] at same
    exact same
  have length_le : ∀ version, text = (ascii version).take text.length →
      text.length ≤ (ascii version).length := by
    intro version same
    have lengths := congrArg List.length same
    rw [List.length_take] at lengths
    omega
  have at_length := fun small : text.length ≤ 8 =>
    fronts text.length (List.mem_range.mpr (by omega)) n (List.mem_range.mpr (by omega))
  rw [versionOf] at known
  split at known
  next same =>
    have same := is_front _ same
    have found := (at_length (length_le _ same)).1
    rwa [← same] at found
  next =>
    split at known
    next same =>
      have same := is_front _ same
      have found := (at_length (length_le _ same)).2
      rwa [← same] at found
    next => cases known

end Values

/-! ## Tokens -/

/-- A method and a version that the parser knows. -/
def Token.Known (head : List UInt8) : Token → Prop
  | .method s => ∃ m, charsToHttpMethod (s.text head) = some m
  | .version s => ∃ v, versionOf (s.text head) = some v
  | _ => True

section Tokens

variable {head : List UInt8} {cut : Nat → Nat} {t : Token} {ts : List Token} {r q : HttpRequest × Nat}

theorem known_of_deliver (delivered : deliver head (fun _ => 0) r t = .ok q) (no_error : q.2 = 0) :
    t.Known head := by
  cases delivered_of_deliver delivered with
  | badMethod => cases no_error
  | method known => exact ⟨_, text_after_zero _ ▸ known⟩
  | badVersion => cases no_error
  | version known => exact ⟨_, text_after_zero _ ▸ known⟩
  | _ => trivial

/-- A request that is received in one piece has a method and a version. -/
theorem known_of_deliverAll (delivered : deliverAll head (fun _ => 0) r ts = .ok q) (no_error : q.2 = 0) :
    ∀ t ∈ ts, t.Known head := by
  induction ts generalizing r with
  | nil => exact fun t member => absurd member List.not_mem_nil
  | cons t ts ih =>
    rw [deliverAll] at delivered
    split at delivered
    next => cases delivered
    next r' first =>
      intro u member
      rcases List.mem_cons.mp member with rfl | member
      · exact known_of_deliver first (no_error_before delivered no_error)
      · exact ih delivered u member

theorem Span.undivided_iff (cuts : Cuts cut) (s : Span) :
    s.Undivided (cut s.stop) ↔ cut s.stop ≤ s.start := by
  refine ⟨fun undivided => ?_, fun before _ => before⟩
  by_cases nonempty : s.start < s.stop
  · exact undivided nonempty
  · exact (cuts.le s.stop).trans (Nat.not_lt.mp nonempty)

/-- A cut does no harm to a part of the request line if and only if it spares it. -/
theorem harmless_iff_spared (cuts : Cuts cut)
    (ends : t.span.start ≤ t.span.stop ∧ t.span.stop < head.length) (known : t.Known head)
    (line : t.part ≠ none) : t.harmless head cut = true ↔ t.Spared head cut := by
  cases t with
  | method s =>
    obtain ⟨m, known⟩ := known
    have inside : cut s.stop < head.length := (cuts.le s.stop).trans_lt ends.2
    rw [Token.harmless, decide_eq_true_eq, charsToHttpMethod_eq_iff known, Token.Spared]
    refine ⟨.inr, fun spared => ?_⟩
    rcases spared with undivided | again
    · exact (charsToHttpMethod_eq_iff known).mp (congrArg _ undivided.text_eq)
    · exact again
  | path s => exact decide_eq_true_iff.trans (s.undivided_iff cuts).symm
  | query s => exact decide_eq_true_iff.trans (s.undivided_iff cuts).symm
  | fragment s => exact decide_eq_true_iff.trans (s.undivided_iff cuts).symm
  | version s =>
    obtain ⟨v, known⟩ := known
    simp only [Token.span] at ends
    have behind := cuts.le s.stop
    have length : (s.text head).length = s.stop - s.start := by
      rw [Span.length_text]
      omega
    have drops := @versionOf_drop_iff _ (cut s.stop - s.start) v known (by omega)
    rw [← Span.text_after behind, length] at drops
    rw [Token.harmless, decide_eq_true_eq, drops, Token.Spared, s.undivided_iff cuts]
    have at_end : s.start < cut s.stop → (cut s.stop - s.start = s.stop - s.start ↔ cut s.stop = s.stop) := by
      omega
    by_cases before : cut s.stop ≤ s.start
    · simp [before, Nat.sub_eq_zero_of_le before]
    · rw [at_end (Nat.not_le.mp before)]
      have not_zero : cut s.stop - s.start ≠ 0 := by omega
      simp [before, not_zero]
  | field name value => exact absurd rfl line

/-! ## The lines of the header -/

theorem addField_of_spared {name value : Span} {headers : MapType}
    (spared : (Token.field name value).Spared head cut) :
    addField head (cut value.stop) name value headers = addField head 0 name value headers := by
  simp only [addField, spared.1.text_eq, spared.2.text_eq, text_after_zero]

/-- Spared lines make the same map. -/
theorem fields_of_spared {headers : MapType} (spared : ∀ t ∈ ts, t.part = none → t.Spared head cut) :
    fields head cut headers ts = fields head (fun _ => 0) headers ts := by
  induction ts generalizing headers with
  | nil => rfl
  | cons t ts ih =>
    have later := fun headers => @ih headers fun u member => spared u (List.mem_cons_of_mem _ member)
    cases t with
    | field name value =>
      rw [fields, fields, addField_of_spared (spared _ (List.mem_cons_self ..) rfl)]
      exact later _
    | _ => exact later headers

/-- The bytes of the names and values in a map. -/
def MapType.bytes (m : MapType) : Nat := (m.map fun e => e.1.length + e.2.length).sum

theorem bytes_set_le (m : MapType) (key val : List UInt8) :
    (m.set key val).bytes ≤ m.bytes + (key.length + val.length) := by
  induction m with
  | nil => simp [MapType.set, MapType.bytes]
  | cons e m ih =>
    obtain ⟨k, v⟩ := e
    simp only [MapType.bytes, List.map_cons, List.sum_cons] at ih ⊢
    rw [MapType.set]
    split
    next => simp only [List.map_cons, List.sum_cons]; omega
    next => simp only [List.map_cons, List.sum_cons]; omega
    next => simp only [List.map_cons, List.sum_cons]; omega

/-- A name that is not there makes the map longer by all its bytes. -/
theorem bytes_set_of_new {m : MapType} {key : List UInt8} (new : ∀ e ∈ m, folded e.1 ≠ folded key)
    (val : List UInt8) : (m.set key val).bytes = m.bytes + (key.length + val.length) := by
  induction m with
  | nil => simp [MapType.set, MapType.bytes]
  | cons e m ih =>
    obtain ⟨k, v⟩ := e
    have later := ih fun f member => new f (List.mem_cons_of_mem _ member)
    have other := new (k, v) (List.mem_cons_self ..)
    simp only [MapType.bytes, List.map_cons, List.sum_cons] at later ⊢
    rw [MapType.set]
    split
    next => simp only [List.map_cons, List.sum_cons]; omega
    next same => exact absurd (strcasecmp_eq_iff.mp same).symm other
    next => simp only [List.map_cons, List.sum_cons]; omega

/-- The bytes of a line that the parser sees. -/
def Token.seen (head : List UInt8) (cut : Nat → Nat) : Token → Nat
  | .field name value => ((name.after (cut value.stop)).text head).length +
      ((value.after (cut value.stop)).text head).length
  | _ => 0

theorem seen_le (t : Token) : t.seen head cut ≤ t.seen head fun _ => 0 := by
  cases t with
  | field name value =>
    have name_le := @Span.length_after_le head name (cut value.stop)
    have value_le := @Span.length_after_le head value (cut value.stop)
    simp only [Token.seen, text_after_zero]
    omega
  | _ => exact Nat.le_refl 0

theorem bytes_fields_le (headers : MapType) (ts : List Token) :
    (fields head cut headers ts).bytes ≤ headers.bytes + (ts.map (Token.seen head cut)).sum := by
  induction ts generalizing headers with
  | nil => exact Nat.le_refl _
  | cons t ts ih =>
    rw [List.map_cons, List.sum_cons]
    cases t with
    | field name value =>
      have later := ih (addField head (cut value.stop) name value headers)
      have here : (addField head (cut value.stop) name value headers).bytes ≤
          headers.bytes + (Token.field name value).seen head cut := by
        rw [addField, Token.seen]
        split
        · omega
        · exact bytes_set_le ..
      rw [fields]
      omega
    | _ =>
      have later := ih headers
      simp only [fields, Token.seen, Nat.zero_add]
      exact later

/-- The map of lines with different names has all their bytes. -/
theorem bytes_fields {headers : MapType} (distinct : DistinctNames head ts)
    (new : ∀ e ∈ headers, ∀ name ∈ headerNames head ts, folded e.1 ≠ folded name) :
    (fields head (fun _ => 0) headers ts).bytes =
      headers.bytes + (ts.map (Token.seen head fun _ => 0)).sum := by
  induction ts generalizing headers with
  | nil => rfl
  | cons t ts ih =>
    rw [List.map_cons, List.sum_cons]
    cases t with
    | field name value =>
      -- the name is not empty and not in the map, and the others are different from it
      obtain ⟨nonempty, different, rest⟩ : name.text head ≠ [] ∧
          (∀ other ∈ headerNames head ts, folded (name.text head) ≠ folded other) ∧
          DistinctNames head ts := by
        obtain ⟨first, later⟩ := List.pairwise_cons.mp distinct
        obtain ⟨different, rest⟩ := List.pairwise_cons.mp later
        refine ⟨fun empty => first _ (List.mem_cons_self ..) (congrArg folded empty.symm), different, ?_⟩
        exact List.pairwise_cons.mpr ⟨fun other member => first other (List.mem_cons_of_mem _ member), rest⟩
      have added : addField head 0 name value headers = headers.set (name.text head) (value.text head) := by
        rw [addField, text_after_zero, text_after_zero, if_neg nonempty]
      have here := bytes_set_of_new (fun e member => new e member _ (List.mem_cons_self ..)) (value.text head)
      have later := @ih (headers.set (name.text head) (value.text head)) rest (by
        intro e member other listed
        rcases MapType.mem_set member with same | old
        · exact same ▸ different other listed
        · exact new e old other (List.mem_cons_of_mem _ listed))
      rw [fields, added, later, here, Token.seen, text_after_zero, text_after_zero, Nat.add_assoc]
    | _ =>
      have later := ih distinct new
      simp only [fields, Token.seen, Nat.zero_add]
      exact later

/-- Lines with different names that make the same map are spared. -/
theorem spared_of_fields (cuts : Cuts cut) (ends : ∀ t ∈ ts, t.span.stop < head.length)
    (distinct : DistinctNames head ts)
    (same : fields head cut [] ts = fields head (fun _ => 0) [] ts) :
    ∀ t ∈ ts, t.part = none → t.Spared head cut := by
  have fewer := @bytes_fields_le head cut [] ts
  rw [same, bytes_fields distinct fun e member => absurd member List.not_mem_nil] at fewer
  intro t member is_line
  cases t with
  | field name value =>
    -- were a byte of it not seen, the map would be shorter
    have all_seen : ¬ (Token.field name value).seen head cut <
        (Token.field name value).seen head fun _ => 0 := by
      intro less
      have shorter := List.sum_lt_sum (Token.seen head cut) (Token.seen head fun _ => 0)
        (fun t _ => seen_le t) ⟨_, member, less⟩
      omega
    have inside : cut value.stop < head.length := (cuts.le value.stop).trans_lt (ends _ member)
    have name_le := @Span.length_after_le head name (cut value.stop)
    have value_le := @Span.length_after_le head value (cut value.stop)
    simp only [Token.seen, text_after_zero] at all_seen
    exact ⟨Span.undivided_of_length inside (by omega), Span.undivided_of_length inside (by omega)⟩
  | _ => cases is_line

end Tokens

/-- Of a request that is received in one piece, spared tokens are received the same in segments. -/
theorem harmless_of_spared {uriRelaxed : Bool} {head : List UInt8} {cut : Nat → Nat} {data : HttpRequest}
    (cuts : Cuts cut) (parses : Parses uriRelaxed head data)
    (spared : ∀ t ∈ tokens uriRelaxed head, t.Spared head cut) :
    harmless head cut (tokens uriRelaxed head) = true := by
  have known := known_of_deliverAll (received_eq_some.mp parses) rfl
  rw [harmless, Bool.and_eq_true, List.all_eq_true, beq_iff_eq]
  refine ⟨fun t member => ?_, fields_of_spared fun t member _ => spared t member⟩
  by_cases line : t.part = none
  · cases t with
    | field => rfl
    | _ => cases line
  · exact (harmless_iff_spared cuts (token_ends t member) (known t member) line).mpr (spared t member)

/-- So are only these, of the lines of the header when no two of them have the same name. -/
theorem spared_of_harmless {uriRelaxed : Bool} {head : List UInt8} {cut : Nat → Nat} {data : HttpRequest}
    (cuts : Cuts cut) (parses : Parses uriRelaxed head data)
    (unharmed : harmless head cut (tokens uriRelaxed head) = true) :
    ∀ t ∈ tokens uriRelaxed head, (t.part = none → DistinctNames head (tokens uriRelaxed head)) →
      t.Spared head cut := by
  have known := known_of_deliverAll (received_eq_some.mp parses) rfl
  rw [harmless, Bool.and_eq_true, List.all_eq_true, beq_iff_eq] at unharmed
  obtain ⟨in_line, same⟩ := unharmed
  intro t member distinct
  by_cases line : t.part = none
  · exact spared_of_fields cuts (fun u listed => (token_ends u listed).2) (distinct line) same t member line
  · exact (harmless_iff_spared cuts (token_ends t member) (known t member) line).mp (in_line t member)

/-- A request that arrives in segments is received as in one piece if its tokens are spared and the
number of bytes that `ReadFixSize` is asked for is positive as an `int`; and only if they are, but
for the lines of a header in which a name is repeated. -/
theorem recvRequest_spared {env : Env} {memory : Uninitialized} {head body : List UInt8} {socket : Socket}
    {request : HttpRequest} {rest : Socket} (good : accepts memory.uriRelaxed head = true)
    (fits : head.length ≤ env.bufferSize) (stream : socket.flatten = head ++ body)
    (nonempty : ∀ s ∈ socket, s ≠ [])
    (whole : recvRequest env memory [head ++ body] = .ok (some (request, rest)))
    (length : toInt64 (request.getHeaderAs env.lexicalCast (ascii "content-length") 0) = body.length) :
    ((∀ t ∈ tokens memory.uriRelaxed head, t.Spared head (cutBefore socket)) ∧
        restFits (head.length + body.length - headRead env socket head) = true →
      ∃ rest, recvRequest env memory socket = .ok (some (request, rest))) ∧
    ((∃ rest, recvRequest env memory socket = .ok (some (request, rest))) →
      (∀ t ∈ tokens memory.uriRelaxed head,
        (t.part = none → DistinctNames head (tokens memory.uriRelaxed head)) →
          t.Spared head (cutBefore socket)) ∧
      restFits (head.length + body.length - headRead env socket head) = true) := by
  have segments := recvRequest_segments_iff good fits stream nonempty whole length
  obtain ⟨data, parses, -, -⟩ := parses_of_whole good fits whole length
  have cuts := cuts_cutBefore socket
  constructor
  · rintro ⟨spared, taken⟩
    exact segments.mpr ⟨harmless_of_spared cuts parses spared, taken⟩
  · intro returns
    obtain ⟨unharmed, taken⟩ := segments.mp returns
    exact ⟨spared_of_harmless cuts parses unharmed, taken⟩

/-- A request that is cut between its tokens and in its body. -/
theorem recvRequest_spared_between :
    ∃ rest, recvRequest session ⟨false, 0⟩
        [ascii "POST ", ascii "/a HTTP/1.1\r\n", ascii "content-length: 3\r\n\r\nab", ascii "c"] =
      .ok (some (posted, rest)) := by
  have good : accepts (⟨false, 0⟩ : Uninitialized).uriRelaxed
      (ascii "POST /a HTTP/1.1\r\ncontent-length: 3\r\n\r\n") = true := by decide
  have whole : recvRequest session ⟨false, 0⟩
      [ascii "POST /a HTTP/1.1\r\ncontent-length: 3\r\n\r\n" ++ ascii "abc"] =
        .ok (some (posted, [])) := by decide
  have length : toInt64 (posted.getHeaderAs session.lexicalCast (ascii "content-length") 0) =
      (ascii "abc").length := by decide
  exact (recvRequest_spared good (by decide) (by decide) (by decide) whole length).1
    ⟨by decide, by decide⟩

/-- A request that is cut in its path, and what comes of it: a path without its front. -/
theorem path_loses_front :
    accepts false (ascii "GET /index HTTP/1.1\r\n\r\n") = true ∧
      recvRequest session ⟨false, 0⟩ [ascii "GET /index HTTP/1.1\r\n\r\n"] =
        .ok (some ({ HttpRequest.new with path := ascii "/index" }, [])) ∧
      recvRequest session ⟨false, 0⟩ [ascii "GET /in", ascii "dex HTTP/1.1\r\n\r\n"] =
        .ok (some ({ HttpRequest.new with path := ascii "dex" }, [])) := by
  decide

end ServerFrame.Http
