import ServerFrame.Http.Grammar
import ServerFrame.Lib.Segments

/-!
# The parser on one buffer

A call of `http_parser_execute` works with offsets in its buffer. Against the positions in
the whole header its marks are those of the tokens, but not before the start of the
buffer. So each call hands on the tokens it completes as `deliver` says.
-/
namespace ServerFrame.Http

/-- The part of an action that changes the parser; the callbacks change the request. -/
def HttpParser.move (p : Nat) (parser : HttpParser) : Act → HttpParser
  | .mark => { parser with mark := p }
  | .startField => { parser with fieldStart := p }
  | .writeField => { parser with fieldLen := HttpRequestParser.len parser.fieldStart p }
  | .startQuery => { parser with queryStart := p }
  | .done =>
    { parser with bodyStart := if parser.xmlSent || parser.jsonSent then parser.mark else p + 1 }
  | .xml => { parser with xmlSent := true }
  | .json => { parser with jsonSent := true }
  | _ => parser

def HttpParser.moveAll (p : Nat) : HttpParser → List Act → HttpParser
  | parser, [] => parser
  | parser, a :: acts => (parser.move p a).moveAll p acts

@[simp] theorem HttpParser.moveAll_cs (p : Nat) (parser : HttpParser) (acts : List Act) :
    (parser.moveAll p acts).cs = parser.cs := by
  induction acts generalizing parser with
  | nil => rfl
  | cons a acts ih =>
    rw [moveAll, ih]
    cases a <;> rfl

@[simp] theorem HttpParser.moveAll_uriRelaxed (p : Nat) (parser : HttpParser) (acts : List Act) :
    (parser.moveAll p acts).uriRelaxed = parser.uriRelaxed := by
  induction acts generalizing parser with
  | nil => rfl
  | cons a acts ih =>
    rw [moveAll, ih]
    cases a <;> rfl

/-- At offset `p` of the buffer that starts at position `c`, the parser has the marks `m` as
far as they lie in the buffer. `body` bounds the start of the body. -/
structure Tracks (cut : Nat → Nat) (c p body : Nat) (m : Marks) (parser : HttpParser) : Prop where
  behind : m.Behind (c + p)
  mark : parser.mark = max m.mark c - c
  fieldStart : parser.fieldStart = max m.fieldStart c - c
  fieldLen : m.named = true → parser.fieldLen = m.fieldStop - max m.fieldStart c
  fieldLen_le : parser.fieldLen ≤ p
  queryStart : m.asked = true → parser.queryStart + cut m.queryStart = m.queryStart
  bodyStart : parser.bodyStart ≤ body

theorem len_eq {start p : Nat} (le : start ≤ p) : HttpRequestParser.len start p = p - start :=
  if_pos le

section Step

variable {cut : Nat → Nat} {c p body : Nat} {m : Marks} {parser : HttpParser}

theorem Tracks.mark_le (tracks : Tracks cut c p body m parser) : parser.mark ≤ p := by
  have := tracks.behind.mark
  have := tracks.mark
  omega

theorem Tracks.fieldStart_le (tracks : Tracks cut c p body m parser) : parser.fieldStart ≤ p := by
  have := tracks.behind.fieldStart
  have := tracks.fieldStart
  omega

/-- An action marks the same in the buffer and in the header. -/
theorem Tracks.move (tracks : Tracks cut c p body m parser) (here : cut (c + p) = c) (a : Act) :
    Tracks cut c p (if a = .done then p + 1 else body) (m.set (c + p) a) (parser.move p a) := by
  have behind := tracks.behind.set a
  have fieldStart_le := tracks.fieldStart_le
  have mark_le := tracks.mark_le
  obtain ⟨_, mark, fieldStart, fieldLen, fieldLen_le, queryStart, bodyStart⟩ := tracks
  cases a with
  | mark =>
    refine ⟨behind, ?_, fieldStart, fieldLen, fieldLen_le, queryStart, bodyStart⟩
    simp only [Marks.set, HttpParser.move]
    omega
  | startField =>
    refine ⟨behind, mark, ?_, nofun, fieldLen_le, queryStart, bodyStart⟩
    simp only [Marks.set, HttpParser.move]
    omega
  | writeField =>
    have len_eq := len_eq fieldStart_le
    refine ⟨behind, mark, fieldStart, fun _ => ?_, ?_, queryStart, bodyStart⟩
    · simp only [Marks.set, HttpParser.move, len_eq]
      omega
    · simp only [HttpParser.move, len_eq]
      omega
  | startQuery =>
    refine ⟨behind, mark, fieldStart, fieldLen, fieldLen_le, fun _ => ?_, bodyStart⟩
    simp only [Marks.set, HttpParser.move, here]
    omega
  | done =>
    refine ⟨behind, mark, fieldStart, fieldLen, fieldLen_le, queryStart, ?_⟩
    simp only [HttpParser.move, if_true]
    split <;> omega
  | xml => exact ⟨behind, mark, fieldStart, fieldLen, fieldLen_le, queryStart, bodyStart⟩
  | json => exact ⟨behind, mark, fieldStart, fieldLen, fieldLen_le, queryStart, bodyStart⟩
  | _ => exact ⟨behind, mark, fieldStart, fieldLen, fieldLen_le, queryStart, bodyStart⟩

end Step

/-! ## Texts in the buffer -/

/-- Up to offset `p` the buffer holds the bytes of the header from position `c` on. -/
theorem take_drop_of_front {head buffer : List UInt8} {c p start n : Nat}
    (front : buffer.take p = (head.drop c).take p) (fits : start + n ≤ p) :
    (buffer.drop start).take n = (head.drop (c + start)).take n := by
  have same : (buffer.take p).take (start + n) = ((head.drop c).take p).take (start + n) := by
    rw [front]
  rw [List.take_take, List.take_take, Nat.min_eq_left fits] at same
  have shifted : (buffer.take (start + n)).drop start = ((head.drop c).take (start + n)).drop start := by
    rw [same]
  rwa [List.drop_take, List.drop_take, Nat.add_sub_cancel_left, List.drop_drop] at shifted

theorem text_of_buffer {head buffer : List UInt8} {c p start : Nat}
    (front : buffer.take p = (head.drop c).take p) (le : start ≤ p) :
    (buffer.drop start).take (p - start) = Span.text ⟨c + start, c + p⟩ head := by
  have same : c + p - (c + start) = p - start := by omega
  rw [take_drop_of_front front (by omega), Span.text, same]

theorem isPrefixOf_append_of_not_mem {b : UInt8} {name : List UInt8} (absent : b ∉ name)
    (text rest : List UInt8) : name.isPrefixOf (text ++ b :: rest) = name.isPrefixOf text := by
  induction name generalizing text with
  | nil => rfl
  | cons a name ih =>
    rw [List.mem_cons, not_or] at absent
    obtain ⟨ne, absent⟩ := absent
    cases text with
    | nil => simp [List.isPrefixOf, Ne.symm ne]
    | cons x text => simp only [List.cons_append, List.isPrefixOf, ih absent]

/-- `CharsToHttpMethod` does not look past the space behind the method. -/
theorem charsToHttpMethod_append_space (text rest : List UInt8) :
    charsToHttpMethod (text ++ 32 :: rest) = charsToHttpMethod text := by
  have no_space : ∀ entry ∈ httpMethodMap, 32 ∉ ascii entry.2 := by decide
  have same : ∀ entries : List (HttpMethod × String), (∀ entry ∈ entries, 32 ∉ ascii entry.2) →
      entries.find? (fun entry => (ascii entry.2).isPrefixOf (text ++ 32 :: rest)) =
        entries.find? (fun entry => (ascii entry.2).isPrefixOf text) := by
    intro entries absent
    induction entries with
    | nil => rfl
    | cons entry entries ih =>
      have here := isPrefixOf_append_of_not_mem (absent entry (List.mem_cons_self ..)) text rest
      simp only [List.find?_cons, here,
        ih fun entry member => absent entry (List.mem_cons_of_mem _ member)]
  rw [charsToHttpMethod, charsToHttpMethod, same httpMethodMap no_space]

theorem str_take {chars : List UInt8} {n : Nat} (small : n < 2 ^ 31) :
    HttpRequestParser.str chars n = .ok (chars.take n) :=
  if_pos (by rw [HttpRequestParser.maxSize]; omega)

/-! ## Actions and edges -/

/-- The buffer that starts at position `c` holds the header up to offset `p`. -/
structure Window (head : List UInt8) (cut : Nat → Nat) (buffer : List UInt8) (c p : Nat) : Prop where
  front : buffer.take p = (head.drop c).take p
  here : cut (c + p) = c
  cut_le : ∀ q, q ≤ c + p → cut q ≤ c
  inside : p < buffer.length
  small : c + p < 2 ^ 31

section Action

variable {head buffer : List UInt8} {cut : Nat → Nat} {c p body : Nat} {m : Marks}
  {hp : HttpRequestParser}

/-- The text from the mark on is what the buffer holds of the token. -/
theorem Tracks.text (tracks : Tracks cut c p body m hp.parser)
    (window : Window head cut buffer c p) :
    (buffer.drop hp.parser.mark).take (HttpRequestParser.len hp.parser.mark p) =
      (Span.after ⟨m.mark, c + p⟩ c).text head := by
  have start_eq : c + hp.parser.mark = max m.mark c := by
    rw [tracks.mark]
    omega
  rw [len_eq tracks.mark_le, text_of_buffer window.front tracks.mark_le, start_eq, Span.after]

theorem len_small (window : Window head cut buffer c p) {start : Nat} (le : start ≤ p) :
    HttpRequestParser.len start p < 2 ^ 31 := by
  have := window.small
  rw [len_eq le]
  omega

/-- A callback that stores the text from the mark on. -/
theorem Tracks.str (tracks : Tracks cut c p body m hp.parser)
    (window : Window head cut buffer c p) :
    HttpRequestParser.str (buffer.drop hp.parser.mark) (HttpRequestParser.len hp.parser.mark p) =
      .ok ((Span.after ⟨m.mark, c + p⟩ c).text head) := by
  rw [str_take (len_small window tracks.mark_le), tracks.text window]

theorem act_requestMethod (tracks : Tracks cut c p body m hp.parser)
    (window : Window head cut buffer c p) {rest : List UInt8} (space : buffer.drop p = 32 :: rest) :
    hp.onRequestMethod (buffer.drop hp.parser.mark) =
      match charsToHttpMethod ((Span.after ⟨m.mark, c + p⟩ c).text head) with
      | none => { hp with error := 1000 }
      | some m => { hp with data := { hp.data with method := m } } := by
  have split : buffer.drop hp.parser.mark =
      (Span.after ⟨m.mark, c + p⟩ c).text head ++ 32 :: rest := by
    have whole := List.take_append_drop (p - hp.parser.mark) (buffer.drop hp.parser.mark)
    rw [List.drop_drop, Nat.add_sub_cancel' tracks.mark_le, space] at whole
    rw [← tracks.text window, len_eq tracks.mark_le, whole]
  rw [HttpRequestParser.onRequestMethod, split, charsToHttpMethod_append_space]
  rfl

theorem act_queryString (tracks : Tracks cut c p body m hp.parser)
    (window : Window head cut buffer c p) (asked : m.asked = true) :
    HttpRequestParser.str (buffer.drop hp.parser.queryStart)
        (HttpRequestParser.len hp.parser.queryStart p) =
      if c + p < m.queryStart + (c - cut m.queryStart) then .error .lengthError
      else .ok (Span.text ⟨m.queryStart + (c - cut m.queryStart), c + p⟩ head) := by
  have offset := tracks.queryStart asked
  have behind := tracks.behind.queryStart
  have before := window.cut_le m.queryStart behind
  have small := window.small
  have start_eq : c + hp.parser.queryStart = m.queryStart + (c - cut m.queryStart) := by omega
  rw [← start_eq]
  by_cases ahead : p < hp.parser.queryStart
  · -- the length wraps around
    have wraps : HttpRequestParser.len hp.parser.queryStart p =
        2 ^ 64 - (hp.parser.queryStart - p) := if_neg (by omega)
    have long : ¬ HttpRequestParser.len hp.parser.queryStart p ≤ HttpRequestParser.maxSize := by
      rw [wraps, HttpRequestParser.maxSize]
      omega
    rw [if_pos (by omega), HttpRequestParser.str, if_neg long]
  · have le : hp.parser.queryStart ≤ p := by omega
    rw [if_neg (by omega), str_take (len_small window le), len_eq le,
      text_of_buffer window.front le]

theorem act_httpVersion (tracks : Tracks cut c p body m hp.parser)
    (window : Window head cut buffer c p) :
    hp.onRequestVersion (buffer.drop hp.parser.mark) (HttpRequestParser.len hp.parser.mark p) =
      match versionOf ((Span.after ⟨m.mark, c + p⟩ c).text head) with
      | none => { hp with error := 1001 }
      | some v => { hp with data := { hp.data with version := v } } := by
  have inside := window.inside
  have mark_le := tracks.mark_le
  have length_eq : ((Span.after ⟨m.mark, c + p⟩ c).text head).length =
      HttpRequestParser.len hp.parser.mark p := by
    rw [← tracks.text window, len_eq mark_le, List.length_take, List.length_drop]
    omega
  have same : ∀ s, HttpRequestParser.sameChars ((Span.after ⟨m.mark, c + p⟩ c).text head) s
      ((Span.after ⟨m.mark, c + p⟩ c).text head).length =
        HttpRequestParser.sameChars (buffer.drop hp.parser.mark) s
          (HttpRequestParser.len hp.parser.mark p) := by
    intro s
    rw [HttpRequestParser.sameChars, HttpRequestParser.sameChars, List.take_length, length_eq,
      tracks.text window]
  simp only [versionOf, same, HttpRequestParser.onRequestVersion, HttpRequestParser.setError]
  split
  · rfl
  · split <;> rfl

theorem act_writeValue (tracks : Tracks cut c p body m hp.parser)
    (window : Window head cut buffer c p) (named : m.named = true) :
    hp.onRequestHttpField (buffer.drop hp.parser.fieldStart) hp.parser.fieldLen
        (buffer.drop hp.parser.mark) (HttpRequestParser.len hp.parser.mark p) =
      .ok { hp with data := { hp.data with
        headers := addField head c ⟨m.fieldStart, m.fieldStop⟩ ⟨m.mark, c + p⟩ hp.data.headers } } := by
  have inside := window.inside
  have small := window.small
  have len_eq := tracks.fieldLen named
  have start_eq : c + hp.parser.fieldStart = max m.fieldStart c := by
    rw [tracks.fieldStart]
    omega
  have fits : hp.parser.fieldStart + hp.parser.fieldLen ≤ p := by
    have := tracks.fieldStart_le
    have := tracks.behind.fieldStop
    omega
  have name_eq : (buffer.drop hp.parser.fieldStart).take hp.parser.fieldLen =
      (Span.after ⟨m.fieldStart, m.fieldStop⟩ c).text head := by
    rw [take_drop_of_front window.front fits, start_eq, len_eq, Span.after, Span.text]
  have empty_iff : (Span.after ⟨m.fieldStart, m.fieldStop⟩ c).text head = [] ↔
      hp.parser.fieldLen = 0 := by
    rw [← name_eq, ← List.length_eq_zero_iff, List.length_take, List.length_drop]
    omega
  rw [HttpRequestParser.onRequestHttpField, addField]
  by_cases empty : hp.parser.fieldLen = 0
  · rw [if_pos empty, if_pos (empty_iff.mpr empty)]
    rfl
  · rw [if_neg empty, if_neg (mt empty_iff.mp empty), str_take (by omega), name_eq,
      tracks.str window]
    rfl

/-- An action hands on the token it reports, as seen in the buffer. -/
theorem act_eq (hp : HttpRequestParser) (tracks : Tracks cut c p body m hp.parser)
    (window : Window head cut buffer c p) (a : Act)
    (space : a = .requestMethod → ∃ rest, buffer.drop p = 32 :: rest)
    (named : a = .writeValue → m.named = true) (asked : a = .queryString → m.asked = true) :
    hp.act buffer p a =
      (deliverAll head cut (hp.data, hp.error) (m.token (c + p) a).toList).map
        fun r => ⟨hp.parser.move p a, r.1, r.2⟩ := by
  cases a with
  | requestMethod =>
    obtain ⟨rest, space⟩ := space rfl
    simp only [HttpRequestParser.act, act_requestMethod tracks window space, Marks.token,
      Option.toList, deliverAll, deliver, window.here]
    cases charsToHttpMethod ((Span.after ⟨m.mark, c + p⟩ c).text head) <;> rfl
  | requestPath =>
    simp only [HttpRequestParser.act, HttpRequestParser.onRequestPath, tracks.str window,
      Marks.token, Option.toList, deliverAll, deliver, window.here]
    rfl
  | fragment =>
    simp only [HttpRequestParser.act, HttpRequestParser.onRequestFragment, tracks.str window,
      Marks.token, Option.toList, deliverAll, deliver, window.here]
    rfl
  | queryString =>
    simp only [HttpRequestParser.act, HttpRequestParser.onRequestQuery,
      act_queryString tracks window (asked rfl), Marks.token, Option.toList, deliverAll, deliver,
      window.here]
    split <;> rfl
  | httpVersion =>
    simp only [HttpRequestParser.act, act_httpVersion tracks window, Marks.token, Option.toList,
      deliverAll, deliver, window.here]
    cases versionOf ((Span.after ⟨m.mark, c + p⟩ c).text head) <;> rfl
  | writeValue =>
    simp only [HttpRequestParser.act, act_writeValue tracks window (named rfl), Marks.token,
      Option.toList, deliverAll, deliver, window.here]
    rfl
  | _ => rfl

theorem Tracks.moveAll {parser : HttpParser} (tracks : Tracks cut c p body m parser)
    (here : cut (c + p) = c) (acts : List Act) :
    Tracks cut c p (if .done ∈ acts then p + 1 else body) (m.setAll (c + p) acts)
      (parser.moveAll p acts) := by
  induction acts generalizing m parser body with
  | nil => exact tracks
  | cons a acts ih =>
    have moved := ih (tracks.move here a)
    have bound : (if .done ∈ acts then p + 1 else if a = .done then p + 1 else body) =
        if .done ∈ a :: acts then p + 1 else body := by
      by_cases later : .done ∈ acts
      · rw [if_pos later, if_pos (List.mem_cons_of_mem _ later)]
      · rw [if_neg later]
        by_cases now : a = .done
        · rw [if_pos now, if_pos (now ▸ List.mem_cons_self ..)]
        · rw [if_neg now, if_neg (by simp [later, Ne.symm now])]
    rw [bound] at moved
    exact moved

/-- What a state relies on, the marks tell. -/
structure Marks.Suits (m : Marks) (cs : Nat) : Prop where
  named : inValue cs = true → m.named = true
  asked : inQuery cs = true → m.asked = true

/-- The first action finds what it relies on, and so do the others after it. -/
theorem ordered_cons {target p : Nat} {named asked : Bool} {a : Act} {acts : List Act}
    (has : ordered target named asked (a :: acts) = true) (m : Marks)
    (has_name : named = true → m.named = true) (has_query : asked = true → m.asked = true) :
    (a = .writeValue → m.named = true) ∧ (a = .queryString → m.asked = true) ∧
      ∃ named' asked', ordered target named' asked' acts = true ∧
        (named' = true → (m.set p a).named = true) ∧
        (asked' = true → (m.set p a).asked = true) := by
  cases a with
  | startField => exact ⟨nofun, nofun, false, asked, has, nofun, has_query⟩
  | writeField => exact ⟨nofun, nofun, true, asked, has, fun _ => rfl, has_query⟩
  | startQuery => exact ⟨nofun, nofun, named, true, has, has_name, fun _ => rfl⟩
  | writeValue =>
    rw [ordered, Bool.and_eq_true] at has
    exact ⟨fun _ => has_name has.1, nofun, named, asked, has.2, has_name, has_query⟩
  | queryString =>
    rw [ordered, Bool.and_eq_true] at has
    exact ⟨nofun, fun _ => has_query has.1, named, asked, has.2, has_name, has_query⟩
  | _ => exact ⟨nofun, nofun, named, asked, has, has_name, has_query⟩

theorem suits_setAll {target p : Nat} {acts : List Act} {named asked : Bool} {m : Marks}
    (has : ordered target named asked acts = true) (has_name : named = true → m.named = true)
    (has_query : asked = true → m.asked = true) : (m.setAll p acts).Suits target := by
  induction acts generalizing m named asked with
  | nil =>
    rw [ordered, Bool.and_eq_true] at has
    refine ⟨fun in_value => has_name ?_, fun in_query => has_query ?_⟩
    · simpa [in_value] using has.1
    · simpa [in_query] using has.2
  | cons a acts ih =>
    obtain ⟨-, -, named', asked', later, has_name', has_query'⟩ :=
      ordered_cons (p := p) has m has_name has_query
    exact ih later has_name' has_query'

/-- The actions of an edge hand on the tokens they report. -/
theorem acts_eq {target : Nat} {acts : List Act} {named asked : Bool} {parser : HttpParser}
    (data : HttpRequest) (error : Nat) (tracks : Tracks cut c p body m parser)
    (window : Window head cut buffer c p) (has : ordered target named asked acts = true)
    (has_name : named = true → m.named = true) (has_query : asked = true → m.asked = true)
    (space : .requestMethod ∈ acts → ∃ rest, buffer.drop p = 32 :: rest) :
    acts.foldlM (HttpRequestParser.act buffer p) ⟨parser, data, error⟩ =
      (deliverAll head cut (data, error) (m.tokens (c + p) acts)).map
        fun r => ⟨parser.moveAll p acts, r.1, r.2⟩ := by
  induction acts generalizing m parser data error named asked body with
  | nil => rfl
  | cons a acts ih =>
    obtain ⟨named_now, asked_now, named', asked', later, has_name', has_query'⟩ :=
      ordered_cons (p := c + p) has m has_name has_query
    have first := act_eq ⟨parser, data, error⟩ tracks window a
      (fun reports => space (reports ▸ List.mem_cons_self ..)) named_now asked_now
    rw [List.foldlM_cons, first, Marks.tokens, deliverAll_append]
    cases deliverAll head cut (data, error) (m.token (c + p) a).toList with
    | error fault => rfl
    | ok r =>
      exact ih r.1 r.2 (tracks.move window.here a) later has_name' has_query'
        fun member => space (List.mem_cons_of_mem _ member)

end Action

/-! ## A call of the parser -/

theorem Tracks.setCs {cut : Nat → Nat} {c p body : Nat} {m : Marks} {parser : HttpParser}
    (tracks : Tracks cut c p body m parser) (cs : Nat) :
    Tracks cut c p body m { parser with cs := cs } := by
  obtain ⟨behind, mark, fieldStart, fieldLen, fieldLen_le, queryStart, bodyStart⟩ := tracks
  exact ⟨behind, mark, fieldStart, fieldLen, fieldLen_le, queryStart, bodyStart⟩

theorem Tracks.next {cut : Nat → Nat} {c p body : Nat} {m : Marks} {parser : HttpParser}
    (tracks : Tracks cut c p body m parser) : Tracks cut c (p + 1) body m parser := by
  obtain ⟨behind, mark, fieldStart, fieldLen, fieldLen_le, queryStart, bodyStart⟩ := tracks
  exact ⟨behind.mono (by omega), mark, fieldStart, fieldLen, by omega, queryStart, bodyStart⟩

section Call

variable {head buffer : List UInt8} {cut : Nat → Nat} {c : Nat}

/-- The parser behind an edge. -/
def HttpParser.along (parser : HttpParser) (p target : Nat) (acts : List Act) : HttpParser :=
  { parser.moveAll p acts with cs := target }

@[simp] theorem HttpParser.along_cs (parser : HttpParser) (p target : Nat) (acts : List Act) :
    (parser.along p target acts).cs = target := rfl

@[simp] theorem HttpParser.along_uriRelaxed (parser : HttpParser) (p target : Nat)
    (acts : List Act) : (parser.along p target acts).uriRelaxed = parser.uriRelaxed :=
  parser.moveAll_uriRelaxed p acts

theorem Tracks.along {p : Nat} {m : Marks} {parser : HttpParser} (tracks : Tracks cut c p 0 m parser)
    (here : cut (c + p) = c) (target : Nat) (acts : List Act) :
    Tracks cut c p (if .done ∈ acts then p + 1 else 0) (m.setAll (c + p) acts)
      (parser.along p target acts) :=
  (tracks.moveAll here acts).setCs target

/-- The parser takes an edge on the byte at offset `p`. -/
theorem exec_cons {p target : Nat} {b : UInt8} {beyond : List UInt8} {m : Marks}
    {parser : HttpParser} {acts : List Act} (bytes : List UInt8) (tracks : Tracks cut c p 0 m parser)
    (suits : m.Suits parser.cs) (window : Window head cut buffer c p)
    (rest : buffer.drop p = b :: beyond)
    (moves : transition parser.uriRelaxed parser.cs b = some (target, acts))
    (data : HttpRequest) (error : Nat) :
    HttpRequestParser.exec buffer p ⟨parser, data, error⟩ (b :: bytes) =
      (deliverAll head cut (data, error) (m.tokens (c + p) acts)).bind fun r =>
        if .done ∈ acts then .ok (⟨parser.along p target acts, r.1, r.2⟩, p + 1)
        else HttpRequestParser.exec buffer (p + 1) ⟨parser.along p target acts, r.1, r.2⟩ bytes := by
  obtain ⟨e, sound, -, rfl, rfl⟩ := transition_sound moves
  have acts_eq := acts_eq data error tracks window sound.ordered suits.named suits.asked
    fun reports => ⟨beyond, space_of_method moves reports ▸ rest⟩
  simp only [HttpRequestParser.exec, moves, acts_eq]
  cases deliverAll head cut (data, error) (m.tokens (c + p) e.acts) <;> rfl

theorem suits_along {p target : Nat} {b : UInt8} {m : Marks} {parser : HttpParser}
    {acts : List Act} (suits : m.Suits parser.cs)
    (moves : transition parser.uriRelaxed parser.cs b = some (target, acts)) :
    (m.setAll p acts).Suits target := by
  obtain ⟨e, sound, -, rfl, rfl⟩ := transition_sound moves
  exact suits_setAll sound.ordered suits.named suits.asked

theorem done_iff_final {uriRelaxed : Bool} {cs target : Nat} {b : UInt8} {acts : List Act}
    (moves : transition uriRelaxed cs b = some (target, acts)) :
    .done ∈ acts ↔ httpParserFirstFinal ≤ target := by
  obtain ⟨e, sound, -, rfl, rfl⟩ := transition_sound moves
  exact sound.done_iff

theorem completes_cons {uriRelaxed : Bool} {cs : Nat} {b : UInt8} {bytes : List UInt8}
    (good : completes uriRelaxed cs (b :: bytes) = true) :
    ∃ target acts, transition uriRelaxed cs b = some (target, acts) ∧
      (.done ∈ acts ∧ bytes = [] ∨ .done ∉ acts ∧ completes uriRelaxed target bytes = true) := by
  rw [completes] at good
  split at good
  next => cases good
  next target acts moves =>
    refine ⟨target, acts, moves, ?_⟩
    split at good
    next done => exact .inl ⟨done, List.isEmpty_iff.mp good⟩
    next not_done => exact .inr ⟨not_done, good⟩

theorem scan_cons {uriRelaxed : Bool} {cs target p : Nat} {b : UInt8} {acts : List Act} {m : Marks}
    (bytes : List UInt8) (moves : transition uriRelaxed cs b = some (target, acts)) :
    scan uriRelaxed cs m p (b :: bytes) =
      m.tokens p acts ++ scan uriRelaxed target (m.setAll p acts) (p + 1) bytes := by
  simp only [scan, moves]

/-- Where a byte of the buffer is also a byte of the header, the two agree. -/
theorem lengths_of_drop {p : Nat} {b : UInt8} {bytes more : List UInt8}
    (rest : buffer.drop p = b :: bytes) (agrees : head.drop (c + p) = b :: more) :
    p < buffer.length ∧ c + p < head.length := by
  have in_buffer := congrArg List.length rest
  have in_head := congrArg List.length agrees
  simp only [List.length_drop, List.length_cons] at in_buffer in_head
  omega

/-- The parser at the end of a buffer that ends inside of the header. -/
structure Paused (cut : Nat → Nat) (c p : Nat) (m : Marks) (uriRelaxed : Bool) (more : List UInt8)
    (parser : HttpParser) : Prop where
  tracks : Tracks cut c p 0 m parser
  suits : m.Suits parser.cs
  relaxed : parser.uriRelaxed = uriRelaxed
  completes : completes uriRelaxed parser.cs more = true
  open_ : parser.cs < httpParserFirstFinal

/-- The bytes of a buffer that ends inside of the header. -/
theorem exec_inside {bytes more : List UInt8} {b : UInt8} {p : Nat} {m : Marks}
    {parser : HttpParser} (tracks : Tracks cut c p 0 m parser) (suits : m.Suits parser.cs)
    (rest : buffer.drop p = b :: bytes) (agrees : head.drop (c + p) = b :: bytes ++ more)
    (more_ne : more ≠ [])
    (window : ∀ q, q < buffer.length → c + q < head.length → Window head cut buffer c q)
    (good : completes parser.uriRelaxed parser.cs (b :: bytes ++ more) = true) :
    ∃ parser' m' ts, Paused cut c (p + bytes.length) m' parser.uriRelaxed more parser' ∧
      scan parser.uriRelaxed parser.cs m (c + p) (b :: bytes ++ more) =
        ts ++ scan parser.uriRelaxed parser'.cs m' (c + p + (b :: bytes).length) more ∧
      ∀ data error, HttpRequestParser.exec buffer p ⟨parser, data, error⟩ (b :: bytes) =
        (deliverAll head cut (data, error) ts).map
          fun r => (⟨parser', r.1, r.2⟩, p + (b :: bytes).length) := by
  -- every byte takes the marks along; no byte of the buffer can complete the header
  induction bytes generalizing b p m parser with
  | nil =>
    obtain ⟨target, acts, moves, ⟨-, is_nil⟩ | ⟨not_done, good'⟩⟩ := completes_cons good
    · exact absurd is_nil more_ne
    · have here := window p (lengths_of_drop rest agrees).1 (lengths_of_drop rest agrees).2
      have tracks' := tracks.along here.here target acts
      rw [if_neg not_done] at tracks'
      refine ⟨parser.along p target acts, m.setAll (c + p) acts, m.tokens (c + p) acts,
        ⟨tracks', suits_along suits moves, parser.along_uriRelaxed p target acts, good', ?_⟩,
        scan_cons more moves, fun data error => ?_⟩
      · exact Nat.not_le.mp (mt (done_iff_final moves).mpr not_done)
      · rw [exec_cons [] tracks suits here rest moves]
        simp only [if_neg not_done, HttpRequestParser.exec]
        cases deliverAll head cut (data, error) (m.tokens (c + p) acts) <;> rfl
  | cons b' bytes ih =>
    obtain ⟨target, acts, moves, ⟨-, is_nil⟩ | ⟨not_done, good'⟩⟩ := completes_cons good
    · cases is_nil
    · have here := window p (lengths_of_drop rest agrees).1 (lengths_of_drop rest agrees).2
      have tracks' := tracks.along here.here target acts
      rw [if_neg not_done] at tracks'
      have good_along : completes (parser.along p target acts).uriRelaxed
          (parser.along p target acts).cs (b' :: bytes ++ more) = true := by
        rw [parser.along_uriRelaxed]
        exact good'
      obtain ⟨parser', m', ts, paused, scan_eq, exec_eq⟩ := ih tracks'.next
        (suits_along suits moves) (Segments.drop_succ_of_drop rest)
        (Segments.drop_succ_of_drop agrees) good_along
      have position : p + 1 + bytes.length = p + (b' :: bytes).length := by
        rw [List.length_cons]
        omega
      have position' : c + (p + 1) + (b' :: bytes).length = c + p + (b :: b' :: bytes).length := by
        simp only [List.length_cons]
        omega
      rw [parser.along_uriRelaxed, position] at paused
      rw [parser.along_uriRelaxed, parser.along_cs, position'] at scan_eq
      refine ⟨parser', m', m.tokens (c + p) acts ++ ts, paused, ?_, fun data error => ?_⟩
      · rw [List.cons_append, scan_cons _ moves, List.append_assoc, ← scan_eq]
        rfl
      · rw [exec_cons _ tracks suits here rest moves, deliverAll_append]
        cases deliverAll head cut (data, error) (m.tokens (c + p) acts) with
        | error fault => rfl
        | ok r =>
          simp only [Except.bind, if_neg not_done, exec_eq, List.length_cons]
          congr 1
          funext r
          congr 1
          omega

/-- The parser behind the header. -/
theorem exec_complete {bytes beyond : List UInt8} {b : UInt8} {p : Nat} {m : Marks}
    {parser : HttpParser} (tracks : Tracks cut c p 0 m parser) (suits : m.Suits parser.cs)
    (rest : buffer.drop p = b :: bytes ++ beyond) (agrees : head.drop (c + p) = b :: bytes)
    (window : ∀ q, q < buffer.length → c + q < head.length → Window head cut buffer c q)
    (good : completes parser.uriRelaxed parser.cs (b :: bytes) = true) :
    ∃ parser' m', Tracks cut c (p + bytes.length) (p + (b :: bytes).length) m' parser' ∧
      httpParserFirstFinal ≤ parser'.cs ∧
      ∀ data error, HttpRequestParser.exec buffer p ⟨parser, data, error⟩ (b :: bytes ++ beyond) =
        (deliverAll head cut (data, error)
          (scan parser.uriRelaxed parser.cs m (c + p) (b :: bytes))).map
            fun r => (⟨parser', r.1, r.2⟩, p + (b :: bytes).length) := by
  -- the last byte of the header is the one that stops the automaton
  induction bytes generalizing b p m parser with
  | nil =>
    obtain ⟨target, acts, moves, ⟨done, -⟩ | ⟨-, bad⟩⟩ := completes_cons good
    · have here := window p (lengths_of_drop rest agrees).1 (lengths_of_drop rest agrees).2
      have tracks' := tracks.along here.here target acts
      rw [if_pos done] at tracks'
      refine ⟨parser.along p target acts, m.setAll (c + p) acts, tracks',
        (done_iff_final moves).mp done, fun data error => ?_⟩
      rw [List.cons_append, exec_cons _ tracks suits here rest moves, scan_cons [] moves, scan,
        List.append_nil]
      simp only [if_pos done]
      cases deliverAll head cut (data, error) (m.tokens (c + p) acts) <;> rfl
    · cases bad
  | cons b' bytes ih =>
    obtain ⟨target, acts, moves, ⟨-, is_nil⟩ | ⟨not_done, good'⟩⟩ := completes_cons good
    · cases is_nil
    · have here := window p (lengths_of_drop rest agrees).1 (lengths_of_drop rest agrees).2
      have tracks' := tracks.along here.here target acts
      rw [if_neg not_done] at tracks'
      have good_along : completes (parser.along p target acts).uriRelaxed
          (parser.along p target acts).cs (b' :: bytes) = true := by
        rw [parser.along_uriRelaxed]
        exact good'
      obtain ⟨parser', m', final_tracks, final, exec_eq⟩ := ih tracks'.next
        (suits_along suits moves) (Segments.drop_succ_of_drop rest)
        (Segments.drop_succ_of_drop agrees) good_along
      have position : p + 1 + bytes.length = p + (b' :: bytes).length := by
        rw [List.length_cons]
        omega
      have position' : p + 1 + (b' :: bytes).length = p + (b :: b' :: bytes).length := by
        simp only [List.length_cons]
        omega
      rw [position, position'] at final_tracks
      refine ⟨parser', m', final_tracks, final, fun data error => ?_⟩
      rw [List.cons_append, exec_cons _ tracks suits here rest moves, scan_cons _ moves,
        deliverAll_append]
      cases deliverAll head cut (data, error) (m.tokens (c + p) acts) with
      | error fault => rfl
      | ok r =>
        simp only [Except.bind, if_neg not_done]
        rw [exec_eq, parser.along_uriRelaxed, parser.along_cs, position']
        rfl

end Call

end ServerFrame.Http
