import ServerFrame.Http.Connection
import ServerFrame.Http.Tokens
import ServerFrame.Lib.EState
import ServerFrame.Lib.Segments

/-!
# The header of a response

What the client's automaton does with a header that arrives in reads: its states do not
depend on where a read ends, but the text of the version does, of which the parser sees
what lies behind the last read end.
-/
namespace ServerFrame.Http

open Segments

/-! ## The states -/

/-- The states before the version is reported. -/
def early (cs : Nat) : Bool := cs == 1 || (8 ≤ cs && cs ≤ 15)

theorem early_of_final {cs : Nat} (final : httpclientParserFirstFinal ≤ cs) : early cs = false := by
  rw [httpclientParserFirstFinal] at final
  simp only [early, Bool.or_eq_false_iff, Bool.and_eq_false_iff, beq_eq_false_iff_ne,
    decide_eq_false_iff_not]
  omega

/-- Transfer in chunks is announced. -/
def announces (acts : List ClientAct) : Bool :=
  acts.any fun a => a == .transChunked || a == .chunkSize

/-- From state `cs` on, `bytes` is the rest of a header; its last byte completes it, and none
before. The state behind it, and whether chunks have been announced. -/
def headerEnd : Nat → Bool → List UInt8 → Option (Nat × Bool)
  | _, _, [] => none
  | cs, chunked, b :: bytes =>
    match clientTransition cs b with
    | none => none
    | some (target, acts) =>
      if .done ∈ acts then
        if bytes = [] then some (target, chunked || announces acts) else none
      else headerEnd target (chunked || announces acts) bytes

/-- The facts about an edge from state `cs`. -/
structure ClientEdge.Sound (cs : Nat) (e : ClientEdge) : Prop where
  alive : e.target ≠ httpclientParserError
  onward : e.target ≠ httpclientParserStart
  done_iff : .done ∈ e.acts ↔ httpclientParserFirstFinal ≤ e.target
  inside : early cs = true → cs = 1 ∨ e.acts = [] ∧ early e.target = true ∧ e.accepts 32 = false ∨
    e.acts = [.httpVersion] ∧ e.target = 16 ∧ e.bytes = [(32, 32)]
  behind : early cs = false → early e.target = false ∧ .httpVersion ∉ e.acts

instance ClientEdge.decidableSound (cs : Nat) (e : ClientEdge) : Decidable (e.Sound cs) :=
  decidable_of_iff
    (e.target ≠ httpclientParserError ∧ e.target ≠ httpclientParserStart ∧
      (.done ∈ e.acts ↔ httpclientParserFirstFinal ≤ e.target) ∧
      (early cs = true → cs = 1 ∨ e.acts = [] ∧ early e.target = true ∧ e.accepts 32 = false ∨
        e.acts = [.httpVersion] ∧ e.target = 16 ∧ e.bytes = [(32, 32)]) ∧
      (early cs = false → early e.target = false ∧ .httpVersion ∉ e.acts))
    ⟨fun ⟨a, b, c, d, e⟩ => ⟨a, b, c, d, e⟩, fun ⟨a, b, c, d, e⟩ => ⟨a, b, c, d, e⟩⟩

theorem clientStates_sound : ∀ cs ∈ List.range clientStates.length,
    ∀ e ∈ clientStates.getD cs [], e.Sound cs := by
  decide +kernel

section Transition

variable {cs target : Nat} {b : UInt8} {acts : List ClientAct}

/-- Every transition is an edge with these facts. -/
theorem clientTransition_sound (moves : clientTransition cs b = some (target, acts)) :
    ∃ e : ClientEdge, e.Sound cs ∧ e.accepts b = true ∧ e.target = target ∧ e.acts = acts := by
  rw [clientTransition, Option.map_eq_some_iff] at moves
  obtain ⟨e, found, same⟩ := moves
  cases same
  have member := List.mem_of_find?_eq_some found
  have known : cs ∈ List.range clientStates.length := by
    rw [List.mem_range]
    by_contra beyond
    rw [List.getD_eq_getElem?_getD, List.getElem?_eq_none (Nat.le_of_not_lt beyond)] at member
    cases member
  exact ⟨e, clientStates_sound cs known e member, (List.find?_eq_some_iff_append.mp found).1, rfl, rfl⟩

theorem clientTransition_alive (moves : clientTransition cs b = some (target, acts)) :
    target ≠ httpclientParserError ∧ target ≠ httpclientParserStart ∧
      (.done ∈ acts ↔ httpclientParserFirstFinal ≤ target) := by
  obtain ⟨e, sound, -, rfl, rfl⟩ := clientTransition_sound moves
  exact ⟨sound.alive, sound.onward, sound.done_iff⟩

theorem clientTransition_behind (moves : clientTransition cs b = some (target, acts))
    (behind : early cs = false) : early target = false ∧ .httpVersion ∉ acts := by
  obtain ⟨e, sound, -, rfl, rfl⟩ := clientTransition_sound moves
  exact sound.behind behind

/-- Before the version is reported nothing is but the start of the first byte. -/
theorem clientTransition_early (moves : clientTransition cs b = some (target, acts))
    (inside : early cs = true) (response : cs = 1 → b = 72) :
    early target = true ∧ b ≠ 32 ∧ (acts = [] ∨ acts = [.mark] ∧ cs = 1) ∨
      b = 32 ∧ target = 16 ∧ acts = [.httpVersion] := by
  obtain ⟨e, sound, accepted, rfl, rfl⟩ := clientTransition_sound moves
  rcases sound.inside inside with rfl | ⟨acts_eq, stays, no_blank⟩ | ⟨acts_eq, target_eq, bytes_eq⟩
  · have first : clientTransition 1 72 = some (8, [.mark]) := by decide +kernel
    rw [response rfl, first] at moves
    obtain ⟨target_eq, acts_eq⟩ := Prod.mk.inj (Option.some.inj moves)
    rw [← target_eq, ← acts_eq, response rfl]
    exact .inl ⟨by decide, by decide, .inr ⟨rfl, rfl⟩⟩
  · refine .inl ⟨stays, ?_, .inl acts_eq⟩
    rintro rfl
    rw [no_blank] at accepted
    cases accepted
  · have blank : b = 32 := by
      simp only [ClientEdge.accepts, bytes_eq, List.any_cons, List.any_nil, Bool.or_false,
        Bool.and_eq_true, decide_eq_true_eq] at accepted
      exact UInt8.toNat_inj.mp (Nat.le_antisymm accepted.2 accepted.1)
    exact .inr ⟨blank, target_eq, acts_eq⟩

end Transition

/-! ## One buffer -/

/-- The marks do not lie behind offset `p`. -/
structure Within (p : Nat) (parser : HttpClientParser) : Prop where
  mark : parser.mark ≤ p
  fieldStart : parser.fieldStart ≤ p
  fieldLen : parser.fieldLen ≤ p

theorem Within.mono {p q : Nat} {parser : HttpClientParser} (within : Within p parser) (le : p ≤ q) :
    Within q parser :=
  ⟨Nat.le_trans within.mark le, Nat.le_trans within.fieldStart le, Nat.le_trans within.fieldLen le⟩

/-- What the actions of an edge at offset `p` do, other than to report the version. -/
structure Acted (p : Nat) (acts : List ClientAct) (hp hp' : HttpResponseParser) : Prop where
  within : Within p hp'.parser
  cs : hp'.parser.cs = hp.parser.cs
  chunked : hp'.parser.chunked = (hp.parser.chunked || announces acts)
  bodyStart : hp'.parser.bodyStart = if .done ∈ acts then p + 1 else hp.parser.bodyStart
  error : hp'.error = hp.error

section Acts

variable {buffer : List UInt8} {p : Nat} {hp : HttpResponseParser}

theorem client_len {start : Nat} (le : start ≤ p) : HttpRequestParser.len start p = p - start :=
  if_pos le

theorem client_str {chars : List UInt8} {length : Nat} (small : length ≤ HttpRequestParser.maxSize) :
    HttpResponseParser.str chars length = .ok (chars.take length) :=
  if_pos small

/-- The callbacks for a field and for the reason do not touch the parser. -/
theorem onResponseHttpField_marks {hp' : HttpResponseParser} {field value : List UInt8} {flen vlen : Nat}
    (ran : hp.onResponseHttpField field flen value vlen = .ok hp') : hp'.parser = hp.parser := by
  rw [HttpResponseParser.onResponseHttpField] at ran
  split at ran
  next =>
    cases ran
    rfl
  next =>
    obtain ⟨name, -, named⟩ := EState.except_bind_ok ran
    obtain ⟨text, -, valued⟩ := EState.except_bind_ok named
    cases valued
    rfl

theorem onResponseReason_marks {hp' : HttpResponseParser} {chars : List UInt8} {length : Nat}
    (ran : hp.onResponseReason chars length = .ok hp') : hp'.parser = hp.parser := by
  obtain ⟨reason, -, set⟩ := EState.except_bind_ok ran
  cases set
  rfl

theorem onResponseVersion_marks (chars : List UInt8) (length : Nat) :
    (hp.onResponseVersion chars length).parser = hp.parser := by
  rw [HttpResponseParser.onResponseVersion]
  split
  · rfl
  · split
    · rfl
    · rfl

theorem act_spec {a : ClientAct} (within : Within p hp.parser) (small : p ≤ HttpRequestParser.maxSize)
    (other : a ≠ .httpVersion) : ∃ hp', hp.act buffer p a = .ok hp' ∧ Acted p [a] hp hp' := by
  have value_small : p - hp.parser.mark ≤ HttpRequestParser.maxSize := by omega
  have name_small : hp.parser.fieldLen ≤ HttpRequestParser.maxSize := Nat.le_trans within.fieldLen small
  have stays : hp.parser.chunked = (hp.parser.chunked || false) := (Bool.or_false _).symm
  cases a with
  | mark => exact ⟨_, rfl, ⟨Nat.le_refl p, within.2, within.3⟩, rfl, stays, rfl, rfl⟩
  | startField => exact ⟨_, rfl, ⟨within.1, Nat.le_refl p, within.3⟩, rfl, stays, rfl, rfl⟩
  | writeField =>
    refine ⟨_, rfl, ⟨within.1, within.2, ?_⟩, rfl, stays, rfl, rfl⟩
    rw [client_len within.fieldStart]
    exact Nat.sub_le ..
  | writeContentLen => exact ⟨_, rfl, ⟨within.1, within.2, within.3⟩, rfl, stays, rfl, rfl⟩
  | writeConnectionClose => exact ⟨_, rfl, within, rfl, stays, rfl, rfl⟩
  | writeValue =>
    simp only [HttpResponseParser.act, HttpResponseParser.onResponseHttpField, client_len within.mark,
      client_str name_small, client_str value_small]
    by_cases unnamed : hp.parser.fieldLen = 0
    · rw [if_pos unnamed]
      exact ⟨_, rfl, within, rfl, stays, rfl, rfl⟩
    · rw [if_neg unnamed]
      exact ⟨_, rfl, within, rfl, stays, rfl, rfl⟩
  | reasonPhrase =>
    simp only [HttpResponseParser.act, HttpResponseParser.onResponseReason, client_len within.mark,
      client_str value_small]
    exact ⟨_, rfl, within, rfl, stays, rfl, rfl⟩
  | statusCode => exact ⟨_, rfl, within, rfl, stays, rfl, rfl⟩
  | httpVersion => exact absurd rfl other
  | chunkSize =>
    exact ⟨_, rfl, ⟨within.1, within.2, within.3⟩, rfl, (Bool.or_true _).symm, rfl, rfl⟩
  | transChunked =>
    exact ⟨_, rfl, ⟨within.1, within.2, within.3⟩, rfl, (Bool.or_true _).symm, rfl, rfl⟩
  | done => exact ⟨_, rfl, ⟨within.1, within.2, within.3⟩, rfl, stays, rfl, rfl⟩

theorem acts_spec {acts : List ClientAct} (within : Within p hp.parser)
    (small : p ≤ HttpRequestParser.maxSize) (others : .httpVersion ∉ acts) :
    ∃ hp', acts.foldlM (HttpResponseParser.act buffer p) hp = .ok hp' ∧ Acted p acts hp hp' := by
  induction acts generalizing hp with
  | nil => exact ⟨hp, rfl, within, rfl, (Bool.or_false _).symm, rfl, rfl⟩
  | cons a acts ih =>
    have other : a ≠ .httpVersion := fun same => others (same ▸ List.mem_cons_self ..)
    obtain ⟨hp₁, acted, first⟩ := act_spec within small other
    obtain ⟨hp₂, acted', later⟩ := ih first.within fun member => others (List.mem_cons_of_mem _ member)
    refine ⟨hp₂, ?_, later.within, later.cs.trans first.cs, ?_, ?_, later.error.trans first.error⟩
    · rw [List.foldlM_cons, acted]
      exact acted'
    · rw [later.chunked, first.chunked, Bool.or_assoc]
      simp [announces]
    · rw [later.bodyStart, first.bodyStart]
      by_cases done : ClientAct.done ∈ acts
      · rw [if_pos done, if_pos (List.mem_cons_of_mem _ done)]
      · simp [done]

end Acts

/-- The parser at offset `p` of a buffer inside of a header. Before the version is reported
its text is all that the buffer has held. -/
structure InHeader (buffer : List UInt8) (p : Nat) (hp : HttpResponseParser) : Prop where
  within : Within (p - 1) hp.parser
  first : hp.parser.cs = 1 → p = 0
  unmarked : early hp.parser.cs = true → hp.parser.mark = 0 ∧ ∀ b ∈ buffer.take p, b ≠ 32

/-- The error behind a part of the buffer that takes the parser from `cs` to `cs'`. -/
def versionError (buffer : List UInt8) (cs cs' error : Nat) : Nat :=
  if early cs = true ∧ early cs' = false ∧ versionOf (buffer.takeWhile (· ≠ 32)) = none then 1001
  else error

section Buffer

variable {buffer bytes : List UInt8} {p : Nat} {hp : HttpResponseParser}

theorem takeWhile_of_drop (here : buffer.drop p = 32 :: bytes)
    (none_before : ∀ b ∈ buffer.take p, b ≠ 32) : buffer.takeWhile (· ≠ 32) = buffer.take p := by
  have split : buffer = buffer.take p ++ 32 :: bytes := by rw [← here, List.take_append_drop]
  have all_pass : ∀ b ∈ buffer.take p, (decide (b ≠ 32)) = true := fun b member =>
    decide_eq_true (none_before b member)
  calc
    buffer.takeWhile (· ≠ 32) = (buffer.take p ++ 32 :: bytes).takeWhile (· ≠ 32) := by rw [← split]
    _ = buffer.take p ++ (32 :: bytes).takeWhile (· ≠ 32) := List.takeWhile_append_of_pos all_pass
    _ = buffer.take p := by simp

/-- The version is read from the start of the buffer. -/
theorem onResponseVersion_eq (at_end : p ≤ buffer.length) :
    hp.onResponseVersion buffer p =
      match versionOf (buffer.take p) with
      | none => hp.setError 1001
      | some v => { hp with data := { hp.data with version := v } } := by
  have length_eq : (buffer.take p).length = p := by rw [List.length_take]; omega
  have chars_eq : ∀ s, HttpRequestParser.sameChars (buffer.take p) s p =
      HttpRequestParser.sameChars buffer s p := by
    intro s
    rw [HttpRequestParser.sameChars, HttpRequestParser.sameChars, List.take_take, Nat.min_self]
  rw [HttpResponseParser.onResponseVersion, versionOf, length_eq, chars_eq, chars_eq]
  split
  next => rfl
  next => split <;> rfl

/-- One byte of a header. -/
theorem step_spec {b : UInt8} {target : Nat} {acts : List ClientAct} (inside : InHeader buffer p hp)
    (here : buffer.drop p = b :: bytes)
    (moves : clientTransition hp.parser.cs b = some (target, acts))
    (response : hp.parser.cs = 1 → b = 72) (small : buffer.length ≤ HttpRequestParser.maxSize) :
    ∃ hp', acts.foldlM (HttpResponseParser.act buffer p) hp = .ok hp' ∧
      InHeader buffer (p + 1) (hp'.setCs target) ∧
      hp'.parser.chunked = (hp.parser.chunked || announces acts) ∧
      hp'.parser.bodyStart = (if .done ∈ acts then p + 1 else hp.parser.bodyStart) ∧
      hp'.error = versionError buffer hp.parser.cs target hp.error := by
  have within : Within p hp.parser := inside.within.mono (Nat.sub_le ..)
  have p_lt : p < buffer.length := by
    have lengths := congrArg List.length here
    rw [List.length_drop, List.length_cons] at lengths
    omega
  have not_first : target = 1 → p + 1 = 0 := fun is_first =>
    absurd is_first (clientTransition_alive moves).2.1
  by_cases early_cs : early hp.parser.cs = true
  · rcases clientTransition_early moves early_cs response with
      ⟨stays, not_blank, acts_eq⟩ | ⟨rfl, rfl, rfl⟩
    · -- the version goes on
      have no_error : versionError buffer hp.parser.cs target hp.error = hp.error := by
        rw [versionError, stays]
        exact if_neg fun ended => Bool.noConfusion ended.2.1
      have none_yet : ∀ c ∈ buffer.take (p + 1), c ≠ 32 := by
        intro c member
        rw [take_succ_of_drop here, List.mem_append, List.mem_singleton] at member
        rcases member with member | rfl
        · exact (inside.unmarked early_cs).2 c member
        · exact not_blank
      rcases acts_eq with rfl | ⟨rfl, is_start⟩
      · exact ⟨hp, rfl, ⟨⟨within.1, within.2, within.3⟩, not_first, fun _ => ⟨(inside.unmarked early_cs).1, none_yet⟩⟩,
          (Bool.or_false _).symm, rfl, no_error.symm⟩
      · have at_start := inside.first is_start
        exact ⟨_, rfl, ⟨⟨Nat.le_refl p, within.2, within.3⟩, not_first, fun _ => ⟨at_start, none_yet⟩⟩,
          (Bool.or_false _).symm, rfl, no_error.symm⟩
    · -- the blank behind the version
      obtain ⟨unmarked, none_before⟩ := inside.unmarked early_cs
      have text_eq := takeWhile_of_drop here none_before
      have acted : HttpResponseParser.act buffer p hp .httpVersion =
          .ok (hp.onResponseVersion buffer p) := by
        rw [HttpResponseParser.act, unmarked, List.drop_zero, client_len (Nat.zero_le p), Nat.sub_zero]
      refine ⟨hp.onResponseVersion buffer p, ?_, ?_⟩
      · rw [List.foldlM_cons, acted]
        rfl
      · rw [onResponseVersion_eq (Nat.le_of_lt p_lt), versionError, text_eq]
        cases versionOf (buffer.take p) with
        | none =>
          refine ⟨⟨⟨within.1, within.2, within.3⟩, not_first, ?_⟩, (Bool.or_false _).symm, rfl, ?_⟩
          · intro impossible
            cases impossible
          · rw [if_pos ⟨early_cs, rfl, rfl⟩]
            rfl
        | some v =>
          refine ⟨⟨⟨within.1, within.2, within.3⟩, not_first, ?_⟩, (Bool.or_false _).symm, rfl, ?_⟩
          · intro impossible
            cases impossible
          · rw [if_neg (by simp)]
  · have behind : early hp.parser.cs = false := Bool.eq_false_iff.mpr early_cs
    -- behind the version no action can fail or compare anything
    obtain ⟨stays, others⟩ := clientTransition_behind moves behind
    obtain ⟨hp', acted, spec⟩ := acts_spec within (by omega) others
    refine ⟨hp', acted, ⟨⟨spec.within.1, spec.within.2, spec.within.3⟩, not_first, ?_⟩, spec.chunked, spec.bodyStart, ?_⟩
    · intro impossible
      rw [HttpResponseParser.setCs, stays] at impossible
      cases impossible
    · rw [spec.error, versionError, if_neg (fun ended => early_cs ended.1)]

/-- The parser reads a header of which `tail` is left. -/
structure HeaderState (found : Nat × Bool) (tail : List UInt8) (hp : HttpResponseParser) : Prop where
  ends : headerEnd hp.parser.cs hp.parser.chunked tail = some found
  alive : hp.parser.cs ≠ httpclientParserError ∧ hp.parser.cs < httpclientParserFirstFinal
  response : hp.parser.cs = 1 → tail.head? = some 72
  fresh : hp.parser.bodyStart = 0

/-- One byte of the header, which does not complete it or does. -/
theorem headerEnd_cons {cs : Nat} {chunked : Bool} {found : Nat × Bool} {b : UInt8}
    (ends : headerEnd cs chunked (b :: bytes) = some found) :
    ∃ target acts, clientTransition cs b = some (target, acts) ∧
      (.done ∉ acts ∧ headerEnd target (chunked || announces acts) bytes = some found ∨
        .done ∈ acts ∧ bytes = [] ∧ found = (target, chunked || announces acts)) := by
  rw [headerEnd] at ends
  split at ends
  next => cases ends
  next target acts moves =>
    split at ends
    next done =>
      split at ends
      next last => exact ⟨target, acts, moves, .inr ⟨done, last, (Option.some.inj ends).symm⟩⟩
      next => cases ends
    next not_done => exact ⟨target, acts, moves, .inl ⟨not_done, ends⟩⟩

theorem versionError_trans {cs cs₁ cs₂ error : Nat} (mono : early cs = false → early cs₁ = false)
    (mono' : early cs₁ = false → early cs₂ = false) :
    versionError buffer cs₁ cs₂ (versionError buffer cs cs₁ error) =
      versionError buffer cs cs₂ error := by
  simp only [versionError]
  cases before : early cs
  · simp [mono before]
  · cases between : early cs₁
    · simp [mono' between]
    · simp

theorem early_mono {cs target : Nat} {b : UInt8} {acts : List ClientAct}
    (moves : clientTransition cs b = some (target, acts)) (behind : early cs = false) :
    early target = false :=
  (clientTransition_behind moves behind).1

/-- The version is left at a blank. -/
theorem blank_of_early {cs target : Nat} {b : UInt8} {acts : List ClientAct}
    (moves : clientTransition cs b = some (target, acts)) (response : cs = 1 → b = 72)
    (inside : early cs = true) (ended : early target = false) : b = 32 := by
  rcases clientTransition_early moves inside response with ⟨stays, -, -⟩ | ⟨blank, -, -⟩
  · rw [ended] at stays
    cases stays
  · exact blank

variable {found : Nat × Bool}

/-- A buffer that ends inside of the header. -/
theorem client_exec_inside {more : List UInt8} (inside : InHeader buffer p hp)
    (state : HeaderState found (bytes ++ more) hp) (here : buffer.drop p = bytes)
    (at_end : p + bytes.length = buffer.length)
    (small : buffer.length ≤ HttpRequestParser.maxSize) (more_ne : more ≠ []) :
    ∃ hp', HttpResponseParser.exec buffer p hp bytes = .ok (hp', buffer.length) ∧
      InHeader buffer buffer.length hp' ∧ HeaderState found more hp' ∧
      hp'.error = versionError buffer hp.parser.cs hp'.parser.cs hp.error ∧
      (early hp.parser.cs = false → early hp'.parser.cs = false) ∧
      (early hp.parser.cs = true → early hp'.parser.cs = false → 32 ∈ bytes) := by
  induction bytes generalizing p hp with
  | nil =>
    obtain rfl : p = buffer.length := at_end
    have stays : ¬ (early hp.parser.cs = true ∧ early hp.parser.cs = false) := by simp
    refine ⟨hp, rfl, inside, state, ?_, id, fun is_early ended => absurd ⟨is_early, ended⟩ stays⟩
    rw [versionError, if_neg fun ended => stays ⟨ended.1, ended.2.1⟩]
  | cons b bytes ih =>
    obtain ⟨target, acts, moves, ⟨not_done, later⟩ | ⟨-, last, -⟩⟩ := headerEnd_cons state.ends
    · have response : hp.parser.cs = 1 → b = 72 := fun first =>
        Option.some.inj (state.response first)
      obtain ⟨hp₁, acted, inside₁, chunked_eq, start_eq, error_eq⟩ :=
        step_spec inside here moves response small
      obtain ⟨alive, onward, done_iff⟩ := clientTransition_alive moves
      rw [if_neg not_done, state.fresh] at start_eq
      have state₁ : HeaderState found (bytes ++ more) (hp₁.setCs target) :=
        { ends := by rw [← chunked_eq] at later; exact later
          alive := ⟨alive, Nat.lt_of_not_le (mt done_iff.mpr not_done)⟩
          response := fun first => absurd first onward
          fresh := start_eq }
      have here₁ : buffer.drop (p + 1) = bytes := by rw [← List.drop_drop, here]; rfl
      obtain ⟨hp', executed, inside', state', error', mono', blank'⟩ :=
        ih inside₁ state₁ here₁ (by rw [List.length_cons] at at_end; omega)
      refine ⟨hp', ?_, inside', state', ?_, fun behind => mono' (early_mono moves behind), ?_⟩
      · rw [HttpResponseParser.exec, moves]
        simp only [acted, bind, Except.bind, if_neg not_done]
        exact executed
      · have error_set : (hp₁.setCs target).error = hp₁.error := rfl
        rw [error', error_set, error_eq]
        exact versionError_trans (early_mono moves) mono'
      · intro is_early ended
        cases between : early target
        · exact blank_of_early moves response is_early between ▸ List.mem_cons_self ..
        · exact List.mem_cons_of_mem _ (blank' between ended)
    · exact absurd (List.append_eq_nil_iff.mp last).2 more_ne

/-- A buffer that holds the end of the header. -/
theorem client_exec_complete {tail after : List UInt8} (inside : InHeader buffer p hp)
    (state : HeaderState found tail hp) (here : buffer.drop p = tail ++ after)
    (small : buffer.length ≤ HttpRequestParser.maxSize) :
    ∃ hp', HttpResponseParser.exec buffer p hp (tail ++ after) = .ok (hp', p + tail.length) ∧
      Within (p + tail.length - 1) hp'.parser ∧ hp'.parser.cs = found.1 ∧
      hp'.parser.chunked = found.2 ∧ hp'.parser.bodyStart = p + tail.length ∧
      hp'.error = versionError buffer hp.parser.cs found.1 hp.error ∧
      httpclientParserFirstFinal ≤ found.1 ∧ (early hp.parser.cs = true → 32 ∈ tail) := by
  induction tail generalizing p hp with
  | nil => cases state.ends
  | cons b tail ih =>
    obtain ⟨target, acts, moves, cases_done⟩ := headerEnd_cons state.ends
    have response : hp.parser.cs = 1 → b = 72 := fun first =>
      Option.some.inj (state.response first)
    obtain ⟨hp₁, acted, inside₁, chunked_eq, start_eq, error_eq⟩ :=
      step_spec inside here moves response small
    obtain ⟨alive, onward, done_iff⟩ := clientTransition_alive moves
    rw [List.cons_append, HttpResponseParser.exec, moves]
    rcases cases_done with ⟨not_done, later⟩ | ⟨done, rfl, rfl⟩
    · -- the byte is inside of the header
      rw [if_neg not_done, state.fresh] at start_eq
      have state₁ : HeaderState found tail (hp₁.setCs target) :=
        { ends := by rw [← chunked_eq] at later; exact later
          alive := ⟨alive, Nat.lt_of_not_le (mt done_iff.mpr not_done)⟩
          response := fun first => absurd first onward
          fresh := start_eq }
      have here₁ : buffer.drop (p + 1) = tail ++ after := by rw [← List.drop_drop, here]; rfl
      obtain ⟨hp', executed, within, cs_eq, chunked', start', error', final, blank'⟩ :=
        ih inside₁ state₁ here₁
      have position : p + 1 + tail.length = p + (b :: tail).length := by
        rw [List.length_cons]
        omega
      rw [position] at executed within start'
      refine ⟨hp', ?_, within, cs_eq, chunked', start', ?_, final, ?_⟩
      · simp only [acted, bind, Except.bind, if_neg not_done]
        exact executed
      · have error_set : (hp₁.setCs target).error = hp₁.error := rfl
        rw [error', error_set, error_eq]
        exact versionError_trans (early_mono moves) fun _ => early_of_final final
      · intro is_early
        cases between : early target
        · exact blank_of_early moves response is_early between ▸ List.mem_cons_self ..
        · exact List.mem_cons_of_mem _ (blank' between)
    · -- the byte completes the header, and the automaton stops behind it
      rw [if_pos done] at start_eq
      refine ⟨hp₁.setCs target, ?_, inside₁.within, rfl, chunked_eq, start_eq, error_eq,
        done_iff.mp done, fun is_early => ?_⟩
      · simp only [acted, bind, Except.bind, if_pos done]
        rfl
      · exact blank_of_early moves response is_early (early_of_final (done_iff.mp done)) ▸
          List.mem_cons_self ..

theorem inHeader_enter (hp : HttpResponseParser) : InHeader buffer 0 hp.enter where
  within := ⟨Nat.le_refl 0, Nat.le_refl 0, Nat.le_refl 0⟩
  first := fun _ => rfl
  unmarked := fun _ => ⟨rfl, by simp⟩

theorem HeaderState.enter {tail : List UInt8} (state : HeaderState found tail hp) :
    HeaderState found tail hp.enter :=
  ⟨state.ends, state.alive, state.response, state.fresh⟩

/-- `Execute` behind the automaton: the assertions and checks hold. -/
theorem execute_of_exec {hp' : HttpResponseParser} {n : Nat} {chunck : Bool}
    (executed : HttpResponseParser.exec buffer 0
      (if chunck then { hp with parser := .init } else hp).enter buffer = .ok (hp', n))
    (nonempty : buffer ≠ []) (le : n ≤ buffer.length) (within : Within (buffer.length - 1) hp'.parser)
    (start : hp'.parser.bodyStart ≤ buffer.length) :
    hp.execute buffer chunck = .ok ({ hp' with parser := { hp'.parser with nread := n } },
      buffer.drop n) := by
  have pos := List.length_pos_iff.mpr nonempty
  have asserted : HttpResponseParser.asserts { hp'.parser with nread := n } buffer.length = true := by
    simp [HttpResponseParser.asserts, le, start]
  have checked : HttpResponseParser.checks { hp'.parser with nread := n } buffer.length = true := by
    have mark := within.mark
    have fieldLen := within.fieldLen
    have fieldStart := within.fieldStart
    simp only [HttpResponseParser.checks, Bool.and_eq_true, decide_eq_true_eq]
    omega
  simp only [HttpResponseParser.execute, executed, bind, Except.bind, asserted, checked, Bool.not_true,
    Bool.false_eq_true, if_false, pure, Except.pure]

theorem small_of_fits {env : ClientEnv} (fits : buffer.length ≤ env.bufferSize) :
    buffer.length ≤ HttpRequestParser.maxSize := by
  have small := env.small
  rw [recvMax] at small
  rw [HttpRequestParser.maxSize]
  omega

theorem hasError_of_alive (alive : hp.parser.cs ≠ httpclientParserError) :
    hp.hasError = (hp.error != 0) := by
  rw [HttpResponseParser.hasError, beq_eq_false_iff_ne.mpr alive, Bool.or_false]

theorem parse_of_execute {env : ClientEnv} {hp' : HttpResponseParser} {kept : List UInt8}
    {chunck : Bool} (executed : hp.execute buffer chunck = .ok (hp', kept))
    (alive : hp'.parser.cs ≠ httpclientParserError) (room : kept.length ≠ env.bufferSize) :
    parse env hp buffer chunck = .ok (if hp'.error = 0 then some (hp', kept) else none) := by
  simp only [parse, executed, bind, Except.bind, hasError_of_alive alive, if_neg room, pure, Except.pure]
  by_cases fine : hp'.error = 0
  · simp [fine]
  · simp [fine]

/-- What a call of `Execute` that returns has done. -/
theorem execute_ok {hp' : HttpResponseParser} {kept : List UInt8} {chunck : Bool}
    (ran : hp.execute buffer chunck = .ok (hp', kept)) :
    ∃ hp₁ n, HttpResponseParser.exec buffer 0
      (if chunck then { hp with parser := .init } else hp).enter buffer = .ok (hp₁, n) ∧
      hp' = { hp₁ with parser := { hp₁.parser with nread := n } } ∧ kept = buffer.drop n := by
  obtain ⟨⟨hp₁, n⟩, executed, tested⟩ := EState.except_bind_ok ran
  refine ⟨hp₁, n, executed, ?_⟩
  dsimp only at tested
  -- the assertions and the checks hold, else nothing is returned
  split at tested
  next => cases tested
  next =>
    split at tested
    next => cases tested
    next =>
      cases tested
      exact ⟨rfl, rfl⟩

/-- The loops go on only without an error. -/
theorem parse_ok {env : ClientEnv} {hp' : HttpResponseParser} {kept : List UInt8} {chunck : Bool}
    (ran : parse env hp buffer chunck = .ok (some (hp', kept))) :
    hp.execute buffer chunck = .ok (hp', kept) ∧ hp'.hasError = false := by
  obtain ⟨⟨hp₁, kept₁⟩, executed, tested⟩ := EState.except_bind_ok ran
  dsimp only at tested
  split at tested
  next => cases tested
  next alive =>
    split at tested
    next => cases tested
    next =>
      cases tested
      exact ⟨executed, Bool.eq_false_iff.mpr alive⟩

/-- A buffer that ends inside of the header is taken as a whole. -/
theorem parse_inside {env : ClientEnv} {more : List UInt8}
    (state : HeaderState found (buffer ++ more) hp) (no_error : hp.error = 0) (nonempty : buffer ≠ [])
    (more_ne : more ≠ []) (fits : buffer.length ≤ env.bufferSize) :
    ∃ hp', HeaderState found more hp' ∧
      (early hp'.parser.cs = true → ∀ b ∈ buffer, b ≠ 32) ∧
      hp'.error = versionError buffer hp.parser.cs hp'.parser.cs 0 ∧
      (early hp.parser.cs = false → early hp'.parser.cs = false) ∧
      (early hp.parser.cs = true → early hp'.parser.cs = false → 32 ∈ buffer) ∧
      parse env hp buffer false = .ok (if hp'.error = 0 then some (hp', []) else none) := by
  have pos := List.length_pos_iff.mpr nonempty
  obtain ⟨hp', executed, inside, state', error', mono, blank⟩ := client_exec_inside (inHeader_enter hp)
    state.enter List.drop_zero (Nat.zero_add _) (small_of_fits fits) more_ne
  have parsed : hp.execute buffer false =
      .ok ({ hp' with parser := { hp'.parser with nread := buffer.length } },
        buffer.drop buffer.length) :=
    execute_of_exec executed nonempty (Nat.le_refl _) inside.within
      (by rw [state'.fresh]; exact Nat.zero_le _)
  have same_error : hp.enter.error = 0 := no_error
  rw [same_error] at error'
  refine ⟨{ hp' with parser := { hp'.parser with nread := buffer.length } },
    ⟨state'.ends, state'.alive, state'.response, state'.fresh⟩, ?_, error', mono, blank, ?_⟩
  · intro is_early b member
    rw [← List.take_length (l := buffer)] at member
    exact (inside.unmarked is_early).2 b member
  · rw [List.drop_length] at parsed
    exact parse_of_execute parsed state'.alive.1 (by rw [List.length_nil]; omega)

/-- A buffer that holds the end of the header is taken up to there. -/
theorem parse_complete {env : ClientEnv} {tail after : List UInt8} (state : HeaderState found tail hp)
    (no_error : hp.error = 0) (fits : (tail ++ after).length ≤ env.bufferSize) :
    ∃ hp', hp'.parser.cs = found.1 ∧ hp'.parser.chunked = found.2 ∧
      hp'.error = versionError (tail ++ after) hp.parser.cs found.1 0 ∧
      httpclientParserFirstFinal ≤ found.1 ∧ (early hp.parser.cs = true → 32 ∈ tail) ∧
      parse env hp (tail ++ after) false = .ok (if hp'.error = 0 then some (hp', after) else none) := by
  have tail_ne : tail ≠ [] := by
    rintro rfl
    cases state.ends
  have pos := List.length_pos_iff.mpr tail_ne
  obtain ⟨hp', executed, within, cs_eq, chunked_eq, start_eq, error', final, blank⟩ :=
    client_exec_complete (inHeader_enter hp) state.enter List.drop_zero (small_of_fits fits)
  rw [Nat.zero_add] at executed within start_eq
  have le : tail.length ≤ (tail ++ after).length := by
    rw [List.length_append]
    omega
  have parsed : hp.execute (tail ++ after) false =
      .ok ({ hp' with parser := { hp'.parser with nread := tail.length } },
        (tail ++ after).drop tail.length) :=
    execute_of_exec executed (by simp [tail_ne]) le (within.mono (by omega)) (by rw [start_eq]; exact le)
  have same_error : hp.enter.error = 0 := no_error
  rw [same_error] at error'
  have alive : hp'.parser.cs ≠ httpclientParserError := by
    rw [cs_eq, httpclientParserError]
    rw [httpclientParserFirstFinal] at final
    omega
  refine ⟨{ hp' with parser := { hp'.parser with nread := tail.length } }, cs_eq, chunked_eq, error',
    final, blank, ?_⟩
  rw [List.drop_left] at parsed
  rw [List.length_append] at fits
  exact parse_of_execute parsed alive (by omega)

end Buffer

/-! ## The reads -/

theorem skip_zero {lengths : List Nat} (positive : ∀ n ∈ lengths, 0 < n) : skip 0 lengths = lengths := by
  cases lengths with
  | nil => rfl
  | cons n lengths => rw [skip, if_pos (positive n (List.mem_cons_self ..)), Nat.sub_zero]

theorem lengths_pos {socket : Socket} (nonempty : ∀ s ∈ socket, s ≠ []) :
    ∀ n ∈ socket.map List.length, 0 < n := by
  intro n member
  obtain ⟨s, of_socket, rfl⟩ := List.mem_map.mp member
  exact List.length_pos_iff.mpr (nonempty s of_socket)

/-- A read of at most `limit` bytes: what it brings and what it leaves. -/
structure Brings (limit : Nat) (s : List UInt8) (socket : Socket) (got : List UInt8) (rest : Socket) :
    Prop where
  length : got.length = min limit s.length
  got_ne : got ≠ []
  rest_eq : rest = dropFront got.length (s :: socket)
  flatten : (s :: socket).flatten = got ++ rest.flatten
  lengths : rest.map List.length = readOnce limit s.length (socket.map List.length)
  nonempty : ∀ t ∈ rest, t ≠ []

/-- A read into the empty buffer. -/
theorem refill_nil {env : ClientEnv} {s : List UInt8} {socket : Socket} (room : 0 < env.bufferSize)
    (nonempty : ∀ t ∈ s :: socket, t ≠ []) :
    ∃ got rest, refill env [] (s :: socket) = some (got, rest) ∧
      Brings env.bufferSize s socket got rest := by
  have s_pos : 0 < s.length := List.length_pos_iff.mpr (nonempty s (List.mem_cons_self ..))
  have rest_ne : ∀ t ∈ socket, t ≠ [] := fun t member => nonempty t (List.mem_cons_of_mem _ member)
  have got_length : (s.take env.bufferSize).length = min env.bufferSize s.length := List.length_take ..
  have got_ne : s.take env.bufferSize ≠ [] := by
    rw [← List.length_pos_iff]
    omega
  refine ⟨s.take env.bufferSize, dropFront (min env.bufferSize s.length) (s :: socket), ?_,
    got_length, got_ne, by rw [got_length], ?_, ?_,
    fun t member => ne_nil_of_mem_dropFront nonempty member⟩
  · have front : read env.bufferSize (s :: socket) = some (s.take (min env.bufferSize recvMax),
        dropFront (min (min env.bufferSize recvMax) s.length) (s :: socket)) := read_eq rest_ne _
    rw [Nat.min_eq_left env.small] at front
    simp only [refill, List.length_nil, Nat.sub_zero, front, if_neg got_ne, List.nil_append]
  · rw [flatten_dropFront, List.flatten_cons]
    by_cases long : env.bufferSize < s.length
    · rw [Nat.min_eq_left (Nat.le_of_lt long), List.drop_append_of_le_length (Nat.le_of_lt long),
        ← List.append_assoc, List.take_append_drop]
    · rw [Nat.min_eq_right (Nat.le_of_not_lt long), List.drop_left,
        List.take_of_length_le (Nat.le_of_not_lt long)]
  · have once : skip (min env.bufferSize s.length + 0) (s.length :: socket.map List.length) =
        skip 0 (readOnce env.bufferSize s.length (socket.map List.length)) := skip_add 0
    have positive : ∀ n ∈ readOnce env.bufferSize s.length (socket.map List.length), 0 < n := by
      intro n member
      rw [readOnce] at member
      split at member
      next long =>
        rcases List.mem_cons.mp member with rfl | member
        · omega
        · exact lengths_pos rest_ne n member
      next => exact lengths_pos rest_ne n member
    rw [map_length_dropFront, List.map_cons, ← Nat.add_zero (min env.bufferSize s.length), once,
      skip_zero positive]

/-- Of the version, what lies behind the start of the read that holds its end reads as a
version. -/
def versionSpared (limit : Nat) (lengths : List Nat) (head : List UInt8) : Bool :=
  let version := head.takeWhile (· ≠ 32)
  (versionOf (version.drop (readStart limit lengths version.length))).isSome

theorem takeWhile_append_blank {front : List UInt8} (blank : 32 ∈ front) (more : List UInt8) :
    (front ++ more).takeWhile (· ≠ 32) = front.takeWhile (· ≠ 32) ∧
      (front.takeWhile (· ≠ 32)).length < front.length := by
  induction front with
  | nil => cases blank
  | cons b front ih =>
    by_cases here : b = 32
    · simp [here]
    · have later : 32 ∈ front := by
        rcases List.mem_cons.mp blank with same | later
        · exact absurd same.symm here
        · exact later
      obtain ⟨same, shorter⟩ := ih later
      simp only [ne_eq, decide_not, List.cons_append] at same shorter ⊢
      simp [here, same, shorter]

theorem takeWhile_append_of_no_blank {front : List UInt8} (none_there : ∀ b ∈ front, b ≠ 32)
    (more : List UInt8) : (front ++ more).takeWhile (· ≠ 32) = front ++ more.takeWhile (· ≠ 32) :=
  List.takeWhile_append_of_pos fun b member => decide_eq_true (none_there b member)

/-- A version that ends in the first read is read as it stands. -/
theorem versionSpared_of_lt {limit s : Nat} {lengths : List Nat} {tail : List UInt8}
    (inside : (tail.takeWhile (· ≠ 32)).length < min limit s) :
    versionSpared limit (s :: lengths) tail = (versionOf (tail.takeWhile (· ≠ 32))).isSome := by
  rw [versionSpared, readStart_of_lt inside, List.drop_zero]

/-- A version that goes on behind the first read is cut there. -/
theorem versionSpared_append {limit s : Nat} {lengths : List Nat} {got more : List UInt8}
    (pos : 0 < limit) (length : got.length = min limit s) (no_blank : ∀ b ∈ got, b ≠ 32) :
    versionSpared limit (s :: lengths) (got ++ more) =
      versionSpared limit (readOnce limit s lengths) more := by
  have version_eq := takeWhile_append_of_no_blank no_blank more
  have length_eq := congrArg List.length version_eq
  rw [List.length_append] at length_eq
  have rest_eq : (got ++ more.takeWhile (· ≠ 32)).length - min limit s =
      (more.takeWhile (· ≠ 32)).length := by
    rw [List.length_append]
    omega
  rw [versionSpared, versionSpared, version_eq, readStart_of_le pos (by rw [List.length_append]; omega),
    rest_eq, ← length, ← List.drop_drop, List.drop_left]

/-- The version, as long as it is still to come, is spared. -/
def VersionPasses (limit : Nat) (lengths : List Nat) (cs : Nat) (tail : List UInt8) : Prop :=
  early cs = true → versionSpared limit lengths tail = true

theorem versionError_eq_zero_iff {buffer : List UInt8} {cs cs' : Nat} :
    versionError buffer cs cs' 0 = 0 ↔ (early cs = true → early cs' = false →
      (versionOf (buffer.takeWhile (· ≠ 32))).isSome = true) := by
  rw [versionError]
  cases known : versionOf (buffer.takeWhile (· ≠ 32)) with
  | none =>
    by_cases ended : early cs = true ∧ early cs' = false
    · simp [ended]
    · rw [if_neg fun failed => ended ⟨failed.1, failed.2.1⟩]
      exact ⟨fun _ is_early behind => absurd ⟨is_early, behind⟩ ended, fun _ => rfl⟩
  | some v => simp

section Version

variable {limit s cs cs' : Nat} {lengths : List Nat} {got more : List UInt8}

/-- The version in a read that ends inside of the header: it ends there or goes on. -/
theorem versionPasses_inside (room : 0 < limit) (length : got.length = min limit s)
    (mono : early cs = false → early cs' = false)
    (stays : early cs' = true → ∀ b ∈ got, b ≠ 32)
    (blank : early cs = true → early cs' = false → 32 ∈ got) :
    VersionPasses limit (s :: lengths) cs (got ++ more) ↔
      versionError got cs cs' 0 = 0 ∧ VersionPasses limit (readOnce limit s lengths) cs' more := by
  rw [versionError_eq_zero_iff, VersionPasses, VersionPasses]
  cases before : early cs with
  | false => simp [mono before]
  | true =>
    cases behind : early cs' with
    | true =>
      -- nothing is compared yet, and the next read begins with the rest of the version
      rw [versionSpared_append room length (stays behind)]
      simp
    | false =>
      obtain ⟨version_eq, shorter⟩ := takeWhile_append_blank (blank before behind) more
      rw [versionSpared_of_lt (by rw [version_eq]; omega), version_eq]
      simp

/-- The version in a read that holds the end of the header. -/
theorem versionPasses_complete (length : (got ++ more).length = min limit s)
    (behind : early cs' = false) (blank : early cs = true → 32 ∈ got) :
    VersionPasses limit (s :: lengths) cs got ↔ versionError (got ++ more) cs cs' 0 = 0 := by
  rw [versionError_eq_zero_iff, VersionPasses]
  cases before : early cs with
  | false => simp
  | true =>
    obtain ⟨version_eq, shorter⟩ := takeWhile_append_blank (blank before) more
    rw [List.length_append] at length
    rw [versionSpared_of_lt (by omega), version_eq]
    simp [behind]

end Version

section Brings

variable {limit : Nat} {s got more : List UInt8} {socket rest : Socket}

/-- What a read that ends inside of the header leaves to do. -/
theorem Brings.inside (brings : Brings limit s socket got rest) (room : 0 < limit) (more_ne : more ≠ [])
    (after : List UInt8) :
    after.take (readStop limit (s.length :: socket.map List.length) ((got ++ more).length - 1) -
        (got ++ more).length) =
      after.take (readStop limit (rest.map List.length) (more.length - 1) - more.length) ∧
    dropFront (readStop limit (s.length :: socket.map List.length) ((got ++ more).length - 1))
        (s :: socket) =
      dropFront (readStop limit (rest.map List.length) (more.length - 1)) rest := by
  have more_pos := List.length_pos_iff.mpr more_ne
  have got_length := brings.length
  have position : (got ++ more).length - 1 - min limit s.length = more.length - 1 := by
    rw [List.length_append]
    omega
  have stop_eq : readStop limit (s.length :: socket.map List.length) ((got ++ more).length - 1) =
      got.length + readStop limit (rest.map List.length) (more.length - 1) := by
    rw [readStop_of_le room (by rw [List.length_append]; omega), position, ← brings.lengths, got_length]
  rw [stop_eq, List.length_append, Nat.add_sub_add_left, brings.rest_eq, dropFront_dropFront]
  exact ⟨rfl, rfl⟩

/-- What a read that holds the end of the header leaves over. -/
theorem Brings.complete (brings : Brings limit s socket (got ++ more) rest) (got_ne : got ≠ []) :
    (more ++ rest.flatten).take (readStop limit (s.length :: socket.map List.length) (got.length - 1) -
        got.length) = more ∧
      dropFront (readStop limit (s.length :: socket.map List.length) (got.length - 1)) (s :: socket) =
        rest := by
  have got_pos := List.length_pos_iff.mpr got_ne
  have whole := brings.length
  rw [List.length_append] at whole
  have stop_eq : readStop limit (s.length :: socket.map List.length) (got.length - 1) =
      (got ++ more).length := by
    rw [readStop_of_lt (by omega), List.length_append, whole]
  rw [stop_eq, ← brings.rest_eq, List.length_append, Nat.add_sub_cancel_left, List.take_left]
  exact ⟨rfl, rfl⟩

end Brings

/-- What the reads of the header come to: the version is spared or there is no response. -/
theorem recvHeader_spec {env : ClientEnv} {fuel : Nat} {hp : HttpResponseParser}
    {found : Nat × Bool} {tail after : List UInt8} {socket : Socket} (room : 0 < env.bufferSize)
    (state : HeaderState found tail hp) (no_error : hp.error = 0)
    (stream : socket.flatten = tail ++ after) (nonempty : ∀ s ∈ socket, s ≠ [])
    (enough : socket.flatten.length < fuel) :
    (¬ VersionPasses env.bufferSize (socket.map List.length) hp.parser.cs tail →
      recvHeader env fuel hp [] socket = .ok none) ∧
    (VersionPasses env.bufferSize (socket.map List.length) hp.parser.cs tail →
      found.1 = httpclientParserFirstFinal →
      ∃ hp', recvHeader env fuel hp [] socket = .ok (some (hp',
          after.take (readStop env.bufferSize (socket.map List.length) (tail.length - 1) - tail.length),
          dropFront (readStop env.bufferSize (socket.map List.length) (tail.length - 1)) socket)) ∧
        hp'.parser.chunked = found.2 ∧ hp'.error = 0) := by
  have tail_ne : tail ≠ [] := by
    rintro rfl
    cases state.ends
  -- each read takes its part of the header, so the induction is on what is left of both
  induction fuel generalizing hp tail socket with
  | zero => cases enough
  | succ fuel ih =>
    cases socket with
    | nil => exact absurd (List.append_eq_nil_iff.mp stream.symm).1 tail_ne
    | cons s socket =>
      obtain ⟨got, rest, filled, brings⟩ := refill_nil room nonempty
      have got_pos := List.length_pos_iff.mpr brings.got_ne
      have got_length := brings.length
      have fits : got.length ≤ env.bufferSize := by omega
      rw [brings.flatten] at stream
      have enough' : rest.flatten.length < fuel := by
        rw [brings.flatten, List.length_append] at enough
        omega
      rw [recvHeader, filled, List.map_cons]
      rcases split_stream stream with ⟨more, more_ne, rfl, rest_stream⟩ | ⟨more, rfl, rfl⟩
      · -- the read ends inside of the header
        obtain ⟨hp', state', stays, error', mono, blank, parsed⟩ :=
          parse_inside state no_error brings.got_ne more_ne fits
        have not_final : hp'.isFinished = false :=
          beq_eq_false_iff_ne.mpr (Nat.ne_of_lt state'.alive.2)
        have passes := @versionPasses_inside _ _ _ _ (socket.map List.length) _ more room got_length mono
          stays blank
        rw [← error', ← brings.lengths] at passes
        obtain ⟨kept_eq, rest_eq⟩ := brings.inside room more_ne after
        rw [kept_eq, rest_eq]
        simp only [parsed, bind, Except.bind]
        by_cases fine : hp'.error = 0
        · simp only [if_pos fine, not_final, Bool.false_eq_true, if_false]
          obtain ⟨lost, returns⟩ := ih state' fine rest_stream brings.nonempty enough' more_ne
          exact ⟨fun harmed => lost fun later => harmed (passes.mpr ⟨fine, later⟩),
            fun spared => returns (passes.mp spared).2⟩
        · simp only [if_neg fine]
          exact ⟨fun _ => rfl, fun spared => absurd (passes.mp spared).1 fine⟩
      · -- the read holds the end of the header
        obtain ⟨hp', cs_eq, chunked_eq, error', final, blank, parsed⟩ :=
          parse_complete state no_error fits
        have passes := @versionPasses_complete _ _ _ _ (socket.map List.length) _ _ got_length
          (early_of_final final) blank
        rw [← error'] at passes
        obtain ⟨kept_eq, rest_eq⟩ := brings.complete tail_ne
        rw [kept_eq, rest_eq]
        simp only [parsed, bind, Except.bind]
        by_cases fine : hp'.error = 0
        · simp only [if_pos fine]
          refine ⟨fun harmed => absurd (passes.mpr fine) harmed, fun _ is_final => ?_⟩
          have finished : hp'.isFinished = true := by
            rw [HttpResponseParser.isFinished, cs_eq, is_final, beq_self_eq_true]
          exact ⟨hp', by simp only [finished, if_true]; rfl, chunked_eq, fine⟩
        · simp only [if_neg fine]
          exact ⟨fun _ => rfl, fun spared => absurd (passes.mp spared) fine⟩

end ServerFrame.Http
