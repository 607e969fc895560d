import ServerFrame.Http.Buffers
import ServerFrame.Http.Servlet
import Mathlib.Data.List.Find
import Mathlib.Data.List.TakeWhile

/-!
# The method of a request

`StringToHttpMethod` compares whole strings, `CharsToHttpMethod` the front of the buffer. The
parser reads a method of up to twenty letters and digits and asks the second.
-/
namespace ServerFrame.Http

/-- `StringToHttpMethod`. -/
def stringToHttpMethod (m : List UInt8) : Option HttpMethod :=
  (httpMethodMap.find? fun entry => ascii entry.2 == cStr m).map (·.1)

/-- The names of `HTTP_METHOD_MAP`. -/
def methodNames : List (List UInt8) := httpMethodMap.map fun entry => ascii entry.2

/-- A token of `( upper | digit ){1,20}`. -/
structure IsMethod (t : List UInt8) : Prop where
  letters : ∀ b ∈ t, (65 ≤ b ∧ b ≤ 90) ∨ (48 ≤ b ∧ b ≤ 57)
  nonempty : t ≠ []
  length : t.length ≤ 20

/-! ## The parser -/

/-- The state behind `k` characters of a method. -/
def methodState : Nat → Nat
  | 0 => 1
  | 1 => 2
  | k + 2 => 175 + k

theorem method_transition (uriRelaxed : Bool) {k : Nat} (room : k < 20) {b : UInt8}
    (letter : (65 ≤ b ∧ b ≤ 90) ∨ (48 ≤ b ∧ b ≤ 57)) :
    transition uriRelaxed (methodState k) b =
      some (methodState (k + 1), if k = 0 then [.mark] else []) := by
  have all : ∀ k ∈ List.range 20, ∀ b ∈ List.range 256, (65 ≤ b ∧ b ≤ 90) ∨ (48 ≤ b ∧ b ≤ 57) →
      transition uriRelaxed (methodState k) b.toUInt8 =
        some (methodState (k + 1), if k = 0 then [.mark] else []) := by
    cases uriRelaxed <;> decide +kernel
  have found := all k (List.mem_range.mpr room) b.toNat (List.mem_range.mpr b.toNat_lt) letter
  rwa [Nat.toUInt8_eq, UInt8.ofNat_toNat] at found

theorem space_transition (uriRelaxed : Bool) {k : Nat} (some_read : 0 < k) (room : k ≤ 20) :
    transition uriRelaxed (methodState k) 32 = some (3, [.requestMethod]) := by
  have all : ∀ k ∈ List.range 21, 0 < k →
      transition uriRelaxed (methodState k) 32 = some (3, [.requestMethod]) := by
    cases uriRelaxed <;> decide
  exact all k (List.mem_range.mpr (by omega)) some_read

section Exec

variable {buffer t : List UInt8} {hp : HttpRequestParser}

theorem onRequestMethod_setCs (hp : HttpRequestParser) (cs : Nat) (chars : List UInt8) :
    (hp.setCs cs).onRequestMethod chars = (hp.onRequestMethod chars).setCs cs := by
  rw [HttpRequestParser.onRequestMethod, HttpRequestParser.onRequestMethod]
  cases charsToHttpMethod chars <;> rfl

/-- The rest of a method and the space behind it. -/
theorem exec_letters {k p : Nat} (letters : ∀ b ∈ t, (65 ≤ b ∧ b ≤ 90) ∨ (48 ≤ b ∧ b ≤ 57))
    (some_read : 0 < k) (room : k + t.length ≤ 20) (state : hp.parser.cs = methodState k) :
    HttpRequestParser.exec buffer p hp (t ++ [32]) =
      .ok ((hp.onRequestMethod (buffer.drop hp.parser.mark)).setCs 3, p + t.length + 1) := by
  induction t generalizing k p hp with
  | nil =>
    have moves := space_transition hp.parser.uriRelaxed some_read room
    have not_done : ¬ Act.done ∈ [Act.requestMethod] := by decide
    rw [List.nil_append, HttpRequestParser.exec, state, moves]
    simp only [List.foldlM_cons, List.foldlM_nil, HttpRequestParser.act, bind, Except.bind, pure,
      Except.pure, if_neg not_done, HttpRequestParser.exec, List.length_nil, Nat.add_zero]
  | cons b t ih =>
    rw [List.length_cons] at room
    have moves := method_transition hp.parser.uriRelaxed (k := k) (by omega)
      (letters b (List.mem_cons_self ..))
    rw [if_neg (by omega)] at moves
    have rest := @ih (hp.setCs (methodState (k + 1))) (k + 1) (p + 1)
      (fun c member => letters c (List.mem_cons_of_mem _ member)) (Nat.succ_pos k) (by omega) rfl
    have position : p + 1 + t.length + 1 = p + (b :: t).length + 1 := by
      rw [List.length_cons]
      omega
    rw [List.cons_append, HttpRequestParser.exec, state, moves]
    simp only [List.foldlM_nil, bind, Except.bind, pure, Except.pure, List.not_mem_nil, if_false]
    rw [rest, position, onRequestMethod_setCs]
    rfl

/-- The parser is set up and takes a method and the space behind it. -/
def methodRead (memory : Uninitialized) (t rest : List UInt8) :
    Except Fault (HttpRequestParser × Nat) :=
  HttpRequestParser.exec (t ++ 32 :: rest) 0 (HttpRequestParser.new memory).enter (t ++ [32])

theorem methodRead_eq (is : IsMethod t) (memory : Uninitialized) (rest : List UInt8) :
    methodRead memory t rest =
      .ok (((HttpRequestParser.new memory).enter.onRequestMethod (t ++ 32 :: rest)).setCs 3,
        t.length + 1) := by
  obtain ⟨b, more, rfl⟩ := List.exists_cons_of_ne_nil is.nonempty
  have length := is.length
  rw [List.length_cons] at length
  have moves := method_transition memory.uriRelaxed (k := 0) (by decide)
    (is.letters b (List.mem_cons_self ..))
  have not_done : ¬ Act.done ∈ [Act.mark] := by decide
  have rest_read := @exec_letters (b :: more ++ 32 :: rest) more
    ((HttpRequestParser.new memory).enter.setCs (methodState 1)) 1 1
    (fun c member => is.letters c (List.mem_cons_of_mem _ member)) Nat.one_pos (by omega) rfl
  have position : 1 + more.length + 1 = (b :: more).length + 1 := by
    rw [List.length_cons]
    omega
  rw [position, onRequestMethod_setCs] at rest_read
  have start : (HttpRequestParser.new memory).enter.parser.cs = methodState 0 := rfl
  have relaxed : (HttpRequestParser.new memory).enter.parser.uriRelaxed = memory.uriRelaxed := rfl
  have line : b :: more ++ [32] = b :: (more ++ [32]) := rfl
  rw [methodRead, line, HttpRequestParser.exec, start, relaxed, moves]
  simp only [if_pos, List.foldlM_cons, List.foldlM_nil, HttpRequestParser.act, bind, Except.bind, pure,
    Except.pure, if_neg not_done]
  exact rest_read

end Exec

/-! ## The two functions -/

/-- No name begins with another one. -/
theorem methodNames_apart : ∀ name ∈ methodNames, ∀ other ∈ methodNames,
    name.isPrefixOf other = true → name = other := by
  decide

theorem cStr_of_isMethod {t : List UInt8} (is : IsMethod t) : cStr t = t := by
  refine List.takeWhile_eq_self_iff.mpr fun b member => ?_
  rcases is.letters b member with upper | digit
  · simpa using fun zero => absurd upper.1 (by rw [zero]; decide)
  · simpa using fun zero => absurd digit.1 (by rw [zero]; decide)

theorem stringToHttpMethod_eq_none {t : List UInt8} (is : IsMethod t) :
    stringToHttpMethod t = none ↔ t ∉ methodNames := by
  rw [stringToHttpMethod, cStr_of_isMethod is, Option.map_eq_none_iff, List.find?_eq_none, methodNames,
    List.mem_map, not_exists]
  simp only [beq_iff_eq, not_and]

/-- When no name is a proper prefix of the token, its front is a name only if it is one. -/
theorem charsToHttpMethod_eq {t : List UInt8} (is : IsMethod t)
    (apart : ∀ name ∈ methodNames, name.isPrefixOf t = true → name = t) :
    charsToHttpMethod t = stringToHttpMethod t := by
  rw [charsToHttpMethod, stringToHttpMethod, cStr_of_isMethod is]
  refine congrArg _ (List.find?_congr fun entry member => Bool.eq_iff_iff.mpr ⟨fun front => ?_, fun same => ?_⟩)
  · exact beq_iff_eq.mpr (apart _ (List.mem_map_of_mem member) front)
  · rw [beq_iff_eq.mp same]
    exact List.isPrefixOf_iff_prefix.mpr (List.prefix_refl t)

/-- What the callback leaves in the parser. -/
theorem onRequestMethod_spec (hp : HttpRequestParser) (chars : List UInt8) :
    (charsToHttpMethod chars = none ∧ (hp.onRequestMethod chars).error = 1000) ∨
      ∃ m, charsToHttpMethod chars = some m ∧ (hp.onRequestMethod chars).error = hp.error ∧
        (hp.onRequestMethod chars).data.method = m := by
  rw [HttpRequestParser.onRequestMethod]
  cases charsToHttpMethod chars with
  | none => exact .inl ⟨rfl, rfl⟩
  | some m => exact .inr ⟨m, rfl, rfl, rfl⟩

/-- The method of a request line is the one that `StringToHttpMethod` gives, and it is refused
exactly when it is no name of the table. -/
def MethodAgrees (memory : Uninitialized) (t rest : List UInt8) : Prop :=
  ∃ hp, methodRead memory t rest = .ok (hp, t.length + 1) ∧
    (∀ m, stringToHttpMethod t = some m → hp.data.method = m) ∧
    (hp.hasError = true ↔ t ∉ methodNames)

/-- The parser agrees with `StringToHttpMethod` on all tokens that do not extend a name. -/
theorem methodAgrees_iff (memory : Uninitialized) {t : List UInt8} (is : IsMethod t)
    (rest : List UInt8) :
    MethodAgrees memory t rest ↔ ∀ name ∈ methodNames, name.isPrefixOf t = true → name = t := by
  have read := methodRead_eq is memory rest
  have effect := onRequestMethod_spec (HttpRequestParser.new memory).enter (t ++ 32 :: rest)
  rw [charsToHttpMethod_append_space] at effect
  obtain ⟨hp, hp_eq⟩ : ∃ hp, hp = (HttpRequestParser.new memory).enter.onRequestMethod (t ++ 32 :: rest) :=
    ⟨_, rfl⟩
  rw [← hp_eq] at read effect
  have no_error : (HttpRequestParser.new memory).enter.error = 0 := rfl
  have error_iff : (hp.setCs 3).hasError = true ↔ hp.error ≠ 0 := by
    simp [HttpRequestParser.hasError, HttpRequestParser.setCs, httpParserError]
  constructor
  · rintro ⟨hp', read', -, refused⟩ name listed front
    rw [read] at read'
    cases read'
    rw [error_iff] at refused
    by_contra longer
    -- the listed name is found in front of the token, which is then no name itself
    have unlisted : t ∉ methodNames := fun there =>
      longer (methodNames_apart name listed t there front)
    rcases effect with ⟨unknown, -⟩ | ⟨m, -, same_error, -⟩
    · rw [charsToHttpMethod, Option.map_eq_none_iff, List.find?_eq_none] at unknown
      obtain ⟨entry, member, rfl⟩ := List.mem_map.mp listed
      exact unknown entry member front
    · exact refused.mpr unlisted (same_error.trans no_error)
  · intro apart
    have unlisted_iff := stringToHttpMethod_eq_none is
    rw [charsToHttpMethod_eq is apart] at effect
    refine ⟨hp.setCs 3, read, fun m found => ?_, ?_⟩
    · rcases effect with ⟨unknown, -⟩ | ⟨m', known, -, method⟩
      · rw [unknown] at found
        cases found
      · rw [known] at found
        exact method.trans (Option.some.inj found)
    · rw [error_iff, ← unlisted_iff]
      rcases effect with ⟨unknown, error⟩ | ⟨m, known, same_error, -⟩
      · simp [unknown, error]
      · simp [known, same_error, no_error]

theorem methodAgrees_iff_purge :
    MethodAgrees ⟨false, 0⟩ (ascii "PURGE") (ascii "/ HTTP/1.1\r\n\r\n") :=
  (methodAgrees_iff ⟨false, 0⟩ ⟨by decide +kernel, by decide, by decide⟩ _).mpr (by decide)

/-- The front of `GETX` is taken for the method. -/
theorem method_extends_name : IsMethod (ascii "GETX") ∧
    ¬ MethodAgrees ⟨false, 0⟩ (ascii "GETX") (ascii "/ HTTP/1.1\r\n\r\n") := by
  refine ⟨⟨by decide +kernel, by decide, by decide⟩, ?_⟩
  rintro ⟨hp, read, -, refused⟩
  have taken : (methodRead ⟨false, 0⟩ (ascii "GETX") (ascii "/ HTTP/1.1\r\n\r\n")).map
      (fun found => (found.1.data.method, found.1.hasError)) = .ok (.get, false) := by decide
  have unlisted : ascii "GETX" ∉ methodNames := by decide
  rw [read] at taken
  have no_error : hp.hasError = false := congrArg Prod.snd (Except.ok.inj taken)
  rw [refused.mpr unlisted] at no_error
  cases no_error

end ServerFrame.Http
