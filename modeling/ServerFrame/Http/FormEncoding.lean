import ServerFrame.Http.ParamPieces

/-!
# Forms

`UrlEncode` on both halves of a parameter, and what `GetParam` makes of it. The values are
decoded, the names are not.
-/
namespace ServerFrame.Http

open StringUtil

abbrev Pair := List UInt8 × List UInt8

def formPiece (e : Pair) : List UInt8 := urlEncode true e.1 ++ 61 :: urlEncode true e.2

/-- The pairs as the query of a form. -/
def formEncode (pairs : List Pair) : List UInt8 := [38].intercalate (pairs.map formPiece)

def HttpRequest.setQuery (r : HttpRequest) (query : List UInt8) : HttpRequest := { r with query := query }

/-- Every pair comes back, and nothing else. -/
def ComesBack (r : HttpRequest) (pairs : List Pair) : Prop :=
  (∀ e ∈ pairs, ∀ default, ((r.setQuery (formEncode pairs)).received.getParam e.1 default).1 = e.2) ∧
  (∀ key, (∀ e ∈ pairs, strcasecmp e.1 key ≠ .eq) →
    ((r.setQuery (formEncode pairs)).received.hasParam key).1 = none)

/-- The name that a pair is stored under. -/
def storedName (key : List UInt8) : List UInt8 := (urlEncode true key).takeWhile (· != 61)

/-! ## The query -/

theorem flag_not_mem_urlEncode (str : List UInt8) : 38 ∉ urlEncode true str := by
  intro member
  rcases mem_urlEncode member with unreserved | is | is
  · exact absurd unreserved (by decide)
  · exact absurd is (by decide)
  · exact absurd is (by decide)

theorem flag_not_mem_formPiece (e : Pair) : 38 ∉ formPiece e := by
  simp [formPiece, flag_not_mem_urlEncode]

theorem takeWhile_append_self {a : UInt8} (xs ys : List UInt8) :
    (xs ++ a :: ys).takeWhile (· != a) = xs.takeWhile (· != a) := by
  by_cases there : a ∈ xs
  · obtain ⟨front, behind, rfl, absent⟩ := List.eq_append_cons_of_mem there
    rw [List.append_assoc, List.cons_append, (takeWhile_append_cons absent _).1,
      (takeWhile_append_cons absent _).1]
  · rw [(takeWhile_append_cons there _).1, (takeWhile_of_not_mem there).1]

/-- The value of a pair as it is stored. -/
def storedValue (e : Pair) : List UInt8 := urlDecode true ((formPiece e).dropWhile (· != 61)).tail

theorem storedValue_eq {e : Pair} (absent : 61 ∉ urlEncode true e.1) : storedValue e = e.2 := by
  rw [storedValue, formPiece, (takeWhile_append_cons absent _).2, List.tail_cons, urlDecode_urlEncode]

theorem readPieces_form (pairs : List Pair) :
    (readPieces 38 [] (pairs.map formPiece)).map (stored id) =
      pairs.map fun e => (storedName e.1, storedValue e) := by
  induction pairs with
  | nil => rfl
  | cons e pairs ih =>
    have there : 61 ∈ formPiece e := by simp [formPiece]
    have name_eq : (formPiece e).takeWhile (· != 61) = storedName e.1 := takeWhile_append_self _ _
    have cut_eq : cut (formPiece e) = some (storedName e.1, ((formPiece e).dropWhile (· != 61)).tail) := by
      rw [cut, if_pos there, name_eq]
    rw [List.map_cons, readPieces, cut_eq]
    simp only [List.map_cons, List.nil_append, ih]
    rfl

/-- The pieces of a form are its pairs. -/
theorem readPieces_formEncode (pairs : List Pair) :
    (readPieces 38 [] ((formEncode pairs).splitOn 38)).map (stored id) =
      pairs.map fun e => (storedName e.1, storedValue e) := by
  cases pairs with
  | nil => decide
  | cons e pairs =>
    have pieces : (formEncode (e :: pairs)).splitOn 38 = (e :: pairs).map formPiece := by
      refine List.splitOn_intercalate 38 (fun piece member => ?_) (List.cons_ne_nil _ _)
      obtain ⟨f, -, rfl⟩ := List.mem_map.mp member
      exact flag_not_mem_formPiece f
    rw [pieces, readPieces_form]

section Form

variable {r : HttpRequest} {pairs : List Pair}

/-- What is stored under a name is the value of the first pair with that stored name. -/
theorem find_form (no_form : r.isForm = false) (key : List UInt8) :
    (r.setQuery (formEncode pairs)).received.initQueryParam.initBodyParam.params.find key =
      (pairs.find? fun e => folded (storedName e.1) = folded key).map storedValue := by
  have no_body : Request.strcasestr (r.getHeader (ascii "content-type"))
      (ascii "application/x-www-form-urlencoded") = false := no_form
  have same_headers : (r.setQuery (formEncode pairs)).getHeader (ascii "content-type") =
      r.getHeader (ascii "content-type") := rfl
  have params_eq : (r.setQuery (formEncode pairs)).received.initQueryParam.initBodyParam.params =
      parseParam 38 id ((formEncode pairs).length + 1) (formEncode pairs) [] := by
    simp [Request.initQueryParam, Request.initBodyParam, HttpRequest.received, same_headers, no_body]
    rfl
  rw [params_eq, parseParam_eq (by decide), readPieces_formEncode, MapType.find_insertAll _ .nil,
    List.find?_map]
  have nothing : MapType.find [] key = none := rfl
  rw [nothing, Option.none_or, Option.map_map]
  rfl

theorem getParam_form (no_form : r.isForm = false) (key default : List UInt8) :
    ((r.setQuery (formEncode pairs)).received.getParam key default).1 =
      ((pairs.find? fun e => folded (storedName e.1) = folded key).map storedValue).getD default := by
  rw [Request.getParam, find_form no_form]

theorem hasParam_form (no_form : r.isForm = false) (key : List UInt8) :
    ((r.setQuery (formEncode pairs)).received.hasParam key).1 =
      (pairs.find? fun e => folded (storedName e.1) = folded key).map storedValue := by
  rw [Request.hasParam, find_form no_form]

/-! ## The names -/

/-- A name that is not escaped and holds no equals sign. -/
def Plain (key : List UInt8) : Prop := ∀ b ∈ key, isUnreserved b = true ∧ b ≠ 61

theorem Plain.urlEncode {key : List UInt8} (plain : Plain key) : urlEncode true key = key :=
  urlEncode_of_unreserved (fun b member => (plain b member).1) true

theorem Plain.no_equals {key : List UInt8} (plain : Plain key) : 61 ∉ StringUtil.urlEncode true key := by
  rw [plain.urlEncode]
  exact fun member => (plain 61 member).2 rfl

theorem Plain.storedName {key : List UInt8} (plain : Plain key) : storedName key = key := by
  rw [Http.storedName, (takeWhile_of_not_mem plain.no_equals).1, plain.urlEncode]

theorem comesBack_of_plain (no_form : r.isForm = false)
    (distinct : pairs.Pairwise fun e f => strcasecmp e.1 f.1 ≠ .eq) (plain : ∀ e ∈ pairs, Plain e.1) :
    ComesBack r pairs := by
  have stored_eq : ∀ e ∈ pairs, folded (storedName e.1) = folded e.1 := fun e member => by
    rw [(plain e member).storedName]
  refine ⟨fun e member default => ?_, fun key other => ?_⟩
  · have found : (pairs.find? fun f => folded (storedName f.1) = folded e.1) = some e := by
      obtain ⟨before, behind, rfl⟩ := List.append_of_mem member
      refine List.find?_eq_some_iff_append.mpr ⟨by simpa using stored_eq e member, before, behind, rfl,
        fun f in_front => ?_⟩
      have apart := (List.pairwise_append.mp distinct).2.2 f in_front e (List.mem_cons_self ..)
      rw [ne_eq, strcasecmp_eq_iff] at apart
      simpa [stored_eq f (List.mem_append_left _ in_front)] using apart
    rw [getParam_form no_form, found, Option.map_some, Option.getD_some,
      storedValue_eq (plain e member).no_equals]
  · rw [hasParam_form no_form, Option.map_eq_none_iff, List.find?_eq_none]
    intro e member
    have apart := other e member
    rw [ne_eq, strcasecmp_eq_iff] at apart
    simpa [stored_eq e member] using apart

/-! ### Names that are stored as something else -/

theorem no_zero_storedName (key : List UInt8) : 0 ∉ storedName key := by
  intro member
  rcases mem_urlEncode (List.takeWhile_subset _ member) with unreserved | is | is
  · exact absurd unreserved (by decide)
  · exact absurd is (by decide)
  · exact absurd is (by decide)

theorem length_folded {key : List UInt8} (no_zero : 0 ∉ key) : (folded key).length = key.length := by
  rw [folded_of_no_zero no_zero, List.length_map]

/-- A byte that is no letter is compared as it is. -/
theorem mem_folded {key : List UInt8} {b : UInt8} (no_zero : 0 ∉ key)
    (alone : ∀ c, tolower c = tolower b → c = b) : (tolower b).toNat ∈ folded key ↔ b ∈ key := by
  rw [folded_of_no_zero no_zero]
  constructor
  · intro member
    obtain ⟨c, there, same⟩ := List.mem_map.mp member
    exact alone c (UInt8.toNat_inj.mp same) ▸ there
  · exact fun there => List.mem_map_of_mem (f := fun b => (tolower b).toNat) there

theorem equals_not_mem_storedName (key : List UInt8) : 61 ∉ storedName key := by
  intro member
  exact absurd (List.mem_takeWhile_imp member) (by decide)

theorem blank_not_mem_storedName (key : List UInt8) : 32 ∉ storedName key := by
  intro member
  rcases mem_urlEncode (List.takeWhile_subset _ member) with unreserved | is | is
  · exact absurd unreserved (by decide)
  · exact absurd is (by decide)
  · exact absurd is (by decide)

/-- A number that is nowhere smaller and has the same sum is the same. -/
theorem eq_of_sum_eq {f g : Pair → Nat} (le : ∀ e, f e ≤ g e) :
    (pairs.map f).sum ≤ (pairs.map g).sum ∧
      ((pairs.map f).sum = (pairs.map g).sum → ∀ e ∈ pairs, f e = g e) := by
  induction pairs with
  | nil => exact ⟨Nat.le_refl _, fun _ e member => (List.not_mem_nil member).elim⟩
  | cons a pairs ih =>
    have first := le a
    simp only [List.map_cons, List.sum_cons]
    refine ⟨by omega, fun sums e member => ?_⟩
    rcases List.mem_cons.mp member with rfl | member
    · omega
    · exact ih.2 (by omega) e member

/-- If every name is found, the stored names are the names, up to case and order. -/
theorem stored_perm (no_form : r.isForm = false)
    (distinct : pairs.Pairwise fun e f => strcasecmp e.1 f.1 ≠ .eq) (back : ComesBack r pairs) :
    (pairs.map fun e => folded e.1).Perm (pairs.map fun e => folded (storedName e.1)) := by
  have nodup : (pairs.map fun e => folded e.1).Nodup := by
    rw [List.Nodup, List.pairwise_map]
    exact distinct.imp fun apart same => apart (strcasecmp_eq_iff.mpr same)
  have found : ∀ k ∈ pairs.map fun e => folded e.1, k ∈ pairs.map fun e => folded (storedName e.1) := by
    intro k member
    obtain ⟨e, there, rfl⟩ := List.mem_map.mp member
    cases first : pairs.find? fun f => folded (storedName f.1) = folded e.1 with
    | none =>
      -- a default other than the value would be returned
      have given := back.1 e there (0 :: e.2)
      rw [getParam_form no_form, first] at given
      exact absurd (congrArg List.length given) (by simp)
    | some f =>
      have same : folded (storedName f.1) = folded e.1 := by simpa using List.find?_some first
      exact List.mem_map.mpr ⟨f, List.mem_of_find?_eq_some first, same⟩
  exact (nodup.subperm found).perm_of_length_le (by simp)

theorem plain_of_comesBack (no_form : r.isForm = false) (no_zero : ∀ e ∈ pairs, 0 ∉ e.1)
    (distinct : pairs.Pairwise fun e f => strcasecmp e.1 f.1 ≠ .eq) (back : ComesBack r pairs) :
    ∀ e ∈ pairs, Plain e.1 := by
  have perm := stored_perm no_form distinct back
  -- what no stored name holds, no name holds
  have absent : ∀ b, (∀ c, tolower c = tolower b → c = b) → (∀ key, b ∉ storedName key) →
      ∀ e ∈ pairs, b ∉ e.1 := by
    intro b alone never e member inside
    have there := perm.mem_iff.mp (List.mem_map_of_mem (f := fun e : Pair => folded e.1) member)
    obtain ⟨f, -, same⟩ := List.mem_map.mp there
    have held := (mem_folded (no_zero e member) alone).mpr inside
    rw [← same, mem_folded (no_zero_storedName f.1) alone] at held
    exact never f.1 held
  have no_equals := absent 61 (by decide +kernel) equals_not_mem_storedName
  have no_blank := absent 32 (by decide +kernel) blank_not_mem_storedName
  have stored_eq : ∀ e ∈ pairs, storedName e.1 = urlEncode true e.1 := by
    intro e member
    refine (takeWhile_of_not_mem fun inside => ?_).1
    exact no_equals e member (equals_mem_urlEncode inside)
  have sums : (pairs.map fun e => e.1.length).sum = (pairs.map fun e => (urlEncode true e.1).length).sum := by
    have lengths := (perm.map List.length).sum_eq
    rw [List.map_map, List.map_map] at lengths
    have left : pairs.map (List.length ∘ fun e => folded e.1) = pairs.map fun e => e.1.length :=
      List.map_congr_left fun e member => length_folded (no_zero e member)
    have right : pairs.map (List.length ∘ fun e => folded (storedName e.1)) =
        pairs.map fun e => (urlEncode true e.1).length :=
      List.map_congr_left fun e member => by
        rw [Function.comp_apply, length_folded (no_zero_storedName e.1), stored_eq e member]
    rwa [left, right] at lengths
  have same_length := (eq_of_sum_eq fun e => (length_urlEncode true e.1).1).2 sums
  intro e member b inside
  have short := (length_urlEncode true e.1).2 (same_length e member).symm b inside
  refine ⟨short.resolve_right fun blank => ?_, fun equals => ?_⟩
  · exact no_blank e member (blank ▸ inside)
  · exact no_equals e member (equals ▸ inside)

/-- Every pair of a form comes back exactly when no name is escaped and none holds an equals
sign, which `UrlEncode` leaves. -/
theorem comesBack_iff (no_form : r.isForm = false) (no_zero : ∀ e ∈ pairs, 0 ∉ e.1)
    (distinct : pairs.Pairwise fun e f => strcasecmp e.1 f.1 ≠ .eq) :
    ComesBack r pairs ↔ ∀ e ∈ pairs, Plain e.1 :=
  ⟨plain_of_comesBack no_form no_zero distinct, comesBack_of_plain no_form distinct⟩

end Form

theorem comesBack_iff_two :
    ComesBack .new [(ascii "name", ascii "a&b = 100%"), (ascii "x-1", [])] :=
  (comesBack_iff (by decide) (by decide) (by decide)).mpr (by
    simp only [Plain]
    decide +kernel)

/-- A name with a blank is stored with a plus. -/
theorem blank_lost : ¬ ComesBack .new [(ascii "first name", ascii "Ada")] := by
  rintro ⟨back, -⟩
  have given := back _ (List.mem_singleton.mpr rfl) []
  revert given
  decide

end ServerFrame.Http
