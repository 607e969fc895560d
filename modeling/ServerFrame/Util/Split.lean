import ServerFrame.Util.StdString

/-!
# `split`

The two overloads differ in how they look for the next delimiter.
-/
namespace ServerFrame.HashUtil

open Occurrences StdString

/-- `while (pos != npos)`, with the passes that are left; there is no result when an exception is
thrown. `find(last)` is the next delimiter. -/
def splitLoop (find : Nat → Option Nat) (str : List UInt8) :
    Nat → UInt64 → Nat → Option Nat → List (List UInt8) → Option (List (List UInt8))
  | 0, _, _, _, _ => none
  | _ + 1, _, last, none, result => do
    let tail ← substrToEnd str last
    return result ++ [tail]
  | fuel + 1, max, last, some pos, result => do
    let part ← substr str last (pos - last)
    let last := pos + 1
    let max := max - 1
    if max = 1 then
      let tail ← substrToEnd str last
      return result ++ [part] ++ [tail]
    else splitLoop find str fuel max last (find last) (result ++ [part])

/-- Each pass but the last finds another delimiter. -/
def splitAt (find : Nat → Option Nat) (str : List UInt8) (max : UInt64) :
    Option (List (List UInt8)) :=
  if str = [] then some [] else splitLoop find str (str.length + 1) max 0 (find 0) []

/-- `split(const std::string&, char, size_t)`. -/
def split (str : List UInt8) (delim : UInt8) : UInt64 → Option (List (List UInt8)) :=
  splitAt (findChar str delim) str

/-- `split(const std::string&, const char*, size_t)`. -/
def splitDelims (str delims : List UInt8) : UInt64 → Option (List (List UInt8)) :=
  splitAt (findFirstOf str delims) str

/-- How often `--max` is not 1 or is for the first time: a limit of 1 wraps around. -/
def cutsOf (max : UInt64) : Nat := if max = 1 then 2 ^ 64 else (max - 1).toNat

theorem cutsOf_last {max : UInt64} (last : max - 1 = 1) : cutsOf max = 1 := by
  have back := UInt64.sub_add_cancel max 1
  rw [last] at back
  rw [← back]
  rfl

theorem toNat_sub_one {m : UInt64} (some_ : m ≠ 0) : (m - 1).toNat + 1 = m.toNat := by
  have pos : 1 ≤ m.toNat :=
    Nat.one_le_iff_ne_zero.mpr fun zero => some_ (UInt64.toNat_inj.mp zero)
  have le : (1 : UInt64) ≤ m := UInt64.le_iff_toNat_le.mpr pos
  rw [UInt64.toNat_sub_of_le _ _ le, UInt64.toNat_one]
  omega

theorem cutsOf_next {max : UInt64} (other : max - 1 ≠ 1) : cutsOf max = cutsOf (max - 1) + 1 := by
  by_cases one : max = 1
  · subst one
    rfl
  · have some_ : max - 1 ≠ 0 := fun zero => by
      have back := UInt64.sub_add_cancel max 1
      rw [zero] at back
      exact one back.symm
    rw [cutsOf, if_neg one, cutsOf, if_neg other, toNat_sub_one some_]

section Loop

variable {find : Nat → Option Nat} {d : UInt8} {str : List UInt8}

/-- The parts are the pieces, as many of them as the limit allows. -/
theorem splitLoop_eq {front rest : List UInt8} {pieces : List (List UInt8)}
    (cut : Pieces [d] rest pieces) (whole : str = front ++ rest)
    (finds : ∀ front rest, str = front ++ rest →
      find front.length = (first [d] rest).map (· + front.length))
    {fuel : Nat} (enough : rest.length < fuel) (max : UInt64) (result : List (List UInt8)) :
    splitLoop find str fuel max front.length (find front.length) result =
      some (result ++ limited [d] (cutsOf max) pieces) := by
  generalize single : [d] = f at cut
  induction cut generalizing front fuel max result with
  | @last rest absent =>
    -- `npos`: the rest is the last part
    subst single
    obtain ⟨fuel, rfl⟩ : ∃ n, fuel = n + 1 := ⟨fuel - 1, by omega⟩
    rw [finds front rest whole, first_of_absent absent, limited_singleton, whole]
    simp [splitLoop, substrToEnd_append]
  | @cut piece rest pieces before behind ih =>
    subst single
    obtain ⟨fuel, rfl⟩ : ∃ n, fuel = n + 1 := ⟨fuel - 1, by omega⟩
    have tail : str = (front ++ piece ++ [d]) ++ rest := by simp [whole]
    have last : piece.length + front.length + 1 = (front ++ piece ++ [d]).length := by
      simp only [List.length_append, List.length_singleton]
      omega
    have taken : substr str front.length piece.length = some piece := by
      rw [whole, substr_append]
    have left : substrToEnd str (piece.length + front.length + 1) = some rest := by
      rw [last, tail, substrToEnd_append]
    rw [finds front _ whole, first_of_before before, Option.map_some, splitLoop,
      Nat.add_sub_cancel, taken]
    -- behind the last cut that is allowed, the rest is one part with all its delimiters
    by_cases reached : max - 1 = 1
    · rw [cutsOf_last reached, limited_cons _ _ _ behind.ne_nil, limited, behind.intercalate]
      simp [reached, left]
    · simp only [List.length_append, List.length_singleton] at enough
      have shorter : rest.length < fuel := by omega
      have rounds := ih tail shorter (max - 1) (result ++ [piece])
      rw [← last] at rounds
      rw [cutsOf_next reached, limited_cons _ _ _ behind.ne_nil]
      simp [reached, rounds]

theorem splitAt_eq {pieces : List (List UInt8)} (some_ : str ≠ []) (cut : Pieces [d] str pieces)
    (finds : ∀ front rest, str = front ++ rest →
      find front.length = (first [d] rest).map (· + front.length)) (max : UInt64) :
    splitAt find str max = some (limited [d] (cutsOf max) pieces) := by
  rw [splitAt, if_neg some_]
  exact splitLoop_eq cut (List.nil_append str).symm finds (Nat.lt_succ_self _) max []

end Loop

/-- The parts are as many as the limit allows, with the delimiter between them they are the string,
no part but the last has a delimiter, and both overloads agree. -/
structure SplitsInto (str : List UInt8) (delim : UInt8) (max : UInt64) (parts : List (List UInt8)) :
    Prop where
  eq : split str delim max = some parts
  length : parts.length = min max.toNat (1 + str.count delim)
  joined : [delim].intercalate parts = str
  free : ∀ part ∈ parts.dropLast, delim ∉ part
  delims : splitDelims str [delim] max = some parts

/-- The limit is kept unless it is 1 and there is something to split. -/
theorem split_iff {str : List UInt8} {delim : UInt8} {max : UInt64} (some_ : str ≠ [])
    (not_nul : delim ≠ 0) (limit : 1 ≤ max) :
    (∃ parts, SplitsInto str delim max parts) ↔ max ≠ 1 ∨ delim ∉ str := by
  obtain ⟨pieces, cut⟩ := Pieces.exists_of_ne_nil (List.cons_ne_nil delim []) str
  obtain ⟨count, free⟩ := cut.singleton
  have parts : split str delim max = some (limited [delim] (cutsOf max) pieces) := by
    refine splitAt_eq some_ cut (fun front rest whole => ?_) max
    rw [whole, findChar_append]
  have delims : splitDelims str [delim] max = some (limited [delim] (cutsOf max) pieces) := by
    refine splitAt_eq some_ cut (fun front rest whole => ?_) max
    rw [whole, findFirstOf_append not_nul]
  have length_eq := length_limited [delim] (cutsOf max) cut.ne_nil
  rw [count] at length_eq
  constructor
  · rintro ⟨parts', splits⟩
    obtain rfl := Option.some.inj (parts.symm.trans splits.eq)
    by_contra wrong
    push Not at wrong
    -- with a limit of 1 there would be one part, but at least one cut is made
    obtain ⟨rfl, member⟩ := wrong
    have occurs := List.count_pos_iff.mpr member
    have limited_ := splits.length
    rw [length_eq, cutsOf, if_pos rfl, UInt64.toNat_one] at limited_
    omega
  · intro allowed
    refine ⟨_, parts, ?_, ?_, ?_, delims⟩
    · rw [length_eq]
      rcases allowed with other | absent
      · have pos : max ≠ 0 := by
          rintro rfl
          exact absurd limit (by decide)
        rw [cutsOf, if_neg other, toNat_sub_one pos, Nat.add_comm]
      · have pos : 1 ≤ max.toNat := UInt64.le_iff_toNat_le.mp limit
        rw [List.count_eq_zero.mpr absent]
        omega
    · rw [intercalate_limited _ _ cut.ne_nil, cut.intercalate]
    · intro part member
      exact free part (mem_dropLast_limited _ _ member)

theorem split_iff_two : ∃ parts, SplitsInto [97, 44, 98, 44, 99] 44 2 parts :=
  (split_iff (by decide) (by decide) (by decide)).mpr (.inl (by decide))

/-- `split("a,b", ',', 1)` gives two parts. -/
theorem limit_wraps : split [97, 44, 98] 44 1 = some [[97], [98]] ∧
    ¬∃ parts, SplitsInto [97, 44, 98] 44 1 parts := by
  have parts : split [97, 44, 98] 44 1 = some [[97], [98]] := by decide
  refine ⟨parts, ?_⟩
  rintro ⟨parts', splits⟩
  obtain rfl := Option.some.inj (parts.symm.trans splits.eq)
  exact absurd splits.length (by decide)

end ServerFrame.HashUtil
