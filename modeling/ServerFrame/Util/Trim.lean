import ServerFrame.Util.StringUtil
import ServerFrame.Util.StdString

/-!
# `Trim`, `TrimLeft` and `TrimRight`

The functions as they are written: each looks for the first and the last character that is no
delimiter, and takes a part of the string.
-/
namespace ServerFrame.StringUtil.Cut

open StdString

/-- `Trim`. Where there is a first character to keep there is a last one. -/
def trim (str delimit : List UInt8) : Option (List UInt8) :=
  match findFirstNotOf str delimit with
  | none => some []
  | some begin_ => do
    let end_ ← findLastNotOf str delimit
    substr str begin_ (end_ - begin_ + 1)

/-- `TrimLeft`. -/
def trimLeft (str delimit : List UInt8) : Option (List UInt8) :=
  match findFirstNotOf str delimit with
  | none => some []
  | some begin_ => substrToEnd str begin_

/-- `TrimRight`. The second argument of `substr` is a number of characters. -/
def trimRight (str delimit : List UInt8) : Option (List UInt8) :=
  match findLastNotOf str delimit with
  | none => some []
  | some end_ => substr str 0 end_

/-! ## What is looked for -/

section Positions

variable {str delimit front rest : List UInt8} {c : UInt8}

theorem findFirstNotOf_of_all (all : ∀ c ∈ str, c ∈ delimit) : findFirstNotOf str delimit = none := by
  simpa [findFirstNotOf] using all

theorem findLastNotOf_of_all (all : ∀ c ∈ str, c ∈ delimit) : findLastNotOf str delimit = none := by
  simpa [findLastNotOf] using all

theorem findFirstNotOf_append (before : ∀ c ∈ front, c ∈ delimit) (keep : c ∉ delimit) :
    findFirstNotOf (front ++ c :: rest) delimit = some front.length := by
  have none_ : front.findIdx? (fun c => !delimit.contains c) = none := by simpa using before
  rw [findFirstNotOf, List.findIdx?_append, none_, List.findIdx?_cons]
  simp [keep]

theorem findLastNotOf_append (behind : ∀ c ∈ rest, c ∈ delimit) (keep : c ∉ delimit) :
    findLastNotOf (front ++ c :: rest) delimit = some front.length := by
  have turned : (front ++ c :: rest).reverse = rest.reverse ++ c :: front.reverse := by simp
  have before : ∀ c ∈ rest.reverse, c ∈ delimit := fun c member =>
    behind c (List.mem_reverse.mp member)
  have found : findFirstNotOf (rest.reverse ++ c :: front.reverse) delimit =
      some rest.reverse.length := findFirstNotOf_append before keep
  rw [findFirstNotOf] at found
  rw [findLastNotOf, turned, found]
  simp only [Option.map_some, List.length_append, List.length_cons, List.length_reverse,
    Option.some.injEq]
  omega

/-- There are delimiters only, or there is a first character to keep. -/
theorem all_or_first (str delimit : List UInt8) : (∀ c ∈ str, c ∈ delimit) ∨
    ∃ front c rest, str = front ++ c :: rest ∧ (∀ c ∈ front, c ∈ delimit) ∧ c ∉ delimit := by
  induction str with
  | nil => simp
  | cons c str ih =>
    by_cases skipped : c ∈ delimit
    · rcases ih with all | ⟨front, c', rest, rfl, before, keep⟩
      · exact .inl (by simpa [skipped] using all)
      · exact .inr ⟨c :: front, c', rest, rfl, by simpa [skipped] using before, keep⟩
    · exact .inr ⟨[], c, str, by simp [skipped]⟩

theorem all_or_last (str delimit : List UInt8) : (∀ c ∈ str, c ∈ delimit) ∨
    ∃ front c rest, str = front ++ c :: rest ∧ (∀ c ∈ rest, c ∈ delimit) ∧ c ∉ delimit := by
  rcases all_or_first str.reverse delimit with all | ⟨front, c, rest, turned, before, keep⟩
  · exact .inl (by simpa using all)
  · refine .inr ⟨rest.reverse, c, front.reverse, ?_, by simpa using before, keep⟩
    rw [← List.reverse_reverse str, turned]
    simp

theorem dropWhile_append (before : ∀ c ∈ front, c ∈ delimit) (keep : c ∉ delimit) :
    (front ++ c :: rest).dropWhile (· ∈ delimit) = c :: rest := by
  rw [List.dropWhile_append_of_pos (by simpa using before)]
  simp [keep]

theorem rdropWhile_append (behind : ∀ c ∈ rest, c ∈ delimit) (keep : c ∉ delimit) :
    (front ++ c :: rest).rdropWhile (· ∈ delimit) = front ++ [c] := by
  have turned : (front ++ c :: rest).reverse = rest.reverse ++ c :: front.reverse := by simp
  rw [List.rdropWhile, turned, dropWhile_append (by simpa using behind) keep]
  simp

end Positions

/-! ## What is left -/

section Results

variable (str delimit : List UInt8)

theorem trimLeft_eq : trimLeft str delimit = some (str.dropWhile (· ∈ delimit)) := by
  rcases all_or_first str delimit with all | ⟨front, c, rest, rfl, before, keep⟩
  · have nothing : str.dropWhile (· ∈ delimit) = [] := by simpa using all
    rw [trimLeft, findFirstNotOf_of_all all, nothing]
  · rw [trimLeft, findFirstNotOf_append before keep, dropWhile_append before keep]
    exact substrToEnd_append front (c :: rest)

/-- The last character that should be kept is lost. -/
theorem trimRight_eq : trimRight str delimit = some (str.rdropWhile (· ∈ delimit)).dropLast := by
  rcases all_or_last str delimit with all | ⟨front, c, rest, rfl, behind, keep⟩
  · have nothing : str.rdropWhile (· ∈ delimit) = [] := by simpa using all
    rw [trimRight, findLastNotOf_of_all all, nothing]
    rfl
  · rw [trimRight, findLastNotOf_append behind keep, rdropWhile_append behind keep,
      List.dropLast_concat]
    exact substr_append [] front (c :: rest)

/-- `Trim` itself loses nothing. -/
theorem trim_eq : trim str delimit = some (StringUtil.trim delimit str) := by
  rcases all_or_first str delimit with all | ⟨front, c, rest, rfl, before, keep⟩
  · have nothing : str.dropWhile (· ∈ delimit) = [] := by simpa using all
    rw [trim, findFirstNotOf_of_all all, StringUtil.trim, nothing]
    rfl
  · rw [trim, findFirstNotOf_append before keep, StringUtil.trim, dropWhile_append before keep]
    -- the last character to keep is not in front of the first one
    rcases all_or_last (c :: rest) delimit with all | ⟨body, c', back, same, behind, keep'⟩
    · exact absurd (all c List.mem_cons_self) keep
    · have whole : front ++ c :: rest = (front ++ body) ++ c' :: back := by
        rw [same, List.append_assoc]
      have kept : body.length + 1 = (body ++ [c']).length := by simp
      rw [whole, findLastNotOf_append behind keep', same, rdropWhile_append behind keep']
      have taken := substr_append front (body ++ [c']) back
      simp only [List.append_assoc, List.singleton_append] at taken
      simpa [← kept] using taken

end Results

/-! ## The laws -/

/-- `t` is the longest prefix of `str` that has the property. -/
structure LongestPrefix (P : List UInt8 → Prop) (str t : List UInt8) : Prop where
  front : t <+: str
  property : P t
  longest : ∀ u, u <+: str → P u → u.length ≤ t.length

structure LongestSuffix (P : List UInt8 → Prop) (str t : List UInt8) : Prop where
  back : t <:+ str
  property : P t
  longest : ∀ u, u <:+ str → P u → u.length ≤ t.length

structure Laws (str delimit : List UInt8) : Prop where
  right : ∃ t, trimRight str delimit = some t ∧
    LongestPrefix (fun u => u = [] ∨ ∃ c ∈ u.getLast?, c ∉ delimit) str t
  left : ∃ t, trimLeft str delimit = some t ∧
    LongestSuffix (fun u => u = [] ∨ ∃ c ∈ u.head?, c ∉ delimit) str t
  rightLeft : trim str delimit = (trimRight str delimit).bind (trimLeft · delimit)
  leftRight : trim str delimit = (trimLeft str delimit).bind (trimRight · delimit)
  idempotent : (trim str delimit).bind (trim · delimit) = trim str delimit
  leftIdempotent : (trimLeft str delimit).bind (trimLeft · delimit) = trimLeft str delimit
  rightIdempotent : (trimRight str delimit).bind (trimRight · delimit) = trimRight str delimit

/-- The left side is cut as it should be, whatever stands there. -/
theorem trimLeft_longest (str delimit : List UInt8) : ∃ t, trimLeft str delimit = some t ∧
    LongestSuffix (fun u => u = [] ∨ ∃ c ∈ u.head?, c ∉ delimit) str t := by
  refine ⟨_, trimLeft_eq str delimit, List.dropWhile_suffix _, ?_, ?_⟩
  · rcases all_or_first str delimit with all | ⟨front, c, rest, rfl, before, keep⟩
    · exact .inl (by simpa using all)
    · exact .inr ⟨c, by rw [dropWhile_append before keep, List.head?_cons]; rfl, keep⟩
  · rintro u back (rfl | ⟨c, first, keep⟩)
    · exact Nat.zero_le _
    · obtain ⟨front, rfl⟩ := back
      cases u with
      | nil => cases first
      | cons d u =>
        obtain rfl := Option.some.inj first
        -- whatever is skipped stands in front of `d`
        have behind : d :: u <:+ (front ++ d :: u).dropWhile (· ∈ delimit) := by
          rw [List.dropWhile_append]
          split
          · simp [keep]
          · exact List.suffix_append _ _
        exact behind.length_le

/-- The laws hold of delimiters only: otherwise `TrimRight` takes one character too many. -/
theorem laws_iff {str delimit : List UInt8} : Laws str delimit ↔ ∀ c ∈ str, c ∈ delimit := by
  constructor
  · intro laws
    obtain ⟨t, cut, -, -, longest⟩ := laws.right
    rw [trimRight_eq, Option.some.injEq] at cut
    rcases all_or_last str delimit with all | ⟨front, c, rest, rfl, behind, keep⟩
    · exact all
    · -- the prefix up to the last character to keep is longer than what is returned
      have prefix_ : front ++ [c] <+: front ++ c :: rest := ⟨rest, by simp⟩
      have more := longest (front ++ [c]) prefix_ (.inr ⟨c, by simp, keep⟩)
      rw [← cut, rdropWhile_append behind keep, List.dropLast_concat, List.length_append] at more
      exact absurd more (Nat.not_succ_le_self _)
  · intro all
    have left : trimLeft str delimit = some [] := by
      rw [trimLeft, findFirstNotOf_of_all all]
    have right : trimRight str delimit = some [] := by
      rw [trimRight, findLastNotOf_of_all all]
    have both : trim str delimit = some [] := by
      rw [trim, findFirstNotOf_of_all all]
    have empty : ∀ d, trim [] d = some [] ∧ trimLeft [] d = some [] ∧ trimRight [] d = some [] :=
      fun d => ⟨rfl, rfl, rfl⟩
    obtain ⟨none_, noneLeft, noneRight⟩ := empty delimit
    refine ⟨⟨[], right, List.nil_prefix, .inl rfl, ?_⟩, trimLeft_longest str delimit, ?_, ?_, ?_, ?_, ?_⟩
    · rintro u front (rfl | ⟨c, last, keep⟩)
      · exact Nat.le_refl _
      · exact absurd (all c (front.subset (List.mem_of_getLast? last))) keep
    all_goals simp [left, right, both, none_, noneLeft, noneRight]

/-- `TrimRight("a", " ")` is empty. -/
theorem trimRight_short : trimRight [97] [32] = some [] ∧ ¬Laws [97] [32] := by
  refine ⟨by decide, fun laws => ?_⟩
  obtain ⟨t, cut, -, -, longest⟩ := laws.right
  obtain rfl : [] = t := Option.some.inj cut
  exact absurd (longest [97] (List.prefix_refl _) (.inr ⟨97, rfl, by decide⟩)) (by decide)

end ServerFrame.StringUtil.Cut
