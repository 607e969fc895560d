import ServerFrame.Util.StdString

/-!
# `replace`

The string is built anew for each occurrence, and the search goes on behind what was put in.
-/
namespace ServerFrame.HashUtil

open Occurrences StdString

/-- `while (index != npos)` of `replace(const std::string&, char, char)`, with the passes that are
left. -/
def replaceCharLoop (find replaceWith : UInt8) :
    Nat → List UInt8 → Option Nat → Option (List UInt8)
  | 0, _, _ => none
  | _ + 1, str, none => some str
  | fuel + 1, str, some index =>
    let str := str.set index replaceWith
    replaceCharLoop find replaceWith fuel str (findChar str find (index + 1))

/-- `while (index != npos)` of the other overloads, for a pattern of `size` characters. There is no
result when an exception is thrown or the passes are used up. -/
def replaceLoop (find : List UInt8 → Nat → Option Nat) (size : Nat) (replaceWith : List UInt8) :
    Nat → List UInt8 → Option Nat → Option (List UInt8)
  | 0, _, _ => none
  | _ + 1, str, none => some str
  | fuel + 1, str, some index => do
    let front ← substr str 0 index
    let behind ← substrToEnd str (index + size)
    let str := front ++ replaceWith ++ behind
    replaceLoop find size replaceWith fuel str (find str (index + replaceWith.length))

/-- `replace(const std::string&, char, char)`. -/
def replaceChar (str1 : List UInt8) (find replaceWith : UInt8) : Option (List UInt8) :=
  replaceCharLoop find replaceWith (str1.length + 1) str1 (findChar str1 find 0)

/-- `replace(const std::string&, char, const std::string&)`. -/
def replaceCharString (str1 : List UInt8) (find : UInt8) (replaceWith : List UInt8) :
    Option (List UInt8) :=
  replaceLoop (findChar · find) 1 replaceWith (str1.length + 1) str1 (findChar str1 find 0)

/-- `replace(const std::string&, const std::string&, const std::string&)`. -/
def replaceString (str1 find replaceWith : List UInt8) : Option (List UInt8) :=
  replaceLoop (findString · find) find.length replaceWith (str1.length + 1) str1
    (findString str1 find 0)

section Loop

variable {rest : List UInt8} {pieces : List (List UInt8)} {fuel : Nat}

/-- What stands in front is done with, and is not looked at again. -/
theorem replaceLoop_eq {find : List UInt8 → Nat → Option Nat} {f : List UInt8} (some_ : f ≠ [])
    (front : List UInt8)
    (finds : ∀ front rest, find (front ++ rest) front.length =
      (first f rest).map (· + front.length))
    (cut : Pieces f rest pieces) (enough : rest.length < fuel) (replaceWith : List UInt8) :
    replaceLoop find f.length replaceWith fuel (front ++ rest) (find (front ++ rest) front.length) =
      some (front ++ replaceWith.intercalate pieces) := by
  induction cut generalizing front fuel with
  | @last rest absent =>
    obtain ⟨fuel, rfl⟩ : ∃ n, fuel = n + 1 := ⟨fuel - 1, by omega⟩
    rw [finds, first_of_absent absent, Option.map_none, replaceLoop, List.intercalate_singleton]
  | @cut piece rest pieces before behind ih =>
    obtain ⟨fuel, rfl⟩ : ∃ n, fuel = n + 1 := ⟨fuel - 1, by omega⟩
    have pos := List.length_pos_iff.mpr some_
    have shorter : rest.length < fuel := by
      simp only [List.length_append] at enough
      omega
    -- the three parts that the string is put together from
    have taken : substr (front ++ (piece ++ (f ++ rest))) 0 (piece.length + front.length) =
        some (front ++ piece) := by
      have taken := substr_append [] (front ++ piece) (f ++ rest)
      rwa [List.nil_append, List.append_assoc, List.length_append, Nat.add_comm] at taken
    have left : substrToEnd (front ++ (piece ++ (f ++ rest))) (piece.length + front.length + f.length) =
        some rest := by
      have left := substrToEnd_append (front ++ (piece ++ f)) rest
      simp only [List.append_assoc, List.length_append] at left
      rwa [← Nat.add_assoc, Nat.add_comm front.length] at left
    -- the search goes on at the end of the replacement, which is in front from now on
    have next : piece.length + front.length + replaceWith.length =
        (front ++ piece ++ replaceWith).length := by
      simp only [List.length_append]
      omega
    rw [finds, first_of_before before, Option.map_some, replaceLoop, taken, left]
    simp only [Option.bind_eq_bind, Option.bind_some]
    rw [next, ih _ shorter, intercalate_cons replaceWith piece behind.ne_nil]
    simp only [List.append_assoc]

theorem replaceCharLoop_eq {find : UInt8} (front : List UInt8) (cut : Pieces [find] rest pieces)
    (enough : rest.length < fuel) (replaceWith : UInt8) :
    replaceCharLoop find replaceWith fuel (front ++ rest)
        (findChar (front ++ rest) find front.length) =
      some (front ++ [replaceWith].intercalate pieces) := by
  generalize single : [find] = f at cut
  induction cut generalizing front fuel with
  | @last rest absent =>
    subst single
    obtain ⟨fuel, rfl⟩ : ∃ n, fuel = n + 1 := ⟨fuel - 1, by omega⟩
    rw [findChar_append, first_of_absent absent, Option.map_none, replaceCharLoop,
      List.intercalate_singleton]
  | @cut piece rest pieces before behind ih =>
    subst single
    obtain ⟨fuel, rfl⟩ : ∃ n, fuel = n + 1 := ⟨fuel - 1, by omega⟩
    have shorter : rest.length < fuel := by
      simp only [List.length_append, List.length_singleton] at enough
      omega
    -- the character is overwritten where it stands
    have put : (front ++ (piece ++ ([find] ++ rest))).set (piece.length + front.length) replaceWith =
        (front ++ piece ++ [replaceWith]) ++ rest := by
      simp
    have next : piece.length + front.length + 1 = (front ++ piece ++ [replaceWith]).length := by
      simp only [List.length_append, List.length_singleton]
      omega
    rw [findChar_append, first_of_before before, Option.map_some, replaceCharLoop]
    rw [put, next, ih _ shorter, intercalate_cons _ piece behind.ne_nil]
    simp only [List.append_assoc]

end Loop

/-- An empty pattern is found over and over again, so that no number of passes is enough. -/
theorem replaceLoop_empty (replaceWith : List UInt8) (fuel : Nat) {str : List UInt8} {index : Nat}
    (inside : index ≤ str.length) :
    replaceLoop (findString · []) 0 replaceWith fuel str (findString str [] index) = none := by
  induction fuel generalizing str index with
  | zero => rfl
  | succ fuel ih =>
    -- each pass finds the empty pattern where it begins to look
    have here : ∀ xs : List UInt8, first [] xs = some 0 := by
      intro xs
      cases xs <;> simp [first]
    have found : findString str [] index = some index := by simp [findString, inside, here]
    have taken : substr str 0 index = some (str.take index) := by simp [substr]
    have left : substrToEnd str (index + 0) = some (str.drop index) := by
      simp [substrToEnd, substr, inside]
    rw [found, replaceLoop, taken, left]
    simp only [Option.bind_eq_bind, Option.bind_some]
    apply ih
    simp only [List.length_append, List.length_take, List.length_drop]
    omega

/-- Every occurrence in the text is replaced, and nothing in what was put in; the overloads for a
character do the same for a pattern of one character. For an empty pattern see `replaceLoop_empty`. -/
theorem replace_spec (str find replaceWith : List UInt8) (some_ : find ≠ []) :
    (∃! pieces, Pieces find str pieces) ∧
    (∀ pieces, Pieces find str pieces → find.intercalate pieces = str ∧
      replaceString str find replaceWith = some (replaceWith.intercalate pieces)) ∧
    ∀ c, find = [c] →
      replaceCharString str c replaceWith = replaceString str find replaceWith ∧
      ∀ r, replaceWith = [r] → replaceChar str c r = replaceString str find replaceWith := by
  have replaced : ∀ pieces, Pieces find str pieces →
      replaceString str find replaceWith = some (replaceWith.intercalate pieces) := fun _ cut =>
    replaceLoop_eq some_ [] (fun front rest => findString_append front rest find) cut
      (Nat.lt_succ_self _) replaceWith
  obtain ⟨pieces, cut⟩ := Pieces.exists_of_ne_nil some_ str
  refine ⟨⟨pieces, cut, fun _ cut' => cut'.unique cut⟩,
    fun _ cut' => ⟨cut'.intercalate, replaced _ cut'⟩, ?_⟩
  rintro c rfl
  rw [replaced pieces cut]
  constructor
  · exact replaceLoop_eq some_ [] (fun front rest => findChar_append front rest c) cut
      (Nat.lt_succ_self _) replaceWith
  · rintro r rfl
    exact replaceCharLoop_eq [] cut (Nat.lt_succ_self _) r

/-- The replacement holds the pattern twice. -/
theorem replace_spec_doubled :
    replaceString [97, 98, 97] [97] [97, 97] = some [97, 97, 98, 97, 97] ∧
      ∃! pieces, Pieces [97] ([97, 98, 97] : List UInt8) pieces :=
  ⟨by decide, (replace_spec [97, 98, 97] [97] [97, 97] (by decide)).1⟩

end ServerFrame.HashUtil
