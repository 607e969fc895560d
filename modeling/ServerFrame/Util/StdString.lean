import ServerFrame.Lib.Occurrences

/-!
# The members of `std::string` that the utilities search with

A string is the list of its bytes. `npos` is `none`.
-/
namespace ServerFrame.StdString

open Occurrences

/-- `substr(pos, n)`. Behind the end of the string `std::out_of_range` is thrown, and there is no
result. -/
def substr (str : List UInt8) (pos n : Nat) : Option (List UInt8) :=
  if pos ≤ str.length then some ((str.drop pos).take n) else none

/-- `substr(pos)`: all that is behind. -/
def substrToEnd (str : List UInt8) (pos : Nat) : Option (List UInt8) :=
  substr str pos (str.length - pos)

/-- `find(c, pos)`. -/
def findChar (str : List UInt8) (c : UInt8) (pos : Nat) : Option Nat :=
  ((str.drop pos).findIdx? (· == c)).map (· + pos)

/-- `find(s, pos)`. The empty string is found at the end, but not behind it. -/
def findString (str s : List UInt8) (pos : Nat) : Option Nat :=
  if pos ≤ str.length then (first s (str.drop pos)).map (· + pos) else none

/-- The characters of a C string. -/
def cString (s : List UInt8) : List UInt8 := s.takeWhile (· != 0)

/-- `find_first_of(const char*, pos)`. -/
def findFirstOf (str s : List UInt8) (pos : Nat) : Option Nat :=
  ((str.drop pos).findIdx? fun c => (cString s).contains c).map (· + pos)

/-- `find_first_not_of(s)`. -/
def findFirstNotOf (str s : List UInt8) : Option Nat := str.findIdx? fun c => !s.contains c

/-- `find_last_not_of(s)`, which goes from the last character to the first. -/
def findLastNotOf (str s : List UInt8) : Option Nat :=
  (str.reverse.findIdx? fun c => !s.contains c).map (str.length - 1 - ·)

/-! ## Positions behind a front -/

theorem substrToEnd_append (front rest : List UInt8) :
    substrToEnd (front ++ rest) front.length = some rest := by
  have inside : front.length ≤ (front ++ rest).length := by simp
  rw [substrToEnd, substr, if_pos inside, List.drop_left, List.take_of_length_le (by simp)]

theorem substr_append (front piece rest : List UInt8) :
    substr (front ++ (piece ++ rest)) front.length piece.length = some piece := by
  have inside : front.length ≤ (front ++ (piece ++ rest)).length := by simp
  rw [substr, if_pos inside, List.drop_left, List.take_left]

theorem findString_append (front rest s : List UInt8) :
    findString (front ++ rest) s front.length = (first s rest).map (· + front.length) := by
  have inside : front.length ≤ (front ++ rest).length := by simp
  rw [findString, if_pos inside, List.drop_left]

theorem findChar_append (front rest : List UInt8) (c : UInt8) :
    findChar (front ++ rest) c front.length = (first [c] rest).map (· + front.length) := by
  rw [findChar, List.drop_left, findIdx?_eq_first (d := c) _ fun x => beq_iff_eq]

theorem findFirstOf_append {d : UInt8} (some_ : d ≠ 0) (front rest : List UInt8) :
    findFirstOf (front ++ rest) [d] front.length = (first [d] rest).map (· + front.length) := by
  rw [findFirstOf, List.drop_left, findIdx?_eq_first (d := d)]
  intro x
  simp [cString, some_]

end ServerFrame.StdString
