import Mathlib.Algebra.Order.Ring.Nat
import Mathlib.Data.Nat.Bitwise
import Mathlib.Data.List.Basic
import Mathlib.Tactic.Ring

/-!
# Groups of bits in a number

Numbers below `2 ^ w` are put into one number, the first on top, and taken out again with shifts
and masks. What is packed in groups of one width can be taken out in groups of another.
-/
namespace BitGroups

variable {w : Nat}

/-- Behind what is packed already, one group after the other. -/
def pack (w packed : Nat) (groups : List Nat) : Nat :=
  groups.foldl (fun packed g => packed <<< w ||| g) packed

/-- The lowest `n` groups, the highest of them first. -/
def unpack (w : Nat) : Nat → Nat → List Nat
  | 0, _ => []
  | n + 1, packed => (packed >>> (w * n) &&& (2 ^ w - 1)) :: unpack w n packed

@[simp] theorem pack_nil (w packed : Nat) : pack w packed [] = packed := rfl

@[simp] theorem pack_cons (w packed g : Nat) (groups : List Nat) :
    pack w packed (g :: groups) = pack w (packed <<< w ||| g) groups := rfl

theorem pack_append (w packed : Nat) (groups groups' : List Nat) :
    pack w packed (groups ++ groups') = pack w (pack w packed groups) groups' :=
  List.foldl_append

@[simp] theorem length_unpack (w n packed : Nat) : (unpack w n packed).length = n := by
  induction n with
  | zero => rfl
  | succ n ih => rw [unpack, List.length_cons, ih]

/-- A group that is put in takes the place of the bits that are free. -/
theorem shiftLeft_or {g : Nat} (small : g < 2 ^ w) (packed : Nat) :
    packed <<< w ||| g = packed * 2 ^ w + g := by
  rw [← Nat.shiftLeft_add_eq_or_of_lt small, Nat.shiftLeft_eq]

/-- A group that is taken out is a digit. -/
theorem shiftRight_and (w n packed : Nat) :
    packed >>> (w * n) &&& (2 ^ w - 1) = packed / 2 ^ (w * n) % 2 ^ w := by
  rw [Nat.and_two_pow_sub_one_eq_mod, Nat.shiftRight_eq_div_pow]

theorem unpack_lt {n packed g : Nat} (member : g ∈ unpack w n packed) : g < 2 ^ w := by
  induction n with
  | zero => exact absurd member List.not_mem_nil
  | succ n ih =>
    rw [unpack, shiftRight_and, List.mem_cons] at member
    rcases member with rfl | later
    · exact Nat.mod_lt _ (Nat.two_pow_pos w)
    · exact ih later

/-- The groups that are taken out are put together again, behind what was above them. -/
theorem pack_unpack (w n packed : Nat) :
    pack w (packed / 2 ^ (w * n)) (unpack w n packed) = packed := by
  induction n with
  | zero => simp [unpack]
  | succ n ih =>
    -- with the first group behind it, what was above is what `n` groups have above them
    have small : packed / 2 ^ (w * n) % 2 ^ w < 2 ^ w := Nat.mod_lt _ (Nat.two_pow_pos w)
    have above : packed / 2 ^ (w * (n + 1)) = packed / 2 ^ (w * n) / 2 ^ w := by
      rw [Nat.div_div_eq_div_mul, ← pow_add, Nat.mul_succ]
    rw [unpack, pack_cons, shiftRight_and, shiftLeft_or small, above, Nat.div_add_mod', ih]

/-- All of a number that has no more groups. -/
theorem pack_zero_unpack {n packed : Nat} (fits : packed < 2 ^ (w * n)) :
    pack w 0 (unpack w n packed) = packed := by
  have whole := pack_unpack w n packed
  rwa [Nat.div_eq_of_lt fits] at whole

/-- What stands above the groups that are put in, and that they do not touch it. -/
theorem pack_div {groups : List Nat} (small : ∀ g ∈ groups, g < 2 ^ w) (packed : Nat) :
    pack w packed groups / 2 ^ (w * groups.length) = packed := by
  induction groups generalizing packed with
  | nil => simp
  | cons g groups ih =>
    -- the later groups leave `packed * 2 ^ w + g` alone, and `g` is below `2 ^ w`
    have first := small g List.mem_cons_self
    have rest := ih (fun g member => small g (List.mem_cons_of_mem _ member)) (packed <<< w ||| g)
    rw [List.length_cons, Nat.mul_succ, pow_add, ← Nat.div_div_eq_div_mul, pack_cons, rest,
      shiftLeft_or first, Nat.mul_comm, Nat.mul_add_div (Nat.two_pow_pos w), Nat.div_eq_of_lt first,
      Nat.add_zero]

theorem pack_lt {groups : List Nat} (small : ∀ g ∈ groups, g < 2 ^ w) :
    pack w 0 groups < 2 ^ (w * groups.length) := by
  have above := pack_div small 0
  rwa [Nat.div_eq_zero_iff_lt (Nat.two_pow_pos _)] at above

/-- Groups come out as they were put in. -/
theorem unpack_pack {groups : List Nat} (small : ∀ g ∈ groups, g < 2 ^ w) (packed : Nat) :
    unpack w groups.length (pack w packed groups) = groups := by
  induction groups generalizing packed with
  | nil => rfl
  | cons g groups ih =>
    have first := small g List.mem_cons_self
    have others := fun g member => small g (List.mem_cons_of_mem _ member)
    have top : pack w (packed <<< w ||| g) groups / 2 ^ (w * groups.length) % 2 ^ w = g := by
      rw [pack_div others, shiftLeft_or first, Nat.mul_add_mod_self_right, Nat.mod_eq_of_lt first]
    rw [List.length_cons, unpack, shiftRight_and, pack_cons, top, ih others]

end BitGroups
