import ServerFrame.Http.Request
import Mathlib.Data.List.Lex

/-!
# The map of headers

`CaseInsensitiveLess` orders the names by their letters in lower case, up to the first zero
byte. What a sequence of assignments makes of a map, and what it leaves alone.
-/
namespace ServerFrame.Http

/-- What `strcasecmp` compares. -/
def folded (name : List UInt8) : List Nat :=
  (name.takeWhile (· ≠ 0)).map fun b => (tolower b).toNat

theorem tolower_eq_zero_iff {b : UInt8} : tolower b = 0 ↔ b = 0 := by
  constructor
  · intro lower
    rw [tolower] at lower
    split at lower
    next upper =>
      have sum := congrArg UInt8.toNat lower
      have small := UInt8.le_iff_toNat_le.mp upper.2
      have large := UInt8.le_iff_toNat_le.mp upper.1
      simp only [UInt8.toNat_add, UInt8.reduceToNat] at sum small large
      omega
    next => exact lower
  · rintro rfl
    rfl

theorem folded_cons (b : UInt8) (name : List UInt8) :
    folded (b :: name) = if b = 0 then [] else (tolower b).toNat :: folded name := by
  by_cases zero : b = 0
  · simp [folded, zero]
  · simp [folded, zero]

/-- `strcasecmp` is the lexicographic order of what it compares. -/
theorem strcasecmp_spec (a b : List UInt8) :
    (strcasecmp a b = .lt → folded a < folded b) ∧ (strcasecmp a b = .eq → folded a = folded b) ∧
      (strcasecmp a b = .gt → folded b < folded a) := by
  induction a generalizing b with
  | nil =>
    cases b with
    | nil => simp [strcasecmp]
    | cons y b =>
      rw [strcasecmp, folded_cons]
      split <;> simp [folded]
  | cons x a ih =>
    cases b with
    | nil =>
      rw [strcasecmp, folded_cons]
      split <;> simp [folded]
    | cons y b =>
      have by_first : compare (tolower x) (tolower y) = if tolower x < tolower y then .lt
        else if tolower x = tolower y then .eq else .gt := rfl
      rw [strcasecmp, by_first, folded_cons, folded_cons]
      by_cases lt : tolower x < tolower y
      · -- the first bytes decide, and `y` is not the end
        have lt' := UInt8.lt_iff_toNat_lt.mp lt
        have not_end : y ≠ 0 := by
          rintro rfl
          exact absurd lt' (Nat.not_lt_zero _)
        simp only [if_pos lt, if_neg not_end]
        split <;> simp [List.cons_lt_cons_iff, lt']
      · by_cases same : tolower x = tolower y
        · have end_iff : x = 0 ↔ y = 0 := by rw [← tolower_eq_zero_iff, same, tolower_eq_zero_iff]
          by_cases is_end : y = 0
          · simp [same, end_iff, is_end]
          · simpa [same, end_iff, is_end, List.cons_lt_cons_iff] using ih b
        · have gt : tolower y < tolower x := by
            rw [UInt8.lt_iff_toNat_lt] at *
            have := mt UInt8.toNat_inj.mp same
            omega
          have gt' := UInt8.lt_iff_toNat_lt.mp gt
          have not_end : x ≠ 0 := by
            rintro rfl
            exact absurd gt' (Nat.not_lt_zero _)
          simp only [if_neg lt, if_neg same, if_neg not_end]
          split <;> simp [List.cons_lt_cons_iff, gt']

theorem strcasecmp_lt_iff {a b : List UInt8} : strcasecmp a b = .lt ↔ folded a < folded b := by
  obtain ⟨lt, eq, gt⟩ := strcasecmp_spec a b
  refine ⟨lt, fun less => ?_⟩
  cases order : strcasecmp a b with
  | lt => rfl
  | eq => exact absurd (eq order) less.ne
  | gt => exact absurd (gt order) less.asymm

theorem strcasecmp_eq_iff {a b : List UInt8} : strcasecmp a b = .eq ↔ folded a = folded b := by
  obtain ⟨lt, eq, gt⟩ := strcasecmp_spec a b
  refine ⟨eq, fun same => ?_⟩
  cases order : strcasecmp a b with
  | lt => exact absurd same (lt order).ne
  | eq => rfl
  | gt => exact absurd same.symm (gt order).ne

theorem strcasecmp_gt_iff {a b : List UInt8} : strcasecmp a b = .gt ↔ folded b < folded a := by
  obtain ⟨lt, eq, gt⟩ := strcasecmp_spec a b
  refine ⟨gt, fun less => ?_⟩
  cases order : strcasecmp a b with
  | lt => exact absurd (lt order) less.asymm
  | eq => exact absurd (eq order).symm less.ne
  | gt => rfl

/-! ## Assignments -/

namespace MapType

/-- The entries are in the order of their names. -/
def Sorted (m : MapType) : Prop := m.Pairwise fun e f => folded e.1 < folded f.1

variable {m : MapType} {key val : List UInt8}

theorem mem_set {e : List UInt8 × List UInt8} (member : e ∈ m.set key val) :
    folded e.1 = folded key ∨ e ∈ m := by
  induction m with
  | nil => exact .inl (by rw [List.mem_singleton.mp member])
  | cons f m ih =>
    obtain ⟨k, v⟩ := f
    rw [set] at member
    split at member
    next =>
      rcases List.mem_cons.mp member with rfl | member
      · exact .inl rfl
      · exact .inr member
    next same =>
      rcases List.mem_cons.mp member with rfl | member
      · exact .inl (strcasecmp_eq_iff.mp same).symm
      · exact .inr (List.mem_cons_of_mem _ member)
    next =>
      rcases List.mem_cons.mp member with rfl | member
      · exact .inr (List.mem_cons_self ..)
      · exact (ih member).imp id (List.mem_cons_of_mem _)

theorem sorted_set (sorted : Sorted m) : Sorted (m.set key val) := by
  induction m with
  | nil => exact List.pairwise_singleton ..
  | cons f m ih =>
    obtain ⟨k, v⟩ := f
    obtain ⟨first, rest⟩ := List.pairwise_cons.mp sorted
    rw [set]
    split
    next less =>
      have less := strcasecmp_lt_iff.mp less
      refine List.pairwise_cons.mpr ⟨fun e member => ?_, sorted⟩
      rcases List.mem_cons.mp member with rfl | member
      · exact less
      · exact less.trans (first e member)
    next => exact List.pairwise_cons.mpr ⟨first, rest⟩
    next greater =>
      refine List.pairwise_cons.mpr ⟨fun e member => ?_, ih rest⟩
      rcases mem_set member with same | member
      · exact same ▸ strcasecmp_gt_iff.mp greater
      · exact first e member

/-- A name behind all others is added at the end. -/
theorem set_of_last (last : ∀ e ∈ m, folded e.1 < folded key) : m.set key val = m ++ [(key, val)] := by
  induction m with
  | nil => rfl
  | cons f m ih =>
    obtain ⟨k, v⟩ := f
    have greater := strcasecmp_gt_iff.mpr (last (k, v) (List.mem_cons_self ..))
    rw [set, greater, List.cons_append, ← ih fun e member => last e (List.mem_cons_of_mem _ member)]

/-- A name before all others is added in front. -/
theorem set_of_first (first : ∀ e ∈ m, folded key < folded e.1) : m.set key val = (key, val) :: m := by
  cases m with
  | nil => rfl
  | cons f m =>
    obtain ⟨k, v⟩ := f
    rw [set, strcasecmp_lt_iff.mpr (first (k, v) (List.mem_cons_self ..))]

theorem find_cons (k v : List UInt8) (m : MapType) (name : List UInt8) :
    MapType.find ((k, v) :: m) name = if folded k = folded name then some v else m.find name := by
  rw [find, List.find?_cons]
  by_cases same : folded k = folded name
  · simp [strcasecmp_eq_iff.mpr same, same]
  · have other : (strcasecmp k name == .eq) = false :=
      beq_eq_false_iff_ne.mpr (mt strcasecmp_eq_iff.mp same)
    simp only [other, if_neg same, find]

theorem find_set (name : List UInt8) :
    (m.set key val).find name = if folded key = folded name then some val else m.find name := by
  induction m with
  | nil => exact find_cons ..
  | cons f m ih =>
    obtain ⟨k, v⟩ := f
    rw [set]
    split
    next => exact find_cons ..
    next same =>
      have same := strcasecmp_eq_iff.mp same
      rw [find_cons, find_cons, same]
      split <;> rfl
    next greater =>
      have greater := strcasecmp_gt_iff.mp greater
      rw [find_cons, find_cons, ih]
      split
      next same => rw [if_neg (same ▸ greater.ne')]
      next => rfl

/-! Names are told apart by `keeps`, without regard to case. -/

variable {keeps : List UInt8 → Bool} (by_case : ∀ a b, folded a = folded b → keeps a = keeps b)

include by_case

theorem filter_set_of_not_keeps (gone : keeps key = false) :
    (m.set key val).filter (fun e => keeps e.1) = m.filter fun e => keeps e.1 := by
  induction m with
  | nil => simp [set, gone]
  | cons f m ih =>
    obtain ⟨k, v⟩ := f
    rw [set]
    split
    next => rw [List.filter_cons, gone, if_neg Bool.false_ne_true]
    next same =>
      have gone' : keeps k = false := by rw [← by_case key k (strcasecmp_eq_iff.mp same), gone]
      simp [gone']
    next => rw [List.filter_cons, List.filter_cons, ih]

theorem filter_set_of_keeps (kept : keeps key = true) (sorted : Sorted m) :
    (m.set key val).filter (fun e => keeps e.1) =
      MapType.set key val (m.filter fun e => keeps e.1) := by
  induction m with
  | nil => simp [set, kept]
  | cons f m ih =>
    obtain ⟨k, v⟩ := f
    obtain ⟨first, rest⟩ := List.pairwise_cons.mp sorted
    rw [set]
    split
    next less =>
      have less := strcasecmp_lt_iff.mp less
      have before : ∀ e ∈ ((k, v) :: m).filter fun e => keeps e.1, folded key < folded e.1 := by
        intro e member
        rcases List.mem_cons.mp (List.mem_of_mem_filter member) with rfl | member
        · exact less
        · exact less.trans (first e member)
      rw [set_of_first before, List.filter_cons, kept, if_pos rfl]
    next same =>
      have kept' : keeps k = true := by rw [← by_case key k (strcasecmp_eq_iff.mp same), kept]
      simp [kept', set, same]
    next greater =>
      rw [List.filter_cons, List.filter_cons, ih rest]
      split
      next => rw [set, greater]
      next => rfl

end MapType

end ServerFrame.Http
