import ServerFrame.Http.Params
import Mathlib.Data.List.TakeWhile

/-!
# What the parameters are made of

A text is its pieces between the separators. A piece with an equals sign is one parameter; the
loop takes the pieces without one in front of it for a part of its name.
-/
namespace ServerFrame.Http

open StringUtil

/-- A piece as a name and a value, split at its first equals sign. -/
def cut (piece : List UInt8) : Option (List UInt8 × List UInt8) :=
  if 61 ∈ piece then some (piece.takeWhile (· != 61), (piece.dropWhile (· != 61)).tail) else none

/-- A name and a value as they are stored. -/
def stored (trim : List UInt8 → List UInt8) (e : List UInt8 × List UInt8) : List UInt8 × List UInt8 :=
  (trim e.1, urlDecode true e.2)

/-- The parameters of a text: those of its pieces, the first of a name. -/
def specified (flag : UInt8) (trim : List UInt8 → List UInt8) (text : List UInt8) : MapType :=
  MapType.insertAll (((text.splitOn flag).filterMap cut).map (stored trim)) []

/-- The names and values that the loop reads; `front` is the text of the pieces without an
equals sign that it stands behind. -/
def readPieces (flag : UInt8) : List UInt8 → List (List UInt8) → List (List UInt8 × List UInt8)
  | _, [] => []
  | front, piece :: pieces =>
    match cut piece with
    | none => readPieces flag (front ++ piece ++ [flag]) pieces
    | some (name, value) => (front ++ name, value) :: readPieces flag [] pieces

/-- The pieces with an equals sign that stand behind no piece without one. -/
def keptPieces (flag : UInt8) : List UInt8 → List (List UInt8) → List (List UInt8 × List UInt8)
  | _, [] => []
  | front, piece :: pieces =>
    match cut piece with
    | none => keptPieces flag (front ++ piece ++ [flag]) pieces
    | some e => if front = [] then e :: keptPieces flag [] pieces else keptPieces flag [] pieces

/-- Of the other pieces with an equals sign, each is read under a name that compares equal to
one of the names before it. -/
def mergedKnown (flag : UInt8) (trim : List UInt8 → List UInt8) :
    List (List UInt8) → List UInt8 → List (List UInt8) → Bool
  | _, _, [] => true
  | seen, front, piece :: pieces =>
    match cut piece with
    | none => mergedKnown flag trim seen (front ++ piece ++ [flag]) pieces
    | some (name, _) =>
      if front = [] then mergedKnown flag trim (trim name :: seen) [] pieces
      else
        seen.any (fun key => strcasecmp key (trim (front ++ name)) == .eq) &&
          mergedKnown flag trim seen [] pieces

/-- The pieces without an equals sign do no harm. -/
structure Unmerged (flag : UInt8) (trim : List UInt8 → List UInt8) (text : List UInt8) : Prop where
  known : mergedKnown flag trim [] [] (text.splitOn flag) = true
  superfluous : MapType.insertAll ((keptPieces flag [] (text.splitOn flag)).map (stored trim)) [] =
    specified flag trim text

/-- Every piece with an equals sign stands before every piece without one. -/
def equalsFirst (pieces : List (List UInt8)) : Bool :=
  (pieces.dropWhile fun piece => 61 ∈ piece).all fun piece => 61 ∉ piece

/-! ## The loop -/

theorem takeWhile_append_cons {a : UInt8} {xs : List UInt8} (absent : a ∉ xs) (ys : List UInt8) :
    (xs ++ a :: ys).takeWhile (· != a) = xs ∧ (xs ++ a :: ys).dropWhile (· != a) = a :: ys := by
  have passes : ∀ x ∈ xs, (x != a) = true := fun x member =>
    bne_iff_ne.mpr fun same => absent (same ▸ member)
  rw [List.takeWhile_append_of_pos passes, List.dropWhile_append_of_pos passes]
  simp

theorem takeWhile_of_not_mem {a : UInt8} {xs : List UInt8} (absent : a ∉ xs) :
    xs.takeWhile (· != a) = xs ∧ xs.dropWhile (· != a) = [] := by
  have passes : ∀ x ∈ xs, (x != a) = true := fun x member =>
    bne_iff_ne.mpr fun same => absent (same ▸ member)
  exact ⟨List.takeWhile_eq_self_iff.mpr passes, List.dropWhile_eq_nil_iff.mpr passes⟩

theorem cut_eq_none {piece : List UInt8} : cut piece = none ↔ 61 ∉ piece := by
  rw [cut]
  split <;> simp_all

theorem cut_eq_some {piece : List UInt8} {e : List UInt8 × List UInt8} (some_cut : cut piece = some e) :
    piece = e.1 ++ 61 :: e.2 ∧ 61 ∉ e.1 := by
  rw [cut] at some_cut
  split at some_cut
  next member =>
    obtain ⟨front, behind, rfl, absent⟩ := List.eq_append_cons_of_mem member
    obtain ⟨taken, dropped⟩ := takeWhile_append_cons absent behind
    rw [taken, dropped] at some_cut
    cases some_cut
    exact ⟨rfl, absent⟩
  next => cases some_cut

section Loop

variable {flag : UInt8} {trim : List UInt8 → List UInt8} {pieces : List (List UInt8)}

/-- One turn of the loop that finds a name. -/
theorem parseParam_step {name behind : List UInt8} (absent : 61 ∉ name) (fuel : Nat) (m : MapType) :
    parseParam flag trim (fuel + 1) (name ++ 61 :: behind) m =
      match behind.dropWhile (· != flag) with
      | [] => m.insert (trim name) (urlDecode true (behind.takeWhile (· != flag)))
      | _ :: str => parseParam flag trim fuel str
          (m.insert (trim name) (urlDecode true (behind.takeWhile (· != flag)))) := by
  obtain ⟨taken, dropped⟩ := takeWhile_append_cons absent behind
  cases left : behind.dropWhile (· != flag) with
  | nil => simp only [parseParam, dropped, taken, left]
  | cons b str => simp only [parseParam, dropped, taken, left]

/-- The loop inserts what it reads in the pieces, one after the other. -/
theorem parseParam_pieces (differ : flag ≠ 61) {front : List UInt8} (no_equals : 61 ∉ front)
    (some_left : pieces ≠ []) (no_flag : ∀ piece ∈ pieces, flag ∉ piece) {fuel : Nat}
    (enough : (front ++ [flag].intercalate pieces).length < fuel) (m : MapType) :
    parseParam flag trim fuel (front ++ [flag].intercalate pieces) m =
      MapType.insertAll ((readPieces flag front pieces).map (stored trim)) m := by
  induction pieces generalizing front fuel m with
  | nil => exact absurd rfl some_left
  | cons piece pieces ih =>
    obtain ⟨fuel, rfl⟩ : ∃ n, fuel = n + 1 := ⟨fuel - 1, by omega⟩
    have no_flag_here := no_flag piece (List.mem_cons_self ..)
    have no_flag_behind := fun p member => no_flag p (List.mem_cons_of_mem _ member)
    rw [readPieces]
    cases cut_eq : cut piece with
    | none =>
      have no_equals_here := cut_eq_none.mp cut_eq
      cases pieces with
      | nil =>
        have none_there : 61 ∉ front ++ piece := by simp [no_equals, no_equals_here]
        rw [List.intercalate_singleton, parseParam, (takeWhile_of_not_mem none_there).2]
        rfl
      | cons next pieces =>
        have joined : front ++ [flag].intercalate (piece :: next :: pieces) =
            (front ++ piece ++ [flag]) ++ [flag].intercalate (next :: pieces) := by
          rw [List.intercalate_cons_cons]
          simp only [List.append_assoc]
        rw [joined] at enough ⊢
        exact ih (by simp [no_equals, no_equals_here, differ.symm]) (List.cons_ne_nil _ _)
          no_flag_behind enough m
    | some e =>
      obtain ⟨piece_eq, no_equals_here⟩ := cut_eq_some cut_eq
      have absent : 61 ∉ front ++ e.1 := by simp [no_equals, no_equals_here]
      have no_flag_value : flag ∉ e.2 := fun member => no_flag_here (by simp [piece_eq, member])
      rw [List.map_cons]
      cases pieces with
      | nil =>
        obtain ⟨taken, dropped⟩ := takeWhile_of_not_mem no_flag_value
        rw [List.intercalate_singleton, piece_eq, ← List.append_assoc, parseParam_step absent, dropped, taken]
        rfl
      | cons next pieces =>
        have joined : front ++ [flag].intercalate (piece :: next :: pieces) =
            (front ++ e.1) ++ 61 :: (e.2 ++ flag :: [flag].intercalate (next :: pieces)) := by
          rw [List.intercalate_cons_cons, piece_eq]
          simp only [List.append_assoc, List.cons_append, List.nil_append]
        obtain ⟨taken, dropped⟩ :=
          takeWhile_append_cons no_flag_value ([flag].intercalate (next :: pieces))
        rw [joined] at enough ⊢
        rw [parseParam_step absent, dropped, taken]
        simp only [List.length_append, List.length_cons] at enough
        exact ih (List.not_mem_nil : (61 : UInt8) ∉ []) (List.cons_ne_nil _ _) no_flag_behind
          (by rw [List.nil_append]; omega) _

/-- What the pieces of a text hold. -/
theorem mem_piece (text : List UInt8) :
    ∀ piece ∈ text.splitOn flag, ∀ b ∈ piece, b ∈ text ∧ b ≠ flag := by
  induction text with
  | nil => simp
  | cons a text ih =>
    have behind : ∀ piece ∈ text.splitOn flag, ∀ b ∈ piece, b ∈ a :: text ∧ b ≠ flag :=
      fun piece member b inside => (ih piece member b inside).imp (List.mem_cons_of_mem a) id
    rw [List.splitOn_cons_eq_if_modifyHead]
    split
    next =>
      intro piece member
      rcases List.mem_cons.mp member with rfl | member
      · exact fun b inside => (List.not_mem_nil inside).elim
      · exact behind piece member
    next other =>
      obtain ⟨first, rest, split⟩ := List.exists_cons_of_ne_nil (List.splitOn_ne_nil flag text)
      rw [split] at behind ⊢
      intro piece member b inside
      rcases List.mem_cons.mp member with rfl | member
      · rcases List.mem_cons.mp inside with rfl | inside
        · exact ⟨List.mem_cons_self .., fun same => other (beq_iff_eq.mpr same)⟩
        · exact behind first (List.mem_cons_self ..) b inside
      · exact behind piece (List.mem_cons_of_mem _ member) b inside

theorem flag_not_mem_piece (text : List UInt8) : ∀ piece ∈ text.splitOn flag, flag ∉ piece :=
  fun piece member inside => (mem_piece text piece member flag inside).2 rfl

theorem parseParam_eq (differ : flag ≠ 61) (text : List UInt8) (m : MapType) :
    parseParam flag trim (text.length + 1) text m =
      MapType.insertAll ((readPieces flag [] (text.splitOn flag)).map (stored trim)) m := by
  have whole : [flag].intercalate (text.splitOn flag) = text := List.intercalate_splitOn flag
  have parsed := @parseParam_pieces flag trim (text.splitOn flag) differ [] List.not_mem_nil
    (List.splitOn_ne_nil flag text) (flag_not_mem_piece text) (text.length + 1)
    (by rw [List.nil_append, whole]; omega) m
  rwa [List.nil_append, whole] at parsed

end Loop

/-! ## When the pieces are read as they should be -/

/-- A way to trim a name that does not lose the separator. -/
structure Trims (flag : UInt8) (trim : List UInt8 → List UInt8) : Prop where
  keeps : ∀ s, flag ∈ s → flag ∈ trim s
  only : ∀ s, ∀ b ∈ trim s, b ∈ s

section Pieces

variable {flag : UInt8} {trim : List UInt8 → List UInt8} {pieces : List (List UInt8)}

/-- The names of the specified parameters hold no separator. -/
theorem flag_not_mem_specified (trims : Trims flag trim) (text : List UInt8) :
    ∀ e ∈ specified flag trim text, flag ∉ e.1 := by
  have all : ∀ (entries : List (List UInt8 × List UInt8)) (m : MapType),
      (∀ e ∈ m, flag ∉ e.1) → (∀ e ∈ entries, flag ∉ e.1) →
      ∀ e ∈ MapType.insertAll entries m, flag ∉ e.1 := by
    intro entries
    induction entries with
    | nil => exact fun m there _ => there
    | cons e entries ih =>
      intro m there new
      refine ih (m.insert e.1 e.2) (fun f member => ?_) fun f member => new f (List.mem_cons_of_mem _ member)
      rcases MapType.mem_insert member with rfl | member
      · exact new e (List.mem_cons_self ..)
      · exact there f member
  refine all _ [] (fun e member => nomatch member) fun e member => ?_
  obtain ⟨pair, some_cut, rfl⟩ := List.mem_map.mp member
  obtain ⟨piece, there, cut_eq⟩ := List.mem_filterMap.mp some_cut
  have absent := flag_not_mem_piece text piece there
  rw [(cut_eq_some cut_eq).1] at absent
  exact fun inside => absent (List.mem_append_left _ (trims.only _ _ inside))

/-- The names that were kept are those of the map. -/
def Seen (seen : List (List UInt8)) (m : MapType) : Prop :=
  ∀ name, m.find name ≠ none ↔ ∃ key ∈ seen, folded key = folded name

theorem Seen.insert {seen : List (List UInt8)} {m : MapType} (is : Seen seen m) (sorted : MapType.Sorted m)
    (key val : List UInt8) : Seen (key :: seen) (m.insert key val) := by
  intro name
  rw [MapType.find_insert sorted, ne_eq, Option.or_eq_none_iff, not_and_or, ← ne_eq, is]
  by_cases same : folded key = folded name
  · simp [same]
  · simp [same]

/-- When the others are read under names that are there, they change nothing. -/
theorem readPieces_known {seen : List (List UInt8)} {m : MapType} (is : Seen seen m)
    (sorted : MapType.Sorted m) (front : List UInt8)
    (known : mergedKnown flag trim seen front pieces = true) :
    MapType.insertAll ((readPieces flag front pieces).map (stored trim)) m =
      MapType.insertAll ((keptPieces flag front pieces).map (stored trim)) m := by
  induction pieces generalizing seen m front with
  | nil => rfl
  | cons piece pieces ih =>
    rw [mergedKnown] at known
    rw [readPieces, keptPieces]
    cases cut_eq : cut piece with
    | none =>
      rw [cut_eq] at known
      exact ih is sorted _ known
    | some e =>
      rw [cut_eq] at known
      by_cases first : front = []
      · simp only [first, if_true] at known ⊢
        exact ih (is.insert sorted _ _) (MapType.sorted_insert sorted) [] known
      · simp only [first, if_false, Bool.and_eq_true] at known ⊢
        obtain ⟨key, member, same⟩ := List.any_eq_true.mp known.1
        obtain ⟨found, there⟩ := Option.ne_none_iff_exists'.mp
          ((is (trim (front ++ e.1))).mpr ⟨key, member, strcasecmp_eq_iff.mp (eq_of_beq same)⟩)
        have unchanged : m.insert (trim (front ++ e.1)) (urlDecode true e.2) = m :=
          MapType.insert_of_find there sorted
        have step : MapType.insertAll (((front ++ e.1, e.2) :: readPieces flag [] pieces).map (stored trim)) m =
            MapType.insertAll ((readPieces flag [] pieces).map (stored trim))
              (m.insert (trim (front ++ e.1)) (urlDecode true e.2)) := rfl
        rw [step, unchanged]
        exact ih is sorted [] known.2

theorem mem_insertAll_of_mem {e : List UInt8 × List UInt8} {m : MapType} (member : e ∈ m)
    (entries : List (List UInt8 × List UInt8)) : e ∈ MapType.insertAll entries m := by
  induction entries generalizing m with
  | nil => exact member
  | cons f entries ih => exact ih (MapType.mem_insert_of_mem member)

/-- A name that is not there is stored with the separator in it. -/
theorem flag_mem_of_unknown (trims : Trims flag trim) {seen : List (List UInt8)} {m : MapType}
    (is : Seen seen m) (sorted : MapType.Sorted m) {front : List UInt8} (ends : front ≠ [] → flag ∈ front)
    (unknown : mergedKnown flag trim seen front pieces = false) :
    ∃ e ∈ MapType.insertAll ((readPieces flag front pieces).map (stored trim)) m, flag ∈ e.1 := by
  induction pieces generalizing seen m front with
  | nil => cases unknown
  | cons piece pieces ih =>
    rw [mergedKnown] at unknown
    rw [readPieces]
    cases cut_eq : cut piece with
    | none =>
      rw [cut_eq] at unknown
      exact ih is sorted (fun _ => by simp) unknown
    | some e =>
      rw [cut_eq] at unknown
      have step : MapType.insertAll (((front ++ e.1, e.2) :: readPieces flag [] pieces).map (stored trim)) m =
          MapType.insertAll ((readPieces flag [] pieces).map (stored trim))
            (m.insert (trim (front ++ e.1)) (urlDecode true e.2)) := rfl
      dsimp only
      rw [step]
      by_cases first : front = []
      · subst first
        simp only [if_true] at unknown
        exact ih (is.insert sorted _ _) (MapType.sorted_insert sorted) (fun absurd => (absurd rfl).elim) unknown
      · simp only [first, if_false, Bool.and_eq_false_iff] at unknown
        cases there : m.find (trim (front ++ e.1)) with
        | none =>
          -- the name is new, and holds the separator at the end of `front`
          have member := @MapType.mem_insert_self m _ (urlDecode true e.2) there
          exact ⟨_, mem_insertAll_of_mem member _,
            trims.keeps _ (List.mem_append_left _ (ends first))⟩
        | some found =>
          have known : seen.any (fun key => strcasecmp key (trim (front ++ e.1)) == .eq) = true := by
            obtain ⟨key, member, same⟩ := (is (trim (front ++ e.1))).mp (by simp [there])
            exact List.any_eq_true.mpr ⟨key, member, beq_iff_eq.mpr (strcasecmp_eq_iff.mpr same)⟩
          have later := unknown.resolve_left (by simp [known])
          rw [MapType.insert_of_find there sorted]
          exact ih is sorted (fun absurd => (absurd rfl).elim) later

/-- The loop reads the specified parameters exactly when no piece without an equals sign does
harm. -/
theorem parseParam_specified_iff (differ : flag ≠ 61) (trims : Trims flag trim) (text : List UInt8) :
    parseParam flag trim (text.length + 1) text [] = specified flag trim text ↔
      Unmerged flag trim text := by
  have none_seen : Seen [] [] := fun name => by simp [MapType.find]
  have none_sorted : MapType.Sorted [] := .nil
  rw [parseParam_eq differ]
  constructor
  · intro same
    have known : mergedKnown flag trim [] [] (text.splitOn flag) = true := by
      by_contra unknown
      obtain ⟨e, member, inside⟩ := flag_mem_of_unknown trims none_seen none_sorted
        (fun absurd => (absurd rfl).elim) (Bool.eq_false_iff.mpr unknown)
      rw [same] at member
      exact flag_not_mem_specified trims text e member inside
    exact ⟨known, (readPieces_known none_seen none_sorted [] known).symm.trans same⟩
  · rintro ⟨known, superfluous⟩
    exact (readPieces_known none_seen none_sorted [] known).trans superfluous

/-! ### Texts without zero bytes -/

theorem equalsFirst_cons (piece : List UInt8) (pieces : List (List UInt8)) :
    equalsFirst (piece :: pieces) =
      if 61 ∈ piece then equalsFirst pieces else pieces.all fun piece => 61 ∉ piece := by
  rw [equalsFirst, List.dropWhile_cons]
  split
  next there => simp_all [equalsFirst]
  next absent => simp_all

/-- Pieces without an equals sign name nothing. -/
theorem pieces_of_all (none_cut : (pieces.all fun piece => 61 ∉ piece) = true) (seen : List (List UInt8))
    (front : List UInt8) : mergedKnown flag trim seen front pieces = true ∧
      keptPieces flag front pieces = [] ∧ pieces.filterMap cut = [] := by
  induction pieces generalizing front with
  | nil => exact ⟨rfl, rfl, rfl⟩
  | cons piece pieces ih =>
    obtain ⟨absent, rest⟩ := Bool.and_eq_true_iff.mp none_cut
    have no_cut := cut_eq_none.mpr (of_decide_eq_true absent)
    rw [mergedKnown, keptPieces, List.filterMap_cons, no_cut]
    exact ih rest _

theorem pieces_of_equalsFirst (ordered : equalsFirst pieces = true) (seen : List (List UInt8)) :
    mergedKnown flag trim seen [] pieces = true ∧ keptPieces flag [] pieces = pieces.filterMap cut := by
  induction pieces generalizing seen with
  | nil => exact ⟨rfl, rfl⟩
  | cons piece pieces ih =>
    rw [equalsFirst_cons] at ordered
    rw [mergedKnown, keptPieces, List.filterMap_cons]
    cases cut_eq : cut piece with
    | none =>
      rw [if_neg (cut_eq_none.mp cut_eq)] at ordered
      obtain ⟨known, none_kept, none_cut⟩ := @pieces_of_all flag trim _ ordered seen
        ([] ++ piece ++ [flag])
      exact ⟨known, none_kept.trans none_cut.symm⟩
    | some e =>
      have there : 61 ∈ piece := by
        rw [(cut_eq_some cut_eq).1]
        simp
      rw [if_pos there] at ordered
      obtain ⟨known, kept⟩ := ih ordered (trim e.1 :: seen)
      exact ⟨by simpa using known, by simpa using kept⟩

theorem folded_of_no_zero {name : List UInt8} (no_zero : 0 ∉ name) :
    folded name = name.map fun b => (tolower b).toNat := by
  have all : ∀ b ∈ name, decide (b ≠ 0) = true := fun b member =>
    decide_eq_true fun zero => no_zero (zero ▸ member)
  rw [folded, List.takeWhile_eq_self_iff.mpr all]

/-- Without zero bytes a name that holds the separator is new. -/
theorem equalsFirst_of_known (trims : Trims flag trim) (alone : ∀ b, tolower b = tolower flag → b = flag)
    (no_zero : ∀ piece ∈ pieces, 0 ∉ piece) (no_flag : ∀ piece ∈ pieces, flag ∉ piece)
    (flag_zero : flag ≠ 0) {seen : List (List UInt8)} (seen_flag : ∀ key ∈ seen, flag ∉ key)
    {front : List UInt8} (front_zero : 0 ∉ front) (ends : front ≠ [] → flag ∈ front)
    (known : mergedKnown flag trim seen front pieces = true) :
    if front = [] then equalsFirst pieces = true else (pieces.all fun piece => 61 ∉ piece) = true := by
  induction pieces generalizing seen front with
  | nil => split <;> rfl
  | cons piece pieces ih =>
    have zero_here := no_zero piece (List.mem_cons_self ..)
    have flag_here := no_flag piece (List.mem_cons_self ..)
    have zero_behind := fun p member => no_zero p (List.mem_cons_of_mem _ member)
    have flag_behind := fun p member => no_flag p (List.mem_cons_of_mem _ member)
    rw [mergedKnown] at known
    cases cut_eq : cut piece with
    | none =>
      rw [cut_eq] at known
      have absent := cut_eq_none.mp cut_eq
      have rest := ih zero_behind flag_behind seen_flag
        (by simp [front_zero, zero_here, Ne.symm flag_zero]) (fun _ => by simp) known
      rw [if_neg (by simp)] at rest
      split
      next => rw [equalsFirst_cons, if_neg absent, rest]
      next => simpa [absent] using rest
    | some e =>
      obtain ⟨piece_eq, -⟩ := cut_eq_some cut_eq
      have there : 61 ∈ piece := by
        rw [piece_eq]
        simp
      rw [cut_eq] at known
      by_cases first : front = []
      · have name_flag : flag ∉ trim e.1 := fun inside =>
          flag_here (piece_eq ▸ List.mem_append_left _ (trims.only _ _ inside))
        simp only [first, if_true] at known ⊢
        have rest := ih zero_behind flag_behind
          (fun key member => (List.mem_cons.mp member).elim (fun same => same ▸ name_flag) (seen_flag key))
          List.not_mem_nil (fun absurd => (absurd rfl).elim) known
        rw [if_pos rfl] at rest
        rw [equalsFirst_cons, if_pos there, rest]
      · simp only [first, if_false, Bool.and_eq_true] at known
        obtain ⟨key, member, same⟩ := List.any_eq_true.mp known.1
        have same := strcasecmp_eq_iff.mp (eq_of_beq same)
        -- the separator is compared, as there is no zero byte before it
        have no_zero_name : 0 ∉ trim (front ++ e.1) := by
          intro inside
          rcases List.mem_append.mp (trims.only _ _ inside) with in_front | in_name
          · exact front_zero in_front
          · exact zero_here (piece_eq ▸ List.mem_append_left _ in_name)
        have compared : (tolower flag).toNat ∈ folded key := by
          rw [same, folded_of_no_zero no_zero_name]
          exact List.mem_map_of_mem (f := fun b => (tolower b).toNat)
            (trims.keeps _ (List.mem_append_left _ (ends first)))
        obtain ⟨b, in_key, lower⟩ := List.mem_map.mp compared
        have is_flag := alone b (UInt8.toNat_inj.mp lower)
        exact absurd (is_flag ▸ (List.takeWhile_subset _ in_key)) (seen_flag key member)

/-- A text without zero bytes is read as it should be exactly when its pieces with an equals
sign come first. -/
theorem unmerged_iff (trims : Trims flag trim) (alone : ∀ b, tolower b = tolower flag → b = flag)
    (flag_zero : flag ≠ 0) {text : List UInt8} (no_zero : 0 ∉ text) :
    Unmerged flag trim text ↔ equalsFirst (text.splitOn flag) = true := by
  have pieces_zero : ∀ piece ∈ text.splitOn flag, 0 ∉ piece :=
    fun piece member inside => no_zero (mem_piece text piece member 0 inside).1
  constructor
  · intro unmerged
    have ordered := equalsFirst_of_known trims alone pieces_zero (flag_not_mem_piece text) flag_zero
      (fun key member => (List.not_mem_nil member).elim) List.not_mem_nil
      (fun absurd => (absurd rfl).elim) unmerged.known
    rwa [if_pos rfl] at ordered
  · intro ordered
    obtain ⟨known, kept⟩ := @pieces_of_equalsFirst flag trim _ ordered []
    exact ⟨known, by rw [kept, specified]⟩

end Pieces

/-! ## The request -/

theorem trims_id (flag : UInt8) : Trims flag id := ⟨fun _ member => member, fun _ _ member => member⟩

theorem mem_dropWhile {p : UInt8 → Bool} {b : UInt8} {s : List UInt8} (stops : p b = false)
    (member : b ∈ s) : b ∈ s.dropWhile p := by
  rw [← List.takeWhile_append_dropWhile (p := p) (l := s)] at member
  rcases List.mem_append.mp member with taken | left
  · rw [List.mem_takeWhile_imp taken] at stops
    cases stops
  · exact left

theorem trims_blanks : Trims 59 (trim blanks) where
  keeps := fun s member => by
    have stops : decide (59 ∈ blanks) = false := by decide
    have kept := mem_dropWhile (p := (· ∈ blanks)) stops member
    rw [trim, List.rdropWhile, List.mem_reverse]
    exact mem_dropWhile stops (List.mem_reverse.mpr kept)
  only := fun s b member => by
    rw [trim, List.rdropWhile, List.mem_reverse] at member
    exact List.dropWhile_subset _ (List.mem_reverse.mp (List.dropWhile_subset _ member))

/-- `content-type` is that of a form. -/
def HttpRequest.isForm (r : HttpRequest) : Bool :=
  Request.strcasestr (r.getHeader (ascii "content-type")) (ascii "application/x-www-form-urlencoded")

/-- What the three functions make of a request is as specified exactly when no piece without an
equals sign does harm; without zero bytes, when these pieces come last. -/
theorem initParam_specified_iff (r : HttpRequest) :
    (r.received.initQueryParam.params = specified 38 id r.query ↔ Unmerged 38 id r.query) ∧
    (r.isForm = true →
      (r.received.initBodyParam.params = specified 38 id r.body ↔ Unmerged 38 id r.body)) ∧
    (r.received.initCookies.cookies = specified 59 (trim blanks) (r.getHeader (ascii "cookie")) ↔
      Unmerged 59 (trim blanks) (r.getHeader (ascii "cookie"))) ∧
    (∀ text, 0 ∉ text → (Unmerged 38 id text ↔ equalsFirst (text.splitOn 38) = true) ∧
      (Unmerged 59 (trim blanks) text ↔ equalsFirst (text.splitOn 59) = true)) := by
  refine ⟨?_, fun form => ?_, ?_, fun text no_zero => ⟨?_, ?_⟩⟩
  · have reads : r.received.initQueryParam.params =
        parseParam 38 id (r.query.length + 1) r.query [] := by
      simp [Request.initQueryParam, HttpRequest.received]
    rw [reads]
    exact parseParam_specified_iff (by decide) (trims_id 38) r.query
  · have reads : r.received.initBodyParam.params = parseParam 38 id (r.body.length + 1) r.body [] := by
      have is_form : Request.strcasestr (r.getHeader (ascii "content-type"))
        (ascii "application/x-www-form-urlencoded") = true := form
      simp [Request.initBodyParam, HttpRequest.received, is_form]
    rw [reads]
    exact parseParam_specified_iff (by decide) (trims_id 38) r.body
  · have reads : r.received.initCookies.cookies = parseParam 59 (trim blanks)
        ((r.getHeader (ascii "cookie")).length + 1) (r.getHeader (ascii "cookie")) [] := by
      by_cases empty : r.getHeader (ascii "cookie") = []
      · simp [Request.initCookies, HttpRequest.received, empty, parseParam]
      · simp [Request.initCookies, HttpRequest.received, empty]
    rw [reads]
    exact parseParam_specified_iff (by decide) trims_blanks _
  · exact unmerged_iff (trims_id 38) (by decide +kernel) (by decide) no_zero
  · exact unmerged_iff trims_blanks (by decide +kernel) (by decide) no_zero

/-- A piece without an equals sign becomes a part of the next name. -/
theorem name_merged :
    let r := { HttpRequest.new with query := ascii "a&b=1" }
    r.received.initQueryParam.params = [(ascii "a&b", ascii "1")] ∧
      specified 38 id r.query = [(ascii "b", ascii "1")] := by
  decide

end ServerFrame.Http
