import Mathlib.Data.List.Basic
import Mathlib.Data.List.Infix

/-!
# Trees of named entries

What stands at a path in a tree, and the tree that has something else there. `none` is where nothing
stands, so that an entry is removed by putting `none` there.
-/
namespace FileTree

universe u v

/-- A directory lists its entries in the order in which they are read. -/
inductive Item (ν : Type u) (β : Type v) where
  | leaf (content : β)
  | dir (entries : List (ν × Item ν β))

namespace Item

variable {ν : Type u} {β : Type v}

/-- What an entry is by itself: the content of a leaf, or `none` for a directory. -/
def label : Item ν β → Option β
  | leaf content => some content
  | dir _ => none

mutual

/-- How many names deep the tree goes. -/
def height : Item ν β → Nat
  | leaf _ => 0
  | dir entries => heightEntries entries

def heightEntries : List (ν × Item ν β) → Nat
  | [] => 0
  | entry :: entries => max (heightEntry entry + 1) (heightEntries entries)

def heightEntry : ν × Item ν β → Nat
  | (_, tree) => tree.height

end

theorem height_lt {entries : List (ν × Item ν β)} {entry : ν × Item ν β}
    (member : entry ∈ entries) : entry.2.height < (dir entries).height := by
  rw [height]
  induction entries with
  | nil => cases member
  | cons first entries ih =>
    rw [heightEntries]
    rcases List.mem_cons.mp member with rfl | later
    · rw [heightEntry]
      omega
    · have below := ih later
      omega

/-- No two entries of a directory have the same name, and all names are allowed. -/
inductive WellFormed (allowed : ν → Prop) : Item ν β → Prop
  | leaf (content : β) : WellFormed allowed (leaf content)
  | dir {entries : List (ν × Item ν β)} (distinct : (entries.map Prod.fst).Nodup)
      (names : ∀ entry ∈ entries, allowed entry.1)
      (all : ∀ entry ∈ entries, WellFormed allowed entry.2) : WellFormed allowed (dir entries)

end Item

open Item

variable {ν : Type u} {β : Type v} [DecidableEq ν]

/-! ## Entries of a directory -/

section Entries

variable {n m : ν} {entries : List (ν × Item ν β)}

def find (n : ν) : List (ν × Item ν β) → Option (Item ν β)
  | [] => none
  | entry :: entries => if entry.1 = n then some entry.2 else find n entries

/-- The entries with something else under a name, or nothing. -/
def update (n : ν) (new : Option (Item ν β)) : List (ν × Item ν β) → List (ν × Item ν β)
  | [] => (new.map fun tree => (n, tree)).toList
  | entry :: entries =>
    if entry.1 = n then
      match new with
      | some tree => (n, tree) :: entries
      | none => update n none entries
    else entry :: update n new entries

@[simp] theorem update_cons_some (tree : Item ν β) (entry : ν × Item ν β)
    (here : entry.1 = n) : update n (some tree) (entry :: entries) = (n, tree) :: entries := by
  rw [update.eq_def]
  exact if_pos here

@[simp] theorem update_cons_none (entry : ν × Item ν β) (here : entry.1 = n) :
    update n none (entry :: entries) = update n none entries := by
  rw [update.eq_def]
  exact if_pos here

@[simp] theorem update_cons_other (new : Option (Item ν β)) (entry : ν × Item ν β)
    (other : entry.1 ≠ n) : update n new (entry :: entries) = entry :: update n new entries := by
  rw [update.eq_def]
  exact if_neg other

@[simp] theorem find_update_self (n : ν) (new : Option (Item ν β)) (entries : List (ν × Item ν β)) :
    find n (update n new entries) = new := by
  induction entries with
  | nil => cases new <;> simp [update, find]
  | cons entry entries ih =>
    by_cases here : entry.1 = n
    · cases new with
      | none => rw [update_cons_none entry here, ih]
      | some tree => simp [find, here]
    · rw [update_cons_other new entry here, find, if_neg here, ih]

theorem find_update_other (other : m ≠ n) (new : Option (Item ν β))
    (entries : List (ν × Item ν β)) : find m (update n new entries) = find m entries := by
  induction entries with
  | nil => cases new <;> simp [update, find, other.symm]
  | cons entry entries ih =>
    by_cases here : entry.1 = n
    · have elsewhere : entry.1 ≠ m := fun same => other (same.symm.trans here)
      cases new with
      | none => rw [update_cons_none entry here, find, if_neg elsewhere, ih]
      | some tree => simp [find, here, other.symm]
    · rw [update_cons_other new entry here, find, find, ih]

theorem update_find (n : ν) (entries : List (ν × Item ν β)) :
    update n (find n entries) entries = entries := by
  induction entries with
  | nil => rfl
  | cons entry entries ih =>
    by_cases here : entry.1 = n
    · rw [find, if_pos here, update_cons_some entry.2 entry here, ← here]
    · rw [find, if_neg here, update_cons_other _ entry here, ih]

theorem update_update (n : ν) (tree : Item ν β) (new : Option (Item ν β))
    (entries : List (ν × Item ν β)) :
    update n new (update n (some tree) entries) = update n new entries := by
  induction entries with
  | nil => cases new <;> simp [update]
  | cons entry entries ih =>
    by_cases here : entry.1 = n
    · cases new <;> simp [here]
    · rw [update_cons_other _ entry here, update_cons_other _ entry here, ih,
        update_cons_other _ entry here]

/-- Where no other entry has the name, an update changes one place in the list. -/
theorem update_append {front rest : List (ν × Item ν β)} {tree : Item ν β}
    (before : n ∉ front.map Prod.fst) (behind : n ∉ rest.map Prod.fst) (new : Option (Item ν β)) :
    update n new (front ++ (n, tree) :: rest) =
      front ++ ((new.map fun tree => (n, tree)).toList ++ rest) := by
  -- nothing to take out behind it
  have gone : update n none rest = rest := by
    induction rest with
    | nil => rfl
    | cons entry rest ih =>
      obtain ⟨other, rest_⟩ := not_or.mp (mt List.mem_cons.mpr behind)
      rw [update_cons_other none entry (Ne.symm other), ih rest_]
  induction front with
  | nil => cases new <;> simp [gone]
  | cons entry front ih =>
    obtain ⟨other, front_⟩ := not_or.mp (mt List.mem_cons.mpr before)
    rw [List.cons_append, update_cons_other new entry (Ne.symm other), ih front_,
      List.cons_append]

theorem find_append {front rest : List (ν × Item ν β)} {tree : Item ν β}
    (before : n ∉ front.map Prod.fst) : find n (front ++ (n, tree) :: rest) = some tree := by
  induction front with
  | nil => simp [find]
  | cons entry front ih =>
    obtain ⟨other, front_⟩ := not_or.mp (mt List.mem_cons.mpr before)
    rw [List.cons_append, find, if_neg (Ne.symm other), ih front_]

theorem find_of_mem {tree : Item ν β} (distinct : (entries.map Prod.fst).Nodup)
    (member : (n, tree) ∈ entries) : find n entries = some tree := by
  obtain ⟨front, rest, rfl⟩ := List.append_of_mem member
  refine find_append fun before => ?_
  rw [List.map_append] at distinct
  exact (List.nodup_append.mp distinct).2.2 _ before _ List.mem_cons_self rfl

theorem mem_of_find {tree : Item ν β} (found : find n entries = some tree) :
    (n, tree) ∈ entries := by
  induction entries with
  | nil => cases found
  | cons entry entries ih =>
    by_cases here : entry.1 = n
    · rw [find, if_pos here, Option.some.injEq] at found
      rw [← here, ← found]
      exact List.mem_cons_self
    · rw [find, if_neg here] at found
      exact List.mem_cons_of_mem _ (ih found)

end Entries

/-! ## Paths -/

/-- What stands at a path. -/
def lookup : Option (Item ν β) → List ν → Option (Item ν β)
  | fs, [] => fs
  | some (.dir entries), n :: path => lookup (find n entries) path
  | _, _ :: _ => none

/-- The tree with something else at a path. Where there is no directory to hold it nothing changes. -/
def put : Option (Item ν β) → List ν → Option (Item ν β) → Option (Item ν β)
  | _, [], new => new
  | some (.dir entries), n :: path, new =>
    some (.dir (update n (put (find n entries) path new) entries))
  | fs, _ :: _, _ => fs

section Paths

variable {fs : Option (Item ν β)} {path path' : List ν} {n : ν}

@[simp] theorem lookup_nil (fs : Option (Item ν β)) : lookup fs [] = fs := by
  cases fs <;> rfl

@[simp] theorem put_nil (fs new : Option (Item ν β)) : put fs [] new = new := by
  cases fs <;> rfl

@[simp] theorem lookup_dir_cons (entries : List (ν × Item ν β)) (n : ν) (path : List ν) :
    lookup (some (.dir entries)) (n :: path) = lookup (find n entries) path := rfl

@[simp] theorem lookup_none (path : List ν) : lookup (none : Option (Item ν β)) path = none := by
  cases path <;> rfl

@[simp] theorem lookup_leaf_cons (content : β) (n : ν) (path : List ν) :
    lookup (some (.leaf content) : Option (Item ν β)) (n :: path) = none := rfl

@[simp] theorem put_dir_cons (entries : List (ν × Item ν β)) (n : ν) (path : List ν)
    (new : Option (Item ν β)) : put (some (.dir entries)) (n :: path) new =
      some (.dir (update n (put (find n entries) path new) entries)) := rfl

@[simp] theorem put_none_cons (n : ν) (path : List ν) (new : Option (Item ν β)) :
    put none (n :: path) new = none := rfl

@[simp] theorem put_leaf_cons (content : β) (n : ν) (path : List ν) (new : Option (Item ν β)) :
    put (some (.leaf content)) (n :: path) new = some (.leaf content) := rfl

omit [DecidableEq ν] in
/-- What stands somewhere is nothing, a leaf or a directory. -/
theorem cases_of (fs : Option (Item ν β)) : fs = none ∨ (∃ content, fs = some (.leaf content)) ∨
    ∃ entries, fs = some (.dir entries) := by
  rcases fs with _ | content | entries
  · exact .inl rfl
  · exact .inr (.inl ⟨content, rfl⟩)
  · exact .inr (.inr ⟨entries, rfl⟩)

theorem lookup_append (fs : Option (Item ν β)) (path path' : List ν) :
    lookup fs (path ++ path') = lookup (lookup fs path) path' := by
  induction path generalizing fs with
  | nil => simp
  | cons n path ih =>
    rcases cases_of fs with rfl | ⟨content, rfl⟩ | ⟨entries, rfl⟩
    · simp
    · simp
    · exact ih _

theorem put_append (fs : Option (Item ν β)) (path path' : List ν) (new : Option (Item ν β)) :
    put fs (path ++ path') new = put fs path (put (lookup fs path) path' new) := by
  induction path generalizing fs with
  | nil => simp
  | cons n path ih =>
    rcases cases_of fs with rfl | ⟨content, rfl⟩ | ⟨entries, rfl⟩
    · simp
    · simp
    · rw [List.cons_append, put_dir_cons, ih, put_dir_cons, lookup_dir_cons]

theorem put_lookup (fs : Option (Item ν β)) (path : List ν) : put fs path (lookup fs path) = fs := by
  induction path generalizing fs with
  | nil => simp
  | cons n path ih =>
    rcases cases_of fs with rfl | ⟨content, rfl⟩ | ⟨entries, rfl⟩
    · simp
    · simp
    · rw [lookup_dir_cons, put_dir_cons, ih, update_find]

/-- Where something stands something else can be put. -/
theorem lookup_put_self {tree : Item ν β} (stands : lookup fs path = some tree)
    (new : Option (Item ν β)) : lookup (put fs path new) path = new := by
  induction path generalizing fs with
  | nil => simp
  | cons n path ih =>
    rcases cases_of fs with rfl | ⟨content, rfl⟩ | ⟨entries, rfl⟩
    · simp at stands
    · simp at stands
    · rw [put_dir_cons, lookup_dir_cons, find_update_self, ih stands]

/-- What stands somewhere below the top stands in a directory. -/
theorem lookup_dropLast {tree : Item ν β} (stands : lookup fs path = some tree) (below : path ≠ []) :
    ∃ entries, lookup fs path.dropLast = some (.dir entries) := by
  rw [← List.dropLast_append_getLast below, lookup_append] at stands
  rcases cases_of (lookup fs path.dropLast) with none_ | ⟨content, leaf⟩ | ⟨entries, dir⟩
  · simp [none_] at stands
  · simp [leaf] at stands
  · exact ⟨entries, dir⟩

/-- A directory takes a new entry. -/
theorem lookup_put_entry {entries : List (ν × Item ν β)} (below : path ≠ [])
    (inside : lookup fs path.dropLast = some (.dir entries)) (new : Option (Item ν β)) :
    lookup (put fs path new) path = new := by
  rw [← List.dropLast_append_getLast below, put_append, lookup_append, lookup_put_self inside, inside,
    put_dir_cons, lookup_dir_cons, find_update_self, put_nil, lookup_nil]

theorem lookup_put_none (fs : Option (Item ν β)) (path : List ν) :
    lookup (put fs path none) path = none := by
  induction path generalizing fs with
  | nil => simp
  | cons n path ih =>
    rcases cases_of fs with rfl | ⟨content, rfl⟩ | ⟨entries, rfl⟩
    · simp
    · simp
    · rw [put_dir_cons, lookup_dir_cons, find_update_self, ih]

theorem put_put {tree : Item ν β} (stands : lookup fs path = some tree) (tree' : Item ν β)
    (new : Option (Item ν β)) : put (put fs path (some tree')) path new = put fs path new := by
  induction path generalizing fs with
  | nil => simp
  | cons n path ih =>
    rcases cases_of fs with rfl | ⟨content, rfl⟩ | ⟨entries, rfl⟩
    · simp at stands
    · simp at stands
    · rw [lookup_dir_cons] at stands
      rw [put_dir_cons, put_dir_cons, put_dir_cons, find_update_self, ih stands]
      -- what is put below stands in the directory, so that it is the one that is replaced
      obtain ⟨below, some_⟩ : ∃ below, put (find n entries) path (some tree') = some below := by
        have found := lookup_put_self stands (some tree')
        cases put_ : put (find n entries) path (some tree') with
        | none => simp [put_] at found
        | some below => exact ⟨below, rfl⟩
      rw [some_, update_update]

/-- Away from the path nothing changes. -/
theorem lookup_put_apart {path' : List ν} (outside : ¬ path <+: path') (beside : ¬ path' <+: path)
    (fs new : Option (Item ν β)) : lookup (put fs path new) path' = lookup fs path' := by
  induction path generalizing fs path' with
  | nil => exact absurd List.nil_prefix outside
  | cons n path ih =>
    rcases cases_of fs with rfl | ⟨content, rfl⟩ | ⟨entries, rfl⟩
    · rfl
    · rfl
    · cases path' with
      | nil => exact absurd List.nil_prefix beside
      | cons m path' =>
        rw [put_dir_cons, lookup_dir_cons, lookup_dir_cons]
        by_cases same : m = n
        · subst same
          rw [find_update_self]
          exact ih (fun inside => outside ((List.prefix_cons_inj m).mpr inside))
            (fun inside => beside ((List.prefix_cons_inj m).mpr inside)) _
        · rw [find_update_other same]

/-- Outside the path every place keeps what it is by itself, the directories above it also. -/
theorem label_put {path' : List ν} (outside : ¬ path <+: path') (fs new : Option (Item ν β)) :
    (lookup (put fs path new) path').map label = (lookup fs path').map label := by
  induction path generalizing fs path' with
  | nil => exact absurd List.nil_prefix outside
  | cons n path ih =>
    rcases cases_of fs with rfl | ⟨content, rfl⟩ | ⟨entries, rfl⟩
    · rfl
    · rfl
    · cases path' with
      | nil => rfl
      | cons m path' =>
        rw [put_dir_cons, lookup_dir_cons, lookup_dir_cons]
        by_cases same : m = n
        · subst same
          rw [find_update_self]
          exact ih (fun inside => outside ((List.prefix_cons_inj m).mpr inside)) _
        · rw [find_update_other same]

/-- A directory outside the path stays one. -/
theorem lookup_put_dir {path' : List ν} {entries : List (ν × Item ν β)} (outside : ¬ path <+: path')
    (inside : lookup fs path' = some (.dir entries)) (new : Option (Item ν β)) :
    ∃ entries', lookup (put fs path new) path' = some (.dir entries') := by
  have kept := label_put outside fs new
  rw [inside, Option.map_some, label] at kept
  rcases cases_of (lookup (put fs path new) path') with none_ | ⟨content, leaf⟩ | ⟨entries', dir⟩
  · simp [none_] at kept
  · simp [leaf, label] at kept
  · exact ⟨entries', dir⟩

/-- What stands in a well-formed tree is well-formed. -/
theorem wellFormed_lookup {allowed : ν → Prop} {tree : Item ν β}
    (wellFormed : ∀ top, fs = some top → top.WellFormed allowed)
    (stands : lookup fs path = some tree) : tree.WellFormed allowed := by
  induction path generalizing fs with
  | nil => exact wellFormed tree ((lookup_nil fs).symm.trans stands)
  | cons n path ih =>
    rcases cases_of fs with rfl | ⟨content, rfl⟩ | ⟨entries, rfl⟩
    · simp at stands
    · simp at stands
    · refine ih (fun below found => ?_) stands
      cases wellFormed _ rfl with
      | dir _ _ all => exact all _ (mem_of_find found)

end Paths

end FileTree
