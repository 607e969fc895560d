import Mathlib.Order.Lattice
import ServerFrame.Lib.OrderedSet

/-!
# Associative containers

A tree container keeps its elements in the order of their keys. A hash container keeps
elements with different keys in an order that is nobody's business. With the identity for
`key` these are sets, with the first component they are maps; in both, inserting an
element whose key is present changes nothing.
-/
namespace Containers

variable {α κ : Type*} {key : α → κ}

structure Tree [LinearOrder κ] (key : α → κ) where
  elems : List α
  sorted : elems.Pairwise fun a b => key a < key b

structure Hashed (key : α → κ) where
  elems : List α
  distinct : (elems.map key).Nodup

namespace Tree

variable [LinearOrder κ]

@[ext]
theorem ext {s t : Tree key} (same : s.elems = t.elems) : s = t := by
  cases s
  cases t
  cases same
  rfl

def less (key : α → κ) (a b : α) : Bool := decide (key a < key b)

def empty : Tree key := ⟨[], .nil⟩

def insert (s : Tree key) (x : α) : Tree key where
  elems := (OrderedSet.insert (less key) x s.elems).2
  sorted := by
    have trans : ∀ a b c, less key a b = true → less key b c = true → less key a c = true := by
      intro a b c first second
      exact decide_eq_true (lt_trans (of_decide_eq_true first) (of_decide_eq_true second))
    have before : s.elems.Pairwise fun a b => less key a b = true :=
      s.sorted.imp fun before => decide_eq_true before
    apply (OrderedSet.sorted_of_insert trans before x).imp
    intro a b before
    exact of_decide_eq_true before

def ofList (xs : List α) : Tree key := xs.foldl insert empty

/-- Elements that come in the order of their keys are appended. -/
theorem foldl_insert (s : Tree key) (xs : List α)
    (sorted : (s.elems ++ xs).Pairwise fun a b => key a < key b) :
    (xs.foldl insert s).elems = s.elems ++ xs := by
  induction xs generalizing s with
  | nil => simp
  | cons x xs ih =>
    have before : ∀ y ∈ s.elems, less key y x = true := fun y member =>
      decide_eq_true ((List.pairwise_append.mp sorted).2.2 y member x (by simp))
    have put : (s.insert x).elems = s.elems ++ [x] :=
      congrArg Prod.snd (OrderedSet.insert_last before)
    rw [List.foldl_cons, ih (s.insert x) (by rw [put]; simpa using sorted), put]
    simp

theorem ofList_elems (xs : List α) (sorted : xs.Pairwise fun a b => key a < key b) :
    (ofList xs : Tree key).elems = xs := by
  have appended := foldl_insert (empty : Tree key) xs (by simpa [empty] using sorted)
  simpa [ofList, empty] using appended

end Tree

namespace Hashed

variable [DecidableEq κ]

def empty : Hashed key := ⟨[], .nil⟩

def insert (s : Hashed key) (x : α) : Hashed key where
  elems := if key x ∈ s.elems.map key then s.elems else s.elems ++ [x]
  distinct := by
    split
    next => exact s.distinct
    next absent =>
      rw [List.map_append, List.nodup_append]
      refine ⟨s.distinct, by simp, ?_⟩
      rintro a present b last rfl
      simp only [List.map_cons, List.map_nil, List.mem_singleton] at last
      exact absent (last ▸ present)

def ofList (xs : List α) : Hashed key := xs.foldl insert empty

/-- The table iterates in another order. -/
def permute (s : Hashed key) {xs : List α} (perm : xs.Perm s.elems) : Hashed key where
  elems := xs
  distinct := (perm.map key).nodup_iff.mpr s.distinct

/-- Elements with new keys are all put in. -/
theorem foldl_insert (s : Hashed key) (xs : List α) (distinct : ((s.elems ++ xs).map key).Nodup) :
    (xs.foldl insert s).elems = s.elems ++ xs := by
  induction xs generalizing s with
  | nil => simp
  | cons x xs ih =>
    have absent : key x ∉ s.elems.map key := fun present => by
      rw [List.map_append, List.nodup_append] at distinct
      exact distinct.2.2 (key x) present (key x) (by simp) rfl
    have put : (s.insert x).elems = s.elems ++ [x] := if_neg absent
    rw [List.foldl_cons, ih (s.insert x) (by rw [put]; simpa using distinct), put]
    simp

theorem ofList_elems (xs : List α) (distinct : (xs.map key).Nodup) :
    (ofList xs : Hashed key).elems = xs := by
  have appended := foldl_insert (empty : Hashed key) xs (by simpa [empty] using distinct)
  simpa [ofList, empty] using appended

end Hashed

end Containers
