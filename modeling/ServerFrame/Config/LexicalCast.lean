import Mathlib
import ServerFrame.Config.Yaml
import ServerFrame.Lib.Containers

/-!
# `LexicalCast` of containers

The partial specialisations for containers convert each element through a text of its
own. A container is taken apart in the order in which it iterates and is built again by
insertions, so the two conversions differ from container to container in these two steps
only. `boost::lexical_cast` and the order of iteration of a hash table are parameters.
-/
namespace ServerFrame.Config

open Containers

/-! ## The conversions -/

/-- `LexicalCast<T, std::string>` and `LexicalCast<std::string, T>`, which may throw. -/
structure Cast (α : Type) where
  toText : α → Option String
  fromText : String → Option α

section Sequence

variable {α β : Type} (yaml : Yaml) (c : Cast α)

/-- The containers that are written as a sequence. -/
def Cast.sequence (elements : β → List α) (build : List α → β) : Cast β where
  toText v := do
    let items ← (elements v).mapM fun i => do yaml.load (← c.toText i)
    pure (yaml.emit (.sequence items))
  fromText v := do
    let node ← yaml.load v
    let vec ← (← node.items).mapM fun item => c.fromText (yaml.emit item)
    pure (build vec)

/-- The containers that are written as a map. -/
def Cast.mapping (entries : β → List (String × α)) (build : List (String × α) → β) : Cast β where
  toText v := do
    let node ← (entries v).foldlM (fun node i => do
      pure (Node.assign i.1 (← yaml.load (← c.toText i.2)) node)) []
    pure (yaml.emit (.map node))
  fromText v := do
    let node ← yaml.load v
    let vec ← (← node.entries).mapM fun it => do pure (it.1, ← c.fromText (yaml.emit it.2))
    pure (build vec)

end Sequence

/-! ## The types -/

inductive IntType where
  | int32 | int64 | uint64
  deriving DecidableEq, Repr

def IntType.min : IntType → Int
  | .int32 => -2 ^ 31
  | .int64 => -2 ^ 63
  | .uint64 => 0

def IntType.max : IntType → Int
  | .int32 => 2 ^ 31 - 1
  | .int64 => 2 ^ 63 - 1
  | .uint64 => 2 ^ 64 - 1

abbrev IntType.Value (k : IntType) : Type := { i : Int // k.min ≤ i ∧ i ≤ k.max }

/-- `boost::lexical_cast` between integers and text. -/
structure Lexical where
  print : Int → String
  parse : (k : IntType) → String → Option k.Value

/-- The order in which a hash table iterates, given the hashes of its elements in the order
of their insertion. -/
structure HashOrder where
  hashInt : Int → Nat
  hashString : String → Nat
  arrange : {α : Type} → (α → Nat) → List α → List α
  perm : ∀ {α : Type} (hash : α → Nat) (xs : List α), (arrange hash xs).Perm xs

abbrev StdSet (α : Type) [LinearOrder α] : Type := Tree (id : α → α)

abbrev StdMap (α : Type) : Type := Tree (Prod.fst : String × α → String)

abbrev UnorderedSet (α : Type) : Type := Hashed (id : α → α)

abbrev UnorderedMap (α : Type) : Type := Hashed (Prod.fst : String × α → String)

/-- Insertions into an empty hash table. -/
def HashOrder.build {α κ : Type} [DecidableEq κ] {key : α → κ} (order : HashOrder) (hash : α → Nat)
    (xs : List α) : Hashed key :=
  (Hashed.ofList xs).permute (order.perm hash (Hashed.ofList xs : Hashed key).elems)

section Specialisations

variable {α : Type} (yaml : Yaml) (lexical : Lexical) (order : HashOrder) (c : Cast α)

def Cast.int (k : IntType) : Cast k.Value where
  toText v := some (lexical.print v.1)
  fromText v := lexical.parse k v

def Cast.vector : Cast (List α) := .sequence yaml c id id

def Cast.list : Cast (List α) := .sequence yaml c id id

def Cast.set [LinearOrder α] : Cast (StdSet α) := .sequence yaml c Tree.elems Tree.ofList

def Cast.unorderedSet (k : IntType) : Cast (UnorderedSet k.Value) :=
  .sequence yaml (.int lexical k) Hashed.elems (order.build fun i => order.hashInt i.1)

def Cast.map : Cast (StdMap α) := .mapping yaml c Tree.elems Tree.ofList

def Cast.unorderedMap : Cast (UnorderedMap α) :=
  .mapping yaml c Hashed.elems (order.build fun entry => order.hashString entry.1)

end Specialisations

/-- The types of configuration values. The index tells whether there is an `operator<`,
which the elements of a `std::set` need. -/
inductive Ty : Bool → Type where
  | int (k : IntType) : Ty true
  | vector {ordered : Bool} (t : Ty ordered) : Ty ordered
  | list {ordered : Bool} (t : Ty ordered) : Ty ordered
  | set (t : Ty true) : Ty true
  | unorderedSet (k : IntType) : Ty false
  | map {ordered : Bool} (t : Ty ordered) : Ty ordered
  | unorderedMap {ordered : Bool} (t : Ty ordered) : Ty false

/-- A type and its `operator<`, when it has one. -/
structure Meaning (ordered : Bool) where
  Value : Type
  order : ordered = true → LinearOrder Value

namespace Meaning

/-- Containers compare lexicographically. -/
abbrev elemsOrder {α κ : Type} [LinearOrder κ] {key : α → κ} (order : LinearOrder α) :
    LinearOrder (Tree key) :=
  LinearOrder.lift' Tree.elems fun _ _ same => Tree.ext same

def int (k : IntType) : Meaning true := ⟨k.Value, fun _ => inferInstance⟩

/-- `std::vector` and `std::list`. -/
def sequence {ordered : Bool} (m : Meaning ordered) : Meaning ordered where
  Value := List m.Value
  order h := @List.instLinearOrder m.Value (m.order h)

def set (m : Meaning true) : Meaning true :=
  letI := m.order rfl
  ⟨StdSet m.Value, fun _ => elemsOrder inferInstance⟩

def map {ordered : Bool} (m : Meaning ordered) : Meaning ordered where
  Value := StdMap m.Value
  order h :=
    letI := m.order h
    elemsOrder (inferInstanceAs (LinearOrder (String ×ₗ m.Value)))

end Meaning

def Ty.meaning : {ordered : Bool} → Ty ordered → Meaning ordered
  | _, .int k => .int k
  | _, .vector t => t.meaning.sequence
  | _, .list t => t.meaning.sequence
  | _, .set t => t.meaning.set
  | _, .unorderedSet k => ⟨UnorderedSet k.Value, nofun⟩
  | _, .map t => t.meaning.map
  | _, .unorderedMap t => ⟨UnorderedMap t.meaning.Value, nofun⟩

abbrev Ty.Value {ordered : Bool} (t : Ty ordered) : Type := t.meaning.Value

namespace Ty

/-- The instance of `LexicalCast` for the type, in both directions. -/
def cast (yaml : Yaml) (lexical : Lexical) (order : HashOrder) :
    {ordered : Bool} → (t : Ty ordered) → Cast t.Value
  | _, .int k => .int lexical k
  | _, .vector t => .vector yaml (t.cast yaml lexical order)
  | _, .list t => .list yaml (t.cast yaml lexical order)
  | _, .set t => @Cast.set _ yaml (t.cast yaml lexical order) (t.meaning.order rfl)
  | _, .unorderedSet k => .unorderedSet yaml lexical order k
  | _, .map t => .map yaml (t.cast yaml lexical order)
  | _, .unorderedMap t => .unorderedMap yaml order (t.cast yaml lexical order)

/-- The tree that is written for a value. -/
def node (lexical : Lexical) : {ordered : Bool} → (t : Ty ordered) → t.Value → Node
  | _, .int _, v => .scalar (lexical.print v.1)
  | _, .vector t, v => .sequence (List.map (t.node lexical) v)
  | _, .list t, v => .sequence (List.map (t.node lexical) v)
  | _, .set t, v =>
    letI := t.meaning.order rfl
    .sequence (List.map (t.node lexical) v.elems)
  | _, .unorderedSet _, v => .sequence (v.elems.map fun i => .scalar (lexical.print i.1))
  | _, .map t, v => .map (v.elems.map fun entry => (entry.1, t.node lexical entry.2))
  | _, .unorderedMap t, v => .map (v.elems.map fun entry => (entry.1, t.node lexical entry.2))

/-- `operator==`. -/
def Equal : {ordered : Bool} → (t : Ty ordered) → t.Value → t.Value → Prop
  | _, .int _, v, w => v = w
  | _, .vector t, v, w => List.Forall₂ t.Equal v w
  | _, .list t, v, w => List.Forall₂ t.Equal v w
  | _, .set t, v, w =>
    letI := t.meaning.order rfl
    List.Forall₂ t.Equal v.elems w.elems
  | _, .unorderedSet _, v, w =>
    v.elems.length = w.elems.length ∧ ∀ i ∈ v.elems, ∃ j ∈ w.elems, i = j
  | _, .map t, v, w =>
    List.Forall₂ (fun x y => x.1 = y.1 ∧ t.Equal x.2 y.2) v.elems w.elems
  | _, .unorderedMap t, v, w =>
    v.elems.length = w.elems.length ∧
      ∀ x ∈ v.elems, ∃ y ∈ w.elems, x.1 = y.1 ∧ t.Equal x.2 y.2

end Ty

/-! ## The laws -/

/-- Assigning to different keys appends the entries. -/
theorem assign_entries {α : Type} (yaml : Yaml) (c : Cast α) (node : α → Node)
    (vs : List (String × α)) (written : List (String × Node))
    (made : ∀ v ∈ vs, (c.toText v.2).bind yaml.load = some (node v.2))
    (distinct : (written.map Prod.fst ++ vs.map Prod.fst).Nodup) :
    (vs.foldlM (fun entries i => do
      pure (Node.assign i.1 (← yaml.load (← c.toText i.2)) entries)) written) =
      some (written ++ vs.map fun entry => (entry.1, node entry.2)) := by
  induction vs generalizing written with
  | nil => simp
  | cons v vs ih =>
    have absent : v.1 ∉ written.map Prod.fst := fun present =>
      (List.nodup_append.mp distinct).2.2 v.1 present v.1 (by simp) rfl
    have rest := ih (written ++ [(v.1, node v.2)])
      (fun w member => made w (List.mem_cons_of_mem v member)) (by simpa using distinct)
    obtain ⟨text, printed, loaded⟩ := Option.bind_eq_some_iff.mp (made v List.mem_cons_self)
    rw [List.foldlM_cons, printed]
    simp only [Option.bind_eq_bind, Option.bind_some, loaded, Option.pure_def]
    rw [Node.assign_new absent]
    simpa using rest

/-- A value is written as the text of its tree and is equal to what is read from it. -/
structure Lawful {α : Type} (yaml : Yaml) (c : Cast α) (node : α → Node) (eq : α → α → Prop) :
    Prop where
  toText : ∀ v, yaml.LoadsBack (node v) → c.toText v = some (yaml.emit (node v))
  fromText : ∀ v, yaml.LoadsBack (node v) → ∃ w, c.fromText (yaml.emit (node v)) = some w ∧ eq w v

namespace Lawful

variable {α β : Type} {yaml : Yaml} {c : Cast α} {node : α → Node} {eq : α → α → Prop}

/-- Writing the elements one by one gives their trees. -/
theorem mapM_items (lawful : Lawful yaml c node eq) (vs : List α)
    (loads : ∀ v ∈ vs, yaml.LoadsBack (node v)) :
    (vs.mapM fun i => do yaml.load (← c.toText i)) = some (vs.map node) := by
  induction vs with
  | nil => rfl
  | cons v vs ih =>
    have first := loads v (by simp)
    have rest := ih fun w member => loads w (List.mem_cons_of_mem v member)
    rw [List.mapM_cons, rest, lawful.toText v first]
    simp [first.self]

/-- Reading the trees of the elements one by one gives equal elements. -/
theorem mapM_read (lawful : Lawful yaml c node eq) (vs : List α)
    (loads : ∀ v ∈ vs, yaml.LoadsBack (node v)) :
    ∃ ws, ((vs.map node).mapM fun item => c.fromText (yaml.emit item)) = some ws ∧
      List.Forall₂ eq ws vs := by
  induction vs with
  | nil => exact ⟨[], rfl, .nil⟩
  | cons v vs ih =>
    obtain ⟨w, read, same⟩ := lawful.fromText v (loads v (by simp))
    obtain ⟨ws, rest, all_same⟩ := ih fun w member => loads w (List.mem_cons_of_mem v member)
    refine ⟨w :: ws, ?_, .cons same all_same⟩
    rw [List.map_cons, List.mapM_cons, rest, read]
    rfl

theorem sequence (lawful : Lawful yaml c node eq) {elements : β → List α} {build : List α → β}
    {eq' : β → β → Prop} (rebuilt : ∀ v ws, List.Forall₂ eq ws (elements v) → eq' (build ws) v) :
    Lawful yaml (.sequence yaml c elements build) (fun v => .sequence ((elements v).map node))
      eq' := by
  constructor
  · intro v loads
    have items := lawful.mapM_items (elements v) fun i member =>
      loads.item (List.mem_map_of_mem member)
    dsimp only [Cast.sequence]
    rw [items]
    rfl
  · intro v loads
    obtain ⟨ws, read, same⟩ := lawful.mapM_read (elements v) fun i member =>
      loads.item (List.mem_map_of_mem member)
    refine ⟨build ws, ?_, rebuilt v ws same⟩
    dsimp only [Cast.sequence]
    simp only [loads.self, Node.items, Option.bind_eq_bind, Option.bind_some]
    rw [read]
    rfl

theorem foldlM_assign (lawful : Lawful yaml c node eq) (vs : List (String × α))
    (loads : ∀ v ∈ vs, yaml.LoadsBack (node v.2)) (distinct : (vs.map Prod.fst).Nodup) :
    (vs.foldlM (fun entries i => do
      pure (Node.assign i.1 (← yaml.load (← c.toText i.2)) entries)) []) =
      some (vs.map fun entry => (entry.1, node entry.2)) := by
  apply assign_entries yaml c node vs [] _ distinct
  intro v member
  rw [lawful.toText v.2 (loads v member), Option.bind_some, (loads v member).self]

theorem mapM_entries (lawful : Lawful yaml c node eq) (vs : List (String × α))
    (loads : ∀ v ∈ vs, yaml.LoadsBack (node v.2)) :
    ∃ ws, ((vs.map fun entry => (entry.1, node entry.2)).mapM fun it => do
        pure (it.1, ← c.fromText (yaml.emit it.2))) = some ws ∧
      List.Forall₂ (fun x y => x.1 = y.1 ∧ eq x.2 y.2) ws vs := by
  induction vs with
  | nil => exact ⟨[], rfl, .nil⟩
  | cons v vs ih =>
    obtain ⟨w, read, same⟩ := lawful.fromText v.2 (loads v (by simp))
    obtain ⟨ws, rest, all_same⟩ := ih fun w member => loads w (List.mem_cons_of_mem v member)
    refine ⟨(v.1, w) :: ws, ?_, .cons ⟨rfl, same⟩ all_same⟩
    rw [List.map_cons, List.mapM_cons, rest, read]
    rfl

theorem mapping (lawful : Lawful yaml c node eq) {entries : β → List (String × α)}
    {build : List (String × α) → β} {eq' : β → β → Prop}
    (distinct : ∀ v, ((entries v).map Prod.fst).Nodup)
    (rebuilt : ∀ v ws, List.Forall₂ (fun x y => x.1 = y.1 ∧ eq x.2 y.2) ws (entries v) →
      eq' (build ws) v) :
    Lawful yaml (.mapping yaml c entries build)
      (fun v => .map ((entries v).map fun entry => (entry.1, node entry.2))) eq' := by
  have inside : ∀ v, yaml.LoadsBack (.map ((entries v).map fun entry => (entry.1, node entry.2))) →
      ∀ entry ∈ entries v, yaml.LoadsBack (node entry.2) := by
    intro v loads entry member
    exact loads.entry (List.mem_map_of_mem member)
  constructor
  · intro v loads
    have assigned := lawful.foldlM_assign (entries v) (inside v loads) (distinct v)
    dsimp only [Cast.mapping]
    rw [assigned]
    rfl
  · intro v loads
    obtain ⟨ws, read, same⟩ := lawful.mapM_entries (entries v) (inside v loads)
    refine ⟨build ws, ?_, rebuilt v ws same⟩
    dsimp only [Cast.mapping]
    simp only [Option.bind_eq_bind] at read
    simp only [loads.self, Node.entries, Option.bind_eq_bind, Option.bind_some]
    rw [read]
    rfl

end Lawful

/-! ## The containers -/

section Built

variable {α β : Type}

theorem keys_of_forall₂ {eq : α → α → Prop} {vs ws : List (String × α)}
    (same : List.Forall₂ (fun x y => x.1 = y.1 ∧ eq x.2 y.2) ws vs) :
    ws.map Prod.fst = vs.map Prod.fst := by
  induction same with
  | nil => rfl
  | cons first _ ih => rw [List.map_cons, List.map_cons, first.1, ih]

/-- A map is built again from entries with its keys. -/
theorem tree_of_entries {eq : α → α → Prop} (v : StdMap α) {ws : List (String × α)}
    (same : List.Forall₂ (fun x y => x.1 = y.1 ∧ eq x.2 y.2) ws v.elems) :
    (Tree.ofList ws : StdMap α).elems = ws := by
  apply Tree.ofList_elems
  have sorted := v.sorted
  rw [← List.pairwise_map] at sorted ⊢
  rwa [keys_of_forall₂ same]

/-- A hash table that is built from elements with different keys has these elements. -/
theorem build_elems {κ : Type} [DecidableEq κ] {key : α → κ} (order : HashOrder) (hash : α → Nat)
    {xs : List α} (distinct : (xs.map key).Nodup) :
    (order.build hash xs : Hashed key).elems.Perm xs := by
  have all : (Hashed.ofList xs : Hashed key).elems = xs := Hashed.ofList_elems xs distinct
  exact (order.perm hash (Hashed.ofList xs : Hashed key).elems).trans (.of_eq all)

theorem exists_of_mem {R : α → β → Prop} {xs : List α} {ys : List β} (related : List.Forall₂ R xs ys)
    {x : α} (member : x ∈ xs) : ∃ y ∈ ys, R x y := by
  induction related with
  | nil => simp at member
  | @cons a b _ _ first _ ih =>
    rcases List.mem_cons.mp member with rfl | member
    · exact ⟨b, by simp, first⟩
    · obtain ⟨y, inside, found⟩ := ih member
      exact ⟨y, List.mem_cons_of_mem b inside, found⟩

theorem distinct_of_tree (v : StdMap α) : (v.elems.map Prod.fst).Nodup := by
  have sorted := v.sorted
  rw [← List.pairwise_map] at sorted
  exact sorted.imp fun before => ne_of_lt before

end Built

namespace Ty

/-- Values of a type with an order are equal only if they are the same. -/
theorem eq_of_equal {ordered : Bool} (t : Ty ordered) (h : ordered = true) (v w : t.Value)
    (same : t.Equal v w) : v = w := by
  induction t with
  | int k => exact same
  | vector t ih | list t ih =>
    have eq : List.Forall₂ (· = ·) v w := List.Forall₂.imp (fun a b => ih h a b) same
    exact List.forall₂_eq_eq_eq ▸ eq
  | set t ih =>
    let _ := t.meaning.order rfl
    have eq : List.Forall₂ (· = ·) v.elems w.elems := List.Forall₂.imp (fun a b => ih h a b) same
    exact Tree.ext (List.forall₂_eq_eq_eq ▸ eq)
  | unorderedSet k => cases h
  | map t ih =>
    have eq : List.Forall₂ (· = ·) v.elems w.elems :=
      List.Forall₂.imp (fun a b same => Prod.ext same.1 (ih h a.2 b.2 same.2)) same
    exact Tree.ext (List.forall₂_eq_eq_eq ▸ eq)
  | unorderedMap t ih => cases h

variable {yaml : Yaml} {lexical : Lexical} (order : HashOrder)

theorem lawful (plain : ∀ i, yaml.emit (.scalar (lexical.print i)) = lexical.print i)
    (parses : ∀ k (i : IntType.Value k), lexical.parse k (lexical.print i.1) = some i)
    {ordered : Bool} (t : Ty ordered) :
    Lawful yaml (t.cast yaml lexical order) (t.node lexical) t.Equal := by
  have int : ∀ k, Lawful yaml (.int lexical k) (fun v => .scalar (lexical.print v.1)) Eq := by
    intro k
    constructor
    · -- the node that holds a number prints as the number
      intro v _
      rw [plain]
      rfl
    · intro v _
      rw [plain]
      exact ⟨v, parses k v, rfl⟩
  -- a set and a map are in order already; a hash table is the same up to order
  induction t with
  | int k => exact int k
  | vector t ih => exact ih.sequence fun v ws same => same
  | list t ih => exact ih.sequence fun v ws same => same
  | set t ih =>
    let _ := t.meaning.order rfl
    refine ih.sequence fun v ws same => ?_
    have eq : List.Forall₂ (· = ·) ws v.elems :=
      List.Forall₂.imp (fun a b => eq_of_equal t rfl a b) same
    rw [List.forall₂_eq_eq_eq] at eq
    subst eq
    have rebuilt : (Tree.ofList v.elems : StdSet t.Value).elems = v.elems :=
      Tree.ofList_elems v.elems v.sorted
    show List.Forall₂ t.Equal (Tree.ofList v.elems : StdSet t.Value).elems v.elems
    rw [rebuilt]
    exact same
  | unorderedSet k =>
    refine (int k).sequence fun v ws same => ?_
    rw [List.forall₂_eq_eq_eq] at same
    subst same
    have perm : (order.build (fun i => order.hashInt i.1) v.elems : UnorderedSet k.Value).elems.Perm
        v.elems := build_elems order _ v.distinct
    exact ⟨perm.length_eq, fun i member => ⟨i, perm.mem_iff.mp member, rfl⟩⟩
  | map t ih =>
    refine ih.mapping distinct_of_tree fun v ws same => ?_
    have rebuilt : (Tree.ofList ws : StdMap t.Value).elems = ws := tree_of_entries v same
    show List.Forall₂ _ (Tree.ofList ws : StdMap t.Value).elems v.elems
    rw [rebuilt]
    exact same
  | unorderedMap t ih =>
    refine ih.mapping (fun v => v.distinct) fun v ws same => ?_
    have distinct : (ws.map Prod.fst).Nodup := keys_of_forall₂ same ▸ v.distinct
    have perm := build_elems order (fun entry => order.hashString entry.1) distinct
    refine ⟨perm.length_eq.trans same.length_eq, fun x member => ?_⟩
    exact exists_of_mem same (perm.mem_iff.mp member)

/-- A value of any of the types is equal to what is read from the text that is written
for it, if the trees that are written are loaded back, integers are written as plain
scalars, and each is parsed from its text. -/
theorem fromText_toText
    (plain : ∀ i, yaml.emit (.scalar (lexical.print i)) = lexical.print i)
    (parses : ∀ k (i : IntType.Value k), lexical.parse k (lexical.print i.1) = some i)
    {ordered : Bool} (t : Ty ordered) (v : t.Value) (loads : yaml.LoadsBack (t.node lexical v)) :
    ∃ text w, (t.cast yaml lexical order).toText v = some text ∧
      (t.cast yaml lexical order).fromText text = some w ∧ t.Equal w v := by
  have laws := t.lawful order plain parses
  obtain ⟨w, read, same⟩ := laws.fromText v loads
  exact ⟨yaml.emit (t.node lexical v), w, laws.toText v loads, read, same⟩

/-- A map from words to sets of integers. -/
theorem fromText_toText_map :
    let one : IntType.int32.Value := ⟨1, by decide⟩
    let two : IntType.int32.Value := ⟨2, by decide⟩
    let t : Ty true := .map (.set (.int .int32))
    let pair : StdSet IntType.int32.Value :=
      ⟨[one, two], List.pairwise_pair.mpr (Subtype.mk_lt_mk.mpr (by decide))⟩
    let v : t.Value := ⟨[("a", pair)], List.pairwise_singleton _ _⟩
    let yaml : Yaml :=
      { emit := fun node =>
          if let .scalar text := node then text
          else if node.entries.isSome then "a:\n  - 1\n  - 2"
          else "- 1\n- 2"
        load := fun text =>
          let items : List Node := [.scalar "1", .scalar "2"]
          if text = "- 1\n- 2" then some (.sequence items)
          else if text = "a:\n  - 1\n  - 2" then some (.map [("a", .sequence items)])
          else some (.scalar text) }
    let lexical : Lexical :=
      { print := Int.repr
        parse := fun k text => text.toInt?.bind fun i =>
          if fits : k.min ≤ i ∧ i ≤ k.max then some ⟨i, fits⟩ else none }
    let order : HashOrder := ⟨Int.toNat, String.length, fun _ xs => xs, fun _ xs => .refl xs⟩
    (t.cast yaml lexical order).toText v = some "a:\n  - 1\n  - 2" ∧
      ∃ text w, (t.cast yaml lexical order).toText v = some text ∧
        (t.cast yaml lexical order).fromText text = some w ∧ t.Equal w v := by
  intro one two t pair v yaml lexical order
  have parses : ∀ k (i : IntType.Value k), lexical.parse k (lexical.print i.1) = some i := by
    rintro k ⟨i, fits⟩
    simp [lexical, Int.toInt?_repr, fits]
  have tree : t.node lexical v = .map [("a", .sequence [.scalar "1", .scalar "2"])] := by
    rfl
  have loads : yaml.LoadsBack (t.node lexical v) := by
    rw [tree]
    intro part inside
    cases inside with
    | self => rfl
    | entry member inside =>
      cases List.mem_singleton.mp member
      cases inside with
      | self => rfl
      | item member inside =>
        simp only [List.mem_cons, List.not_mem_nil, or_false] at member
        rcases member with rfl | rfl <;> cases inside <;> rfl
  exact ⟨rfl, fromText_toText order (fun _ => rfl) parses t v loads⟩

end Ty

end ServerFrame.Config
