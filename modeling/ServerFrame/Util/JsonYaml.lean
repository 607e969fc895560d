import Mathlib.Algebra.Ring.Nat
import Mathlib.Data.List.Forall2
import Mathlib.Data.List.Basic

/-!
# `JsonToYaml` and `YamlToJson`

Values of jsoncpp and nodes of yaml-cpp as trees. Both functions put what they find into the tree they
are given, which is null at first; the kind that it gets is that of the first insertion. The result
`none` is `false`.
-/
namespace ServerFrame.JsonYaml

abbrev Text : Type := List UInt8

/-- `Json::Value`. The members of an object are those of a `std::map`, and `other` is a number or a
truth value, with its text. -/
inductive Json where
  | null
  | string (text : Text)
  | other (text : Text)
  | array (items : List Json)
  | object (members : List (Text × Json))

/-- `YAML::Node`. The entries of a map stay in the order in which they were put in. -/
inductive Yaml where
  | null
  | scalar (text : Text)
  | sequence (items : List Yaml)
  | map (entries : List (Text × Yaml))

/-- The `int` that a size becomes, by way of `unsigned int`. -/
def intOfSize (size : Nat) : Int := (UInt32.ofNat size).toInt32.toInt

namespace Json

/-- `append(value)`. -/
def append : Json → Json → Option Json
  | null, value => some (array [value])
  | array items, value => some (array (items ++ [value]))
  | _, _ => none

/-- What the map of an object is behind an assignment. -/
def insert (key : Text) (value : Json) : List (Text × Json) → List (Text × Json)
  | [] => [(key, value)]
  | member :: members =>
    if key < member.1 then (key, value) :: member :: members
    else if member.1 < key then member :: insert key value members
    else (key, value) :: members

/-- `[key] = value`. -/
def assign : Json → Text → Json → Option Json
  | null, key, value => some (object [(key, value)])
  | object members, key, value => some (object (insert key value members))
  | _, _, _ => none

/-- `asString`, for a value that is no array and no object. -/
def asString : Json → Option Text
  | null => some []
  | string text => some text
  | other text => some text
  | _ => none

end Json

namespace Yaml

/-- `push_back(node)`. -/
def pushBack : Yaml → Yaml → Option Yaml
  | null, node => some (sequence [node])
  | sequence items, node => some (sequence (items ++ [node]))
  | _, _ => none

/-- What the entries of a map are behind an assignment. -/
def put (key : Text) (node : Yaml) : List (Text × Yaml) → List (Text × Yaml)
  | [] => [(key, node)]
  | entry :: entries =>
    if entry.1 = key then (key, node) :: entries else entry :: put key node entries

/-- An index as a key. -/
def indexKey (i : Nat) : Text := (Nat.toDigits 10 i).map fun c => UInt8.ofNat c.toNat

/-- `[key] = node`. A sequence becomes a map with its indices as keys. -/
def assign : Yaml → Text → Yaml → Option Yaml
  | null, key, node => some (map [(key, node)])
  | sequence items, key, node =>
    some (map (put key node (items.zipIdx.map fun item => (indexKey item.2, item.1))))
  | map entries, key, node => some (map (put key node entries))
  | scalar _, _, _ => none

end Yaml

mutual

/-- `JsonToYaml`. -/
def jsonToYaml : Json → Yaml → Option Yaml
  | .array items, ynode => pushItems (intOfSize items.length).toNat items ynode
  | .object members, ynode => assignMembers members ynode
  | jnode, _ => jnode.asString.map .scalar

/-- The loop over an array, with the passes that it makes. -/
def pushItems : Nat → List Json → Yaml → Option Yaml
  | passes + 1, item :: items, ynode => do
    let n ← jsonToYaml item .null
    let ynode ← ynode.pushBack n
    pushItems passes items ynode
  | _, _, ynode => some ynode

/-- The loop over an object. -/
def assignMembers : List (Text × Json) → Yaml → Option Yaml
  | [], ynode => some ynode
  | member :: members, ynode => do
    let n ← memberToYaml member
    let ynode ← ynode.assign member.1 n
    assignMembers members ynode

def memberToYaml : Text × Json → Option Yaml
  | (_, value) => jsonToYaml value .null

end

mutual

/-- `YamlToJson`. -/
def yamlToJson : Yaml → Json → Option Json
  | .scalar text, _ => some (.string text)
  | .sequence items, jnode => appendItems items jnode
  | .map entries, jnode => assignEntries entries jnode
  | .null, jnode => some jnode

/-- The loop over a sequence. -/
def appendItems : List Yaml → Json → Option Json
  | [], jnode => some jnode
  | item :: items, jnode => do
    let v ← yamlToJson item .null
    let jnode ← jnode.append v
    appendItems items jnode

/-- The loop over a map. -/
def assignEntries : List (Text × Yaml) → Json → Option Json
  | [], jnode => some jnode
  | entry :: entries, jnode => do
    let v ← entryToJson entry
    let jnode ← jnode.assign entry.1 v
    assignEntries entries jnode

def entryToJson : Text × Yaml → Option Json
  | (_, node) => yamlToJson node .null

end

/-- The trees of strings, arrays and objects. -/
inductive Plain : Json → Prop
  | string (text : Text) : Plain (.string text)
  | array {items : List Json} (all : ∀ item ∈ items, Plain item) : Plain (.array items)
  | object {members : List (Text × Json)} (sorted : members.Pairwise (·.1 < ·.1))
      (all : ∀ member ∈ members, Plain member.2) : Plain (.object members)

/-- Those in which no object is empty and no array either, nor longer than an `int` can say. -/
inductive Full : Json → Prop
  | string (text : Text) : Full (.string text)
  | array {items : List Json} (some_ : items ≠ []) (few : items.length < 2 ^ 31)
      (all : ∀ item ∈ items, Full item) : Full (.array items)
  | object {members : List (Text × Json)} (some_ : members ≠ [])
      (all : ∀ member ∈ members, Full member.2) : Full (.object members)

/-- There and back: both succeed, and the tree is as it was. -/
def RoundTrips (json : Json) : Prop :=
  ∃ node, jsonToYaml json .null = some node ∧ yamlToJson node .null = some json

/-! ## Sizes -/

theorem intOfSize_eq (size : Nat) :
    intOfSize size = ((size % 2 ^ 32 : Nat) : Int).bmod (2 ^ 32) := by
  have rest : (UInt32.ofNat size).toNat = size % 2 ^ 32 := UInt32.toNat_ofNat'
  rw [← rest]
  exact BitVec.toInt_eq_toNat_bmod (UInt32.ofNat size).toBitVec

theorem intOfSize_toNat {size : Nat} (few : size < 2 ^ 31) : (intOfSize size).toNat = size := by
  rw [intOfSize_eq, Nat.mod_eq_of_lt (by omega), Int.bmod]
  omega

/-- From 2^31 on, a loop does not get to all elements. -/
theorem intOfSize_toNat_lt {size : Nat} (many : 2 ^ 31 ≤ size) : (intOfSize size).toNat < size := by
  rw [intOfSize_eq, Int.bmod]
  omega

/-! ## The loops of `JsonToYaml` -/

section Loops

variable {items : List Json} {members : List (Text × Json)}

/-- The items become nodes that stand for them. -/
abbrev Converted (items : List Json) (nodes : List Yaml) : Prop :=
  List.Forall₂ (fun item node => jsonToYaml item .null = some node) items nodes

abbrev ConvertedMembers (members : List (Text × Json)) (entries : List (Text × Yaml)) : Prop :=
  List.Forall₂ (fun member entry => member.1 = entry.1 ∧ jsonToYaml member.2 .null = some entry.2)
    members entries

theorem pushItems_sequence (done : List Yaml) {nodes : List Yaml}
    (converted : Converted items nodes) (passes : Nat) :
    pushItems passes items (.sequence done) = some (.sequence (done ++ nodes.take passes)) := by
  induction converted generalizing passes done with
  | nil => cases passes <;> simp [pushItems]
  | @cons item node items nodes first _ ih =>
    cases passes with
    | zero => simp [pushItems]
    | succ passes =>
      have behind := ih (done ++ [node]) passes
      simp only [pushItems, first, Yaml.pushBack, bind, Option.bind_some, behind]
      simp

/-- The first item makes a null node a sequence. -/
theorem pushItems_null {nodes : List Yaml} (converted : Converted items nodes) (passes : Nat) :
    pushItems passes items .null =
      some (if nodes.take passes = [] then .null else .sequence (nodes.take passes)) := by
  cases converted with
  | nil => cases passes <;> simp [pushItems]
  | @cons item node items nodes first rest =>
    cases passes with
    | zero => simp [pushItems]
    | succ passes =>
      have behind := pushItems_sequence [node] rest passes
      simp only [pushItems, first, Yaml.pushBack, bind, Option.bind_some, behind]
      simp

theorem put_new {key : Text} {node : Yaml} {entries : List (Text × Yaml)}
    (absent : ∀ entry ∈ entries, entry.1 ≠ key) :
    Yaml.put key node entries = entries ++ [(key, node)] := by
  induction entries with
  | nil => rfl
  | cons entry entries ih =>
    obtain ⟨other, rest⟩ := List.forall_mem_cons.mp absent
    rw [Yaml.put, if_neg other, ih rest, List.cons_append]

theorem assignMembers_map (done : List (Text × Yaml)) {entries : List (Text × Yaml)}
    (converted : ConvertedMembers members entries) (distinct : (members.map Prod.fst).Nodup)
    (fresh : ∀ entry ∈ done, ∀ member ∈ members, entry.1 ≠ member.1) :
    assignMembers members (.map done) = some (.map (done ++ entries)) := by
  induction converted generalizing done with
  | nil => simp [assignMembers]
  | @cons member entry members entries first _ ih =>
    obtain ⟨absent, distinct⟩ := List.nodup_cons.mp distinct
    have new : ∀ entry ∈ done, entry.1 ≠ member.1 := fun e inside =>
      fresh e inside member (List.mem_cons_self ..)
    have behind := ih (done ++ [(member.1, entry.2)]) distinct (by
      intro e inside m later
      rcases List.mem_append.mp inside with before | here
      · exact fresh e before m (List.mem_cons_of_mem _ later)
      · rw [List.mem_singleton.mp here]
        rintro same
        exact absent (List.mem_map.mpr ⟨m, later, same.symm⟩))
    have converted : memberToYaml member = some entry.2 := by rw [memberToYaml, first.2]
    simp only [assignMembers, converted, Yaml.assign, put_new new, bind, Option.bind_some, behind]
    simp [first.1]

/-- The first member makes a null node a map. -/
theorem assignMembers_null {entries : List (Text × Yaml)}
    (converted : ConvertedMembers members entries) (distinct : (members.map Prod.fst).Nodup) :
    assignMembers members .null = some (if entries = [] then .null else .map entries) := by
  cases converted with
  | nil => rfl
  | @cons member entry members entries first rest =>
    obtain ⟨absent, distinct⟩ := List.nodup_cons.mp distinct
    have behind := assignMembers_map [(member.1, entry.2)] rest distinct (by
      intro e inside m later
      rw [List.mem_singleton.mp inside]
      rintro same
      exact absent (List.mem_map.mpr ⟨m, later, same.symm⟩))
    have converted : memberToYaml member = some entry.2 := by rw [memberToYaml, first.2]
    simp only [assignMembers, converted, Yaml.assign, bind, Option.bind_some, behind]
    simp [first.1]

end Loops

/-! ## The loops of `YamlToJson` -/

section Back

variable {items : List Yaml} {entries : List (Text × Yaml)}

/-- The nodes become values again. -/
abbrev Restored (nodes : List Yaml) (values : List Json) : Prop :=
  List.Forall₂ (fun node value => yamlToJson node .null = some value) nodes values

abbrev RestoredMembers (entries : List (Text × Yaml)) (members : List (Text × Json)) : Prop :=
  List.Forall₂ (fun entry member => entry.1 = member.1 ∧ yamlToJson entry.2 .null = some member.2)
    entries members

theorem appendItems_array (done : List Json) {values : List Json}
    (restored : Restored items values) :
    appendItems items (.array done) = some (.array (done ++ values)) := by
  induction restored generalizing done with
  | nil => simp [appendItems]
  | @cons item value items values first _ ih =>
    have behind := ih (done ++ [value])
    simp only [appendItems, first, Json.append, bind, Option.bind_some, behind]
    simp

theorem appendItems_null {values : List Json} (restored : Restored items values) :
    appendItems items .null = some (if values = [] then .null else .array values) := by
  cases restored with
  | nil => rfl
  | @cons item value items values first rest =>
    have behind := appendItems_array [value] rest
    simp only [appendItems, first, Json.append, bind, Option.bind_some, behind]
    simp

/-- A member with the largest key comes last. -/
theorem insert_largest {key : Text} {value : Json} {members : List (Text × Json)}
    (largest : ∀ member ∈ members, member.1 < key) :
    Json.insert key value members = members ++ [(key, value)] := by
  induction members with
  | nil => rfl
  | cons member members ih =>
    obtain ⟨less, rest⟩ := List.forall_mem_cons.mp largest
    rw [Json.insert, if_neg (List.lt_asymm less), if_pos less, ih rest, List.cons_append]

theorem assignEntries_object (done : List (Text × Json)) {members : List (Text × Json)}
    (restored : RestoredMembers entries members) (sorted : members.Pairwise (·.1 < ·.1))
    (before : ∀ m ∈ done, ∀ member ∈ members, m.1 < member.1) :
    assignEntries entries (.object done) = some (.object (done ++ members)) := by
  induction restored generalizing done with
  | nil => simp [assignEntries]
  | @cons entry member entries members first _ ih =>
    obtain ⟨least, sorted⟩ := List.pairwise_cons.mp sorted
    have largest : ∀ m ∈ done, m.1 < entry.1 := fun m inside =>
      first.1 ▸ before m inside member (List.mem_cons_self ..)
    have behind := ih (done ++ [(entry.1, member.2)]) sorted (by
      intro m inside later member_
      rcases List.mem_append.mp inside with front | here
      · exact before m front later (List.mem_cons_of_mem _ member_)
      · rw [List.mem_singleton.mp here, first.1]
        exact least later member_)
    have restored : entryToJson entry = some member.2 := by rw [entryToJson, first.2]
    simp only [assignEntries, restored, Json.assign, insert_largest largest, bind, Option.bind_some,
      behind]
    simp [first.1]

theorem assignEntries_null {members : List (Text × Json)} (restored : RestoredMembers entries members)
    (sorted : members.Pairwise (·.1 < ·.1)) :
    assignEntries entries .null = some (if members = [] then .null else .object members) := by
  cases restored with
  | nil => rfl
  | @cons entry member entries members first rest =>
    obtain ⟨least, sorted⟩ := List.pairwise_cons.mp sorted
    have behind := assignEntries_object [(entry.1, member.2)] rest sorted (by
      intro m inside later member_
      rw [List.mem_singleton.mp inside, first.1]
      exact least later member_)
    have restored : entryToJson entry = some member.2 := by rw [entryToJson, first.2]
    simp only [assignEntries, restored, Json.assign, bind, Option.bind_some, behind]
    simp [first.1]

end Back

/-! ## There and back -/

/-- Both succeed; what comes back is the tree that went there exactly if it is full. -/
def Returns (json : Json) : Prop :=
  ∃ node back, jsonToYaml json .null = some node ∧ yamlToJson node .null = some back ∧
    (back = json ↔ Full json)

theorem returns_items {items : List Json} (all : ∀ item ∈ items, Returns item) :
    ∃ nodes backs, Converted items nodes ∧ Restored nodes backs ∧
      (backs = items ↔ ∀ item ∈ items, Full item) := by
  induction items with
  | nil => exact ⟨[], [], .nil, .nil, by simp⟩
  | cons item items ih =>
    obtain ⟨first, rest⟩ := List.forall_mem_cons.mp all
    obtain ⟨node, back, converted, restored, same⟩ := first
    obtain ⟨nodes, backs, convertedRest, restoredRest, sameRest⟩ := ih rest
    refine ⟨node :: nodes, back :: backs, .cons converted convertedRest,
      .cons restored restoredRest, ?_⟩
    rw [List.cons.injEq, List.forall_mem_cons, same, sameRest]

theorem returns_members {members : List (Text × Json)} (all : ∀ member ∈ members, Returns member.2) :
    ∃ entries backs, ConvertedMembers members entries ∧ RestoredMembers entries backs ∧
      backs.map Prod.fst = members.map Prod.fst ∧
      (backs = members ↔ ∀ member ∈ members, Full member.2) := by
  induction members with
  | nil => exact ⟨[], [], .nil, .nil, rfl, by simp⟩
  | cons member members ih =>
    obtain ⟨first, rest⟩ := List.forall_mem_cons.mp all
    obtain ⟨node, back, converted, restored, same⟩ := first
    obtain ⟨entries, backs, convertedRest, restoredRest, keys, sameRest⟩ := ih rest
    refine ⟨(member.1, node) :: entries, (member.1, back) :: backs,
      .cons ⟨rfl, converted⟩ convertedRest, .cons ⟨rfl, restored⟩ restoredRest, ?_, ?_⟩
    · rw [List.map_cons, List.map_cons, keys]
    · obtain ⟨key, value⟩ := member
      rw [List.cons.injEq, List.forall_mem_cons, Prod.mk.injEq, same, sameRest]
      simp

theorem full_array_iff {items : List Json} : Full (.array items) ↔
    items ≠ [] ∧ items.length < 2 ^ 31 ∧ ∀ item ∈ items, Full item :=
  ⟨fun full => by cases full with | array some_ few all => exact ⟨some_, few, all⟩,
    fun ⟨some_, few, all⟩ => .array some_ few all⟩

theorem full_object_iff {members : List (Text × Json)} : Full (.object members) ↔
    members ≠ [] ∧ ∀ member ∈ members, Full member.2 :=
  ⟨fun full => by cases full with | object some_ all => exact ⟨some_, all⟩,
    fun ⟨some_, all⟩ => .object some_ all⟩

/-- The items that come back are all of them only if the loop gets to all of them. -/
theorem take_visited_iff {items backs : List Json} (lengths : backs.length = items.length) :
    (if backs.take (intOfSize items.length).toNat = [] then Json.null
      else .array (backs.take (intOfSize items.length).toNat)) = .array items ↔
      items ≠ [] ∧ items.length < 2 ^ 31 ∧ backs = items := by
  by_cases few : items.length < 2 ^ 31
  · rw [intOfSize_toNat few, ← lengths, List.take_length]
    by_cases empty : backs = []
    · have nothing : items = [] := by
        rw [empty] at lengths
        exact List.length_eq_zero_iff.mp lengths.symm
      simp [empty, nothing]
    · rw [if_neg empty]
      constructor
      · intro same
        cases same
        exact ⟨empty, few, rfl⟩
      · rintro ⟨-, -, rfl⟩
        rfl
  · have fewer := intOfSize_toNat_lt (Nat.not_lt.mp few)
    refine iff_of_false ?_ fun full => few full.2.1
    -- what comes back is shorter
    split
    · simp
    · intro same
      have short := congrArg List.length (Json.array.inj same)
      rw [List.length_take] at short
      omega

theorem nodup_keys {members : List (Text × Json)} (sorted : members.Pairwise (·.1 < ·.1)) :
    (members.map Prod.fst).Nodup := by
  rw [List.Nodup, List.pairwise_map]
  refine sorted.imp ?_
  intro m m' less same
  rw [same] at less
  exact List.lt_irrefl _ less

theorem returns_of_plain {json : Json} (plain : Plain json) : Returns json := by
  induction plain with
  | string text => exact ⟨.scalar text, .string text, rfl, rfl, iff_of_true rfl (.string text)⟩
  | @array items _ ih =>
    obtain ⟨nodes, backs, converted, restored, same⟩ := returns_items ih
    have lengths : backs.length = items.length :=
      restored.length_eq.symm.trans converted.length_eq.symm
    -- as many items are visited on the way there as the `int` says, and those come back
    have visited := List.forall₂_take (intOfSize items.length).toNat restored
    refine ⟨_, if backs.take (intOfSize items.length).toNat = [] then .null
      else .array (backs.take (intOfSize items.length).toNat), pushItems_null converted _, ?_, ?_⟩
    · by_cases empty : nodes.take (intOfSize items.length).toNat = []
      · have nothing : backs.take (intOfSize items.length).toNat = [] := by
          rw [empty] at visited
          exact List.forall₂_nil_left_iff.mp visited
        rw [if_pos empty, if_pos nothing]
        rfl
      · rw [if_neg empty]
        exact appendItems_null visited
    · rw [full_array_iff, ← same]
      exact take_visited_iff lengths
  | @object members sorted _ ih =>
    obtain ⟨entries, backs, converted, restored, keys, same⟩ := returns_members ih
    -- the map keeps the order of the object, so that each member comes last again
    have sortedBack : backs.Pairwise (·.1 < ·.1) := by
      rw [← List.pairwise_map (f := Prod.fst) (R := (· < ·)), keys, List.pairwise_map]
      exact sorted
    refine ⟨_, if backs = [] then .null else .object backs,
      assignMembers_null converted (nodup_keys sorted), ?_, ?_⟩
    · by_cases empty : entries = []
      · subst empty
        rw [List.forall₂_nil_left_iff.mp restored]
        rfl
      · rw [if_neg empty]
        exact assignEntries_null restored sortedBack
    · rw [full_object_iff, ← same]
      by_cases empty : backs = []
      · have nothing : members = [] := by
          rw [empty] at keys
          exact List.map_eq_nil_iff.mp keys.symm
        simp [empty, nothing]
      · rw [if_neg empty]
        constructor
        · intro back
          cases back
          exact ⟨empty, rfl⟩
        · rintro ⟨-, rfl⟩
          rfl

/-- A tree of strings, arrays and objects survives exactly if no array and no object in it is empty,
for a node into which nothing is put stays null, and no array is too long for the loop. -/
theorem roundTrips_iff {json : Json} (plain : Plain json) : RoundTrips json ↔ Full json := by
  obtain ⟨node, back, converted, restored, same⟩ := returns_of_plain plain
  rw [← same]
  constructor
  · rintro ⟨node', converted', restored'⟩
    rw [converted, Option.some.injEq] at converted'
    rw [← converted', restored, Option.some.injEq] at restored'
    exact restored'
  · rintro rfl
    exact ⟨node, converted, restored⟩

theorem roundTrips_pair : RoundTrips (.array [.string [97], .object [([107], .string [98])]]) := by
  have plain : Plain (.array [.string [97], .object [([107], .string [98])]]) :=
    .array (by simpa using ⟨.string [97], .object (by simp) (by simpa using .string [98])⟩)
  have full : Full (.array [.string [97], .object [([107], .string [98])]]) :=
    .array (by simp) (by decide)
      (by simpa using ⟨.string [97], .object (by simp) (by simpa using .string [98])⟩)
  exact (roundTrips_iff plain).mpr full

/-- `[]` comes back as null. -/
theorem empty_array_lost : Plain (.array []) ∧ jsonToYaml (.array []) .null = some .null ∧
    yamlToJson .null .null = some .null ∧ ¬ RoundTrips (.array []) := by
  refine ⟨.array (by simp), rfl, rfl, ?_⟩
  rintro ⟨node, converted, restored⟩
  cases converted
  cases restored

end ServerFrame.JsonYaml
