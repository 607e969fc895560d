import Mathlib.Data.List.Nodup

/-!
# Trees of scalars, sequences and maps

What `YAML::Node` is to the configuration. The library that writes a tree as text and
reads it back is a parameter.
-/
namespace ServerFrame.Config

inductive Node where
  | scalar (text : String)
  | sequence (items : List Node)
  | map (entries : List (String × Node))

namespace Node

/-- The nodes that a loop over positions below `size()` visits. Indexing a map by position
is left open. -/
def items : Node → Option (List Node)
  | .scalar _ => some []
  | .sequence items => some items
  | .map _ => none

/-- The entries that an iterator visits. The items of a sequence have no key. -/
def entries : Node → Option (List (String × Node))
  | .scalar _ => some []
  | .sequence [] => some []
  | .sequence (_ :: _) => none
  | .map entries => some entries

/-- `node[key]`, which may be undefined. A scalar has no parts, and throws. -/
def get (key : String) : Node → Option (Option Node)
  | .scalar _ => none
  | .sequence _ => some none
  | .map entries => some ((entries.find? fun entry => entry.1 == key).map Prod.snd)

/-- `as<std::string>()`, which throws for anything but a scalar. -/
def asString : Option Node → Option String
  | some (.scalar text) => some text
  | _ => none

/-- `node[key].as<std::string>()`, and a default when it is not defined. -/
def stringOr (key fallback : String) (node : Node) : Option String := do
  match ← node.get key with
  | none => pure fallback
  | some value => asString (some value)

/-- `node[key] = value`. -/
def assign (key : String) (value : Node) : List (String × Node) → List (String × Node)
  | [] => [(key, value)]
  | entry :: entries =>
    if entry.1 = key then (key, value) :: entries else entry :: assign key value entries

theorem assign_new {key : String} {value : Node} {entries : List (String × Node)}
    (absent : key ∉ entries.map Prod.fst) : assign key value entries = entries ++ [(key, value)] := by
  induction entries with
  | nil => rfl
  | cons entry entries ih =>
    simp only [List.map_cons, List.mem_cons, not_or] at absent
    rw [assign, if_neg fun same => absent.1 same.symm, ih absent.2, List.cons_append]

/-- Where an entry is looked for, one with another key counts for nothing. -/
@[simp] theorem get_map_cons (key : String) (entry : String × Node)
    (entries : List (String × Node)) : (map (entry :: entries)).get key =
      if entry.1 = key then some (some entry.2) else (map entries).get key := by
  by_cases same : entry.1 = key <;> simp [get, same]

@[simp] theorem get_map_nil (key : String) : (map []).get key = some none := rfl

/-- An entry that is left out under a condition. -/
@[simp] theorem get_map_unless (c : Prop) [Decidable c] (key : String) (entry : String × Node)
    (entries : List (String × Node)) :
    (map ((if c then [] else [entry]) ++ entries)).get key =
      if ¬c ∧ entry.1 = key then some (some entry.2) else (map entries).get key := by
  by_cases without : c <;> simp [without]

@[simp] theorem get_map_unless_last (c : Prop) [Decidable c] (key : String)
    (entry : String × Node) : (map (if c then [] else [entry])).get key =
      if ¬c ∧ entry.1 = key then some (some entry.2) else some none := by
  by_cases without : c <;> simp [without]

/-- Among different keys the entry for one of them is found. -/
theorem get_of_mem {key : String} {value : Node} {entries rest : List (String × Node)}
    (distinct : (entries.map Prod.fst).Nodup) (member : (key, value) ∈ entries) :
    (map (entries ++ rest)).get key = some (some value) := by
  induction entries with
  | nil => exact absurd member List.not_mem_nil
  | cons entry entries ih =>
    obtain ⟨fresh, distinct⟩ := List.nodup_cons.mp distinct
    rw [List.cons_append, get_map_cons]
    rcases List.mem_cons.mp member with rfl | later
    · rw [if_pos rfl]
    · have other : entry.1 ≠ key := fun same =>
        fresh (List.mem_map.mpr ⟨(key, value), later, same.symm⟩)
      rw [if_neg other, ih distinct later]

theorem stringOr_scalar {key fallback : String} (text : String) {node : Node}
    (there : node.get key = some (some (.scalar text))) :
    node.stringOr key fallback = some text := by
  rw [stringOr, there]
  rfl

theorem stringOr_absent {key fallback : String} {node : Node} (absent : node.get key = some none) :
    node.stringOr key fallback = some fallback := by
  rw [stringOr, absent]
  rfl

/-- The trees in a tree. -/
inductive Part : Node → Node → Prop
  | self (node : Node) : Part node node
  | item {items : List Node} {item part : Node} : item ∈ items → Part item part →
      Part (.sequence items) part
  | entry {entries : List (String × Node)} {key : String} {value part : Node} :
      (key, value) ∈ entries → Part value part → Part (.map entries) part

end Node

/-- `operator<<` and `YAML::Load`, which may throw. -/
structure Yaml where
  emit : Node → String
  load : String → Option Node

/-- The text of the tree, and of every tree in it, is loaded as that tree. -/
def Yaml.LoadsBack (yaml : Yaml) (node : Node) : Prop :=
  ∀ part, node.Part part → yaml.load (yaml.emit part) = some part

namespace Yaml.LoadsBack

variable {yaml : Yaml}

theorem self {node : Node} (loads : yaml.LoadsBack node) :
    yaml.load (yaml.emit node) = some node := loads node (.self node)

theorem item {items : List Node} (loads : yaml.LoadsBack (.sequence items)) {item : Node}
    (member : item ∈ items) : yaml.LoadsBack item :=
  fun part inside => loads part (.item member inside)

theorem entry {entries : List (String × Node)} (loads : yaml.LoadsBack (.map entries))
    {entry : String × Node} (member : entry ∈ entries) : yaml.LoadsBack entry.2 :=
  fun part inside => loads part (.entry member inside)

end Yaml.LoadsBack

/-- What the library does with one tree and its text. -/
def Yaml.single (text : String) (node : Node) : Yaml :=
  ⟨fun _ => text, fun v => if v = text then some node else none⟩

theorem Yaml.single_loads (text : String) (node : Node) :
    (Yaml.single text node).load ((Yaml.single text node).emit node) = some node := if_pos rfl

end ServerFrame.Config
