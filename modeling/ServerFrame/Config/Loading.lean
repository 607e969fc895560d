import ServerFrame.Config.Yaml
import ServerFrame.Util.StdString

/-!
# `Config::LoadFromYaml` and `Config::Lookup`

A tree is taken apart into its nodes, each with the keys on the way to it, joined by dots, and the
variables that are registered under these names are given the texts of the nodes.
-/
namespace ServerFrame.Config

namespace Node

/-- A property of the parts is one of the whole. -/
theorem induct {P : Node → Prop} (scalar : ∀ text, P (.scalar text))
    (sequence : ∀ items, (∀ item ∈ items, P item) → P (.sequence items))
    (map : ∀ entries, (∀ entry ∈ entries, P entry.2) → P (.map entries)) (node : Node) :
    P node := by
  refine Node.rec (motive_1 := P) (motive_2 := fun items => ∀ item ∈ items, P item)
    (motive_3 := fun entries => ∀ entry ∈ entries, P entry.2)
    (motive_4 := fun entry => P entry.2) scalar (fun items => sequence items)
    (fun entries => map entries) ?_ ?_ ?_ ?_ ?_ node
  · exact fun _ member => absurd member List.not_mem_nil
  · intro item items first rest other member
    rcases List.mem_cons.mp member with rfl | member
    · exact first
    · exact rest other member
  · exact fun _ member => absurd member List.not_mem_nil
  · intro entry entries first rest other member
    rcases List.mem_cons.mp member with rfl | member
    · exact first
    · exact rest other member
  · exact fun _ _ value => value

end Node

/-! ## The functions -/

/-- The characters that stand in both tests of a name. -/
def nameChars : List Char := "abcdefghikjlmnopqrstuvwxyz._012345678".toList

/-- `name.find_first_not_of(...) != npos`. -/
def invalidName (name : String) : Bool := name.toList.any fun c => !nameChars.contains c

/-- The name of an entry. -/
def join (pre key : String) : String := if pre.isEmpty then key else pre ++ "." ++ key

mutual

/-- `ListAllMember`. -/
def listAllMember (pre : String) : Node → List (String × Node)
  | .scalar text => if invalidName pre then [] else [(pre, .scalar text)]
  | .sequence items => if invalidName pre then [] else [(pre, .sequence items)]
  | .map entries =>
    if invalidName pre then [] else (pre, .map entries) :: listEntries pre entries

def listEntries (pre : String) : List (String × Node) → List (String × Node)
  | [] => []
  | entry :: entries => listEntry pre entry ++ listEntries pre entries

def listEntry (pre : String) : String × Node → List (String × Node)
  | (key, value) => listAllMember (join pre key) value

end

/-- `ToLower`. -/
def toLower (name : String) : String := String.ofList (name.toList.map Char.toLower)

/-- What a variable is given: the text of a scalar, or what the node is written as. -/
def text (yaml : Yaml) : Node → String
  | .scalar text => text
  | node => yaml.emit node

/-- `LoadFromYaml`: the calls of `FromString`, with the name of the variable and the text. -/
def loadFromYaml (yaml : Yaml) (registered : String → Bool) (root : Node) :
    List (String × String) :=
  (listAllMember "" root).filterMap fun (name, node) =>
    if name.isEmpty then none
    else
      let key := toLower name
      if registered key then some (key, text yaml node) else none

/-- The variables, by their names, each with its type. -/
abbrev Datas (τ : Type) := String → Option τ

section Lookup

variable {τ : Type} [DecidableEq τ]

/-- `Lookup<T>(name, default_value)`: whether the pointer is not null. The exception holds the
name. -/
def lookup (type : τ) (name : String) (datas : Datas τ) : Except String (Bool × Datas τ) :=
  match datas name with
  | some real => .ok (real = type, datas)
  | none =>
    if invalidName name then .error name
    else .ok (true, Function.update datas name (some type))

end Lookup

example : (listAllMember ""
    (.map [("tcp", .map [("port", .scalar "80")]), ("v9", .scalar "1")])).map Prod.fst =
      ["", "tcp", "tcp.port"] := by decide +kernel

/-! ## The characters of a name -/

/-- `[0-9a-z_.]`. -/
def Documented (c : Char) : Prop := c.isDigit ∨ c.isLower ∨ c = '_' ∨ c = '.'

instance (c : Char) : Decidable (Documented c) :=
  inferInstanceAs (Decidable (c.isDigit ∨ c.isLower ∨ c = '_' ∨ c = '.'))

theorem nameChars_eq : nameChars =
    ['a', 'b', 'c', 'd', 'e', 'f', 'g', 'h', 'i', 'k', 'j', 'l', 'm', 'n', 'o', 'p', 'q', 'r', 's',
      't', 'u', 'v', 'w', 'x', 'y', 'z', '.', '_', '0', '1', '2', '3', '4', '5', '6', '7', '8'] := rfl

theorem nameChars_ascii : ∀ c ∈ nameChars, c.toNat < 128 := by simp [nameChars_eq]

theorem documented_ascii {c : Char} (documented : Documented c) : c.toNat < 128 := by
  have bound : ∀ last : Char, c.val ≤ last.val → c.toNat ≤ last.toNat := fun _ le => le
  rcases documented with digit | lower | rfl | rfl
  · rw [Char.isDigit, Bool.and_eq_true, decide_eq_true_iff, decide_eq_true_iff] at digit
    exact lt_of_le_of_lt (bound '9' digit.2) (by decide)
  · change (decide ('a'.val ≤ c.val) && decide (c.val ≤ 'z'.val)) = true at lower
    rw [Bool.and_eq_true, decide_eq_true_iff, decide_eq_true_iff] at lower
    exact lt_of_le_of_lt (bound 'z' lower.2) (by decide)
  · decide
  · decide

/-- The digit that is left out of both tests. -/
theorem mem_nameChars_iff {c : Char} : c ∈ nameChars ↔ Documented c ∧ c ≠ '9' := by
  have ascii : ∀ n < 128, Char.ofNat n ∈ nameChars ↔
      Documented (Char.ofNat n) ∧ Char.ofNat n ≠ '9' := by
    rw [nameChars_eq]
    decide +kernel
  rcases Nat.lt_or_ge c.toNat 128 with small | large
  · simpa only [Char.ofNat_toNat] using ascii c.toNat small
  · constructor
    · intro member
      exact absurd (nameChars_ascii c member) (by omega)
    · rintro ⟨documented, -⟩
      exact absurd (documented_ascii documented) (by omega)

theorem invalidName_iff {name : String} :
    invalidName name = true ↔ ∃ c ∈ name.toList, c ∉ nameChars := by
  simp [invalidName]

theorem valid_iff {name : String} :
    invalidName name = false ↔ ∀ c ∈ name.toList, Documented c ∧ c ≠ '9' := by
  simp [invalidName, mem_nameChars_iff]

theorem refused_iff {name : String} :
    invalidName name = true ↔ '9' ∈ name.toList ∨ ∃ c ∈ name.toList, ¬Documented c := by
  rw [invalidName_iff]
  constructor
  · rintro ⟨c, member, other⟩
    by_cases documented : Documented c
    · rw [mem_nameChars_iff, not_and_not_right] at other
      exact .inl (other documented ▸ member)
    · exact .inr ⟨c, member, documented⟩
  · rintro (nine | ⟨c, member, other⟩)
    · exact ⟨'9', nine, fun among => (mem_nameChars_iff.mp among).2 rfl⟩
    · exact ⟨c, member, fun among => other (mem_nameChars_iff.mp among).1⟩

theorem toLower_of_valid {name : String} (valid : invalidName name = false) :
    toLower name = name := by
  have fixed : ∀ c ∈ nameChars, c.toLower = c := by simp [nameChars_eq]
  have same : name.toList.map Char.toLower = name.toList.map id :=
    List.map_congr_left fun c member =>
      fixed c (mem_nameChars_iff.mpr (valid_iff.mp valid c member))
  rw [toLower, same, List.map_id, String.ofList_toList]

/-! ## The paths of a tree -/

mutual

/-- The nodes of a tree, each with the keys on the way to it. The tree itself is the first. -/
def paths : Node → List (List String × Node)
  | .scalar text => [([], .scalar text)]
  | .sequence items => [([], .sequence items)]
  | .map entries => ([], .map entries) :: entriesPaths entries

def entriesPaths : List (String × Node) → List (List String × Node)
  | [] => []
  | entry :: entries => entryPaths entry ++ entriesPaths entries

def entryPaths : String × Node → List (List String × Node)
  | (key, value) => (paths value).map fun path => (key :: path.1, path.2)

end

/-- The name that the code builds on the way to a node. -/
def codeName (keys : List String) : String := keys.foldl join ""

theorem foldl_join_empty (keys : List String) : keys.foldl join "" = codeName keys := rfl

def dotted (keys : List String) : String := ".".intercalate keys

theorem invalidName_join {pre : String} (invalid : invalidName pre = true) (key : String) :
    invalidName (join pre key) = true := by
  obtain ⟨c, member, other⟩ := invalidName_iff.mp invalid
  have full : pre.isEmpty = false := by
    rw [Bool.eq_false_iff]
    intro empty
    rw [String.isEmpty_iff.mp empty] at member
    exact absurd member (by simp)
  refine invalidName_iff.mpr ⟨c, ?_, other⟩
  simp [join, full, member]

/-- What is below a refused name is refused too, so nothing is lost by not going there. -/
theorem invalidName_foldl {pre : String} (invalid : invalidName pre = true) (keys : List String) :
    invalidName (keys.foldl join pre) = true := by
  induction keys generalizing pre with
  | nil => exact invalid
  | cons key keys ih => exact ih (invalidName_join invalid key)

/-- The nodes that the code lists, under a name. -/
def listed (pre : String) (found : List (List String × Node)) : List (String × Node) :=
  (found.map fun path => (path.1.foldl join pre, path.2)).filter fun member => !invalidName member.1

theorem listed_append (pre : String) (first rest : List (List String × Node)) :
    listed pre (first ++ rest) = listed pre first ++ listed pre rest := by
  rw [listed, List.map_append, List.filter_append, listed, listed]

theorem listed_under (pre key : String) (found : List (List String × Node)) :
    listed pre (found.map fun path => (key :: path.1, path.2)) = listed (join pre key) found := by
  rw [listed, List.map_map, listed]
  rfl

theorem listed_of_invalid {pre : String} (invalid : invalidName pre = true)
    (found : List (List String × Node)) : listed pre found = [] := by
  rw [listed, List.filter_eq_nil_iff]
  intro member among
  obtain ⟨path, -, rfl⟩ := List.mem_map.mp among
  simp [invalidName_foldl invalid]

theorem listed_root {pre : String} (valid : invalidName pre = false) (node : Node)
    (found : List (List String × Node)) :
    listed pre (([], node) :: found) = (pre, node) :: listed pre found := by
  simp [listed, valid]

theorem listAllMember_eq (node : Node) (pre : String) :
    listAllMember pre node = listed pre (paths node) := by
  induction node using Node.induct generalizing pre with
  | scalar text =>
    rw [listAllMember, paths]
    split
    next invalid => rw [listed_of_invalid invalid]
    next valid => rw [listed_root (by simpa using valid), listed, List.map_nil, List.filter_nil]
  | sequence items =>
    rw [listAllMember, paths]
    split
    next invalid => rw [listed_of_invalid invalid]
    next valid => rw [listed_root (by simpa using valid), listed, List.map_nil, List.filter_nil]
  | map entries ih =>
    have below : listEntries pre entries = listed pre (entriesPaths entries) := by
      induction entries with
      | nil => rfl
      | cons entry entries rest =>
        rw [listEntries, entriesPaths, listed_append, rest fun e member => ih e (by simp [member])]
        rw [listEntry, entryPaths, listed_under, ih entry (by simp)]
    rw [listAllMember, paths]
    split
    next invalid => rw [listed_of_invalid invalid]
    next valid => rw [listed_root (by simpa using valid), below]

/-! ## The names -/

theorem dotted_cons (pre key : String) (keys : List String) :
    dotted (pre :: key :: keys) = dotted ((pre ++ "." ++ key) :: keys) := rfl

theorem foldl_join {pre : String} (full : pre ≠ "") (keys : List String) :
    keys.foldl join pre = dotted (pre :: keys) := by
  induction keys generalizing pre with
  | nil => rfl
  | cons key keys ih =>
    have joined : join pre key = pre ++ "." ++ key := by simp [join, full]
    rw [List.foldl_cons, joined, ih (by simp), dotted_cons]

/-- An empty key at the start of a path leaves no trace. -/
theorem codeName_eq (keys : List String) :
    codeName keys = dotted (keys.dropWhile String.isEmpty) := by
  induction keys with
  | nil => rfl
  | cons key keys ih =>
    rcases eq_or_ne key "" with rfl | full
    · rw [List.dropWhile_cons_of_pos rfl, ← ih]
      rfl
    · rw [List.dropWhile_cons_of_neg (by simpa using full), ← foldl_join full]
      rfl

theorem dotted_ne_empty {keys : List String} (nonempty : keys ≠ [])
    (first : keys.head? ≠ some "") : dotted keys ≠ "" := by
  obtain ⟨key, keys, rfl⟩ := List.exists_cons_of_ne_nil nonempty
  rw [List.head?_cons, ne_eq, Option.some.injEq] at first
  induction keys generalizing key with
  | nil => exact first
  | cons next keys ih =>
    rw [dotted_cons]
    exact ih _ (by simp) (by simp)

/-! ## The calls -/

/-- Where no two elements have the same key, one of them is all that its key selects. -/
theorem filter_key_eq {α κ : Type} [DecidableEq κ] {key : α → κ} {xs : List α} {x : α}
    (distinct : (xs.map key).Nodup) (member : x ∈ xs) :
    xs.filter (fun y => key y == key x) = [x] := by
  induction xs with
  | nil => exact absurd member List.not_mem_nil
  | cons y ys ih =>
    obtain ⟨fresh, distinct'⟩ := List.nodup_cons.mp distinct
    rcases List.mem_cons.mp member with rfl | later
    · have none : ys.filter (fun y => key y == key x) = [] := by
        rw [List.filter_eq_nil_iff]
        intro y among same
        exact fresh (List.mem_map.mpr ⟨y, among, by simpa using same⟩)
      rw [List.filter_cons_of_pos (by simp), none]
    · have other : key y ≠ key x := fun same => fresh (List.mem_map.mpr ⟨x, later, same.symm⟩)
      rw [List.filter_cons_of_neg (by simpa using other), ih distinct' later]

section Calls

variable (yaml : Yaml) (registered : String → Bool) (root : Node)

/-- The texts of the nodes on the paths that are named so. -/
def textsAt (nameOf : List String → String) (name : String) : List String :=
  ((paths root).filter fun path => !path.1.isEmpty && nameOf path.1 == name).map fun path =>
    text yaml path.2

/-- A variable whose name is the name of a path is given its text, once, and no other variable is
given one. -/
structure Loaded (calls : List (String × String)) : Prop where
  reached : ∀ path ∈ paths root, path.1 ≠ [] → registered (dotted path.1) →
    calls.filter (fun call => call.1 == dotted path.1) = [(dotted path.1, text yaml path.2)]
  only : ∀ call ∈ calls, registered call.1 ∧
    ∃ path ∈ paths root, path.1 ≠ [] ∧ dotted path.1 = call.1

/-- No two paths have the same dotted name. -/
def Distinct : Prop :=
  (((paths root).filter fun path => !path.1.isEmpty).map fun path => dotted path.1).Nodup

theorem loadFromYaml_eq : loadFromYaml yaml registered root = (paths root).filterMap fun path =>
    if invalidName (codeName path.1) = false ∧ codeName path.1 ≠ "" ∧
        registered (codeName path.1) then
      some (codeName path.1, text yaml path.2)
    else none := by
  rw [loadFromYaml, listAllMember_eq, listed, List.filterMap_filter, List.filterMap_map]
  refine List.filterMap_congr fun path _ => ?_
  rcases valid : invalidName (codeName path.1) with _ | _
  · simp only [Function.comp_apply, foldl_join_empty, valid, toLower_of_valid valid]
    by_cases empty : codeName path.1 = "" <;> simp [empty]
  · simp [foldl_join_empty, valid]

/-- The calls for one variable. -/
theorem calls_for {name : String} (known : registered name = true) :
    (loadFromYaml yaml registered root).filter (fun call => call.1 == name) =
      (if invalidName name ∨ name = "" then [] else textsAt yaml root codeName name).map
        fun value => (name, value) := by
  rw [loadFromYaml_eq, List.filter_filterMap]
  split
  next refused =>
    rw [List.map_nil, List.filterMap_eq_nil_iff]
    intro path _
    split
    next taken =>
      have other : codeName path.1 ≠ name := by
        rintro rfl
        rcases refused with invalid | empty
        · exact absurd invalid (by simp [taken.1])
        · exact taken.2.1 empty
      simp [other]
    next => rfl
  next accepted =>
    rw [not_or, Bool.not_eq_true] at accepted
    rw [textsAt, List.map_map, ← List.filterMap_eq_map, List.filterMap_filter]
    refine List.filterMap_congr fun path _ => ?_
    by_cases same : codeName path.1 = name
    · -- the tree itself has no name, so a path that has one is not empty
      have keyed : path.1 ≠ [] := by
        intro none
        rw [none] at same
        exact accepted.2 same.symm
      simp [same, accepted.1, accepted.2, known, keyed]
    · have other : ¬(!path.1.isEmpty && codeName path.1 == name) = true := by simp [same]
      rw [if_neg other]
      split
      next => simp [same]
      next => rfl

theorem registered_of_call {call : String × String}
    (made : call ∈ loadFromYaml yaml registered root) : registered call.1 = true := by
  rw [loadFromYaml_eq, List.mem_filterMap] at made
  obtain ⟨path, -, given⟩ := made
  split at given
  next taken =>
    obtain rfl := Option.some.inj given
    exact taken.2.2
  next => exact absurd given (by simp)

variable {root}

/-- Two paths are not named so, thus the node on the one that is gives the only text. -/
theorem textsAt_dotted (distinct : Distinct root) {path : List String × Node}
    (found : path ∈ paths root) (keyed : path.1 ≠ []) :
    textsAt yaml root dotted (dotted path.1) = [text yaml path.2] := by
  have kept : path ∈ (paths root).filter fun path => !path.1.isEmpty :=
    List.mem_filter.mpr ⟨found, by simpa using keyed⟩
  have alone : ((paths root).filter fun path => !path.1.isEmpty).filter
      (fun other => dotted other.1 == dotted path.1) = [path] :=
    filter_key_eq distinct kept
  rw [List.filter_filter] at alone
  rw [textsAt]
  simp only [Bool.and_comm (dotted _ == _)] at alone
  rw [alone, List.map_singleton]

variable (root)

/-- What a variable is given: nothing when its name has the digit that is missing or is empty,
else the texts on the paths that have its name once empty keys at the start are left out. -/
def textsTaken (name : String) : List String :=
  if '9' ∈ name.toList ∨ name = "" then []
  else textsAt yaml root (fun keys => dotted (keys.dropWhile String.isEmpty)) name

variable {yaml registered root}

theorem calls_for_documented {name : String} (known : registered name = true)
    (documented : ∀ c ∈ name.toList, Documented c) :
    (loadFromYaml yaml registered root).filter (fun call => call.1 == name) =
      (textsTaken yaml root name).map fun value => (name, value) := by
  have refused : invalidName name = true ↔ '9' ∈ name.toList := by
    rw [refused_iff, or_iff_left]
    rintro ⟨c, member, other⟩
    exact other (documented c member)
  rw [calls_for yaml registered root known, textsTaken, ← funext codeName_eq]
  simp only [refused]

/-- A list of calls for one variable tells the texts. -/
theorem calls_inj (name : String) {xs ys : List String}
    (same : (xs.map fun value => (name, value)) = ys.map fun value => (name, value)) : xs = ys :=
  (List.map_injective_iff.mpr fun _ _ pair => (Prod.mk.inj pair).2) same

theorem loaded_iff_texts
    (documented : ∀ name, registered name = true → ∀ c ∈ name.toList, Documented c)
    (distinct : Distinct root) :
    Loaded yaml registered root (loadFromYaml yaml registered root) ↔
      ∀ name, registered name = true →
        textsAt yaml root dotted name = textsTaken yaml root name := by
  constructor
  · intro loaded name known
    apply calls_inj name
    rw [← calls_for_documented known (documented name known)]
    by_cases named : ∃ path ∈ paths root, path.1 ≠ [] ∧ dotted path.1 = name
    · obtain ⟨path, found, keyed, rfl⟩ := named
      rw [loaded.reached path found keyed known, textsAt_dotted yaml distinct found keyed]
      rfl
    · have nowhere : textsAt yaml root dotted name = [] := by
        rw [textsAt, List.map_eq_nil_iff, List.filter_eq_nil_iff]
        intro path found at_name
        rw [Bool.and_eq_true] at at_name
        exact named ⟨path, found, by simpa using at_name.1, by simpa using at_name.2⟩
      have untouched :
          (loadFromYaml yaml registered root).filter (fun call => call.1 == name) = [] := by
        rw [List.filter_eq_nil_iff]
        intro call made to_name
        obtain ⟨-, path, found, keyed, same⟩ := loaded.only call made
        exact named ⟨path, found, keyed, same.trans (by simpa using to_name)⟩
      rw [nowhere, untouched, List.map_nil]
  · intro same
    refine ⟨fun path found keyed known => ?_, fun call made => ?_⟩
    · rw [calls_for_documented known (documented _ known), ← same _ known]
      rw [textsAt_dotted yaml distinct found keyed, List.map_singleton]
    · have known := registered_of_call yaml registered root made
      have among :
          call ∈ (loadFromYaml yaml registered root).filter fun other => other.1 == call.1 :=
        List.mem_filter.mpr ⟨made, by simp⟩
      rw [calls_for_documented known (documented _ known), ← same _ known] at among
      obtain ⟨value, at_name, -⟩ := List.mem_map.mp among
      obtain ⟨path, kept, -⟩ := List.mem_map.mp at_name
      rw [List.mem_filter, Bool.and_eq_true] at kept
      exact ⟨known, path, kept.1, by simpa using kept.2.1, by simpa using kept.2.2⟩

theorem textsAt_eq_nil_iff {name : String} : textsAt yaml root dotted name = [] ↔
    ∀ path ∈ paths root, path.1 ≠ [] → dotted path.1 ≠ name := by
  simp [textsAt, List.filter_eq_nil_iff]

/-- Without empty keys at the start of a path, only the digit counts. -/
theorem textsAt_eq_taken_iff (keyed : ∀ path ∈ paths root, path.1.head? ≠ some "")
    (name : String) : textsAt yaml root dotted name = textsTaken yaml root name ↔
      ∀ path ∈ paths root, path.1 ≠ [] → dotted path.1 = name → '9' ∉ name.toList := by
  have kept : ∀ path ∈ paths root, path.1.dropWhile String.isEmpty = path.1 := by
    intro path found
    have first := keyed path found
    rcases shape : path.1 with _ | ⟨key, keys⟩
    · rfl
    · rw [shape] at first
      exact List.dropWhile_cons_of_neg (by simpa using first)
  have same : textsAt yaml root (fun keys => dotted (keys.dropWhile String.isEmpty)) name =
      textsAt yaml root dotted name := by
    rw [textsAt, textsAt, List.filter_congr fun path found => by rw [kept path found]]
  rw [textsTaken, same]
  split
  next none =>
    rw [textsAt_eq_nil_iff]
    refine forall₂_congr fun path found => imp_congr_right fun nonempty => ?_
    rcases none with nine | rfl
    · simp [nine]
    · have named := dotted_ne_empty nonempty (keyed path found)
      simp [named]
  next some =>
    have absent : '9' ∉ name.toList := fun nine => some (.inl nine)
    simp [absent]

/-- Which names `Lookup` refuses. -/
theorem lookup_throws_iff {τ : Type} [DecidableEq τ] {datas : Datas τ} {name : String}
    (unknown : datas name = none) (type : τ) :
    lookup type name datas = .error name ↔
      '9' ∈ name.toList ∨ ∃ c ∈ name.toList, ¬Documented c := by
  rw [← refused_iff, lookup, unknown]
  dsimp only
  split
  next invalid => simp [invalid]
  next valid => simp [valid]

/-- Where loading reaches every variable whose name is a path, and where `Lookup` throws for the
characters that it is documented to throw for. -/
theorem loading_reaches_iff {τ : Type} [DecidableEq τ] (datas : Datas τ)
    (documented : ∀ name, (datas name).isSome → ∀ c ∈ name.toList, Documented c)
    (distinct : Distinct root) :
    (Loaded yaml (fun name => (datas name).isSome) root
        (loadFromYaml yaml (fun name => (datas name).isSome) root) ↔
      ∀ name, (datas name).isSome → textsAt yaml root dotted name = textsTaken yaml root name) ∧
    ((∀ path ∈ paths root, path.1.head? ≠ some "") →
      (Loaded yaml (fun name => (datas name).isSome) root
          (loadFromYaml yaml (fun name => (datas name).isSome) root) ↔
        ∀ path ∈ paths root, path.1 ≠ [] → (datas (dotted path.1)).isSome →
          '9' ∉ (dotted path.1).toList)) ∧
    (∀ (type : τ) (name : String), datas name = none →
      ((lookup type name datas = .error name ↔ ∃ c ∈ name.toList, ¬Documented c) ↔
        ('9' ∉ name.toList ∨ ∃ c ∈ name.toList, ¬Documented c))) := by
  have loaded := @loaded_iff_texts yaml (fun name => (datas name).isSome) root documented distinct
  refine ⟨loaded, fun keyed => ?_, fun type name unknown => ?_⟩
  · rw [loaded]
    constructor
    · intro same path found nonempty known
      exact (textsAt_eq_taken_iff keyed _).mp (same _ known) path found nonempty rfl
    · intro absent name known
      refine (textsAt_eq_taken_iff keyed name).mpr fun path found nonempty named => ?_
      exact named ▸ absent path found nonempty (named.symm ▸ known)
  · rw [lookup_throws_iff unknown]
    tauto

end Calls

/-- One variable is registered. -/
def onlyVar (name : String) : Datas Unit := fun other => if other = name then some () else none

def emptyYaml : Yaml := ⟨fun _ => "", fun _ => none⟩

/-- A variable `http.port` and a tree that has it in a map, beside what no variable is registered for. -/
theorem loading_reaches_iff_port :
    Loaded emptyYaml (fun name => (onlyVar "http.port" name).isSome)
      (.map [("http", .map [("host", .scalar "a"), ("port", .scalar "80")])])
      (loadFromYaml emptyYaml (fun name => (onlyVar "http.port" name).isSome)
        (.map [("http", .map [("host", .scalar "a"), ("port", .scalar "80")])])) := by
  refine ((loading_reaches_iff (onlyVar "http.port") ?_ ?_).2.1 ?_).mpr ?_
  · intro name known
    have same : name = "http.port" := by
      by_contra other
      simp [onlyVar, other] at known
    have letters : "http.port".toList = ['h', 't', 't', 'p', '.', 'p', 'o', 'r', 't'] := rfl
    rw [same, letters]
    simp [Documented]
  · unfold Distinct
    decide +kernel
  · decide +kernel
  · decide +kernel

/-- A digit that the documentation allows is refused, in the tree and in `Lookup`, and a variable
is given the text on a path that begins with an empty key. -/
theorem loading_misses :
    (∀ c ∈ "v9".toList, Documented c) ∧ lookup () "v9" (onlyVar "v") = .error "v9" ∧
    Distinct (.map [("v9", .scalar "1")]) ∧ Distinct (.map [("", .map [("v", .scalar "1")])]) ∧
    ¬Loaded emptyYaml (fun name => (onlyVar "v9" name).isSome) (.map [("v9", .scalar "1")])
      (loadFromYaml emptyYaml (fun name => (onlyVar "v9" name).isSome)
        (.map [("v9", .scalar "1")])) ∧
    ¬Loaded emptyYaml (fun name => (onlyVar "v" name).isSome)
      (.map [("", .map [("v", .scalar "1")])])
      (loadFromYaml emptyYaml (fun name => (onlyVar "v" name).isSome)
        (.map [("", .map [("v", .scalar "1")])])) := by
  refine ⟨?_, rfl, ?_, ?_, fun loaded => ?_, fun loaded => ?_⟩
  · have letters : "v9".toList = ['v', '9'] := rfl
    rw [letters]
    simp [Documented]
  · unfold Distinct
    decide +kernel
  · unfold Distinct
    decide +kernel
  · have call := loaded.reached (["v9"], .scalar "1") (by simp [paths, entriesPaths, entryPaths])
      (by simp) rfl
    exact absurd call (by decide +kernel)
  · obtain ⟨-, path, found, keyed, same⟩ := loaded.only ("v", "1") (by decide +kernel)
    simp only [paths, entriesPaths, entryPaths, List.map_cons, List.map_nil, List.append_nil,
      List.mem_cons, List.not_mem_nil, or_false] at found
    rcases found with rfl | rfl | rfl
    · exact keyed rfl
    · exact absurd same (by decide +kernel)
    · exact absurd same (by decide +kernel)

end ServerFrame.Config
