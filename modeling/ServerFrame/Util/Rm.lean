import ServerFrame.Util.FSUtil

/-!
# `FSUtil::Rm`

What is left of a tree depends on the tree and on the calls that fail alone. The loop over the entries
keeps no memory of the ones before the last in `ret`, but what they leave keeps `rmdir` from removing
the directory.
-/
namespace ServerFrame.FSUtil

open FileTree

variable (faults : Faults)

/-! ## What can be removed and what cannot -/

/-- Every call on the tree succeeds, and `opendir` is only called for the directories. -/
inductive Removable : Path → Entry → Prop
  | leaf {path : Path} {file : File} (found : faults.lstat path = false)
      (mode : stMode (.leaf file) &&& S_IFDIR = 0) (again : faults.lstatAgain path = false)
      (unlinked : faults.unlink path = false) : Removable path (.leaf file)
  | dir {path : Path} {entries : List (Name × Entry)} (found : faults.lstat path = false)
      (opened : faults.opendir path = false) (all : faults.read path entries = entries)
      (below : ∀ entry ∈ entries, Removable (path ++ [entry.1]) entry.2)
      (removed : faults.rmdir path = false) : Removable path (.dir entries)

/-- No call removes anything of the tree. -/
inductive Stuck : Path → Entry → Prop
  | lstat {path : Path} {tree : Entry} (failed : faults.lstat path = true) : Stuck path tree
  | leaf {path : Path} {file : File} (held : stMode (.leaf file) &&& S_IFDIR = 0 →
      faults.lstatAgain path = true ∨ faults.unlink path = true) : Stuck path (.leaf file)
  | opendir {path : Path} {entries : List (Name × Entry)} (failed : faults.opendir path = true) :
      Stuck path (.dir entries)
  | dir {path : Path} {entries : List (Name × Entry)}
      (below : ∀ entry ∈ faults.read path entries, Stuck (path ++ [entry.1]) entry.2)
      (held : entries = [] → faults.rmdir path = true) : Stuck path (.dir entries)

/-- A failed `lstat` makes `Rm` take an entry for missing. -/
def Overlooked (path : Path) : Entry → Prop
  | .leaf file => faults.lstat path = true ∨
      stMode (.leaf file) &&& S_IFDIR = 0 ∧ faults.lstatAgain path = true
  | .dir _ => faults.lstat path = true

variable {faults} {path : Path} {tree : Entry}

theorem removable_not_stuck (removable : Removable faults path tree) : ¬ Stuck faults path tree := by
  induction removable with
  | leaf found mode again unlinked =>
    intro stuck
    cases stuck with
    | lstat failed => simp [found] at failed
    | leaf held => simp [mode, again, unlinked] at held
  | @dir path entries found opened all below removed ih =>
    intro stuck
    cases stuck with
    | lstat failed => simp [found] at failed
    | opendir failed => simp [opened] at failed
    | dir below' held =>
      cases entries with
      | nil => simp [removed] at held
      | cons entry entries =>
        rw [all] at below'
        exact ih entry List.mem_cons_self (below' entry List.mem_cons_self)

theorem overlooked_stuck (overlooked : Overlooked faults path tree) : Stuck faults path tree := by
  cases tree with
  | leaf file =>
    rcases overlooked with failed | ⟨_, failed⟩
    · exact .lstat failed
    · exact .leaf fun _ => .inl failed
  | dir entries => exact .lstat overlooked

variable (faults path tree)

/-- What `Rm` returns and what it leaves of a tree, whatever stands elsewhere. -/
structure Outcome (ret : Bool) (left : Option Entry) : Prop where
  run : ∀ depth fs, tree.height < depth → lookup fs path = some tree →
    rmRun faults depth fs path = some (ret, put fs path left)
  gone : left = none ↔ Removable faults path tree
  same : left = some tree ↔ Stuck faults path tree
  ret_of_gone : left = none → ret = true
  ret_of_left : left ≠ none → (ret = true ↔ Overlooked faults path tree)

variable {faults path tree}

/-- `Rm` that removes all of the tree. -/
theorem outcome_gone (removable : Removable faults path tree)
    (run : ∀ depth fs, tree.height < depth + 1 → lookup fs path = some tree →
      rmRun faults (depth + 1) fs path = some (true, put fs path none)) :
    Outcome faults path tree true none where
  run depth fs deep stands := by
    obtain ⟨depth, rfl⟩ := Nat.exists_eq_succ_of_ne_zero (Nat.ne_zero_of_lt deep)
    exact run depth fs deep stands
  gone := iff_of_true rfl removable
  same := iff_of_false (fun same => by cases same) (removable_not_stuck removable)
  ret_of_gone _ := rfl
  ret_of_left left := absurd rfl left

/-- `Rm` that leaves something. -/
theorem outcome_left {ret : Bool} {left : Entry} (held : ¬ Removable faults path tree)
    (same : left = tree ↔ Stuck faults path tree)
    (ret_ : ret = true ↔ Overlooked faults path tree)
    (run : ∀ depth fs, tree.height < depth + 1 → lookup fs path = some tree →
      rmRun faults (depth + 1) fs path = some (ret, put fs path (some left))) :
    Outcome faults path tree ret (some left) where
  run depth fs deep stands := by
    obtain ⟨depth, rfl⟩ := Nat.exists_eq_succ_of_ne_zero (Nat.ne_zero_of_lt deep)
    exact run depth fs deep stands
  gone := iff_of_false (fun gone => by cases gone) held
  same := by rw [Option.some.injEq, same]
  ret_of_gone gone := by cases gone
  ret_of_left _ := ret_

/-- `Rm` that does nothing. -/
theorem outcome_same {ret : Bool} (stuck : Stuck faults path tree)
    (ret_ : ret = true ↔ Overlooked faults path tree)
    (run : ∀ depth fs, lookup fs path = some tree →
      rmRun faults (depth + 1) fs path = some (ret, fs)) :
    Outcome faults path tree ret (some tree) := by
  refine outcome_left (fun removable => removable_not_stuck removable stuck)
    (iff_of_true rfl stuck) ret_ fun depth fs _ stands => ?_
  rw [← stands, put_lookup]
  exact run depth fs stands

theorem leaf_outcome (path : Path) (file : File) :
    ∃ ret left, Outcome faults path (.leaf file) ret left := by
  by_cases overlooked : Overlooked faults path (.leaf file)
  · refine ⟨true, _, outcome_same (overlooked_stuck overlooked) (iff_of_true rfl overlooked)
      fun depth fs stands => ?_⟩
    rcases overlooked with failed | ⟨mode, failed⟩
    · simp [rmRun, lstat, failed]
    · cases found : faults.lstat path <;>
        simp [rmRun, lstat, found, stands, mode, Unlink, failed]
  · obtain ⟨found, again⟩ := not_or.mp overlooked
    rw [Bool.not_eq_true] at found
    have false_ := iff_of_false Bool.false_ne_true overlooked
    by_cases mode : stMode (.leaf file) &&& S_IFDIR = 0
    · have again_ : faults.lstatAgain path = false := by simpa [mode] using again
      cases unlinked : faults.unlink path with
      | true =>
        refine ⟨false, _, outcome_same (.leaf fun _ => .inr unlinked) false_ fun depth fs stands => ?_⟩
        simp [rmRun, lstat, found, stands, mode, Unlink, again_, unlink, unlinked]
      | false =>
        refine ⟨true, none, outcome_gone (.leaf found mode again_ unlinked) fun depth fs _ stands => ?_⟩
        simp [rmRun, lstat, found, stands, mode, Unlink, again_, unlink, unlinked]
    · -- a socket or a block device, which `opendir` does not open
      refine ⟨false, _, outcome_same (.leaf fun mode_ => absurd mode_ mode) false_
        fun depth fs stands => ?_⟩
      simp [rmRun, lstat, found, stands, mode, opendir]

/-- The loop leaves of each entry what `Rm` leaves of it, and what was not listed stays. -/
theorem rmEntries_outcome (listed : List (Name × Entry))
    (each : ∀ entry ∈ listed, Allowed entry.1 ∧
      ∃ ret left, Outcome faults (path ++ [entry.1]) entry.2 ret left) (ret : Bool) :
    ∃ ret' left, left.length ≤ listed.length ∧
      (left = [] ↔ ∀ entry ∈ listed, Removable faults (path ++ [entry.1]) entry.2) ∧
      (left = listed ↔ ∀ entry ∈ listed, Stuck faults (path ++ [entry.1]) entry.2) ∧
      (left = [] → ret = true → ret' = true) ∧
      ∀ depth fs kept rest, (∀ entry ∈ listed, entry.2.height < depth) →
        ((kept ++ (listed ++ rest)).map Prod.fst).Nodup →
        lookup fs path = some (.dir (kept ++ (listed ++ rest))) →
        rmEntries (rmRun faults depth) path (listed.map Prod.fst) (ret, fs) =
          some (ret', put fs path (some (.dir (kept ++ (left ++ rest))))) := by
  induction listed generalizing ret with
  | nil =>
    refine ⟨ret, [], Nat.le_refl _, by simp, by simp, fun _ true_ => true_,
      fun depth fs kept rest _ _ stands => ?_⟩
    rw [List.map_nil, rmEntries, ← stands, put_lookup]
  | cons entry listed ih =>
    obtain ⟨⟨_, _, _, noDot, noDotDot⟩, ret₁, left₁, outcome⟩ := each entry List.mem_cons_self
    obtain ⟨ret', left, fewer, gone, same, ret_, run⟩ :=
      ih (fun later member => each later (List.mem_cons_of_mem _ member)) ret₁
    refine ⟨ret', (left₁.map fun tree => (entry.1, tree)).toList ++ left, ?_, ?_, ?_, ?_, ?_⟩
    · cases left₁ <;> simp <;> omega
    · rw [List.forall_mem_cons, ← gone, ← outcome.gone]
      cases left₁ <;> simp
    · rw [List.forall_mem_cons, ← same, ← outcome.same]
      cases left₁ with
      | none =>
        -- one entry less is left
        refine ⟨fun all => ?_, fun all => absurd all.1.symm (Option.some_ne_none _)⟩
        have := congrArg List.length all
        simp at this
        omega
      | some tree =>
        simp [Prod.ext_iff]
    · intro none_ _
      obtain ⟨first, later⟩ := List.append_eq_nil_iff.mp none_
      refine ret_ later (outcome.ret_of_gone ?_)
      cases left₁ with
      | none => rfl
      | some tree => simp at first
    · intro depth fs kept rest deep distinct stands
      -- the entry is found under its name, which no other one has
      have here : lookup fs (path ++ [entry.1]) = some entry.2 := by
        rw [lookup_append, stands, lookup_dir_cons, lookup_nil]
        refine find_append fun before => ?_
        rw [List.map_append] at distinct
        exact (List.nodup_append.mp distinct).2.2 _ before _ List.mem_cons_self rfl
      -- what is left of it stands where it stood
      have behind : put fs (path ++ [entry.1]) left₁ = put fs path (some (.dir
          ((kept ++ (left₁.map fun tree => (entry.1, tree)).toList) ++ (listed ++ rest)))) := by
        rw [put_append, stands, put_dir_cons, put_nil, List.append_assoc]
        congr 3
        rw [List.map_append, List.cons_append, List.map_cons] at distinct
        obtain ⟨_, later, before⟩ := List.nodup_append.mp distinct
        exact update_append (fun member => before _ member _ List.mem_cons_self rfl)
          (List.nodup_cons.mp later).1 left₁
      have distinct' : (((kept ++ (left₁.map fun tree => (entry.1, tree)).toList) ++
          (listed ++ rest)).map Prod.fst).Nodup := by
        refine distinct.sublist ?_
        simp only [List.map_append, List.append_assoc, List.cons_append, List.map_cons]
        refine (List.Sublist.refl _).append ?_
        cases left₁ <;> simp
      rw [List.map_cons, rmEntries, if_neg (not_or.mpr ⟨noDot, noDotDot⟩),
        outcome.run depth fs (deep entry List.mem_cons_self) here, Option.bind_some, behind,
        run depth _ _ rest (fun later member => deep later (List.mem_cons_of_mem _ member)) distinct'
          (lookup_put_self stands _), put_put stands]
      simp only [List.append_assoc]

theorem read_append {α : Type} (faults : Faults) (path : Path) (entries : List α) :
    ∃ rest, entries = faults.read path entries ++ rest := by
  rw [Faults.read]
  split
  · exact ⟨_, (List.take_append_drop _ entries).symm⟩
  · exact ⟨[], (List.append_nil entries).symm⟩

theorem rmdir_held {fs : Option Entry} {path : Path} {entries : List (Name × Entry)}
    (stands : lookup fs path = some (.dir entries)) (held : entries = [] → faults.rmdir path = true) :
    rmdir faults fs path = none := by
  cases entries with
  | nil => simp [rmdir, stands, held]
  | cons entry entries => simp [rmdir, stands]

/-- `Rm` of a directory, once it is known what the loop returns and leaves. -/
theorem rmRun_dir {path : Path} {entries after : List (Name × Entry)} {fs : Option Entry} {depth : Nat}
    {ret : Bool} (stands : lookup fs path = some (.dir entries)) (found : faults.lstat path = false)
    (opened : faults.opendir path = false)
    (loop : rmEntries (rmRun faults depth) path ((faults.read path entries).map Prod.fst) (true, fs) =
      some (ret, put fs path (some (.dir after)))) :
    (rmdir faults (put fs path (some (.dir after))) path = none →
      rmRun faults (depth + 1) fs path = some (false, put fs path (some (.dir after)))) ∧
    ∀ fs', rmdir faults (put fs path (some (.dir after))) path = some fs' →
      rmRun faults (depth + 1) fs path = some (ret, fs') := by
  constructor
  · intro held
    simp [rmRun, lstat, found, stands, dir_mode, opendir, opened, rmEntries, loop, held]
  · intro fs' removed
    simp [rmRun, lstat, found, stands, dir_mode, opendir, opened, rmEntries, loop, removed]

theorem dir_outcome {path : Path} {entries : List (Name × Entry)}
    (distinct : (entries.map Prod.fst).Nodup)
    (each : ∀ entry ∈ entries, Allowed entry.1 ∧
      ∃ ret left, Outcome faults (path ++ [entry.1]) entry.2 ret left) :
    ∃ ret left, Outcome faults path (.dir entries) ret left := by
  cases found : faults.lstat path with
  | true =>
    refine ⟨true, _, outcome_same (.lstat found) (iff_of_true rfl found) fun depth fs stands => ?_⟩
    simp [rmRun, lstat, found]
  | false =>
    have false_ : false = true ↔ Overlooked faults path (.dir entries) := by
      simp [Overlooked, found]
    cases opened : faults.opendir path with
    | true =>
      refine ⟨false, _, outcome_same (.opendir opened) false_ fun depth fs stands => ?_⟩
      simp [rmRun, lstat, found, stands, dir_mode, opendir, opened]
    | false =>
      -- what is listed is a front of the entries; the rest is not touched
      obtain ⟨rest, all⟩ := read_append faults path entries
      have listed_ : ∀ entry ∈ faults.read path entries, entry ∈ entries := by
        intro entry member
        rw [all]
        exact List.mem_append_left _ member
      obtain ⟨ret, left, fewer, gone, same, ret_, run⟩ := rmEntries_outcome
        (faults.read path entries) (fun entry member => each entry (listed_ entry member)) true
      have loop : ∀ depth fs, (Item.dir entries).height < depth + 1 →
          lookup fs path = some (.dir entries) → rmEntries (rmRun faults depth) path
            ((faults.read path entries).map Prod.fst) (true, fs) =
              some (ret, put fs path (some (.dir (left ++ rest)))) := by
        intro depth fs deep stands
        have lower : ∀ entry ∈ faults.read path entries, entry.2.height < depth :=
          fun entry member => by
            have := Item.height_lt (listed_ entry member)
            omega
        exact run depth fs [] rest lower (by rwa [List.nil_append, ← all])
          (by rwa [List.nil_append, ← all])
      by_cases removed : left ++ rest = [] ∧ faults.rmdir path = false
      · -- all is gone, so that `rmdir` succeeds
        obtain ⟨empty, removed⟩ := removed
        obtain ⟨left_, rest_⟩ := List.append_eq_nil_iff.mp empty
        have listed : faults.read path entries = entries := by
          rw [rest_, List.append_nil] at all
          exact all.symm
        have removable : Removable faults path (.dir entries) := by
          refine .dir found opened listed ?_ removed
          rw [← listed]
          exact gone.mp left_
        refine ⟨true, none, outcome_gone removable fun depth fs deep stands => ?_⟩
        rw [← ret_ left_ rfl]
        refine (rmRun_dir stands found opened (loop depth fs deep stands)).2 _ ?_
        simp [rmdir, empty, lookup_put_self stands, removed, put_put stands]
      · have held : left ++ rest = [] → faults.rmdir path = true := by
          intro empty
          simpa [empty] using removed
        -- the directory stays, with what is left and what was not listed
        refine ⟨false, some (.dir (left ++ rest)), outcome_left (fun removable => ?_)
          ⟨fun same_ => ?_, fun stuck => ?_⟩ false_ fun depth fs deep stands => ?_⟩
        · cases removable with
          | dir _ _ listed below removed' =>
            rw [← listed] at below
            have rest_ : rest = [] := by
              rw [listed] at all
              exact List.self_eq_append_right.mp all
            exact absurd ⟨by rw [gone.mpr below, rest_]; rfl, removed'⟩ removed
        · rw [Item.dir.injEq] at same_
          have left_ := List.append_cancel_right (same_.trans all)
          rw [same_] at held
          exact .dir (same.mp left_) held
        · cases stuck with
          | lstat failed => simp [found] at failed
          | opendir failed => simp [opened] at failed
          | dir below _ => rw [same.mpr below, ← all]
        · exact (rmRun_dir stands found opened (loop depth fs deep stands)).1
            (rmdir_held (lookup_put_self stands _) held)

/-- `Rm` comes back from every well-formed tree. -/
theorem rm_outcome (wellFormed : tree.WellFormed Allowed) (path : Path) :
    ∃ ret left, Outcome faults path tree ret left := by
  induction wellFormed generalizing path with
  | leaf file => exact leaf_outcome path file
  | dir distinct names _ ih =>
    exact dir_outcome distinct fun entry member => ⟨names entry member, ih entry member _⟩

/-! ## `Rm` -/

/-- No call fails by itself. -/
def faultless : Faults where
  lstat _ := false
  lstatAgain _ := false
  opendir _ := false
  readdir _ := none
  unlink _ := false
  rmdir _ := false
  rename := false

/-- One file `a`. -/
def single (file : File) : FileSystem where
  root := some (.dir [([97], .leaf file)])
  proper top same := by
    rw [← Option.some.inj same]
    refine .dir (by simp) (fun entry member => ?_) fun entry member => ?_
    · rw [List.mem_singleton.mp member]
      simp [Allowed, dot, dotDot]
    · rw [List.mem_singleton.mp member]
      exact .leaf file

/-- No socket and no block device stands in the tree at a path. -/
def NoneLikeDir (fs : Option Entry) (path : Path) : Prop :=
  ∀ inner file, path <+: inner → lookup fs inner = some (.leaf file) →
    file.kind ≠ .socket ∧ file.kind ≠ .blockDevice

/-- Where no call fails by itself, sockets and block devices are what `Rm` does not remove: their mode
has the bit of a directory. -/
theorem removable_iff (wellFormed : tree.WellFormed Allowed)
    (fine : ∀ inner below, lookup (some tree) inner = some below → faults.NoneAt (path ++ inner)) :
    Removable faults path tree ↔ ∀ inner file, lookup (some tree) inner = some (.leaf file) →
      file.kind ≠ .socket ∧ file.kind ≠ .blockDevice := by
  induction wellFormed generalizing path with
  | leaf file =>
    have here : faults.NoneAt path := by simpa using fine [] _ (lookup_nil _)
    constructor
    · intro removable inner file' stands
      cases removable with
      | leaf _ mode =>
        cases inner with
        | nil =>
          rw [lookup_nil, Option.some.injEq, Item.leaf.injEq] at stands
          exact stands ▸ (leaf_mode_iff file).mp mode
        | cons n inner => simp at stands
    · intro kinds
      exact .leaf here.lstat ((leaf_mode_iff file).mpr (kinds [] file (lookup_nil _))) here.lstatAgain
        here.unlink
  | @dir entries distinct names all ih =>
    have here : faults.NoneAt path := by simpa using fine [] _ (lookup_nil _)
    have listed : faults.read path entries = entries := by rw [Faults.read, here.readdir]
    -- each entry is a tree of its own, whose paths begin with its name
    have below : ∀ entry ∈ entries, Removable faults (path ++ [entry.1]) entry.2 ↔
        ∀ inner file, lookup (some (.dir entries)) (entry.1 :: inner) = some (.leaf file) →
          file.kind ≠ .socket ∧ file.kind ≠ .blockDevice := by
      intro entry member
      have found : ∀ inner, lookup (some (.dir entries)) (entry.1 :: inner) =
          lookup (some entry.2) inner := fun inner => by
        rw [lookup_dir_cons, find_of_mem distinct member]
      simp only [found]
      refine ih entry member fun inner sub stands => ?_
      rw [List.append_assoc]
      exact fine (entry.1 :: inner) sub ((found inner).trans stands)
    constructor
    · intro removable inner file stands
      cases removable with
      | dir _ _ _ each _ =>
        cases inner with
        | nil => simp at stands
        | cons n inner =>
          rw [lookup_dir_cons] at stands
          cases found : find n entries with
          | none => simp [found] at stands
          | some tree =>
            have member := mem_of_find found
            exact (below _ member).mp (each _ member) inner file (by rwa [lookup_dir_cons])
    · intro kinds
      exact .dir here.lstat here.opendir listed
        (fun entry member => (below entry member).mpr fun inner => kinds (entry.1 :: inner)) here.rmdir

theorem removable_at_iff (fs : FileSystem) (stands : lookup fs.root path = some tree)
    (fine : faults.NoneIn fs.root path) : Removable faults path tree ↔ NoneLikeDir fs.root path := by
  have inside : ∀ inner, lookup fs.root (path ++ inner) = lookup (some tree) inner := fun inner => by
    rw [lookup_append, stands]
  rw [removable_iff (wellFormed_lookup fs.proper stands) fun inner below found =>
    fine (path ++ inner) (List.prefix_append path inner) (by rw [inside, found]; rfl)]
  constructor
  · rintro kinds _ file ⟨inner, rfl⟩ found
    exact kinds inner file (by rwa [← inside])
  · intro kinds inner file found
    exact kinds (path ++ inner) file (List.prefix_append path inner) (by rwa [inside])

theorem rm_none (stands : lookup fs path = none) (faults : Faults) :
    Rm faults fs path = some (true, fs) := by
  simp [Rm, rmRun, lstat, stands]

theorem rm_some (faults : Faults) (fs : FileSystem) (stands : lookup fs.root path = some tree) :
    ∃ ret left, Outcome faults path tree ret left ∧
      Rm faults fs.root path = some (ret, put fs.root path left) := by
  obtain ⟨ret, left, outcome⟩ := rm_outcome (wellFormed_lookup fs.proper stands) path
  refine ⟨ret, left, outcome, outcome.run _ _ ?_ stands⟩
  rw [stands]
  exact Nat.lt_succ_self _

/-- `Rm` comes back always. It removes the tree and says so where no call fails by itself, and it never
says so wrongly, exactly if there is no socket and no block device in such a tree, whose mode has the
bit of a directory, and if no failed `lstat` makes what stands at the path look missing. -/
theorem rm_removes_iff (faults : Faults) (fs : FileSystem) (path : Path) :
    (∃ ret fs', Rm faults fs.root path = some (ret, fs') ∧
      (faults.NoneIn fs.root path → ret = true ∧ ∀ inner, (lookup fs' inner).map Item.label =
        if path <+: inner then none else (lookup fs.root inner).map Item.label) ∧
      (ret = true → lookup fs' path = none)) ↔
    (faults.NoneIn fs.root path → NoneLikeDir fs.root path) ∧
      ∀ tree, lookup fs.root path = some tree → ¬ Overlooked faults path tree := by
  cases stands : lookup fs.root path with
  | none =>
    have inside : ∀ inner, path <+: inner → lookup fs.root inner = none := by
      rintro _ ⟨inner, rfl⟩
      rw [lookup_append, stands, lookup_none]
    refine iff_of_true
      ⟨true, fs.root, rm_none stands faults, fun _ => ⟨rfl, fun inner => ?_⟩, fun _ => stands⟩
      ⟨fun _ inner file below found => ?_, fun tree some_ => by cases some_⟩
    · split
      · rw [inside inner ‹_›, Option.map_none]
      · rfl
    · rw [inside inner below] at found
      cases found
  | some tree =>
    obtain ⟨ret, left, outcome, run⟩ := rm_some faults fs stands
    rw [run]
    simp only [Option.some.injEq, forall_eq']
    cases left with
    | none =>
      -- all of it is gone
      have removable := outcome.gone.mp rfl
      constructor
      · intro _
        exact ⟨fun fine => (removable_at_iff fs stands fine).mp removable,
          fun missed => removable_not_stuck removable (overlooked_stuck missed)⟩
      · intro _
        refine ⟨ret, _, rfl, fun _ => ⟨outcome.ret_of_gone rfl, fun inner => ?_⟩,
          fun _ => lookup_put_none fs.root path⟩
        split
        · obtain ⟨rest, rfl⟩ := ‹path <+: inner›
          rw [lookup_append, lookup_put_none, lookup_none, Option.map_none]
        · exact label_put ‹_› fs.root none
    | some rest =>
      have ret_ := outcome.ret_of_left (Option.some_ne_none rest)
      constructor
      · rintro ⟨_, _, same, removes, wrongly⟩
        obtain ⟨rfl, rfl⟩ := Prod.mk.inj same
        -- something is left, so that no `true` was right
        rw [lookup_put_self stands] at wrongly
        exact ⟨fun fine => absurd (wrongly (removes fine).1) (Option.some_ne_none rest),
          fun missed => absurd (wrongly (ret_.mpr missed)) (Option.some_ne_none rest)⟩
      · rintro ⟨kinds, noticed⟩
        refine ⟨ret, _, rfl, fun fine => ?_, fun true_ => absurd (ret_.mp true_) noticed⟩
        have gone := outcome.gone.mpr ((removable_at_iff fs stands fine).mpr (kinds fine))
        cases gone

/-- `opendir` does not open a socket. -/
theorem rm_keeps_socket : faultless.NoneIn (single ⟨.socket, 1⟩).root [[97]] ∧
    Rm faultless (single ⟨.socket, 1⟩).root [[97]] = some (false, (single ⟨.socket, 1⟩).root) :=
  ⟨fun _ _ _ => ⟨rfl, rfl, rfl, rfl, rfl, rfl⟩, by rfl⟩

end ServerFrame.FSUtil
