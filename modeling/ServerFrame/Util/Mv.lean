import ServerFrame.Util.Rm

/-!
# `FSUtil::Mv`

What stands at the new path is removed before `rename` is tried.
-/
namespace ServerFrame.FSUtil

open FileTree

variable {faults : Faults} {path : Path} {tree : Entry}

/-- Both paths are names of one file. -/
def SameFile (fs : Option Entry) (frm dest : Path) : Prop :=
  ∃ file there, lookup fs frm = some (.leaf file) ∧ lookup fs dest = some (.leaf there) ∧
    there.inode = file.inode

/-- Neither path leads to the other or through it. -/
def Apart (frm dest : Path) : Prop := ¬ frm <+: dest ∧ ¬ dest <+: frm

section Rename

variable {fs : Option Entry} {frm dest : Path}

/-- All that `rename` can do. -/
theorem rename_cases (faults : Faults) (fs : Option Entry) (frm dest : Path) :
    rename faults fs frm dest = none ∨
    (rename faults fs frm dest = some fs ∧ faults.rename = false ∧ (lookup fs frm).isSome ∧
      (frm = dest ∨ SameFile fs frm dest)) ∨
    (rename faults fs frm dest = some (put (put fs frm none) dest (lookup fs frm)) ∧
      faults.rename = false ∧ (lookup fs frm).isSome ∧ Apart frm dest ∧ ¬ SameFile fs frm dest ∧
      ∃ entries, lookup fs dest.dropLast = some (.dir entries)) := by
  rw [rename, SameFile]
  cases stands : lookup fs frm with
  | none => exact .inl rfl
  | some entry =>
    cases fine : faults.rename with
    | true => exact .inl rfl
    | false =>
      by_cases same : frm = dest
      · exact .inr (.inl ⟨by simp [same], rfl, rfl, .inl same⟩)
      by_cases nested : frm <+: dest ∨ dest <+: frm
      · exact .inl (by simp [same, nested])
      have apart : Apart frm dest := not_or.mp nested
      have below : dest ≠ [] := fun top => apart.2 (top ▸ List.nil_prefix)
      simp only [same, nested]
      -- `apart` is what is left of the tests; now it depends on what is replaced
      cases found : lookup fs dest with
      | none =>
        rcases cases_of (lookup fs dest.dropLast) with inside | ⟨content, inside⟩ | ⟨entries, inside⟩ <;>
          simp [inside, apart]
      | some there =>
        have inside := lookup_dropLast found below
        cases there with
        | leaf there =>
          cases entry with
          | leaf file =>
            by_cases inode : there.inode = file.inode <;> simp [inode, inside, apart]
          | dir entries => exact .inl rfl
        | dir held =>
          cases entry with
          | leaf file => cases held <;> exact .inl rfl
          | dir entries => cases held <;> simp [inside, apart]

theorem rename_same (fine : faults.rename = false) (other : frm ≠ dest)
    (same : SameFile fs frm dest) : rename faults fs frm dest = some fs := by
  obtain ⟨file, there, stands, found, inode⟩ := same
  -- nothing stands below a file, so that neither path is below the other
  have below : ∀ {path path' : Path} {file there : File}, lookup fs path = some (.leaf file) →
      lookup fs path' = some (.leaf there) → path <+: path' → path = path' := by
    rintro path _ file there leaf leaf' ⟨rest, rfl⟩
    rw [lookup_append, leaf] at leaf'
    cases rest with
    | nil => rw [List.append_nil]
    | cons n rest => simp at leaf'
  have apart : ¬ (frm <+: dest ∨ dest <+: frm) := by
    rintro (inside | inside)
    · exact other (below stands found inside)
    · exact other (below found stands inside).symm
  simp [rename, stands, fine, other, apart, found, inode]

theorem rename_free {entries : List (Name × Entry)} (fine : faults.rename = false)
    (stands : lookup fs frm = some tree) (apart : Apart frm dest) (free : lookup fs dest = none)
    (inside : lookup fs dest.dropLast = some (.dir entries)) :
    rename faults fs frm dest = some (put (put fs frm none) dest (some tree)) := by
  have other : frm ≠ dest := fun same => apart.1 (same ▸ List.prefix_refl frm)
  simp [rename, stands, fine, other, apart.1, apart.2, free, inside]

/-- What is renamed stands at its new name only. -/
theorem lookup_moved {entries : List (Name × Entry)} (apart : Apart frm dest)
    (inside : lookup fs dest.dropLast = some (.dir entries)) (entry : Option Entry) :
    lookup (put (put fs frm none) dest entry) dest = entry ∧
      lookup (put (put fs frm none) dest entry) frm = none := by
  have below : dest ≠ [] := fun top => apart.2 (top ▸ List.nil_prefix)
  constructor
  · -- the directory of the new name does not go away with the old one
    have outside : ¬ frm <+: dest.dropLast := fun inside =>
      apart.1 (inside.trans (List.dropLast_prefix dest))
    obtain ⟨_, dir⟩ := lookup_put_dir outside inside none
    exact lookup_put_entry below dir entry
  · rw [lookup_put_apart apart.2 apart.1, lookup_put_none]

end Rename

section Move

variable {fs fs' : Option Entry} {frm dest : Path} {ret : Bool}

/-- A move that fails changes neither path, one that does not leaves the entry at the new path only, and
either way it stands somewhere. -/
structure Keeps (fs fs' : Option Entry) (frm dest : Path) (ret : Bool) : Prop where
  failed : ret = false → lookup fs' frm = lookup fs frm ∧ lookup fs' dest = lookup fs dest
  moved : ret = true → lookup fs' dest = lookup fs frm ∧ (lookup fs' frm = none ∨ frm = dest)
  somewhere : lookup fs' frm = lookup fs frm ∨ lookup fs' dest = lookup fs frm

theorem keeps_unchanged : Keeps fs fs frm dest false where
  failed _ := ⟨rfl, rfl⟩
  moved true_ := by cases true_
  somewhere := .inl rfl

theorem keeps_moved (there : lookup fs' dest = lookup fs frm)
    (gone : lookup fs' frm = none ∨ frm = dest) : Keeps fs fs' frm dest true where
  failed false_ := by cases false_
  moved _ := ⟨there, gone⟩
  somewhere := .inr there

theorem mv_iff {frm dest : Route fs} {P : Bool → Option Entry → Prop}
    (run : Rm faults fs dest.place = some (ret, fs')) :
    (∃ ret fs', Mv faults fs frm dest = some (ret, fs') ∧ P ret fs') ↔
      if ret && frm.stands fs' && dest.stands fs' then
        (rename faults fs' frm.place dest.place).elim (P false fs') (P true)
      else P false fs' := by
  rw [Mv, run]
  cases ret with
  | false => simp
  | true =>
    by_cases both : frm.stands fs' = true ∧ dest.stands fs' = true
    · cases moved : rename faults fs' frm.place dest.place <;> simp [both, moved]
    · have neither : (frm.stands fs' && dest.stands fs') = false := by simpa using both
      simp only [Bool.true_and, Option.bind_eq_bind, Option.bind_some, Bool.not_true, neither]
      simp

/-- The string does not go through what stands at or below a path. -/
def Route.Avoids {fs : Option Entry} (route : Route fs) (path : Path) : Prop :=
  ∀ inner ∈ route.through, ¬ path <+: inner

theorem Route.stands_self (route : Route fs) (found : (lookup fs route.place).isSome) :
    route.stands fs = true :=
  List.all_eq_true.mpr (route.leads found)

/-- What is removed takes away the ways through it, and no others. -/
theorem Route.stands_removed_iff (route : Route fs) (found : (lookup fs route.place).isSome)
    (path : Path) : route.stands (put fs path none) = true ↔ route.Avoids path := by
  simp only [Route.stands, List.all_eq_true]
  refine forall₂_congr fun inner member => ?_
  constructor
  · rintro stands ⟨rest, rfl⟩
    rw [lookup_append, lookup_put_none, lookup_none] at stands
    cases stands
  · intro outside
    have kept := congrArg Option.isSome (label_put outside fs none)
    rw [Option.isSome_map, Option.isSome_map] at kept
    rw [kept]
    exact route.leads found inner member

/-- Where `Rm` returns `true` without a change, the two names of one file are what goes wrong. -/
theorem keeps_rename_iff (faults : Faults) (fs : Option Entry) (frm dest : Path) :
    (rename faults fs frm dest).elim (Keeps fs fs frm dest false)
      (fun fs' => Keeps fs fs' frm dest true) ↔
    ¬ (frm ≠ dest ∧ SameFile fs frm dest ∧ faults.rename = false) := by
  rcases rename_cases faults fs frm dest with none_ | ⟨same, fine, _, kept⟩ |
    ⟨moved, fine, stands, apart, files, entries, inside⟩
  · rw [none_]
    refine ⟨fun _ ⟨other, files, fine⟩ => ?_, fun _ => keeps_unchanged⟩
    rw [rename_same fine other files] at none_
    cases none_
  · rw [same]
    constructor
    · rintro ⟨_, moved, _⟩ ⟨other, ⟨file, _, stands, _⟩, _⟩
      rcases (moved rfl).2 with gone | same
      · simp [stands] at gone
      · exact other same
    · intro fails
      have paths : frm = dest := by
        rcases kept with paths | files
        · exact paths
        · exact by_contra fun other => fails ⟨other, files, fine⟩
      exact keeps_moved (by rw [paths]) (.inr paths)
  · rw [moved]
    obtain ⟨there, gone⟩ := lookup_moved apart inside (lookup fs frm)
    exact iff_of_true (keeps_moved there (.inl gone)) fun fails => files fails.2.1

/-- Where `Rm` removes what stands at the new path, `rename` has to succeed. -/
theorem keeps_removed_iff (found : lookup fs dest = some tree) (faults : Faults) (frm : Path) :
    (rename faults (put fs dest none) frm dest).elim (Keeps fs (put fs dest none) frm dest false)
      (fun fs' => Keeps fs fs' frm dest true) ↔
    (lookup fs frm).isSome ∧ Apart frm dest ∧ faults.rename = false := by
  have free := lookup_put_none fs dest
  rcases rename_cases faults (put fs dest none) frm dest with none_ | ⟨_, _, stands, kept⟩ |
    ⟨moved, fine, stands, apart, _, entries, inside⟩
  · rw [none_]
    refine ⟨fun ⟨failed, _, _⟩ => ?_, fun ⟨stands, apart, fine⟩ => ?_⟩
    · have changed := (failed rfl).2
      rw [free, found] at changed
      cases changed
    · -- the directory of the new path still stands, so that it can take the entry
      have below : dest ≠ [] := fun top => apart.2 (top ▸ List.nil_prefix)
      obtain ⟨entries, inside⟩ := lookup_dropLast found below
      have outside : ¬ dest <+: dest.dropLast := fun longer => by
        have := longer.length_le
        have := List.length_pos_of_ne_nil below
        rw [List.length_dropLast] at *
        omega
      obtain ⟨entries', inside'⟩ := lookup_put_dir outside inside none
      obtain ⟨entry, stands⟩ := Option.isSome_iff_exists.mp stands
      rw [← lookup_put_apart apart.2 apart.1 fs none] at stands
      rw [rename_free fine stands apart free inside'] at none_
      cases none_
  · -- both paths would have to be names of what is gone
    rcases kept with rfl | ⟨_, _, _, there, _⟩
    · simp [free] at stands
    · simp [free] at there
  · rw [lookup_put_apart apart.2 apart.1] at moved stands
    rw [moved]
    obtain ⟨there, gone⟩ := lookup_moved apart inside (lookup fs frm)
    exact iff_of_true (keeps_moved there (.inl gone)) ⟨stands, apart, fine⟩

/-- The same along the strings, which are resolved again for `rename`. -/
theorem keeps_along_iff {dest : Route fs} (found : lookup fs dest.place = some tree)
    (faults : Faults) (frm : Route fs) :
    (if true && frm.stands (put fs dest.place none) && dest.stands (put fs dest.place none) then
      (rename faults (put fs dest.place none) frm.place dest.place).elim
        (Keeps fs (put fs dest.place none) frm.place dest.place false)
        (fun fs' => Keeps fs fs' frm.place dest.place true)
      else Keeps fs (put fs dest.place none) frm.place dest.place false) ↔
    (lookup fs frm.place).isSome ∧ Apart frm.place dest.place ∧ frm.Avoids dest.place ∧
      dest.Avoids dest.place ∧ faults.rename = false := by
  -- what was there is lost when `rename` is not reached
  have lost : ¬ Keeps fs (put fs dest.place none) frm.place dest.place false := by
    rintro ⟨failed, _, _⟩
    have changed := (failed rfl).2
    rw [lookup_put_none, found] at changed
    cases changed
  have there := dest.stands_removed_iff (by simp [found]) dest.place
  cases stands : (lookup fs frm.place).isSome with
  | false =>
    have removed := keeps_removed_iff found faults frm.place
    rw [stands] at removed
    split
    · rw [removed]
      simp
    · simp [lost]
  | true =>
    have here := frm.stands_removed_iff stands dest.place
    have removed := keeps_removed_iff found faults frm.place
    rw [stands] at removed
    split
    next both =>
      simp only [Bool.true_and, Bool.and_eq_true] at both
      rw [removed]
      simp [here.mp both.1, there.mp both.2]
    next neither =>
      simp only [Bool.true_and, Bool.and_eq_true, here, there] at neither
      refine iff_of_false lost fun ⟨_, _, avoids, avoids', _⟩ => neither ⟨avoids, avoids'⟩

/-- `Mv` keeps what it promises exactly if nothing stands at the new path, or nothing there can be
removed (and a failed `lstat` does not hide that both paths are names of one file), or all of it can,
something stands at the old path, neither path contains the other nor goes through what is removed,
and `rename` does not fail by itself. -/
theorem mv_keeps_iff (faults : Faults) (fs : FileSystem) (frm dest : Route fs.root) :
    (∃ ret fs', Mv faults fs.root frm dest = some (ret, fs') ∧
      Keeps fs.root fs' frm.place dest.place ret) ↔
    ∀ tree, lookup fs.root dest.place = some tree →
      Stuck faults dest.place tree ∧ ¬ (Overlooked faults dest.place tree ∧
        frm.place ≠ dest.place ∧ SameFile fs.root frm.place dest.place ∧ faults.rename = false) ∨
      Removable faults dest.place tree ∧ (lookup fs.root frm.place).isSome ∧
        Apart frm.place dest.place ∧ frm.Avoids dest.place ∧ dest.Avoids dest.place ∧
        faults.rename = false := by
  -- where nothing is removed the ways lead on, or nothing stood at the old path
  have unremoved (stands : dest.stands fs.root = true) :
      (if true && frm.stands fs.root && dest.stands fs.root then
        (rename faults fs.root frm.place dest.place).elim
          (Keeps fs.root fs.root frm.place dest.place false)
          (fun fs' => Keeps fs.root fs' frm.place dest.place true)
        else Keeps fs.root fs.root frm.place dest.place false) ↔
      ¬ (frm.place ≠ dest.place ∧ SameFile fs.root frm.place dest.place ∧ faults.rename = false) := by
    cases leads : frm.stands fs.root with
    | true => simpa [stands] using keeps_rename_iff faults fs.root frm.place dest.place
    | false =>
      refine iff_of_true (by simpa using keeps_unchanged) fun ⟨_, ⟨file, _, found, _⟩, _⟩ => ?_
      rw [frm.stands_self (by simp [found])] at leads
      cases leads
  cases found : lookup fs.root dest.place with
  | none =>
    rw [mv_iff (P := fun ret fs' => Keeps fs.root fs' frm.place dest.place ret) (rm_none found faults)]
    refine ⟨fun _ tree some_ => (nomatch some_), fun _ => ?_⟩
    split
    · refine (keeps_rename_iff faults fs.root frm.place dest.place).mpr
        fun ⟨_, ⟨_, _, _, there, _⟩, _⟩ => ?_
      simp [found] at there
    · exact keeps_unchanged
  | some tree =>
    obtain ⟨ret, left, outcome, run⟩ := rm_some faults fs found
    have leads : (lookup fs.root dest.place).isSome := by simp [found]
    rw [mv_iff (P := fun ret fs' => Keeps fs.root fs' frm.place dest.place ret) run]
    simp only [Option.some.injEq, forall_eq']
    cases left with
    | none =>
      have removable := outcome.gone.mp rfl
      rw [outcome.ret_of_gone rfl]
      have alternatives : (Stuck faults dest.place tree ∧ ¬ (Overlooked faults dest.place tree ∧
          frm.place ≠ dest.place ∧ SameFile fs.root frm.place dest.place ∧ faults.rename = false) ∨
          Removable faults dest.place tree ∧ (lookup fs.root frm.place).isSome ∧
            Apart frm.place dest.place ∧ frm.Avoids dest.place ∧ dest.Avoids dest.place ∧
            faults.rename = false) ↔
          (lookup fs.root frm.place).isSome ∧ Apart frm.place dest.place ∧
            frm.Avoids dest.place ∧ dest.Avoids dest.place ∧ faults.rename = false :=
        ⟨fun cases_ => cases_.elim (fun stuck => absurd stuck.1 (removable_not_stuck removable))
          fun moved => moved.2, fun moved => .inr ⟨removable, moved⟩⟩
      rw [alternatives]
      exact keeps_along_iff found faults frm
    | some rest =>
      have ret_ := outcome.ret_of_left (Option.some_ne_none rest)
      have held : ¬ Removable faults dest.place tree := fun removable => by
        cases outcome.gone.mpr removable
      cases ret with
      | true =>
        -- nothing was removed, and `rename` meets what stands there
        have overlooked := ret_.mp rfl
        have stuck := overlooked_stuck overlooked
        rw [outcome.same.mpr stuck, ← found, put_lookup, unremoved (dest.stands_self leads)]
        simp [held, stuck, overlooked]
      | false =>
        -- `Mv` ends here, so that nothing may have been removed
        have noticed : ¬ Overlooked faults dest.place tree := fun missed => by cases ret_.mpr missed
        simp only [held, noticed, false_and, not_false_eq_true, and_true, or_false]
        constructor
        · rintro ⟨failed, _, _⟩
          have unchanged := (failed rfl).2
          rw [lookup_put_self found, found] at unchanged
          exact outcome.same.mp unchanged
        · intro stuck
          rw [outcome.same.mpr stuck, ← found, put_lookup]
          exact keeps_unchanged

/-- An empty directory `d` and a file `f` beside it. -/
def beside : FileSystem where
  root := some (.dir [([100], .dir []), ([102], .leaf ⟨.regular, 1⟩)])
  proper top same := by
    rw [← Option.some.inj same]
    refine .dir (by simp) (fun entry member => ?_) fun entry member => ?_
    · simp only [List.mem_cons, List.not_mem_nil, or_false] at member
      rcases member with rfl | rfl <;> simp [Allowed, dot, dotDot]
    · simp only [List.mem_cons, List.not_mem_nil, or_false] at member
      rcases member with rfl | rfl
      · exact .dir (by simp) (by simp) (by simp)
      · exact .leaf _

/-- A file that is moved to where it is is gone. So is a directory when the file beside it is moved
there as `d/../f`. -/
theorem mv_loses_file :
    (∃ frm : Route (single ⟨.regular, 1⟩).root, frm.place = [[97]] ∧
      Mv faultless (single ⟨.regular, 1⟩).root frm frm = some (false, some (.dir [])) ∧
      ¬ Keeps (single ⟨.regular, 1⟩).root (some (.dir [])) frm.place frm.place false) ∧
    ∃ frm dest : Route beside.root, frm.place = [[102]] ∧ frm.through = [[[100]]] ∧
      dest.place = [[100]] ∧
      Mv faultless beside.root frm dest = some (false, some (.dir [([102], .leaf ⟨.regular, 1⟩)])) ∧
      ¬ Keeps beside.root (some (.dir [([102], .leaf ⟨.regular, 1⟩)])) frm.place dest.place false := by
  constructor
  · refine ⟨⟨[[97]], [], by simp⟩, rfl, by rfl, fun keeps => ?_⟩
    obtain ⟨failed, -, -⟩ := keeps
    have changed := (failed rfl).1
    simp [single, lookup, find] at changed
  · refine ⟨⟨[[102]], [[[100]]], by simp [beside, lookup, find]⟩, ⟨[[100]], [], by simp⟩, rfl, rfl, rfl,
      by rfl, fun keeps => ?_⟩
    obtain ⟨failed, -, -⟩ := keeps
    have changed := (failed rfl).2
    simp [beside, lookup, find] at changed

end Move

end ServerFrame.FSUtil
