import ServerFrame.Http.Request
import Mathlib.Data.List.Induction
import Mathlib.Logic.Function.Basic

/-!
# `ServletDispatch`

Two tables of servlets: one for whole paths, one for patterns in the order of their
registration. What a lookup returns is told from the registrations and deletions alone.
-/
namespace ServerFrame.Http

/-- The bytes of a string that a C function sees. -/
def cStr (s : List UInt8) : List UInt8 := s.takeWhile (· != 0)

/-- `IServletCreator`: `Get` may allocate. -/
structure IServletCreator (Heap Servlet : Type) where
  get : Heap → Servlet × Heap

/-- `HoldServletCreator`. -/
def holdServletCreator {Heap Servlet : Type} (slt : Servlet) : IServletCreator Heap Servlet where
  get := fun heap => (slt, heap)

/-- `ServletDispatch`, without its lock. -/
structure ServletDispatch (Heap Servlet : Type) where
  datas : List UInt8 → Option (IServletCreator Heap Servlet)
  globs : List (List UInt8 × IServletCreator Heap Servlet)
  default : Servlet

namespace ServletDispatch

variable {Heap Servlet : Type}

def new (default : Servlet) : ServletDispatch Heap Servlet where
  datas := fun _ => none
  globs := []
  default := default

def addServletCreator (d : ServletDispatch Heap Servlet) (uri : List UInt8)
    (creator : IServletCreator Heap Servlet) : ServletDispatch Heap Servlet :=
  { d with datas := Function.update d.datas uri (some creator) }

/-- `AddServlet`; a callback is registered as the `FunctionServlet` made of it. -/
def addServlet (d : ServletDispatch Heap Servlet) (uri : List UInt8) (slt : Servlet) :
    ServletDispatch Heap Servlet :=
  { d with datas := Function.update d.datas uri (some (holdServletCreator slt)) }

/-- The loop that erases the first entry of a pattern. -/
def eraseGlob (uri : List UInt8) :
    List (List UInt8 × IServletCreator Heap Servlet) → List (List UInt8 × IServletCreator Heap Servlet)
  | [] => []
  | entry :: globs => if entry.1 = uri then globs else entry :: eraseGlob uri globs

def addGlobServletCreator (d : ServletDispatch Heap Servlet) (uri : List UInt8)
    (creator : IServletCreator Heap Servlet) : ServletDispatch Heap Servlet :=
  { d with globs := eraseGlob uri d.globs ++ [(uri, creator)] }

/-- `AddGlobServlet`; a callback is registered as the `FunctionServlet` made of it. -/
def addGlobServlet (d : ServletDispatch Heap Servlet) (uri : List UInt8) (slt : Servlet) :
    ServletDispatch Heap Servlet :=
  { d with globs := eraseGlob uri d.globs ++ [(uri, holdServletCreator slt)] }

def delServlet (d : ServletDispatch Heap Servlet) (uri : List UInt8) : ServletDispatch Heap Servlet :=
  { d with datas := Function.update d.datas uri none }

def delGlobServlet (d : ServletDispatch Heap Servlet) (uri : List UInt8) :
    ServletDispatch Heap Servlet :=
  { d with globs := eraseGlob uri d.globs }

/-- `GetMatchedServlet`; `fnmatch` tells whether the result of the C function is zero. -/
def getMatchedServlet (fnmatch : List UInt8 → List UInt8 → Bool) (d : ServletDispatch Heap Servlet)
    (uri : List UInt8) (heap : Heap) : Servlet × Heap :=
  match d.datas uri with
  | some creator => creator.get heap
  | none =>
    match d.globs.find? fun entry => fnmatch (cStr entry.1) (cStr uri) with
    | some entry => entry.2.get heap
    | none => (d.default, heap)

end ServletDispatch

/-! ## Histories -/

/-- The calls that change the tables. -/
inductive DispatchCall (Heap Servlet : Type) where
  | addServlet (uri : List UInt8) (slt : Servlet)
  | addServletCreator (uri : List UInt8) (creator : IServletCreator Heap Servlet)
  | addGlobServlet (uri : List UInt8) (slt : Servlet)
  | addGlobServletCreator (uri : List UInt8) (creator : IServletCreator Heap Servlet)
  | delServlet (uri : List UInt8)
  | delGlobServlet (uri : List UInt8)

/-- The two tables. -/
inductive Table where
  | exact
  | glob
  deriving DecidableEq

section Calls

variable {Heap Servlet : Type}

def ServletDispatch.perform (d : ServletDispatch Heap Servlet) :
    DispatchCall Heap Servlet → ServletDispatch Heap Servlet
  | .addServlet uri slt => d.addServlet uri slt
  | .addServletCreator uri creator => d.addServletCreator uri creator
  | .addGlobServlet uri slt => d.addGlobServlet uri slt
  | .addGlobServletCreator uri creator => d.addGlobServletCreator uri creator
  | .delServlet uri => d.delServlet uri
  | .delGlobServlet uri => d.delGlobServlet uri

/-- The table and the path or pattern that a call is about. -/
def DispatchCall.target : DispatchCall Heap Servlet → Table × List UInt8
  | .addServlet uri _ => (.exact, uri)
  | .addServletCreator uri _ => (.exact, uri)
  | .addGlobServlet uri _ => (.glob, uri)
  | .addGlobServletCreator uri _ => (.glob, uri)
  | .delServlet uri => (.exact, uri)
  | .delGlobServlet uri => (.glob, uri)

/-- What a call registers; nothing if it deletes. -/
def DispatchCall.registers : DispatchCall Heap Servlet → Option (IServletCreator Heap Servlet)
  | .addServlet _ slt => some (holdServletCreator slt)
  | .addServletCreator _ creator => some creator
  | .addGlobServlet _ slt => some (holdServletCreator slt)
  | .addGlobServletCreator _ creator => some creator
  | .delServlet _ => none
  | .delGlobServlet _ => none

/-- Call `i` registered `creator` for `uri`, and no later call is about `uri` in this table. -/
structure Live (calls : List (DispatchCall Heap Servlet)) (i : Nat) (table : Table)
    (uri : List UInt8) (creator : IServletCreator Heap Servlet) : Prop where
  registered : ∃ call, calls[i]? = some call ∧ call.target = (table, uri) ∧
    call.registers = some creator
  latest : ∀ j call, i < j → calls[j]? = some call → call.target ≠ (table, uri)

/-- What a path is routed to after these calls: a registration, or the default. -/
inductive Routed (fnmatch : List UInt8 → List UInt8 → Bool)
    (calls : List (DispatchCall Heap Servlet)) (uri : List UInt8) :
    Option (IServletCreator Heap Servlet) → Prop
  | exact {i : Nat} {creator : IServletCreator Heap Servlet} (live : Live calls i .exact uri creator) :
      Routed fnmatch calls uri (some creator)
  | glob {i : Nat} {pattern : List UInt8} {creator : IServletCreator Heap Servlet}
      (no_exact : ∀ j other, ¬ Live calls j .exact uri other)
      (live : Live calls i .glob pattern creator) (matched : fnmatch (cStr pattern) (cStr uri) = true)
      (oldest : ∀ j pattern' other, Live calls j .glob pattern' other →
        fnmatch (cStr pattern') (cStr uri) = true → i ≤ j) :
      Routed fnmatch calls uri (some creator)
  | default (no_exact : ∀ j other, ¬ Live calls j .exact uri other)
      (no_glob : ∀ j pattern other, Live calls j .glob pattern other →
        fnmatch (cStr pattern) (cStr uri) = false) :
      Routed fnmatch calls uri none

variable {calls : List (DispatchCall Heap Servlet)} {call : DispatchCall Heap Servlet} {i j : Nat}
  {table : Table} {uri : List UInt8} {creator other : IServletCreator Heap Servlet}

theorem Live.lt (live : Live calls i table uri creator) : i < calls.length := by
  obtain ⟨call, at_i, -⟩ := live.registered
  exact (List.getElem?_eq_some_iff.mp at_i).1

/-- Only the latest registration is live. -/
theorem Live.unique (live : Live calls i table uri creator) (live' : Live calls j table uri other) :
    i = j ∧ creator = other := by
  obtain ⟨call, at_i, target, registers⟩ := live.registered
  obtain ⟨call', at_j, target', registers'⟩ := live'.registered
  have same : i = j := by
    by_contra apart
    rcases Nat.lt_or_gt_of_ne apart with before | behind
    · exact live.latest j call' before at_j target'
    · exact live'.latest i call behind at_i target
  subst same
  obtain rfl : call = call' := Option.some.inj (at_i.symm.trans at_j)
  exact ⟨rfl, Option.some.inj (registers.symm.trans registers')⟩

/-- One more call ends what was live for its own target, and may register something. -/
theorem live_concat : Live (calls ++ [call]) i table uri creator ↔
    (Live calls i table uri creator ∧ call.target ≠ (table, uri)) ∨
      (i = calls.length ∧ call.target = (table, uri) ∧ call.registers = some creator) := by
  constructor
  · intro live
    have inside := live.lt
    rw [List.length_append, List.length_singleton] at inside
    obtain ⟨found, at_i, target, registers⟩ := live.registered
    by_cases last : i = calls.length
    · subst last
      rw [List.getElem?_concat_length] at at_i
      obtain rfl := Option.some.inj at_i
      exact .inr ⟨rfl, target, registers⟩
    · have before : i < calls.length := by omega
      rw [List.getElem?_append_left before] at at_i
      refine .inl ⟨⟨⟨found, at_i, target, registers⟩, fun j later behind at_j => ?_⟩, ?_⟩
      · refine live.latest j later behind ?_
        rw [List.getElem?_append_left (List.getElem?_eq_some_iff.mp at_j).1, at_j]
      · exact live.latest calls.length call before List.getElem?_concat_length
  · rintro (⟨live, apart⟩ | ⟨rfl, target, registers⟩)
    · have before := live.lt
      obtain ⟨found, at_i, target, registers⟩ := live.registered
      refine ⟨⟨found, ?_, target, registers⟩, fun j later behind at_j => ?_⟩
      · rw [List.getElem?_append_left before, at_i]
      · by_cases last : j < calls.length
        · rw [List.getElem?_append_left last] at at_j
          exact live.latest j later behind at_j
        · have at_end : j = calls.length := by
            have bound := (List.getElem?_eq_some_iff.mp at_j).1
            rw [List.length_append, List.length_singleton] at bound
            omega
          subst at_end
          rw [List.getElem?_concat_length] at at_j
          exact Option.some.inj at_j ▸ apart
    · refine ⟨⟨call, List.getElem?_concat_length, target, registers⟩, fun j later behind at_j => ?_⟩
      have bound := (List.getElem?_eq_some_iff.mp at_j).1
      rw [List.length_append, List.length_singleton] at bound
      omega

/-! ## The tables -/

/-- The tables hold what is live, the patterns in the order of their registration. `entries`
are the patterns with the calls that registered them. -/
structure Holds (d : ServletDispatch Heap Servlet) (calls : List (DispatchCall Heap Servlet))
    (entries : List (Nat × List UInt8 × IServletCreator Heap Servlet)) : Prop where
  datas : ∀ uri creator, d.datas uri = some creator ↔ ∃ i, Live calls i .exact uri creator
  globs : entries.map Prod.snd = d.globs
  ordered : entries.Pairwise fun a b => a.1 < b.1
  live : ∀ i uri creator, (i, uri, creator) ∈ entries ↔ Live calls i .glob uri creator

theorem holds_new (default : Servlet) : Holds (.new default : ServletDispatch Heap Servlet) [] [] where
  datas := fun _ _ => ⟨fun found => (nomatch found), fun ⟨_, live⟩ => absurd live.lt (Nat.not_lt_zero _)⟩
  globs := rfl
  ordered := .nil
  live := fun _ _ _ => ⟨fun member => (nomatch member), fun live => absurd live.lt (Nat.not_lt_zero _)⟩

/-- A call changes its own table in one place. -/
theorem perform_eq (d : ServletDispatch Heap Servlet) (call : DispatchCall Heap Servlet) :
    (∃ uri, call.target = (.exact, uri) ∧
      d.perform call = { d with datas := Function.update d.datas uri call.registers }) ∨
    (∃ uri, call.target = (.glob, uri) ∧
      d.perform call = { d with globs := ServletDispatch.eraseGlob uri d.globs ++
        (call.registers.map fun creator => (uri, creator)).toList }) := by
  cases call with
  | addServlet uri slt => exact .inl ⟨uri, rfl, rfl⟩
  | addServletCreator uri creator => exact .inl ⟨uri, rfl, rfl⟩
  | addGlobServlet uri slt => exact .inr ⟨uri, rfl, rfl⟩
  | addGlobServletCreator uri creator => exact .inr ⟨uri, rfl, rfl⟩
  | delServlet uri => exact .inl ⟨uri, rfl, rfl⟩
  | delGlobServlet uri => exact .inr ⟨uri, rfl, by simp [ServletDispatch.perform,
      ServletDispatch.delGlobServlet, DispatchCall.registers]⟩

variable {d : ServletDispatch Heap Servlet}
  {entries : List (Nat × List UInt8 × IServletCreator Heap Servlet)}

/-- No pattern is stored twice. -/
theorem Holds.nodup (holds : Holds d calls entries) : (entries.map fun entry => entry.2.1).Nodup := by
  rw [List.Nodup, List.pairwise_map]
  have distinct := List.Pairwise.and_mem.mp holds.ordered
  refine distinct.imp fun {a b} pair same => ?_
  obtain ⟨first, second, before⟩ := pair
  have live := (holds.live a.1 a.2.1 a.2.2).mp first
  have live' := (holds.live b.1 b.2.1 b.2.2).mp second
  rw [← same] at live'
  exact Nat.ne_of_lt before (live.unique live').1

/-- Erasing the first entry of a pattern erases the pattern. -/
theorem eraseGlob_eq {uri : List UInt8} (nodup : (entries.map fun entry => entry.2.1).Nodup) :
    ServletDispatch.eraseGlob uri (entries.map Prod.snd) =
      (entries.filter fun entry => entry.2.1 ≠ uri).map Prod.snd := by
  induction entries with
  | nil => rfl
  | cons entry entries ih =>
    obtain ⟨absent, nodup⟩ := List.nodup_cons.mp nodup
    rw [List.map_cons, ServletDispatch.eraseGlob]
    by_cases same : entry.2.1 = uri
    · have all_kept : entries.filter (fun entry => entry.2.1 ≠ uri) = entries := by
        refine List.filter_eq_self.mpr fun other member => ?_
        refine decide_eq_true fun twice => absent ?_
        exact List.mem_map.mpr ⟨other, member, twice.trans same.symm⟩
      rw [if_pos same, List.filter_cons_of_neg (by simp [same]), all_kept]
    · rw [if_neg same, List.filter_cons_of_pos (by simp [same]), List.map_cons, ih nodup]

theorem Holds.perform (holds : Holds d calls entries) (call : DispatchCall Heap Servlet) :
    ∃ entries', Holds (d.perform call) (calls ++ [call]) entries' := by
  rcases perform_eq d call with ⟨uri, target, eq⟩ | ⟨uri, target, eq⟩
  · refine ⟨entries, ⟨fun path creator => ?_, ?_, holds.ordered, fun i pattern creator => ?_⟩⟩
    · rw [eq]
      by_cases same : path = uri
      · subst same
        simp only [Function.update_self]
        constructor
        · intro registers
          exact ⟨_, live_concat.mpr (.inr ⟨rfl, target, registers⟩)⟩
        · rintro ⟨i, live⟩
          rcases live_concat.mp live with ⟨-, apart⟩ | ⟨-, -, registers⟩
          · exact absurd target apart
          · exact registers
      · have apart : call.target ≠ (.exact, path) := by
          rw [target]
          exact fun both => same (Prod.mk.inj both).2.symm
        simp only [Function.update_of_ne same, holds.datas]
        exact exists_congr fun i => by simp [live_concat, apart]
    · rw [eq]
      exact holds.globs
    · have apart : call.target ≠ (.glob, pattern) := by
        rw [target]
        exact fun both => nomatch (Prod.mk.inj both).1
      rw [holds.live]
      simp [live_concat, apart]
  · -- the pattern goes, and comes back at the end if it is registered
    refine ⟨entries.filter (fun entry => entry.2.1 ≠ uri) ++
      (call.registers.map fun creator => (calls.length, uri, creator)).toList,
      ⟨fun path creator => ?_, ?_, ?_, fun i pattern creator => ?_⟩⟩
    · have apart : call.target ≠ (.exact, path) := by
        rw [target]
        exact fun both => nomatch (Prod.mk.inj both).1
      rw [eq, holds.datas]
      exact exists_congr fun i => by simp [live_concat, apart]
    · rw [eq, List.map_append, ← eraseGlob_eq holds.nodup, holds.globs]
      cases call.registers <;> rfl
    · refine List.pairwise_append.mpr ⟨holds.ordered.filter _, ?_, fun a member b new => ?_⟩
      · cases call.registers <;> simp
      · have before := ((holds.live a.1 a.2.1 a.2.2).mp (List.mem_of_mem_filter member)).lt
        obtain ⟨creator, -, rfl⟩ := Option.map_eq_some_iff.mp (Option.mem_toList.mp new)
        exact before
    · rw [List.mem_append, List.mem_filter, holds.live, live_concat, target, Option.mem_toList,
        Option.map_eq_some_iff]
      constructor
      · rintro (⟨live, other⟩ | ⟨found, registers, same⟩)
        · exact .inl ⟨live, fun both => of_decide_eq_true other (Prod.mk.inj both).2.symm⟩
        · cases same
          exact .inr ⟨rfl, rfl, registers⟩
      · rintro (⟨live, apart⟩ | ⟨rfl, same, registers⟩)
        · exact .inl ⟨live, decide_eq_true fun equal => apart (congrArg (Prod.mk _) equal.symm)⟩
        · exact .inr ⟨creator, registers, by rw [(Prod.mk.inj same).2]⟩

/-- The tables after any calls. -/
theorem holds_calls (default : Servlet) (calls : List (DispatchCall Heap Servlet)) :
    ∃ entries, Holds (calls.foldl ServletDispatch.perform (.new default)) calls entries := by
  induction calls using List.reverseRecOn with
  | nil => exact ⟨[], holds_new default⟩
  | append_singleton calls call ih =>
    obtain ⟨entries, holds⟩ := ih
    rw [List.foldl_concat]
    exact holds.perform call

theorem default_calls (default : Servlet) (calls : List (DispatchCall Heap Servlet)) :
    (calls.foldl ServletDispatch.perform (.new default)).default = default := by
  induction calls using List.reverseRecOn with
  | nil => rfl
  | append_singleton calls call ih =>
    rw [List.foldl_concat]
    rcases perform_eq (calls.foldl ServletDispatch.perform (.new default)) call with
      ⟨uri, -, eq⟩ | ⟨uri, -, eq⟩
    all_goals rw [eq, ih]

/-- The first match in the order of registration is the oldest. -/
theorem Holds.first_match (holds : Holds d calls entries) {p : List UInt8 → Bool}
    {found : Nat × List UInt8 × IServletCreator Heap Servlet}
    (first : entries.find? (fun entry => p entry.2.1) = some found) :
    ∀ j pattern other, Live calls j .glob pattern other → p pattern = true → found.1 ≤ j := by
  intro j pattern other live matched
  obtain ⟨-, before, behind, split, unmatched⟩ := List.find?_eq_some_iff_append.mp first
  have member := (holds.live j pattern other).mpr live
  have ordered := holds.ordered
  rw [split] at member ordered
  rcases List.mem_append.mp member with front | rest
  · exact absurd matched (by simpa using unmatched _ front)
  · rcases List.mem_cons.mp rest with rfl | later
    · exact Nat.le_refl _
    · have order := (List.pairwise_append.mp ordered).2.1
      exact Nat.le_of_lt ((List.pairwise_cons.mp order).1 _ later)

/-- What a lookup finds is told by the calls alone. -/
theorem routed_unique {fnmatch : List UInt8 → List UInt8 → Bool} {uri : List UInt8}
    {found found' : Option (IServletCreator Heap Servlet)} (routed : Routed fnmatch calls uri found)
    (routed' : Routed fnmatch calls uri found') : found = found' := by
  cases routed with
  | exact live =>
    cases routed' with
    | exact live' => rw [(live.unique live').2]
    | glob no_exact => exact absurd live (no_exact _ _)
    | default no_exact => exact absurd live (no_exact _ _)
  | glob no_exact live matched oldest =>
    cases routed' with
    | exact live' => exact absurd live' (no_exact _ _)
    | glob _ live' matched' oldest' =>
      have order := oldest _ _ _ live' matched'
      have order' := oldest' _ _ _ live matched
      obtain rfl := Nat.le_antisymm order order'
      obtain ⟨call, at_i, target, registers⟩ := live.registered
      obtain ⟨call', at_i', target', registers'⟩ := live'.registered
      obtain rfl := Option.some.inj (at_i.symm.trans at_i')
      exact registers.symm.trans registers'
    | default _ no_glob => exact absurd matched (by simp [no_glob _ _ _ live])
  | default no_exact no_glob =>
    cases routed' with
    | exact live' => exact absurd live' (no_exact _ _)
    | glob _ live' matched' => exact absurd matched' (by simp [no_glob _ _ _ live'])
    | default => rfl

/-- After any calls, `GetMatchedServlet` returns the servlet of the latest live exact
registration, else that of the oldest live pattern that matches, else the default; and no
pattern is stored twice. -/
theorem getMatchedServlet_routed (fnmatch : List UInt8 → List UInt8 → Bool) (default : Servlet)
    (calls : List (DispatchCall Heap Servlet)) (uri : List UInt8) (heap : Heap) :
    ((calls.foldl ServletDispatch.perform (.new default)).globs.map Prod.fst).Nodup ∧
    ∃ found, Routed fnmatch calls uri found ∧
      (calls.foldl ServletDispatch.perform (.new default)).getMatchedServlet fnmatch uri heap =
        (found.map fun creator => creator.get heap).getD (default, heap) := by
  obtain ⟨entries, holds⟩ := holds_calls default calls
  have default_eq := default_calls default calls
  obtain ⟨d, d_eq⟩ : ∃ d, d = calls.foldl ServletDispatch.perform (.new default) := ⟨_, rfl⟩
  rw [← d_eq] at holds default_eq ⊢
  refine ⟨?_, ?_⟩
  · rw [← holds.globs, List.map_map]
    exact holds.nodup
  · rw [ServletDispatch.getMatchedServlet]
    cases exact_found : d.datas uri with
    | some creator =>
      obtain ⟨i, live⟩ := (holds.datas uri creator).mp exact_found
      exact ⟨some creator, .exact live, rfl⟩
    | none =>
      have no_exact : ∀ j other, ¬ Live calls j .exact uri other := by
        intro j other live
        have stored := (holds.datas uri other).mpr ⟨j, live⟩
        rw [exact_found] at stored
        cases stored
      rw [← holds.globs, List.find?_map]
      cases matched : entries.find? (fun entry => fnmatch (cStr entry.2.1) (cStr uri)) with
      | some entry =>
        have live := (holds.live entry.1 entry.2.1 entry.2.2).mp (List.mem_of_find?_eq_some matched)
        refine ⟨some entry.2.2, .glob no_exact live ?_ (holds.first_match matched), ?_⟩
        · have tested := List.find?_some matched
          exact tested
        · simp only [Function.comp_def, matched]
          rfl
      | none =>
        refine ⟨none, .default no_exact fun j pattern other live => ?_, ?_⟩
        · have unmatched := List.find?_eq_none.mp matched _ ((holds.live j pattern other).mpr live)
          simpa using unmatched
        · simp only [Function.comp_def, matched, default_eq]
          rfl

end Calls

end ServerFrame.Http
