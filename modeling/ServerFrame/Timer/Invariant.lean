import ServerFrame.Timer.Model
import Mathlib.Data.List.Nodup
import Mathlib.Tactic.Tauto

/-!
# What every operation on the timers keeps

A timer is live while it has a callback. The live timers are those in the set and, while
an operation is under way, those it has taken out. Each primitive operation on the set
or on an object is followed by a lemma that says which live timers are out afterwards.
-/
namespace ServerFrame

variable {γ : Type}

namespace TimerManager

def Live (m : TimerManager γ) (i : Nat) : Prop := i < m.made ∧ (m.objects i).cb.isSome

instance (m : TimerManager γ) (i : Nat) : Decidable (m.Live i) :=
  inferInstanceAs (Decidable (_ ∧ _))

/-- The order of `timers_`: by deadline, then by address. -/
def Before (m : TimerManager γ) (i j : Nat) : Prop :=
  (m.objects i).next < (m.objects j).next ∨
    (m.objects i).next = (m.objects j).next ∧ (m.objects i).addr < (m.objects j).addr

theorem less_iff (m : TimerManager γ) (i j : Nat) : m.less i j = true ↔ m.Before i j := by
  simp only [less, Timer.comparator, Before]
  by_cases earlier : (m.objects i).next < (m.objects j).next
  · simp [earlier]
  by_cases later : (m.objects j).next < (m.objects i).next
  · have ne : (m.objects i).next ≠ (m.objects j).next := (UInt64.ne_of_lt later).symm
    simp [earlier, later, ne]
  · have eq : (m.objects i).next = (m.objects j).next :=
      UInt64.le_antisymm (UInt64.not_lt.mp later) (UInt64.not_lt.mp earlier)
    simp [eq]

theorem less_irrefl (m : TimerManager γ) (i : Nat) : m.less i i = false := by
  rw [Bool.eq_false_iff, ne_eq, less_iff]
  rintro (earlier | ⟨-, under⟩)
  · exact UInt64.lt_irrefl _ earlier
  · exact Nat.lt_irrefl _ under

theorem less_trans (m : TimerManager γ) (i j k : Nat) (first : m.less i j = true)
    (second : m.less j k = true) : m.less i k = true := by
  rw [less_iff] at *
  rcases first with first | ⟨same, first⟩
  · rcases second with second | ⟨same, -⟩
    · exact .inl (UInt64.lt_trans first second)
    · exact .inl (same ▸ first)
  · rcases second with second | ⟨same', second⟩
    · exact .inl (same ▸ second)
    · exact .inr ⟨same.trans same', Nat.lt_trans first second⟩

theorem less_total (m : TimerManager γ) {i j : Nat}
    (apart : (m.objects i).addr ≠ (m.objects j).addr) (not_less : m.less j i = false) :
    m.less i j = true := by
  rw [Bool.eq_false_iff, ne_eq, less_iff] at not_less
  rw [less_iff]
  have no_later : ¬ (m.objects j).next < (m.objects i).next := fun later => not_less (.inl later)
  by_cases same : (m.objects i).next = (m.objects j).next
  · have no_under : ¬ (m.objects j).addr < (m.objects i).addr :=
      fun under => not_less (.inr ⟨same.symm, under⟩)
    exact .inr ⟨same, by omega⟩
  · exact .inl (UInt64.lt_of_le_of_ne (UInt64.not_lt.mp no_later) same)

/-- `out` are the live timers that are not in the set at the moment. -/
structure Inv (out : Nat → Prop) (m : TimerManager γ) : Prop where
  sorted : m.timers.Pairwise fun i j => m.less i j = true
  live : ∀ i, i ∈ m.timers ∨ out i ↔ m.Live i
  apart : ∀ i, out i → i ∉ m.timers
  distinct : ∀ i j, m.Live i → m.Live j → (m.objects i).addr = (m.objects j).addr → i = j

namespace Inv

variable {out : Nat → Prop} {m : TimerManager γ} {i : Nat}

theorem congr {out' : Nat → Prop} (inv : Inv out m) (same : ∀ j, out' j ↔ out j) : Inv out' m :=
  ⟨inv.sorted, fun j => by rw [same, inv.live], fun j is_out => inv.apart j ((same j).mp is_out),
    inv.distinct⟩

theorem nodup (inv : Inv out m) : m.timers.Nodup := by
  apply inv.sorted.imp
  rintro j k before rfl
  rw [m.less_irrefl] at before
  exact Bool.false_ne_true before

/-- Removing a timer from the set at the position where it is found. -/
theorem find_erase (inv : Inv out m) (member : i ∈ m.timers) :
    ∃ pre post, m.timers = pre ++ i :: post ∧ OrderedSet.find m.less i m.timers = pre.length ∧
      Inv (fun j => out j ∨ j = i) { m with timers := pre ++ post } := by
  obtain ⟨pre, post, split, found⟩ :=
    OrderedSet.find_of_mem m.less_irrefl m.less_trans inv.sorted member
  refine ⟨pre, post, split, found, ?_, fun j => ?_, ?_, inv.distinct⟩
  · have fewer : (pre ++ post).Sublist m.timers := by simp [split]
    exact inv.sorted.sublist fewer
  · have whole : j ∈ m.timers ∨ out j ↔ m.Live j := inv.live j
    rw [split] at whole
    simp only [List.mem_append, List.mem_cons] at whole ⊢
    rw [show Live { m with timers := pre ++ post } j ↔ m.Live j from Iff.rfl, ← whole]
    tauto
  · have once := inv.nodup
    rw [split, List.nodup_middle] at once
    rintro j (is_out | rfl) inside
    · apply inv.apart j is_out
      rw [split]
      simp only [List.mem_append, List.mem_cons] at inside ⊢
      tauto
    · exact (List.nodup_cons.mp once).1 inside

/-- Putting a timer that is out into the set. -/
theorem insert (inv : Inv out m) (is_out : out i) :
    ∃ pre post, m.timers = pre ++ post ∧
      OrderedSet.insert m.less i m.timers = (pre.length, pre ++ i :: post) ∧
      (∀ j ∈ pre, m.Before j i) ∧ (∀ j ∈ post, m.Before i j) ∧
      Inv (fun j => out j ∧ j ≠ i) { m with timers := pre ++ i :: post } := by
  have comparable : ∀ j ∈ m.timers, m.less j i = false → m.less i j = true := by
    intro j member
    apply m.less_total
    intro same
    have eq := inv.distinct i j ((inv.live i).mp (.inr is_out)) ((inv.live j).mp (.inl member)) same
    exact inv.apart i is_out (eq ▸ member)
  obtain ⟨pre, post, split, inserted, before, after⟩ :=
    OrderedSet.insert_of_new m.less_trans inv.sorted comparable
  refine ⟨pre, post, split, inserted, fun j member => (m.less_iff j i).mp (before j member),
    fun j member => (m.less_iff i j).mp (after j member), ?_, fun j => ?_, ?_, inv.distinct⟩
  · exact OrderedSet.sorted_insert (split ▸ inv.sorted) before after
  · have whole : j ∈ m.timers ∨ out j ↔ m.Live j := inv.live j
    rw [split] at whole
    simp only [List.mem_append, List.mem_cons] at whole ⊢
    rw [show Live { m with timers := pre ++ i :: post } j ↔ m.Live j from Iff.rfl, ← whole]
    by_cases same : j = i
    · simp [same, is_out]
    · simp [same]
  · rintro j ⟨is_out', ne⟩ inside
    apply inv.apart j is_out'
    rw [split]
    simp only [List.mem_append, List.mem_cons] at inside ⊢
    tauto

/-- Replacing an object that is not in the set, or making a new one. -/
theorem replace (inv : Inv out m) (not_in : i ∉ m.timers) (timer : Timer γ) (made : Nat)
    (others : ∀ j, j ≠ i → (j < made ↔ j < m.made))
    (fresh : timer.cb.isSome → ∀ j, j ≠ i → m.Live j → (m.objects j).addr ≠ timer.addr) :
    Inv (fun j => out j ∧ j ≠ i ∨ j = i ∧ i < made ∧ timer.cb.isSome)
      { m with objects := Function.update m.objects i timer, made := made } := by
  have live_self : Live { m with objects := Function.update m.objects i timer, made := made } i ↔
      i < made ∧ timer.cb.isSome := by simp [Live]
  have live_other : ∀ j, j ≠ i →
      (Live { m with objects := Function.update m.objects i timer, made := made } j ↔
        m.Live j) := by
    intro j ne
    simp [Live, Function.update_of_ne ne, others j ne]
  have ne_of_mem : ∀ j ∈ m.timers, j ≠ i := fun j member same => not_in (same ▸ member)
  refine ⟨?_, fun j => ?_, ?_, fun j k left right same => ?_⟩
  · apply List.Pairwise.imp_of_mem _ inv.sorted
    intro j k left right before
    rw [less_iff] at *
    simpa only [Before, Function.update_of_ne (ne_of_mem j left),
      Function.update_of_ne (ne_of_mem k right)] using before
  · by_cases same : j = i
    · subst same
      rw [live_self]
      simp [not_in]
    · rw [live_other j same, ← inv.live j]
      simp [same]
  · rintro j (⟨is_out, -⟩ | ⟨rfl, -⟩)
    · exact inv.apart j is_out
    · exact not_in
  · -- two live objects at one address: neither or both are the replaced one
    by_cases first : j = i <;> by_cases second : k = i
    · rw [first, second]
    · subst first
      have old := (live_other k second).mp right
      simp only [Function.update_self, Function.update_of_ne second] at same
      exact absurd same.symm (fresh (live_self.mp left).2 k second old)
    · subst second
      have old := (live_other j first).mp left
      simp only [Function.update_self, Function.update_of_ne first] at same
      exact absurd same (fresh (live_self.mp right).2 j first old)
    · simp only [Function.update_of_ne first, Function.update_of_ne second] at same
      exact inv.distinct j k ((live_other j first).mp left) ((live_other k second).mp right) same

theorem fresh_self (inv : Inv out m) (is_out : out i) (j : Nat) (ne : j ≠ i) (live : m.Live j) :
    (m.objects j).addr ≠ (m.objects i).addr := fun same =>
  ne (inv.distinct j i live ((inv.live i).mp (.inr is_out)) same)

/-- A timer that is out may change its period and its deadline. -/
theorem write_out (inv : Inv out m) (is_out : out i) (timer : Timer γ)
    (addr : timer.addr = (m.objects i).addr) (cb : timer.cb = (m.objects i).cb) :
    Inv out (m.write i timer) := by
  have live := (inv.live i).mp (.inr is_out)
  have replaced := inv.replace (inv.apart i is_out) timer m.made (fun _ _ => Iff.rfl)
    (fun _ => addr ▸ inv.fresh_self is_out)
  apply replaced.congr
  intro j
  by_cases same : j = i
  · subst same
    simp [is_out, cb, live.1, live.2]
  · simp [same]

/-- A timer that is out may lose its callback, and is not live any more. -/
theorem kill (inv : Inv out m) (is_out : out i) :
    Inv (fun j => out j ∧ j ≠ i) (m.write i { m.objects i with cb := none }) := by
  have replaced := inv.replace (inv.apart i is_out) { m.objects i with cb := none } m.made
    (fun _ _ => Iff.rfl) (fun _ => inv.fresh_self is_out)
  exact replaced.congr fun j => by simp

theorem made_not_mem (inv : Inv out m) : m.made ∉ m.timers := fun member =>
  Nat.lt_irrefl _ ((inv.live m.made).mp (.inl member)).1

theorem made_not_out (inv : Inv out m) : ¬ out m.made := fun is_out =>
  Nat.lt_irrefl _ ((inv.live m.made).mp (.inr is_out)).1

/-- A new timer is live and out. -/
theorem make_live (inv : Inv out m) (timer : Timer γ) (live : timer.cb.isSome)
    (fresh : ∀ j, m.Live j → (m.objects j).addr ≠ timer.addr) :
    Inv (fun j => out j ∨ j = m.made)
      { m with objects := Function.update m.objects m.made timer, made := m.made + 1 } := by
  have replaced := inv.replace inv.made_not_mem timer (m.made + 1) (fun _ _ => by omega)
    (fun _ j _ => fresh j)
  apply replaced.congr
  intro j
  by_cases same : j = m.made
  · subst same
    simp [live]
  · simp [same]

/-- A new object without a callback changes nothing. -/
theorem make_dead (inv : Inv out m) (timer : Timer γ) (dead : timer.cb = none) :
    Inv out
      { m with objects := Function.update m.objects m.made timer, made := m.made + 1 } := by
  have replaced := inv.replace inv.made_not_mem timer (m.made + 1) (fun _ _ => by omega)
    (fun live => by simp [dead] at live)
  apply replaced.congr
  intro j
  by_cases same : j = m.made
  · subst same
    simp [dead, inv.made_not_out]
  · simp [same]

/-- Taking the first timers of the set out. -/
theorem take_front (inv : Inv (fun _ => False) m) (it : Nat) :
    Inv (· ∈ m.timers.take it) { m with timers := m.timers.drop it } := by
  have whole : ∀ j, j ∈ m.timers ↔ j ∈ m.timers.take it ∨ j ∈ m.timers.drop it := fun j => by
    rw [← List.mem_append, List.take_append_drop]
  refine ⟨inv.sorted.sublist (List.drop_sublist it m.timers), fun j => ?_, fun j front back => ?_,
    inv.distinct⟩
  · have live := inv.live j
    rw [or_false, whole] at live
    rw [or_comm]
    exact live
  · have once := inv.nodup
    rw [← List.take_append_drop it m.timers] at once
    exact (List.nodup_append.mp once).2.2 j front j back rfl

end Inv

end TimerManager
end ServerFrame
