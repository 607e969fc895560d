import ServerFrame.Http.Uri
import ServerFrame.Lib.EState
import Mathlib.Data.FinEnum

/-!
# The parts of a URI in the states of `uri_parser`

Which states belong to what comes before `//`, to the authority, to a port, and to what follows
the authority; all of it is read off the edges. A run that has not failed is a chain of moves.
-/
namespace ServerFrame.Http

/-- From state `cs` at position `p` the bytes lead to state `cs'`. -/
inductive UriReads (text : List UInt8) : Nat → Nat → UriData → List UInt8 → Nat → UriData → Prop
  | nil {cs p : Nat} {d : UriData} : UriReads text cs p d [] cs d
  | cons {cs p target cs' : Nat} {b : UInt8} {acts : List UriAct} {d d₁ d' : UriData}
      {w : List UInt8} (moves : uriTransition cs b = some (target, acts))
      (acted : d.actAll text p acts = .ok d₁) (rest : UriReads text target (p + 1) d₁ w cs' d') :
      UriReads text cs p d (b :: w) cs' d'

section Reads

variable {text v w : List UInt8} {cs p cs' : Nat} {d d' : UriData}

theorem uriExecute_of_reads (reads : UriReads text cs p d v cs' d') (w : List UInt8) :
    uriExecute text cs p d (v ++ w) = uriExecute text cs' (p + v.length) d' w := by
  induction reads with
  | nil => rfl
  | cons moves acted rest ih =>
    rw [List.cons_append, uriExecute, moves, List.length_cons, ← Nat.add_assoc,
      Nat.add_right_comm]
    simp only [acted]
    exact ih

/-- A call that does not end in the error state has gone through all of the text. -/
theorem reads_of_uriExecute (ran : uriExecute text cs p d (v ++ w) = .ok (cs', d'))
    (fine : cs' ≠ uriParserError) :
    ∃ cs₁ d₁, UriReads text cs p d v cs₁ d₁ ∧
      uriExecute text cs₁ (p + v.length) d₁ w = .ok (cs', d') := by
  induction v generalizing cs p d with
  | nil => exact ⟨cs, d, .nil, ran⟩
  | cons b v ih =>
    rw [List.cons_append, uriExecute] at ran
    split at ran
    next =>
      obtain ⟨rfl, -⟩ := Prod.mk.inj (Except.ok.inj ran)
      exact absurd rfl fine
    next target acts moves =>
      cases acted : d.actAll text p acts with
      | error fault =>
        rw [acted] at ran
        cases ran
      | ok d₁ =>
        rw [acted] at ran
        obtain ⟨cs₁, d₂, reads, rest⟩ := ih ran
        rw [Nat.add_assoc, Nat.add_comm 1] at rest
        exact ⟨cs₁, d₂, .cons moves acted reads, rest⟩

theorem UriReads.append {cs₁ : Nat} {d₁ : UriData} (first : UriReads text cs p d v cs₁ d₁)
    (second : UriReads text cs₁ (p + v.length) d₁ w cs' d') :
    UriReads text cs p d (v ++ w) cs' d' := by
  induction first with
  | nil => exact second
  | cons moves acted rest ih =>
    refine .cons moves acted (ih ?_)
    rw [Nat.add_assoc, Nat.add_comm 1]
    exact second

end Reads

/-! ## Zones -/

/-- Between two numbers. -/
def numbered (lo hi cs : Nat) : Bool := lo ≤ cs && cs ≤ hi

/-- A scheme, or the first segment of a path. -/
def inLead (cs : Nat) : Bool := numbered 3 4 cs || numbered 451 452 cs || cs == 508

def inAuthority (cs : Nat) : Bool :=
  numbered 9 242 cs || numbered 245 450 cs || numbered 459 507 cs || numbered 511 512 cs ||
    numbered 514 560 cs

/-- Behind the authority: path, query and fragment. -/
def inTail (cs : Nat) : Bool :=
  numbered 1 2 cs || numbered 5 8 cs || numbered 243 244 cs || numbered 453 457 cs || cs == 513

/-- Behind a colon at which a port may begin. -/
def atPort (cs : Nat) : Bool := cs == 461 || cs == 468 || cs == 514 || cs == 521

/-- In the digits of what may be a port. -/
def inPort (cs : Nat) : Bool := cs == 462 || cs == 489 || cs == 515 || cs == 542

/-- In what can only be a userinfo, or between brackets. -/
def inUserinfo (cs : Nat) : Bool :=
  numbered 33 35 cs || numbered 38 228 cs || numbered 255 257 cs || numbered 260 450 cs

/-- The bytes that end an authority. -/
def ends (b : UInt8) : Bool := b == 35 || b == 47 || b == 63

def isDigit (b : UInt8) : Bool := 48 ≤ b && b ≤ 57

/-- Some byte of the edge ends an authority. -/
def UriEdge.leaves (e : UriEdge) : Bool := e.accepts 35 || e.accepts 47 || e.accepts 63

def UriEdge.onDigit (e : UriEdge) : Bool :=
  [48, 49, 50, 51, 52, 53, 54, 55, 56, 57].any fun b => e.accepts b

/-- The edges stay in a zone but at the byte that ends it. -/
structure UriEdge.Zoned (cs : Nat) (e : UriEdge) : Prop where
  target : 0 < e.target
  single : e.leaves → inLead cs || inAuthority cs →
    e.bytes = [(35, 35)] ∨ e.bytes = [(47, 47)] ∨ e.bytes = [(63, 63)]
  authority : inAuthority cs → e.leaves = false → inAuthority e.target
  leave : inAuthority cs → e.leaves → inTail e.target
  tail : inTail cs → inTail e.target ∧ .savePort ∉ e.acts

instance (cs : Nat) (e : UriEdge) : Decidable (e.Zoned cs) :=
  decidable_of_iff
    (0 < e.target ∧
      (e.leaves → inLead cs || inAuthority cs →
        e.bytes = [(35, 35)] ∨ e.bytes = [(47, 47)] ∨ e.bytes = [(63, 63)]) ∧
      (inAuthority cs → e.leaves = false → inAuthority e.target) ∧
      (inAuthority cs → e.leaves → inTail e.target) ∧
      (inTail cs → inTail e.target ∧ .savePort ∉ e.acts))
    ⟨fun ⟨a, b, c, d, e⟩ => ⟨a, b, c, d, e⟩, fun ⟨a, b, c, d, e⟩ => ⟨a, b, c, d, e⟩⟩

/-- A scheme is marked at its first letter and saved at its colon. -/
structure UriEdge.Led (cs : Nat) (e : UriEdge) : Prop where
  lead : inLead cs → e.leaves = false → e.accepts 58 = false → inLead e.target
  start : cs = 451 → e.target = 508 → e.acts = [.mark]
  letter : e.target = 508 → cs = 451 ∨ cs = 508 ∧ e.acts = []
  once : e.target ≠ 451
  colon : inLead cs → e.accepts 58 →
    e.bytes = [(58, 58)] ∧ cs = 508 ∧ e.target = 509 ∧ e.acts = [.saveScheme]
  other : cs ≠ 508 → .saveScheme ∉ e.acts

instance (cs : Nat) (e : UriEdge) : Decidable (e.Led cs) :=
  decidable_of_iff
    ((inLead cs → e.leaves = false → e.accepts 58 = false → inLead e.target) ∧
      (cs = 451 → e.target = 508 → e.acts = [.mark]) ∧
      (e.target = 508 → cs = 451 ∨ cs = 508 ∧ e.acts = []) ∧ e.target ≠ 451 ∧
      (inLead cs → e.accepts 58 →
        e.bytes = [(58, 58)] ∧ cs = 508 ∧ e.target = 509 ∧ e.acts = [.saveScheme]) ∧
      (cs ≠ 508 → .saveScheme ∉ e.acts))
    ⟨fun ⟨a, b, c, d, e, f⟩ => ⟨a, b, c, d, e, f⟩, fun ⟨a, b, c, d, e, f⟩ => ⟨a, b, c, d, e, f⟩⟩

/-- A port is marked at its first digit and saved behind its last one. -/
structure UriEdge.Ported (cs : Nat) (e : UriEdge) : Prop where
  colon : inAuthority cs → e.accepts 58 → atPort e.target ∨ inUserinfo e.target
  first : atPort cs → e.onDigit → inPort e.target ∧ e.acts = [.mark]
  digit : inPort cs → e.onDigit → inPort e.target ∧ e.acts = []
  port : inPort cs → e.leaves → e.acts.head? = some .savePort ∧ .savePort ∉ e.acts.tail
  userinfo : inUserinfo cs → e.leaves = false
  more : inUserinfo cs → e.onDigit → inUserinfo e.target

instance (cs : Nat) (e : UriEdge) : Decidable (e.Ported cs) :=
  decidable_of_iff
    ((inAuthority cs → e.accepts 58 → atPort e.target ∨ inUserinfo e.target) ∧
      (atPort cs → e.onDigit → inPort e.target ∧ e.acts = [.mark]) ∧
      (inPort cs → e.onDigit → inPort e.target ∧ e.acts = []) ∧
      (inPort cs → e.leaves → e.acts.head? = some .savePort ∧ .savePort ∉ e.acts.tail) ∧
      (inUserinfo cs → e.leaves = false) ∧ (inUserinfo cs → e.onDigit → inUserinfo e.target))
    ⟨fun ⟨a, b, c, d, e, f⟩ => ⟨a, b, c, d, e, f⟩, fun ⟨a, b, c, d, e, f⟩ => ⟨a, b, c, d, e, f⟩⟩

theorem uriStates_zoned : ∀ cs < 561, ∀ e ∈ uriRow cs, e.Zoned cs := by decide +kernel

theorem uriStates_led : ∀ cs < 561, ∀ e ∈ uriRow cs, e.Led cs := by decide +kernel

theorem uriStates_ported : ∀ cs < 561, ∀ e ∈ uriRow cs, e.Ported cs := by decide +kernel

theorem uriRow_out {cs : Nat} (out : 561 ≤ cs) : uriRow cs = [] := by
  rcases Nat.lt_or_ge cs 580 with small | large
  · have last : ∀ cs < 580, 561 ≤ cs → uriRow cs = [] := by decide +kernel
    exact last cs small out
  · have beyond : uriStates.getD (cs / 20) [] = [] := by
      rw [List.getD_eq_getElem?_getD, List.getElem?_eq_none]
      · rfl
      · show 29 ≤ cs / 20
        omega
    rw [uriRow, beyond]
    rfl

/-- Every transition is an edge of the table. -/
theorem row_of_uriTransition {cs target : Nat} {b : UInt8} {acts : List UriAct}
    (moves : uriTransition cs b = some (target, acts)) :
    cs < 561 ∧ ∃ e ∈ uriRow cs, e.accepts b = true ∧ e.target = target ∧ e.acts = acts := by
  rw [uriTransition, Option.map_eq_some_iff] at moves
  obtain ⟨e, found, same⟩ := moves
  cases same
  have member := List.mem_of_find?_eq_some found
  refine ⟨?_, e, member, by simpa using List.find?_some found, rfl, rfl⟩
  by_contra out
  rw [uriRow_out (Nat.not_lt.mp out)] at member
  cases member

theorem edge_of_uriTransition {cs target : Nat} {b : UInt8} {acts : List UriAct}
    (moves : uriTransition cs b = some (target, acts)) :
    ∃ e : UriEdge, e.Zoned cs ∧ e.Led cs ∧ e.Ported cs ∧ e.accepts b = true ∧
      e.target = target ∧ e.acts = acts := by
  obtain ⟨bound, e, member, accepts, target, acts⟩ := row_of_uriTransition moves
  exact ⟨e, uriStates_zoned cs bound e member, uriStates_led cs bound e member,
    uriStates_ported cs bound e member, accepts, target, acts⟩

/-- A call that does not end in the error state has taken the first byte. -/
theorem step_of_ran {text w : List UInt8} {cs p cs' : Nat} {b : UInt8} {d d' : UriData}
    (ran : uriExecute text cs p d (b :: w) = .ok (cs', d')) (fine : cs' ≠ uriParserError) :
    ∃ target acts d₁, uriTransition cs b = some (target, acts) ∧
      d.actAll text p acts = .ok d₁ ∧ uriExecute text target (p + 1) d₁ w = .ok (cs', d') := by
  rw [uriExecute] at ran
  split at ran
  next => exact absurd (Prod.mk.inj (Except.ok.inj ran)).1.symm fine
  next target acts moves =>
    obtain ⟨d₁, acted, ran⟩ := EState.except_bind_ok ran
    exact ⟨target, acts, d₁, moves, acted, ran⟩

section Edges

variable {cs : Nat} {e : UriEdge} {b : UInt8}

theorem onDigit_of_accepts (accepts : e.accepts b = true) (digit : isDigit b = true) :
    e.onDigit = true := by
  have known : ∀ b : UInt8, isDigit b = true → b ∈ [48, 49, 50, 51, 52, 53, 54, 55, 56, 57] := by
    decide +kernel
  exact List.any_eq_true.mpr ⟨b, known b digit, accepts⟩

theorem leaves_of_ends (accepts : e.accepts b = true) (stop : ends b = true) : e.leaves = true := by
  simp only [ends, Bool.or_eq_true, beq_iff_eq] at stop
  rcases stop with (rfl | rfl) | rfl <;> simp [UriEdge.leaves, accepts]

theorem eq_of_single {n : Nat} (bytes : e.bytes = [(n, n)]) (accepts : e.accepts b = true) :
    b.toNat = n := by
  simp only [UriEdge.accepts, bytes, List.any_cons, List.any_nil, Bool.or_false, Bool.and_eq_true,
    decide_eq_true_eq] at accepts
  omega

theorem leaves_eq_false (zoned : e.Zoned cs) (zone : inLead cs || inAuthority cs)
    (accepts : e.accepts b = true) (stays : ends b = false) : e.leaves = false := by
  by_contra leaves
  rw [Bool.not_eq_false] at leaves
  have known : ∀ b : UInt8, b.toNat = 35 ∨ b.toNat = 47 ∨ b.toNat = 63 → ends b = true := by
    decide +kernel
  have stop : ends b = true := by
    apply known
    rcases zoned.single leaves zone with bytes | bytes | bytes
    · exact .inl (eq_of_single bytes accepts)
    · exact .inr (.inl (eq_of_single bytes accepts))
    · exact .inr (.inr (eq_of_single bytes accepts))
  rw [stays] at stop
  cases stop

end Edges

section Runs

variable {text v : List UInt8} {cs p cs' : Nat} {d d' : UriData}

theorem reads_authority (reads : UriReads text cs p d v cs' d') (zone : inAuthority cs = true)
    (stays : ∀ b ∈ v, ends b = false) : inAuthority cs' = true := by
  induction reads with
  | nil => exact zone
  | cons moves acted rest ih =>
    obtain ⟨e, zoned, -, -, accepts, rfl, -⟩ := edge_of_uriTransition moves
    have here := stays _ (List.mem_cons_self ..)
    refine ih (zoned.authority zone ?_) fun b member => stays b (List.mem_cons_of_mem _ member)
    exact leaves_eq_false zoned (by simp [zone]) accepts here

end Runs

end ServerFrame.Http
