import ServerFrame.Http.IpRuns
import ServerFrame.Http.UriPort

/-!
# The host of a URI

A host in brackets is what the places of an address accept; what holds a byte below 0x20 is read
off the edges.
-/
namespace ServerFrame.Http

/-- `Create` returns a URI. -/
def Accepted (text : List UInt8) : Prop := ∃ u, Uri.create text = .ok (some u)

/-- Behind a host in brackets. -/
def inBehind (cs : Nat) : Bool := cs == 512 || cs == 514 || cs == 515 || inTail cs

theorem uriStates_behind : ∀ cs < 561, inBehind cs = true → ∀ e ∈ uriRow cs,
    inBehind e.target = true ∧ e.accepts 93 = false := by
  decide +kernel

section Literals

variable {text a w : List UInt8} {p cs cs' : Nat} {d d' : UriData} {s : Literal.Place}

/-- No bracket closes twice. -/
theorem error_of_behind (behind : inBehind cs = true)
    (ran : uriExecute text cs p d (a ++ 93 :: w) = .ok (cs', d')) : cs' = uriParserError := by
  by_contra fine
  induction a generalizing cs p d with
  | nil =>
    obtain ⟨target, acts, d₁, moves, -, -⟩ := step_of_ran ran fine
    obtain ⟨bound, e, member, accepts, -, -⟩ := row_of_uriTransition moves
    rw [(uriStates_behind cs bound behind e member).2] at accepts
    cases accepts
  | cons b a ih =>
    obtain ⟨target, acts, d₁, moves, -, ran⟩ := step_of_ran ran fine
    obtain ⟨bound, e, member, -, rfl, -⟩ := row_of_uriTransition moves
    exact ih (uriStates_behind cs bound behind e member).1 ran

theorem bracket_of_final (is : s.valid = true) :
    uriTransition s.number 93 = if s.final then some (512, []) else none :=
  (Literal.Place.number_follows is (by decide : 93 < 256)).trans (if_pos rfl)

theorem moves_of_step {b : UInt8} (is : s.valid = true) (other : b ≠ 93) :
    uriTransition s.number b = (s.step b.toNat).map fun s' => (s'.number, []) := by
  refine (Literal.Place.number_follows is b.toNat_lt).trans (if_neg fun same => other ?_)
  exact UInt8.toNat_inj.mp same

theorem execute_of_accepts (is : s.valid = true) (accepted : s.accepts a = true) :
    uriExecute text s.number p d (a ++ 93 :: w) = uriExecute text 512 (p + a.length + 1) d w := by
  induction a generalizing s p with
  | nil =>
    have final : s.final = true := accepted
    rw [List.nil_append, uriExecute, bracket_of_final is, final]
    rfl
  | cons b a ih =>
    rw [Literal.Place.accepts, Option.any_eq_true] at accepted
    obtain ⟨s', stepped, accepted⟩ := accepted
    have other : b ≠ 93 := by
      rintro rfl
      rw [show (93 : UInt8).toNat = 93 from rfl, Literal.Place.no_bracket is] at stepped
      cases stepped
    rw [List.cons_append, uriExecute, moves_of_step is other, stepped, List.length_cons,
      ← Nat.add_assoc, Nat.add_right_comm p]
    exact ih (Literal.Place.valid_of_step is b.toNat_lt stepped) accepted

theorem accepts_of_execute (is : s.valid = true) (fine : cs' ≠ uriParserError)
    (ran : uriExecute text s.number p d (a ++ 93 :: w) = .ok (cs', d')) : s.accepts a = true := by
  induction a generalizing s p d with
  | nil =>
    obtain ⟨target, acts, d₁, moves, -, -⟩ := step_of_ran ran fine
    rw [bracket_of_final is] at moves
    exact (Option.ite_none_right_eq_some.mp moves).1
  | cons b a ih =>
    obtain ⟨target, acts, d₁, moves, -, ran⟩ := step_of_ran ran fine
    by_cases bracket : b = 93
    · subst bracket
      rw [bracket_of_final is] at moves
      obtain ⟨-, same⟩ := Option.ite_none_right_eq_some.mp moves
      obtain ⟨rfl, -⟩ := Prod.mk.inj (Option.some.inj same)
      exact absurd (error_of_behind rfl ran) fine
    · rw [moves_of_step is bracket] at moves
      obtain ⟨s', stepped, same⟩ := Option.map_eq_some_iff.mp moves
      obtain ⟨rfl, -⟩ := Prod.mk.inj same
      rw [Literal.Place.accepts, Option.any_eq_true]
      exact ⟨s', stepped, ih (Literal.Place.valid_of_step is b.toNat_lt stepped) ran⟩

/-- Up to the bracket, where the host is marked. -/
theorem execute_bracket : uriExecute (ascii "http://[" ++ w) uriParserStart 0 ⟨none, .new⟩
    (ascii "http://[" ++ w) =
    uriExecute (ascii "http://[" ++ w) 260 8 ⟨some 7, { Uri.new with scheme := ascii "http" }⟩ w := by
  rfl

/-- The last byte of the text, and its end. -/
theorem execute_slash {start : Nat} {u : Uri} : uriExecute text 512 p ⟨some start, u⟩ [47] =
    .ok (513, ⟨none, { u with
      host := Span.text ⟨start, p⟩ text
      path := Span.text ⟨p, p + 1⟩ text }⟩) := by
  rfl

/-- What `Create` accepts between brackets. -/
theorem accepted_iff : Accepted (ascii "http://[" ++ a ++ ascii "]/") ↔
    Literal.UriIPv6address a ∨ Literal.IPvFuture a := by
  have start : (Literal.Place.start (.lead 0) true).valid = true := rfl
  rw [← Literal.accepts_literal, List.append_assoc]
  constructor
  · rintro ⟨u, created⟩
    obtain ⟨cs, d, ran, final, -⟩ := ran_of_create created
    have fine : cs ≠ uriParserError := Nat.ne_of_gt (Nat.lt_of_lt_of_le (by decide) final)
    rw [execute_bracket] at ran
    exact accepts_of_execute start fine ran
  · intro accepted
    have through : ∃ d, uriExecute (ascii "http://[" ++ (a ++ ascii "]/")) 260 8
        ⟨some 7, { Uri.new with scheme := ascii "http" }⟩ (a ++ ascii "]/") = .ok (513, d) :=
      ⟨_, (execute_of_accepts start accepted).trans execute_slash⟩
    obtain ⟨d, through⟩ := through
    refine ⟨d.uri, ?_⟩
    rw [Uri.create, execute_bracket, through]
    rfl

end Literals

/-! ## Bytes below 0x20 -/

/-- The host has begun: it is marked. -/
def inHost (cs : Nat) : Bool := inAuthority cs && cs != 459 && cs != 469 && cs != 511 && cs != 522

/-- Behind a byte of value 2: only a host that holds it can end here. -/
def inSlip (cs : Nat) : Bool :=
  cs == 9 || cs == 30 || numbered 10 29 cs || numbered 69 95 cs || numbered 229 242 cs ||
    numbered 245 252 cs || numbered 291 317 cs || cs == 460 || numbered 463 466 cs || cs == 512 ||
    numbered 516 519 cs

/-- Behind a host that can have held the byte. -/
def inAfter (cs : Nat) : Bool :=
  numbered 1 2 cs || numbered 5 8 cs || numbered 243 244 cs || numbered 453 457 cs ||
    numbered 461 462 cs || numbered 513 515 cs

/-- A host is marked at its first byte and saved behind its last one; the only byte below 0x20 is
that of value 2, in a host. -/
structure UriEdge.Hosted (cs : Nat) (e : UriEdge) : Prop where
  marked : inHost e.target →
    (∀ a ∈ e.acts, a = .mark ∨ a = .saveHost) ∧ (inHost cs ∨ .mark ∈ e.acts)
  slip : e.accepts 2 → inSlip e.target ∧ (e.acts = [.mark] ∨ inHost cs ∧ e.acts = [])
  inside : inSlip cs → inSlip e.target ∧ e.acts = [] ∨
    inAfter e.target ∧ e.acts.head? = some .saveHost ∧ .saveHost ∉ e.acts.tail
  after : inAfter cs → inAfter e.target ∧ .saveHost ∉ e.acts
  low : ∀ range ∈ e.bytes, 32 ≤ range.1 ∨ range = (2, 2)

instance (cs : Nat) (e : UriEdge) : Decidable (e.Hosted cs) :=
  decidable_of_iff
    ((inHost e.target →
        (∀ a ∈ e.acts, a = .mark ∨ a = .saveHost) ∧ (inHost cs ∨ .mark ∈ e.acts)) ∧
      (e.accepts 2 → inSlip e.target ∧ (e.acts = [.mark] ∨ inHost cs ∧ e.acts = [])) ∧
      (inSlip cs → inSlip e.target ∧ e.acts = [] ∨
        inAfter e.target ∧ e.acts.head? = some .saveHost ∧ .saveHost ∉ e.acts.tail) ∧
      (inAfter cs → inAfter e.target ∧ .saveHost ∉ e.acts) ∧
      ∀ range ∈ e.bytes, 32 ≤ range.1 ∨ range = (2, 2))
    ⟨fun ⟨a, b, c, d, e⟩ => ⟨a, b, c, d, e⟩, fun ⟨a, b, c, d, e⟩ => ⟨a, b, c, d, e⟩⟩

theorem uriStates_hosted : ∀ cs < 561, ∀ e ∈ uriRow cs, e.Hosted cs := by decide +kernel

theorem eof_slip : ∀ cs < 561, inSlip cs = true → uriParserFirstFinal ≤ cs →
    (uriEofActs cs).head? = some .saveHost ∧ .saveHost ∉ (uriEofActs cs).tail := by
  decide +kernel

theorem eof_after : ∀ cs < 561, inAfter cs = true → .saveHost ∉ uriEofActs cs := by
  decide +kernel

section Acts

variable {text : List UInt8} {p start : Nat} {d d' : UriData} {acts : List UriAct}

theorem string_ok {s : List UInt8} (made : d.string text p = .ok s) :
    ∃ start, d.mark = some start ∧ s = Span.text ⟨start, p⟩ text := by
  rw [UriData.string] at made
  split at made
  next => cases made
  next start marked => exact ⟨start, marked, (Except.ok.inj made).symm⟩

theorem act_host {a : UriAct} (acted : d.act text p a = .ok d') :
    d'.uri.host = d.uri.host ∨
      a = .saveHost ∧ ∃ start, d.mark = some start ∧ d'.uri.host = Span.text ⟨start, p⟩ text := by
  cases a with
  | saveHost =>
    simp only [UriData.act] at acted
    split at acted
    next =>
      obtain rfl := Except.ok.inj acted
      exact .inl rfl
    next =>
      obtain ⟨s, made, acted⟩ := EState.except_bind_ok acted
      obtain rfl := Except.ok.inj acted
      obtain ⟨start, marked, rfl⟩ := string_ok made
      exact .inr ⟨rfl, start, marked, rfl⟩
  | mark =>
    obtain rfl := Except.ok.inj acted
    exact .inl rfl
  | savePort =>
    simp only [UriData.act] at acted
    split at acted
    next => cases acted
    next =>
      obtain rfl := Except.ok.inj acted
      refine .inl ?_
      dsimp only
      split <;> rfl
  | saveUserinfo =>
    simp only [UriData.act] at acted
    split at acted
    next =>
      obtain rfl := Except.ok.inj acted
      exact .inl rfl
    next =>
      obtain ⟨s, -, acted⟩ := EState.except_bind_ok acted
      obtain rfl := Except.ok.inj acted
      exact .inl rfl
  | saveScheme | savePath | saveQuery | saveFragment =>
    obtain ⟨s, -, acted⟩ := EState.except_bind_ok acted
    obtain rfl := Except.ok.inj acted
    exact .inl rfl

theorem actAll_host (acted : d.actAll text p acts = .ok d') (none : .saveHost ∉ acts) :
    d'.uri.host = d.uri.host := by
  induction acts generalizing d with
  | nil =>
    obtain rfl := Except.ok.inj acted
    rfl
  | cons a acts ih =>
    obtain ⟨d₁, first, acted⟩ := EState.except_bind_ok acted
    rw [List.mem_cons, not_or] at none
    rcases act_host first with kept | ⟨rfl, -⟩
    · exact (ih acted none.2).trans kept
    · exact absurd rfl none.1

theorem host_of_acts (marked : d.mark = some start) (first : acts.head? = some .saveHost)
    (once : .saveHost ∉ acts.tail) (acted : d.actAll text p acts = .ok d') :
    d'.uri.host = Span.text ⟨start, p⟩ text := by
  obtain ⟨rest, rfl⟩ := List.head?_eq_some_iff.mp first
  obtain ⟨d₁, saved, acted⟩ := EState.except_bind_ok acted
  rw [actAll_host acted once]
  simp only [UriData.act, UriData.string, marked, Option.isNone_some, Bool.false_eq_true,
    if_false] at saved
  obtain rfl := Except.ok.inj saved
  rfl

/-- `save_host` keeps the mark. -/
theorem mark_of_acts (few : ∀ a ∈ acts, a = .mark ∨ a = .saveHost)
    (marked : (∃ start ≤ p, d.mark = some start) ∨ .mark ∈ acts)
    (acted : d.actAll text p acts = .ok d') : ∃ start ≤ p, d'.mark = some start := by
  induction acts generalizing d with
  | nil =>
    obtain rfl := Except.ok.inj acted
    rcases marked with marked | none
    · exact marked
    · cases none
  | cons a acts ih =>
    obtain ⟨d₁, first, rest⟩ := EState.except_bind_ok acted
    obtain ⟨here, later⟩ := List.forall_mem_cons.mp few
    rcases here with rfl | rfl
    · obtain rfl := Except.ok.inj first
      exact ih later (.inl ⟨p, Nat.le_refl p, rfl⟩) rest
    · have kept : d₁.mark = d.mark := by
        simp only [UriData.act] at first
        split at first
        next =>
          obtain rfl := Except.ok.inj first
          rfl
        next =>
          obtain ⟨s, -, first⟩ := EState.except_bind_ok first
          obtain rfl := Except.ok.inj first
          rfl
      refine ih later ?_ rest
      rw [kept]
      simpa using marked

/-- A host is a part of the text. -/
theorem host_subset (inside : d.uri.host ⊆ text) (acted : d.actAll text p acts = .ok d') :
    d'.uri.host ⊆ text := by
  induction acts generalizing d with
  | nil =>
    obtain rfl := Except.ok.inj acted
    exact inside
  | cons a acts ih =>
    obtain ⟨d₁, first, acted⟩ := EState.except_bind_ok acted
    refine ih ?_ acted
    rcases act_host first with kept | ⟨-, start, -, saved⟩
    · exact kept ▸ inside
    · rw [saved]
      exact fun b member => List.mem_of_mem_drop (List.mem_of_mem_take member)

end Acts

section Runs

variable {text v w : List UInt8} {cs p cs' start : Nat} {d d' : UriData}

theorem edge_hosted {target : Nat} {b : UInt8} {acts : List UriAct}
    (moves : uriTransition cs b = some (target, acts)) :
    ∃ e : UriEdge, e.Hosted cs ∧ e.accepts b = true ∧ e.target = target ∧ e.acts = acts := by
  obtain ⟨bound, e, member, accepts, target, acts⟩ := row_of_uriTransition moves
  exact ⟨e, uriStates_hosted cs bound e member, accepts, target, acts⟩

theorem host_of_after (after : inAfter cs = true)
    (ran : uriExecute text cs p d w = .ok (cs', d')) (fine : cs' ≠ uriParserError) :
    d'.uri.host = d.uri.host := by
  induction w generalizing cs p d with
  | nil =>
    obtain ⟨d₁, acted, same⟩ := EState.except_bind_ok ran
    obtain ⟨-, rfl⟩ := Prod.mk.inj (Except.ok.inj same)
    have bound : cs < 561 := by
      simp only [inAfter, numbered, Bool.or_eq_true, Bool.and_eq_true, decide_eq_true_eq] at after
      omega
    exact actAll_host acted (eof_after cs bound after)
  | cons b w ih =>
    obtain ⟨target, acts, d₁, moves, acted, ran⟩ := step_of_ran ran fine
    obtain ⟨e, hosted, -, rfl, rfl⟩ := edge_hosted moves
    obtain ⟨stays, none⟩ := hosted.after after
    exact (ih stays ran).trans (actAll_host acted none)

theorem span_mono {b : UInt8} {q : Nat} (member : b ∈ Span.text ⟨start, p⟩ text) (later : p ≤ q) :
    b ∈ Span.text ⟨start, q⟩ text :=
  List.mem_of_mem_take (i := p - start) (by
    rw [Span.text, List.take_take, Nat.min_eq_left (Nat.sub_le_sub_right later start)]
    exact member)

/-- Behind the byte of value 2 the host is saved with it. -/
theorem host_of_slip (slip : inSlip cs = true) (marked : d.mark = some start)
    (member : 2 ∈ Span.text ⟨start, p⟩ text)
    (ran : uriExecute text cs p d w = .ok (cs', d')) (final : uriParserFirstFinal ≤ cs') :
    2 ∈ d'.uri.host := by
  have fine : cs' ≠ uriParserError := Nat.ne_of_gt (Nat.lt_of_lt_of_le (by decide) final)
  induction w generalizing cs p d with
  | nil =>
    obtain ⟨d₁, acted, same⟩ := EState.except_bind_ok ran
    obtain ⟨rfl, rfl⟩ := Prod.mk.inj (Except.ok.inj same)
    have bound : cs < 561 := by
      simp only [inSlip, numbered, Bool.or_eq_true, Bool.and_eq_true, decide_eq_true_eq,
        beq_iff_eq] at slip
      omega
    obtain ⟨first, once⟩ := eof_slip cs bound slip final
    rwa [host_of_acts marked first once acted]
  | cons b w ih =>
    obtain ⟨target, acts, d₁, moves, acted, ran⟩ := step_of_ran ran fine
    obtain ⟨e, hosted, -, rfl, rfl⟩ := edge_hosted moves
    rcases hosted.inside slip with ⟨stays, quiet⟩ | ⟨after, first, once⟩
    · rw [quiet] at acted
      obtain rfl := Except.ok.inj acted
      exact ih stays marked (span_mono member (Nat.le_succ p)) ran
    · rwa [host_of_after after ran fine, host_of_acts marked first once acted]

/-- In a host the mark is set. -/
theorem marked_of_reads (reads : UriReads text cs p d v cs' d')
    (marked : inHost cs = true → ∃ start ≤ p, d.mark = some start) :
    inHost cs' = true → ∃ start ≤ p + v.length, d'.mark = some start := by
  induction reads with
  | nil => exact marked
  | @cons cs p target cs' b acts d d₁ d' w moves acted rest ih =>
    rw [List.length_cons, ← Nat.add_assoc, Nat.add_right_comm]
    refine ih fun host => ?_
    obtain ⟨e, hosted, -, rfl, rfl⟩ := edge_hosted moves
    obtain ⟨few, again⟩ := hosted.marked host
    obtain ⟨start, earlier, marked⟩ := mark_of_acts few (again.imp_left marked) acted
    exact ⟨start, Nat.le_succ_of_le earlier, marked⟩

theorem mem_host_of_ran (ran : uriExecute (v ++ 2 :: w) uriParserStart 0 ⟨none, .new⟩ (v ++ 2 :: w) =
    .ok (cs', d')) (final : uriParserFirstFinal ≤ cs') : 2 ∈ d'.uri.host := by
  have fine : cs' ≠ uriParserError := Nat.ne_of_gt (Nat.lt_of_lt_of_le (by decide) final)
  obtain ⟨cs, d, reads, ran⟩ := reads_of_uriExecute ran fine
  obtain ⟨target, acts, d₁, moves, acted, ran⟩ := step_of_ran ran fine
  obtain ⟨e, hosted, accepts, rfl, rfl⟩ := edge_hosted moves
  obtain ⟨slip, marks⟩ := hosted.slip accepts
  rw [Nat.zero_add] at acted ran
  have marked : ∃ start ≤ v.length, d₁.mark = some start := by
    rcases marks with marks | ⟨host, quiet⟩
    · rw [marks] at acted
      obtain rfl := Except.ok.inj acted
      exact ⟨v.length, Nat.le_refl _, rfl⟩
    · rw [quiet] at acted
      obtain rfl := Except.ok.inj acted
      simpa using marked_of_reads reads (fun other => by cases other) host
  obtain ⟨start, earlier, marked⟩ := marked
  refine host_of_slip slip marked ?_ ran final
  have length : v.length + 1 - start = (v.drop start ++ [2]).length := by
    rw [List.length_append, List.length_drop, List.length_singleton]
    omega
  rw [Span.text, List.drop_append_of_le_length earlier, List.append_cons, length, List.take_left]
  simp

/-- The bytes of a text that is read. -/
theorem low_of_ran (ran : uriExecute text cs p d w = .ok (cs', d')) (fine : cs' ≠ uriParserError) :
    ∀ b ∈ w, 32 ≤ b.toNat ∨ b = 2 := by
  induction w generalizing cs p d with
  | nil => simp
  | cons b w ih =>
    obtain ⟨target, acts, d₁, moves, -, ran⟩ := step_of_ran ran fine
    obtain ⟨e, hosted, accepts, rfl, rfl⟩ := edge_hosted moves
    refine List.forall_mem_cons.mpr ⟨?_, ih ran⟩
    obtain ⟨range, member, between⟩ := List.any_eq_true.mp accepts
    simp only [Bool.and_eq_true, decide_eq_true_eq] at between
    rcases hosted.low range member with high | rfl
    · exact .inl (Nat.le_trans high between.1)
    · exact .inr (UInt8.toNat_inj.mp (Nat.le_antisymm between.2 between.1))

theorem host_of_run (inside : d.uri.host ⊆ text)
    (ran : uriExecute text cs p d w = .ok (cs', d')) : d'.uri.host ⊆ text := by
  induction w generalizing cs p d with
  | nil =>
    obtain ⟨d₁, acted, same⟩ := EState.except_bind_ok ran
    obtain ⟨-, rfl⟩ := Prod.mk.inj (Except.ok.inj same)
    exact host_subset inside acted
  | cons b w ih =>
    rw [uriExecute] at ran
    split at ran
    next =>
      obtain ⟨-, rfl⟩ := Prod.mk.inj (Except.ok.inj ran)
      exact inside
    next target acts moves =>
      obtain ⟨d₁, acted, ran⟩ := EState.except_bind_ok ran
      exact ih (host_subset inside acted) ran

end Runs

/-- A host holds a byte below 0x20 exactly when the text holds one of value 2. -/
theorem low_host_iff {text : List UInt8} {u : Uri} (created : Uri.create text = .ok (some u)) :
    (∀ b ∈ u.host, 32 ≤ b.toNat) ↔ 2 ∉ text := by
  obtain ⟨cs, d, ran, final, rfl⟩ := ran_of_create created
  have fine : cs ≠ uriParserError := Nat.ne_of_gt (Nat.lt_of_lt_of_le (by decide) final)
  constructor
  · intro high member
    obtain ⟨v, w, rfl⟩ := List.append_of_mem member
    exact absurd (high 2 (mem_host_of_ran ran final)) (by decide)
  · intro none b member
    have here := host_of_run (List.nil_subset _) ran member
    rcases low_of_ran ran fine b here with high | rfl
    · exact high
    · exact absurd here none

/-! ## Octets -/

/-- Two lists with the same element behind which it does not come again. -/
theorem eq_of_last {c : UInt8} {x x' y y' : List UInt8} (same : x ++ c :: y = x' ++ c :: y')
    (last : c ∉ y) (last' : c ∉ y') : x = x' ∧ y = y' := by
  rcases List.append_eq_append_iff.mp same with ⟨z, rfl, split⟩ | ⟨z, rfl, split⟩
  · cases z with
    | nil =>
      obtain ⟨-, rfl⟩ := List.cons.inj split
      exact ⟨(List.append_nil x).symm, rfl⟩
    | cons d z =>
      obtain ⟨-, rfl⟩ := List.cons.inj split
      exact absurd (by simp) last
  · cases z with
    | nil =>
      obtain ⟨-, rfl⟩ := List.cons.inj split
      exact ⟨List.append_nil x', rfl⟩
    | cons d z =>
      obtain ⟨-, rfl⟩ := List.cons.inj split
      exact absurd (by simp) last'

/-- What ends an address behind a colon, or is all of it. -/
def AtColon (w : List UInt8) : Prop := w = [] ∨ ∃ t, w = t ++ [58]

theorem eq_of_colon {w w' q q' : List UInt8} (colon : AtColon w) (colon' : AtColon w')
    (none : 58 ∉ q) (none' : 58 ∉ q') (same : w ++ q = w' ++ q') : q = q' := by
  rcases colon with rfl | ⟨t, rfl⟩ <;> rcases colon' with rfl | ⟨t', rfl⟩
  · exact same
  · rw [List.nil_append] at same
    exact absurd (by simp) (same ▸ none)
  · rw [List.nil_append] at same
    exact absurd (by simp) (same ▸ none')
  · rw [List.append_assoc, List.append_assoc] at same
    exact (eq_of_last same none none').2

open Literal in
/-- The numbers that end an address of `uri.rl` are its octets. -/
theorem small_of_quad {w w' v v' : List UInt8} (colon : AtColon w) (colon' : AtColon w')
    (numbers : IPv4address allDigits v) (octets : IPv4address decOctet v') (same : w ++ v = w' ++ v') :
    IPv4address (fun q => allDigits q && octetValue q ≤ 255) v := by
  obtain ⟨q₁, q₂, q₃, q₄, is₁, is₂, is₃, is₄, rfl⟩ := numbers
  obtain ⟨o₁, o₂, o₃, o₄, oct₁, oct₂, oct₃, oct₄, rfl⟩ := octets
  have no_mark : ∀ {q : List UInt8}, allDigits q = true → 46 ∉ q ∧ 58 ∉ q := by
    intro q is
    rw [allDigits, List.all_eq_true] at is
    exact ⟨fun member => absurd (is 46 member) (by decide),
      fun member => absurd (is 58 member) (by decide)⟩
  have no_mark' : ∀ {q : List UInt8}, decOctet q = true → 46 ∉ q ∧ 58 ∉ q := by
    intro q is
    refine ⟨fun member => ?_, fun member => ?_⟩
    · rcases mem_octetRule is member with digit | other
      · cases digit
      · cases other
    · rcases mem_octetRule is member with digit | other
      · cases digit
      · cases other
  have split : ∀ u q₁ q₂ q₃ q₄ : List UInt8, u ++ (q₁ ++ 46 :: (q₂ ++ 46 :: (q₃ ++ 46 :: q₄))) =
      (((u ++ q₁) ++ 46 :: q₂) ++ 46 :: q₃) ++ 46 :: q₄ := by simp
  rw [split, split] at same
  obtain ⟨three, rfl⟩ := eq_of_last same (no_mark is₄).1 (no_mark' oct₄).1
  obtain ⟨two, rfl⟩ := eq_of_last three (no_mark is₃).1 (no_mark' oct₃).1
  obtain ⟨one, rfl⟩ := eq_of_last two (no_mark is₂).1 (no_mark' oct₂).1
  obtain rfl := eq_of_colon colon colon' (no_mark is₁).2 (no_mark' oct₁).2 one
  have small : ∀ {q : List UInt8}, allDigits q = true → decOctet q = true →
      (allDigits q && octetValue q ≤ 255) = true := by
    intro q is octet
    simp [is, octetValue_le octet]
  exact ⟨q₁, q₂, q₃, q₄, small is₁ oct₁, small is₂ oct₂, small is₃ oct₃, small is₄ oct₄, rfl⟩

/-! ## The claim on hosts in brackets -/

open Literal in
/-- `Create` accepts the addresses of RFC 3986 and no others between brackets, but for those with
an octet from 200 to 249, those in which groups before `::` are too few, and those that hold the
byte of value 2; a host holds a byte below 0x20 when the text holds that one; an octet above 255 is
not accepted. -/
theorem literals_accepted_iff (a text w v : List UInt8) (u : Uri) :
    ((Accepted (ascii "http://[" ++ a ++ ascii "]/") ↔ RfcIPv6address a ∨ IPvFuture a) ↔
      (RfcIPv6address a → IPv6address plainOctet (fun k n => n = k) a) ∧
        ¬ (UriIPv6address a ∧ 2 ∈ a)) ∧
    (Uri.create text = .ok (some u) → ((∀ b ∈ u.host, 32 ≤ b.toNat) ↔ 2 ∉ text)) ∧
    (AtColon w → IPv4address allDigits v →
      Accepted (ascii "http://[" ++ (w ++ v) ++ ascii "]/") → ¬ IPvFuture (w ++ v) →
      IPv4address (fun q => allDigits q && octetValue q ≤ 255) v) := by
  refine ⟨?_, fun created => low_host_iff created, ?_⟩
  · rw [accepted_iff, ← grammars_agree_iff]
    constructor
    · intro same
      constructor
      · intro is
        exact (same.mp (.inl is)).resolve_right (not_future is (by decide))
      · intro is
        exact (same.mpr (.inl is)).resolve_right (not_future is (by decide))
    · intro same
      rw [same]
  · intro colon numbers accepted other
    have is := (accepted_iff.mp accepted).resolve_right other
    have dot : 46 ∈ w ++ v := by
      obtain ⟨q₁, q₂, q₃, q₄, -, -, -, -, rfl⟩ := numbers
      simp
    obtain ⟨w', v', octets, colon', same⟩ := quad_of_ipv6address is dot
    exact small_of_quad colon colon' numbers octets same

open Literal in
/-- Two addresses that are refused, and a host with a byte of value 2 that is not. -/
theorem literals_misjudged :
    (RfcIPv6address (ascii "fe80::1") ∧ ¬ Accepted (ascii "http://[fe80::1]/")) ∧
    (RfcIPv6address (ascii "::200.1.1.1") ∧ ¬ Accepted (ascii "http://[::200.1.1.1]/")) ∧
    Accepted (ascii "http://[::" ++ 2 :: ascii "00.1.1.1]/") := by
  have rejected : Uri.create (ascii "http://[fe80::1]/") = .ok none := by rfl
  have rejected' : Uri.create (ascii "http://[::200.1.1.1]/") = .ok none := by rfl
  refine ⟨⟨?_, ?_⟩, ⟨?_, ?_⟩, ?_⟩
  · exact .inr (.inr (.inr (.inl ⟨ascii "fe80", ascii "1",
      .inr ⟨0, [], ascii "fe80", by decide, times_zero.mpr rfl, by decide, rfl⟩, by decide, by decide⟩)))
  · rintro ⟨u, created⟩
    rw [rejected] at created
    cases created
  · exact .inr (.inr (.inl ⟨4, by decide, [], [], ascii "200.1.1.1", .inl rfl, times_zero.mpr rfl,
      .inr ⟨ascii "200", ascii "1", ascii "1", ascii "1", by decide, by decide, by decide, by decide,
        rfl⟩, rfl⟩))
  · rintro ⟨u, created⟩
    rw [rejected'] at created
    cases created
  · exact ⟨_, rfl⟩

end ServerFrame.Http
