import ServerFrame.Http.Ipv6

/-!
# What a place accepts

For every place, what may follow it, in terms of the grammar. A byte leads from a place to another
exactly when the rest begins with it; so what may follow `[` is what the places accept.
-/
namespace ServerFrame.Http.Literal

/-! ## Octets -/

/-- The bytes complete the octet. -/
def Octet.accepts : Octet → List UInt8 → Bool
  | o, [] => o.complete
  | o, b :: w => (o.step b.toNat).any fun o' => o'.accepts w

section Octets

variable {w : List UInt8}

theorem any_guard {c : Prop} [Decidable c] {o : Octet} {f : Octet → Bool} :
    (if c then some o else none).any f = (decide c && f o) := by
  split <;> simp [*]

theorem any_guard_else {c : Prop} [Decidable c] {o : Octet} {rest : Option Octet} {f : Octet → Bool} :
    (if c then some o else rest).any f = if c then f o else rest.any f := by
  split <;> simp [*]

theorem accepts_full : Octet.full.accepts w = w.isEmpty := by
  cases w <;> rfl

theorem accepts_more : Octet.more.accepts w = match w with
    | [] => true
    | [b] => isDigit b.toNat
    | _ => false := by
  rcases w with _ | ⟨b, _ | ⟨c, w⟩⟩
  · rfl
  all_goals simp [Octet.accepts, Octet.step, any_guard, Octet.complete]

theorem accepts_one : Octet.one.accepts w = match w with
    | [] => true
    | [b] => isDigit b.toNat
    | [b, c] => isDigit b.toNat && isDigit c.toNat
    | _ => false := by
  rcases w with _ | ⟨b, _ | ⟨c, _ | ⟨d, w⟩⟩⟩
  · rfl
  all_goals simp [Octet.accepts, Octet.step, any_guard, Octet.complete]

theorem accepts_five : Octet.five.accepts w = match w with
    | [] => true
    | [b] => 48 ≤ b.toNat && b.toNat ≤ 53
    | _ => false := by
  rcases w with _ | ⟨b, _ | ⟨c, w⟩⟩
  · rfl
  all_goals simp [Octet.accepts, Octet.step, any_guard, Octet.complete]

theorem accepts_two : Octet.two.accepts w = match w with
    | [] => true
    | [b] => isDigit b.toNat
    | [b, c] => b.toNat = 53 && (48 ≤ c.toNat && c.toNat ≤ 53)
    | _ => false := by
  rcases w with _ | ⟨b, _ | ⟨c, w⟩⟩
  · rfl
  · rw [Octet.accepts, Octet.step, any_guard_else, any_guard, accepts_five, accepts_full]
    split
    next five => simp [five, isDigit]
    next => simp
  · rw [Octet.accepts, Octet.step, any_guard_else, any_guard, accepts_five, accepts_full]
    cases w <;> simp

theorem accepts_slip : Octet.slip.accepts w = match w with
    | [b, c] => (48 ≤ b.toNat && b.toNat ≤ 52) && isDigit c.toNat
    | _ => false := by
  rcases w with _ | ⟨b, _ | ⟨c, _ | ⟨d, w⟩⟩⟩
  · rfl
  all_goals simp [Octet.accepts, Octet.step, any_guard, Octet.complete]

theorem octet_accepts : Octet.begin.accepts w = decOctet w := by
  rcases w with _ | ⟨a, w⟩
  · rfl
  · rw [Octet.accepts, Octet.step, any_guard_else, any_guard_else, any_guard_else, any_guard_else,
      any_guard, accepts_full, accepts_one, accepts_two, accepts_more, accepts_slip]
    split
    next zero =>
      obtain rfl : a = 48 := UInt8.toNat_inj.mp zero
      rcases w with _ | ⟨b, _ | ⟨c, _ | ⟨d, w⟩⟩⟩ <;> rfl
    next no_zero =>
    split
    next one =>
      obtain rfl : a = 49 := UInt8.toNat_inj.mp one
      rcases w with _ | ⟨b, _ | ⟨c, _ | ⟨d, w⟩⟩⟩ <;> simp [decOctet, octetRule, isDigit]
    next no_one =>
    split
    next two =>
      obtain rfl : a = 50 := UInt8.toNat_inj.mp two
      rcases w with _ | ⟨b, _ | ⟨c, _ | ⟨d, w⟩⟩⟩ <;> simp [decOctet, octetRule, isDigit, beq_code]
    next no_two =>
    split
    next digit =>
      have no_slip : a.toNat ≠ 2 := by
        intro same
        rw [same] at digit
        cases digit
      rcases w with _ | ⟨b, _ | ⟨c, _ | ⟨d, w⟩⟩⟩ <;>
        simp [decOctet, octetRule, digit, no_zero, no_one, no_two, no_slip, bne, beq_code]
    next no_digit =>
      rcases w with _ | ⟨b, _ | ⟨c, _ | ⟨d, w⟩⟩⟩ <;>
        simp [decOctet, octetRule, no_digit, no_one, no_two, beq_code, Bool.and_assoc]

/-- `w` completes the octet, with `r` more behind it. -/
def Octets : Nat → Octet → List UInt8 → Prop
  | 0, o, w => o.accepts w = true
  | r + 1, o, w => ∃ ds v, o.accepts ds = true ∧ Octets r .begin v ∧ w = ds ++ 46 :: v

theorem ipv4_octets : IPv4address decOctet w ↔ Octets 3 .begin w := by
  simp only [Octets, octet_accepts]
  constructor
  · rintro ⟨a, b, c, d, is_a, is_b, is_c, is_d, rfl⟩
    exact ⟨a, _, is_a, ⟨b, _, is_b, ⟨c, d, is_c, is_d, rfl⟩, rfl⟩, rfl⟩
  · rintro ⟨a, _, is_a, ⟨b, _, is_b, ⟨c, d, is_c, is_d, rfl⟩, rfl⟩, rfl⟩
    exact ⟨a, b, c, d, is_a, is_b, is_c, is_d, rfl⟩

variable {r : Nat} {o : Octet} {b : UInt8}

theorem accepts_cons :
    o.accepts (b :: w) = true ↔ ∃ o', o.step b.toNat = some o' ∧ o'.accepts w = true := by
  rw [Octet.accepts, Option.any_eq_true]

theorem octets_nil : Octets r o [] ↔ r = 0 ∧ o.complete = true := by
  cases r with
  | zero => simp [Octets, Octet.accepts]
  | succ r => simp [Octets]

theorem octets_cons : Octets r o (b :: w) ↔
    (b = 46 ∧ 1 ≤ r ∧ o.complete = true ∧ Octets (r - 1) .begin w) ∨
      ∃ o', o.step b.toNat = some o' ∧ Octets r o' w := by
  cases r with
  | zero =>
    rw [Octets, accepts_cons]
    simp [Octets]
  | succ r =>
    constructor
    · rintro ⟨_ | ⟨d, ds⟩, v, accepted, rest, same⟩
      · obtain ⟨rfl, rfl⟩ := List.cons.inj same
        exact .inl ⟨rfl, Nat.succ_pos r, accepted, rest⟩
      · obtain ⟨rfl, rfl⟩ := List.cons.inj same
        obtain ⟨o', stepped, accepted⟩ := accepts_cons.mp accepted
        exact .inr ⟨o', stepped, ds, v, accepted, rest, rfl⟩
    · rintro (⟨rfl, -, complete, rest⟩ | ⟨o', stepped, ds, v, accepted, rest, rfl⟩)
      · exact ⟨[], w, complete, rest, rfl⟩
      · exact ⟨b :: ds, v, accepts_cons.mpr ⟨o', stepped, accepted⟩, rest, rfl⟩

end Octets

/-! ## Groups -/

/-- What may follow a group. -/
def AfterGroup (p : Pos) (v : List UInt8) : Prop :=
  v = [] ∧ p.last = true ∨ ∃ p' u, p.next = some p' ∧ Rest p' false u ∧ v = 58 :: u

/-- At most `n` more digits of a group, and what may follow it. -/
def InGroup (p : Pos) (n : Nat) (w : List UInt8) : Prop :=
  ∃ ds v : List UInt8, ds.length ≤ n ∧ (∀ b ∈ ds, isXdigit b.toNat = true) ∧ AfterGroup p v ∧
    w = ds ++ v

section Groups

variable {p : Pos} {fresh : Bool} {n : Nat} {b : UInt8} {w : List UInt8}

theorem room_of_afterGroup (after : AfterGroup p w) : p.room = true := by
  cases p with
  | lead n => rfl
  | tail exact m =>
    rcases after with ⟨-, ends⟩ | ⟨p', u, next, -, -⟩
    · simp only [Pos.last, Bool.or_eq_true, beq_iff_eq, Bool.and_eq_true, decide_eq_true_eq] at ends
      simp only [Pos.room, decide_eq_true_eq]
      omega
    · obtain ⟨two, -⟩ := Option.ite_none_right_eq_some.mp next
      simp only [Pos.room, decide_eq_true_eq]
      omega

theorem room_of_quad (may : p.quad = true) : p.room = true := by
  cases p with
  | lead n => rfl
  | tail exact m =>
    simp only [Pos.quad, Bool.or_eq_true, beq_iff_eq, Bool.and_eq_true, decide_eq_true_eq] at may
    simp only [Pos.room, decide_eq_true_eq]
    omega

theorem h16_cons {g : List UInt8} : h16 (b :: g) = true ↔
    isXdigit b.toNat = true ∧ g.length ≤ 3 ∧ ∀ c ∈ g, isXdigit c.toNat = true := by
  simp only [h16, List.length_cons, List.all_cons, Bool.and_eq_true, decide_eq_true_eq,
    List.all_eq_true]
  constructor
  · rintro ⟨⟨-, length⟩, first, all⟩
    exact ⟨first, by omega, all⟩
  · rintro ⟨first, length, all⟩
    exact ⟨⟨by omega, by omega⟩, first, all⟩

theorem rest_nil : Rest p fresh [] ↔ (Place.start p fresh).final = true := by
  constructor
  · intro rest
    generalize whole : ([] : List UInt8) = w at rest
    cases rest with
    | close may =>
      simpa [Place.final] using may
    | last is ends =>
      subst whole
      cases is
    | more => cases (List.append_eq_nil_iff.mp whole.symm).2
    | quad may is =>
      obtain ⟨a, b, c, d, -, -, -, -, rfl⟩ := is
      cases (List.append_eq_nil_iff.mp whole.symm).2
    | skip => cases whole
    | skipAll => cases whole
  · intro ends
    cases p with
    | lead n => cases ends
    | tail exact m =>
      simp only [Place.final, Bool.and_eq_true, Bool.or_eq_true, beq_iff_eq, Bool.not_eq_true'] at ends
      obtain ⟨rfl, may⟩ := ends
      exact .close may

/-- The first byte of a group. -/
theorem rest_cons : Rest p fresh (b :: w) ↔
    (isXdigit b.toNat = true ∧ InGroup p 3 w) ∨
    (p.quad = true ∧ ∃ o, Octet.begin.step b.toNat = some o ∧ Octets 3 o w) ∨
    (b = 58 ∧ ∃ n, p = .lead (n + 1) ∧ Rest (.tail true (7 - (n + 1))) true w) ∨
    (b = 58 ∧ p = .lead 0 ∧ ∃ v, w = 58 :: v ∧ Rest (.tail false 7) true v) := by
  constructor
  · intro rest
    generalize whole : b :: w = w' at rest
    cases rest with
    | close => cases whole
    | last is ends =>
      subst whole
      obtain ⟨first, length, all⟩ := h16_cons.mp is
      exact .inl ⟨first, w, [], length, all, .inl ⟨rfl, ends⟩, by simp⟩
    | @more _ p' _ g v is next rest =>
      cases g with
      | nil => cases is
      | cons c g =>
        obtain ⟨rfl, rfl⟩ := List.cons.inj whole
        obtain ⟨first, length, all⟩ := h16_cons.mp is
        exact .inl ⟨first, g, 58 :: v, length, all, .inr ⟨p', v, next, rest, rfl⟩, rfl⟩
    | quad may is =>
      subst whole
      have octets := ipv4_octets.mp is
      rcases octets_cons.mp octets with ⟨-, -, complete, -⟩ | ⟨o, stepped, octets⟩
      · cases complete
      · exact .inr (.inl ⟨may, o, stepped, octets⟩)
    | @skip n _ v rest =>
      obtain ⟨rfl, rfl⟩ := List.cons.inj whole
      exact .inr (.inr (.inl ⟨rfl, n, rfl, rest⟩))
    | @skipAll _ v rest =>
      obtain ⟨rfl, rfl⟩ := List.cons.inj whole
      exact .inr (.inr (.inr ⟨rfl, rfl, v, rfl, rest⟩))
  · rintro (⟨first, g, v, length, all, after, rfl⟩ | ⟨may, o, stepped, octets⟩ | ⟨rfl, n, rfl, rest⟩ |
      ⟨rfl, rfl, v, rfl, rest⟩)
    · have is : h16 (b :: g) = true := h16_cons.mpr ⟨first, length, all⟩
      rcases after with ⟨rfl, ends⟩ | ⟨p', u, next, rest, rfl⟩
      · rw [List.append_nil]
        exact .last is ends
      · exact .more is next rest
    · exact .quad may (ipv4_octets.mpr (octets_cons.mpr (.inr ⟨o, stepped, octets⟩)))
    · exact .skip rest
    · exact .skipAll rest

theorem inGroup_nil : InGroup p n [] ↔ p.last = true := by
  constructor
  · rintro ⟨ds, v, -, -, after, same⟩
    obtain ⟨rfl, rfl⟩ := List.append_eq_nil_iff.mp same.symm
    rcases after with ⟨-, ends⟩ | ⟨p', u, -, -, same⟩
    · exact ends
    · cases same
  · intro ends
    exact ⟨[], [], Nat.zero_le n, by simp, .inl ⟨rfl, ends⟩, rfl⟩

theorem inGroup_cons : InGroup p n (b :: w) ↔
    (isXdigit b.toNat = true ∧ 1 ≤ n ∧ InGroup p (n - 1) w) ∨
      (b = 58 ∧ ∃ p', p.next = some p' ∧ Rest p' false w) := by
  constructor
  · rintro ⟨_ | ⟨d, ds⟩, v, length, all, after, same⟩
    · rcases after with ⟨rfl, -⟩ | ⟨p', u, next, rest, rfl⟩
      · cases same
      · obtain ⟨rfl, rfl⟩ := List.cons.inj same
        exact .inr ⟨rfl, p', next, rest⟩
    · obtain ⟨rfl, rfl⟩ := List.cons.inj same
      rw [List.length_cons] at length
      exact .inl ⟨all b (List.mem_cons_self ..), by omega, ds, v, by omega,
        fun c member => all c (List.mem_cons_of_mem _ member), after, rfl⟩
  · rintro (⟨first, some, ds, v, length, all, after, rfl⟩ | ⟨rfl, p', next, rest⟩)
    · refine ⟨b :: ds, v, ?_, ?_, after, rfl⟩
      · rw [List.length_cons]
        omega
      · simpa using ⟨first, all⟩
    · exact ⟨[], 58 :: w, Nat.zero_le n, by simp, .inr ⟨p', w, next, rest, rfl⟩, rfl⟩

end Groups

/-! ## Places -/

/-- `xdigit* "." (unreserved | sub_delims | ":")+`. -/
def FutureDigits (w : List UInt8) : Prop :=
  ∃ h c : List UInt8, (∀ b ∈ h, isXdigit b.toNat = true) ∧ c ≠ [] ∧
    (∀ b ∈ c, isFuture b.toNat = true) ∧ w = h ++ 46 :: c

/-- An `IPvFuture` behind its `v`, and what is left of it later. -/
def FutureRest : Nat → List UInt8 → Prop
  | 0, w => ∃ b v, isXdigit b.toNat = true ∧ FutureDigits v ∧ w = b :: v
  | 1, w => FutureDigits w
  | 2, w => w ≠ [] ∧ ∀ b ∈ w, isFuture b.toNat = true
  | _, w => ∀ b ∈ w, isFuture b.toNat = true

/-- What may follow a place. -/
def RestOf : Place → List UInt8 → Prop
  | .start p fresh, w => Rest p fresh w ∨ p = .lead 0 ∧ ∃ v, w = 118 :: v ∧ FutureRest 0 v
  | .colon, w => ∃ v, w = 58 :: v ∧ Rest (.tail false 7) true v
  | .hex p n o, w => InGroup p (4 - n) w ∨ ∃ o', o = some o' ∧ Octets 3 o' w
  | .octet r o, w => Octets r o w
  | .future k, w => FutureRest k w

section Places

variable {s : Place} {k : Nat} {b : UInt8} {w : List UInt8}

theorem future_iff : IPvFuture w ↔ ∃ v, w = 118 :: v ∧ FutureRest 0 v := by
  constructor
  · rintro ⟨h, c, some, digits, more, all, rfl⟩
    obtain ⟨b, h, rfl⟩ := List.exists_cons_of_ne_nil some
    obtain ⟨first, digits⟩ := List.forall_mem_cons.mp digits
    exact ⟨_, rfl, b, _, first, ⟨h, c, digits, more, all, rfl⟩, rfl⟩
  · rintro ⟨_, rfl, b, _, first, ⟨h, c, digits, more, all, rfl⟩, rfl⟩
    exact ⟨b :: h, c, by simp, List.forall_mem_cons.mpr ⟨first, digits⟩, more, all, rfl⟩

theorem restOf_nil (is : s.valid = true) : RestOf s [] ↔ s.final = true := by
  cases s with
  | start p fresh => simp [RestOf, rest_nil]
  | colon => simp [RestOf, Place.final]
  | hex p n o => simp [RestOf, inGroup_nil, octets_nil, Place.final]
  | octet r o => simp [RestOf, octets_nil, Place.final]
  | future k =>
    obtain ⟨rfl⟩ | ⟨rfl⟩ | ⟨rfl⟩ | ⟨rfl⟩ : k = 0 ∨ k = 1 ∨ k = 2 ∨ k = 3 := by
      have small : k < 4 := of_decide_eq_true is
      omega
    all_goals simp [RestOf, FutureRest, FutureDigits, Place.final]

theorem futureDigits_cons : FutureDigits (b :: w) ↔
    (isXdigit b.toNat = true ∧ FutureDigits w) ∨
      (b = 46 ∧ w ≠ [] ∧ ∀ c ∈ w, isFuture c.toNat = true) := by
  constructor
  · rintro ⟨_ | ⟨d, h⟩, c, digits, more, all, same⟩
    · obtain ⟨rfl, rfl⟩ := List.cons.inj same
      exact .inr ⟨rfl, more, all⟩
    · obtain ⟨rfl, rfl⟩ := List.cons.inj same
      obtain ⟨first, digits⟩ := List.forall_mem_cons.mp digits
      exact .inl ⟨first, h, c, digits, more, all, rfl⟩
  · rintro (⟨first, h, c, digits, more, all, rfl⟩ | ⟨rfl, more, all⟩)
    · exact ⟨b :: h, c, List.forall_mem_cons.mpr ⟨first, digits⟩, more, all, rfl⟩
    · exact ⟨[], w, by simp, more, all, rfl⟩

theorem futureRest_cons (small : k < 4) : FutureRest k (b :: w) ↔
    ∃ s', (Place.future k).step b.toNat = some s' ∧ RestOf s' w := by
  have dot : b.toNat = 46 ↔ b = 46 := ⟨fun same => UInt8.toNat_inj.mp same, fun same => same ▸ rfl⟩
  obtain ⟨rfl⟩ | ⟨rfl⟩ | ⟨rfl⟩ | ⟨rfl⟩ : k = 0 ∨ k = 1 ∨ k = 2 ∨ k = 3 := by omega
  · cases digit : isXdigit b.toNat <;> simp [FutureRest, Place.step, RestOf, digit]
  · simp only [FutureRest, Place.step, futureDigits_cons]
    cases digit : isXdigit b.toNat
    · by_cases here : b = 46 <;> simp [dot, here, RestOf, FutureRest]
    · have other : b ≠ 46 := by
        rintro rfl
        cases digit
      simp [RestOf, FutureRest, other]
  · cases here : isFuture b.toNat <;> simp [FutureRest, Place.step, RestOf, here]
  · cases here : isFuture b.toNat <;> simp [FutureRest, Place.step, RestOf, here]

theorem room_of_inGroup {p : Pos} {n : Nat} (group : InGroup p n w) : p.room = true := by
  obtain ⟨ds, v, -, -, after, -⟩ := group
  exact room_of_afterGroup after

/-- An octet begins with a digit or with the byte of value 2. -/
theorem slip_of_begin {c : Nat} {o : Octet} (stepped : Octet.begin.step c = some o)
    (other : isXdigit c = false) : c = 2 ∧ o = .slip := by
  have digit : isDigit c = false := by
    simp only [isXdigit, Bool.or_eq_false_iff] at other
    exact other.1.1
  have codes : c ≠ 48 ∧ c ≠ 49 ∧ c ≠ 50 := by
    simp only [isDigit, Bool.and_eq_false_iff, decide_eq_false_iff_not] at digit
    omega
  simp only [Octet.step, codes, if_false, digit, Bool.false_eq_true] at stepped
  obtain ⟨same, is⟩ := Option.ite_none_right_eq_some.mp stepped
  exact ⟨same, (Option.some.inj is).symm⟩

theorem start_cons {p : Pos} {fresh : Bool} : RestOf (.start p fresh) (b :: w) ↔
    ∃ s', (Place.start p fresh).step b.toNat = some s' ∧ RestOf s' w := by
  constructor
  · rintro (rest | ⟨rfl, v, same, rest⟩)
    · rcases rest_cons.mp rest with ⟨first, group⟩ | ⟨may, o, stepped, octets⟩ | ⟨rfl, n, rfl, later⟩ |
        ⟨rfl, rfl, v, rfl, later⟩
      · refine ⟨.hex p 1 (if p.quad then Octet.begin.step b.toNat else none), ?_, .inl group⟩
        simp only [Place.step, Place.enter, first, room_of_inGroup group, if_true]
      · cases digit : isXdigit b.toNat with
        | true =>
          refine ⟨.hex p 1 (some o), ?_, .inr ⟨o, rfl, octets⟩⟩
          simp only [Place.step, Place.enter, digit, room_of_quad may, may, stepped, if_true]
        | false =>
          obtain ⟨two, rfl⟩ := slip_of_begin stepped digit
          obtain rfl : b = 2 := UInt8.toNat_inj.mp two
          exact ⟨.octet 3 .slip, if_pos may, octets⟩
      · exact ⟨.start (.tail true (7 - (n + 1))) true, rfl, .inl later⟩
      · exact ⟨.colon, rfl, v, rfl, later⟩
    · obtain ⟨rfl, rfl⟩ := List.cons.inj same
      exact ⟨.future 0, rfl, rest⟩
  · rintro ⟨s', stepped, rest⟩
    simp only [Place.step, Place.enter] at stepped
    split at stepped
    next digit =>
      obtain ⟨-, is⟩ := Option.ite_none_right_eq_some.mp stepped
      obtain rfl := Option.some.inj is
      rcases rest with group | ⟨o, may, octets⟩
      · exact .inl (rest_cons.mpr (.inl ⟨digit, group⟩))
      · obtain ⟨may, begun⟩ := Option.ite_none_right_eq_some.mp may
        exact .inl (rest_cons.mpr (.inr (.inl ⟨may, o, begun, octets⟩)))
    next =>
    split at stepped
    next two =>
      obtain ⟨may, is⟩ := Option.ite_none_right_eq_some.mp stepped
      obtain rfl := Option.some.inj is
      refine .inl (rest_cons.mpr (.inr (.inl ⟨may, .slip, ?_, rest⟩)))
      rw [two]
      rfl
    next =>
    split at stepped
    next colon =>
      obtain rfl : b = 58 := UInt8.toNat_inj.mp colon
      rcases p with (_ | n) | ⟨exact, m⟩
      · obtain rfl := Option.some.inj stepped
        obtain ⟨v, rfl, rest⟩ := rest
        exact .inl (.skipAll rest)
      · obtain rfl := Option.some.inj stepped
        rcases rest with rest | ⟨other, -⟩
        · exact .inl (.skip rest)
        · cases other
      · cases stepped
    next =>
      obtain ⟨letter, is⟩ := Option.ite_none_right_eq_some.mp stepped
      obtain rfl : b = 118 := UInt8.toNat_inj.mp letter
      rcases p with (_ | n) | ⟨exact, m⟩
      · obtain rfl := Option.some.inj is
        exact .inr ⟨rfl, w, rfl, rest⟩
      · cases is
      · cases is

theorem restOf_next {p p' : Pos} (next : p.next = some p') :
    RestOf (.start p' false) w ↔ Rest p' false w := by
  refine or_iff_left fun ⟨first, _⟩ => ?_
  subst first
  cases p with
  | lead n =>
    obtain ⟨-, same⟩ := Option.ite_none_right_eq_some.mp next
    cases same
  | tail exact m =>
    obtain ⟨-, same⟩ := Option.ite_none_right_eq_some.mp next
    cases same

/-- In a group that may be an octet there is room for the digits of the octet. -/
theorem digit_of_octetForm {n c : Nat} {o o' : Octet} (form : Place.octetForm n o = true)
    (stepped : o.step c = some o') : isXdigit c = true ∧ n < 4 := by
  have formed : n < 4 ∧ o ∈ [.full, .one, .two, .more, .five] := by
    unfold Place.octetForm at form
    split at form <;> first | decide | cases form
  refine ⟨?_, formed.1⟩
  have digit : isDigit c = true := by
    simp only [isDigit, Bool.and_eq_true, decide_eq_true_eq]
    cases o with
    | begin | slip | slipped => simp at formed
    | _ =>
      simp only [Octet.step, isDigit, Bool.and_eq_true, decide_eq_true_eq] at stepped
      grind
  simp only [isXdigit, digit, Bool.true_or]

theorem hex_cons {p : Pos} {n : Nat} {o : Option Octet} (is : (Place.hex p n o).valid = true) :
    RestOf (.hex p n o) (b :: w) ↔
      ∃ s', (Place.hex p n o).step b.toNat = some s' ∧ RestOf s' w := by
  have form : ∀ o', o = some o' → Place.octetForm n o' = true := by
    rintro o' rfl
    simp only [Place.valid, Bool.and_eq_true] at is
    exact is.2.2
  have count : 4 - (n + 1) = 4 - n - 1 := by omega
  constructor
  · rintro (group | ⟨o', rfl, octets⟩)
    · rcases inGroup_cons.mp group with ⟨digit, some, group⟩ | ⟨rfl, p', next, rest⟩
      · have small : n < 4 := by omega
        refine ⟨.hex p (n + 1) (o.bind (·.step b.toNat)), ?_, .inl (count ▸ group)⟩
        simp only [Place.step, digit, small, if_true]
      · refine ⟨.start p' false, ?_, (restOf_next next).mpr rest⟩
        rw [Place.step, next]
        rfl
    · rcases octets_cons.mp octets with ⟨rfl, -, complete, octets⟩ | ⟨o₁, stepped, octets⟩
      · refine ⟨.octet 2 .begin, ?_, octets⟩
        rw [Place.step, Option.any_some, complete]
        rfl
      · obtain ⟨digit, small⟩ := digit_of_octetForm (form o' rfl) stepped
        refine ⟨.hex p (n + 1) (some o₁), ?_, .inr ⟨o₁, rfl, octets⟩⟩
        simp only [Place.step, digit, small, if_true, Option.bind_some, stepped]
  · rintro ⟨s', stepped, rest⟩
    rw [Place.step] at stepped
    split at stepped
    next digit =>
      obtain ⟨small, is⟩ := Option.ite_none_right_eq_some.mp stepped
      obtain rfl := Option.some.inj is
      rcases rest with group | ⟨o₁, from_o, octets⟩
      · exact .inl (inGroup_cons.mpr (.inl ⟨digit, by omega, count ▸ group⟩))
      · obtain ⟨o', is, begun⟩ := Option.bind_eq_some_iff.mp from_o
        exact .inr ⟨o', is, octets_cons.mpr (.inr ⟨o₁, begun, octets⟩)⟩
    next =>
    split at stepped
    next colon =>
      obtain rfl : b = 58 := UInt8.toNat_inj.mp colon
      obtain ⟨p', next, rfl⟩ := Option.map_eq_some_iff.mp stepped
      exact .inl (inGroup_cons.mpr (.inr ⟨rfl, p', next, (restOf_next next).mp rest⟩))
    next =>
      obtain ⟨dot, is⟩ := Option.ite_none_right_eq_some.mp stepped
      obtain rfl : b = 46 := UInt8.toNat_inj.mp dot
      obtain ⟨complete, is⟩ := Option.ite_none_right_eq_some.mp is
      obtain rfl := Option.some.inj is
      obtain ⟨o', is, complete⟩ := (Option.any_eq_true _ _).mp complete
      exact .inr ⟨o', is, octets_cons.mpr (.inl ⟨rfl, by decide, complete, rest⟩)⟩

theorem octet_cons {r : Nat} {o : Octet} : RestOf (.octet r o) (b :: w) ↔
    ∃ s', (Place.octet r o).step b.toNat = some s' ∧ RestOf s' w := by
  constructor
  · intro octets
    rcases octets_cons.mp octets with ⟨rfl, some, complete, octets⟩ | ⟨o', stepped, octets⟩
    · refine ⟨.octet (r - 1) .begin, ?_, octets⟩
      simp [Place.step, complete, some]
    · have other : b.toNat ≠ 46 := by
        intro dot
        rw [dot] at stepped
        cases o <;> cases stepped
      refine ⟨.octet r o', ?_, octets⟩
      rw [Place.step, if_neg other, stepped]
      rfl
  · rintro ⟨s', stepped, rest⟩
    rw [Place.step] at stepped
    split at stepped
    next dot =>
      obtain ⟨both, is⟩ := Option.ite_none_right_eq_some.mp stepped
      obtain rfl := Option.some.inj is
      simp only [Bool.and_eq_true, decide_eq_true_eq] at both
      obtain rfl : b = 46 := UInt8.toNat_inj.mp dot
      exact octets_cons.mpr (.inl ⟨rfl, both.2, both.1, rest⟩)
    next =>
      obtain ⟨o', begun, rfl⟩ := Option.map_eq_some_iff.mp stepped
      exact octets_cons.mpr (.inr ⟨o', begun, rest⟩)

theorem restOf_cons (is : s.valid = true) : RestOf s (b :: w) ↔
    ∃ s', s.step b.toNat = some s' ∧ RestOf s' w := by
  cases s with
  | start p fresh => exact start_cons
  | colon =>
    constructor
    · rintro ⟨v, same, rest⟩
      obtain ⟨rfl, rfl⟩ := List.cons.inj same
      exact ⟨_, rfl, .inl rest⟩
    · rintro ⟨s', stepped, rest⟩
      obtain ⟨colon, is⟩ := Option.ite_none_right_eq_some.mp stepped
      obtain rfl := Option.some.inj is
      obtain rfl : b = 58 := UInt8.toNat_inj.mp colon
      rcases rest with rest | ⟨other, -⟩
      · exact ⟨w, rfl, rest⟩
      · cases other
  | hex p n o => exact hex_cons is
  | octet r o => exact octet_cons
  | future k => exact futureRest_cons (of_decide_eq_true is)

/-- The bytes end the address. -/
def Place.accepts : Place → List UInt8 → Bool
  | s, [] => s.final
  | s, b :: w => (s.step b.toNat).any fun s' => s'.accepts w

theorem accepts_iff (is : s.valid = true) : s.accepts w = true ↔ RestOf s w := by
  induction w generalizing s with
  | nil => exact (restOf_nil is).symm
  | cons b w ih =>
    rw [restOf_cons is, Place.accepts, Option.any_eq_true]
    constructor
    · rintro ⟨s', stepped, accepted⟩
      exact ⟨s', stepped, (ih (Place.valid_of_step is b.toNat_lt stepped)).mp accepted⟩
    · rintro ⟨s', stepped, rest⟩
      exact ⟨s', stepped, (ih (Place.valid_of_step is b.toNat_lt stepped)).mpr rest⟩

/-- What is accepted behind `[` is an address of the grammar of `uri.rl`. -/
theorem accepts_literal {a : List UInt8} :
    (Place.start (.lead 0) true).accepts a = true ↔ UriIPv6address a ∨ IPvFuture a := by
  rw [accepts_iff rfl, RestOf, rest_iff, future_iff, and_iff_right rfl]

end Places

end ServerFrame.Http.Literal
