import ServerFrame.Http.IpLiteral
import ServerFrame.Http.Request

/-!
# IPv6 addresses

The grammar of an address, as RFC 3986 has it and as `uri.rl` writes it down: an octet from 200 to
249 and the repetitions before `::` differ. What may follow a place of the automaton is a grammar
of its own, which takes the same steps.
-/
namespace ServerFrame.Http.Literal

/-! ## The grammar -/

/-- `h16 = xdigit{1,4}`. -/
def h16 (g : List UInt8) : Bool :=
  1 ≤ g.length && g.length ≤ 4 && g.all fun b => isXdigit b.toNat

/-- `digit | [1-9] digit | "1" digit{2} | two [0-4] digit | "25" [0-5]`. -/
def octetRule (two : UInt8) : List UInt8 → Bool
  | [a] => isDigit a.toNat
  | [a, b] => a != 48 && isDigit a.toNat && isDigit b.toNat
  | [a, b, c] =>
    a == 49 && isDigit b.toNat && isDigit c.toNat ||
      a == two && (48 ≤ b.toNat && b.toNat ≤ 52) && isDigit c.toNat ||
      a == 50 && b == 53 && (48 ≤ c.toNat && c.toNat ≤ 53)
  | _ => false

/-- `dec_octet` of `uri.rl`. -/
def decOctet : List UInt8 → Bool := octetRule 2

/-- `dec-octet` of RFC 3986. -/
def rfcOctet : List UInt8 → Bool := octetRule 50

def IPv4address (octet : List UInt8 → Bool) (w : List UInt8) : Prop :=
  ∃ a b c d, octet a = true ∧ octet b = true ∧ octet c = true ∧ octet d = true ∧
    w = a ++ 46 :: (b ++ 46 :: (c ++ 46 :: d))

/-- `ls32 = (h16 ":" h16) | IPv4address`. -/
def Ls32 (octet : List UInt8 → Bool) (w : List UInt8) : Prop :=
  (∃ g h, h16 g = true ∧ h16 h = true ∧ w = g ++ 58 :: h) ∨ IPv4address octet w

/-- `(h16 ":"){n}`. -/
def Times (n : Nat) (w : List UInt8) : Prop :=
  ∃ gs : List (List UInt8), gs.length = n ∧ (∀ g ∈ gs, h16 g = true) ∧
    w = gs.flatMap fun g => g ++ [58]

/-- `((h16 ":"){k} h16)?`, where `repeats k n` when `{k}` may be `n` times. -/
def Before (repeats : Nat → Nat → Prop) (k : Nat) (w : List UInt8) : Prop :=
  w = [] ∨ ∃ n u g, repeats k n ∧ Times n u ∧ h16 g = true ∧ w = u ++ g

/-- The nine alternatives; the third to the seventh are those for `k = 0` to `4`. -/
def IPv6address (octet : List UInt8 → Bool) (repeats : Nat → Nat → Prop) (a : List UInt8) : Prop :=
  (∃ u v, Times 6 u ∧ Ls32 octet v ∧ a = u ++ v) ∨
  (∃ u v, Times 5 u ∧ Ls32 octet v ∧ a = 58 :: 58 :: (u ++ v)) ∨
  (∃ k ≤ 4, ∃ w u v, Before repeats k w ∧ Times (4 - k) u ∧ Ls32 octet v ∧
    a = w ++ 58 :: 58 :: (u ++ v)) ∨
  (∃ w g, Before repeats 5 w ∧ h16 g = true ∧ a = w ++ 58 :: 58 :: g) ∨
  ∃ w, Before repeats 6 w ∧ a = w ++ [58, 58]

/-- `"v" xdigit+ "." (unreserved | sub_delims | ":")+`. -/
def IPvFuture (a : List UInt8) : Prop :=
  ∃ h c : List UInt8, h ≠ [] ∧ (∀ b ∈ h, isXdigit b.toNat = true) ∧ c ≠ [] ∧
    (∀ b ∈ c, isFuture b.toNat = true) ∧ a = 118 :: (h ++ 46 :: c)

/-- `IPv6address` of RFC 3986, with `*k` for the repetitions. -/
def RfcIPv6address (a : List UInt8) : Prop := IPv6address rfcOctet (fun k n => n ≤ k) a

/-- `IPv6address` of `uri.rl`, with `{k}`. -/
def UriIPv6address (a : List UInt8) : Prop := IPv6address decOctet (fun k n => n = k) a

/-! ## Groups behind one another -/

/-- `n` groups with colons between them; an IPv4 address at the end is two. -/
inductive Groups (octet : List UInt8 → Bool) : Nat → List UInt8 → Prop
  | none : Groups octet 0 []
  | one {g : List UInt8} (is : h16 g = true) : Groups octet 1 g
  | quad {w : List UInt8} (is : IPv4address octet w) : Groups octet 2 w
  | more {g w : List UInt8} {n : Nat} (is : h16 g = true) (rest : Groups octet (n + 1) w) :
      Groups octet (n + 2) (g ++ 58 :: w)

section Groups

variable {octet : List UInt8 → Bool} {w : List UInt8}

theorem times_zero : Times 0 w ↔ w = [] := by
  constructor
  · rintro ⟨gs, length, -, rfl⟩
    rw [List.length_eq_zero_iff.mp length]
    rfl
  · rintro rfl
    exact ⟨[], rfl, by simp, rfl⟩

theorem times_succ {n : Nat} :
    Times (n + 1) w ↔ ∃ g u, h16 g = true ∧ Times n u ∧ w = g ++ 58 :: u := by
  constructor
  · rintro ⟨gs, length, all, rfl⟩
    obtain ⟨g, gs, rfl⟩ := List.exists_cons_of_length_eq_add_one length
    refine ⟨g, gs.flatMap fun g => g ++ [58], all g (List.mem_cons_self ..), ⟨gs, ?_, ?_, rfl⟩, ?_⟩
    · exact Nat.succ.inj length
    · exact fun h member => all h (List.mem_cons_of_mem _ member)
    · simp
  · rintro ⟨g, u, is, ⟨gs, rfl, all, rfl⟩, rfl⟩
    refine ⟨g :: gs, rfl, ?_, by simp⟩
    rintro h (_ | ⟨_, member⟩)
    · exact is
    · exact all h member

theorem groups_two : Groups octet 2 w ↔ Ls32 octet w := by
  constructor
  · intro groups
    cases groups with
    | quad is => exact .inr is
    | more is rest =>
      cases rest with
      | one is' => exact .inl ⟨_, _, is, is', rfl⟩
  · rintro (⟨g, h, is, is', rfl⟩ | is)
    · exact .more is (.one is')
    · exact .quad is

theorem groups_times {n : Nat} :
    Groups octet (n + 2) w ↔ ∃ u v, Times n u ∧ Ls32 octet v ∧ w = u ++ v := by
  induction n generalizing w with
  | zero =>
    rw [Nat.zero_add, groups_two]
    simp only [times_zero]
    exact ⟨fun is => ⟨[], w, rfl, is, rfl⟩, by rintro ⟨_, v, rfl, is, rfl⟩; exact is⟩
  | succ n ih =>
    constructor
    · intro groups
      cases groups with
      | more is rest =>
        obtain ⟨u, v, times, last, rfl⟩ := ih.mp rest
        exact ⟨_, v, times_succ.mpr ⟨_, u, is, times, rfl⟩, last, by simp⟩
    · rintro ⟨_, v, times, last, rfl⟩
      obtain ⟨g, u, is, fewer, rfl⟩ := times_succ.mp times
      rw [List.append_assoc, List.cons_append]
      exact .more is (ih.mpr ⟨u, v, fewer, last, rfl⟩)

/-- The alternatives by how many groups follow `::`. -/
theorem ipv6address_iff {repeats : Nat → Nat → Prop} {a : List UInt8} :
    IPv6address octet repeats a ↔ Groups octet 8 a ∨
      (∃ v, Groups octet 7 v ∧ a = 58 :: 58 :: v) ∨
      ∃ k ≤ 6, ∃ w v, Before repeats k w ∧ Groups octet (6 - k) v ∧ a = w ++ 58 :: 58 :: v := by
  constructor
  · rintro (⟨u, v, times, last, rfl⟩ | ⟨u, v, times, last, rfl⟩ |
      ⟨k, bound, w, u, v, before, times, last, rfl⟩ | ⟨w, g, before, is, rfl⟩ | ⟨w, before, rfl⟩)
    · exact .inl (groups_times.mpr ⟨u, v, times, last, rfl⟩)
    · exact .inr (.inl ⟨_, groups_times.mpr ⟨u, v, times, last, rfl⟩, rfl⟩)
    · have count : 6 - k = 4 - k + 2 := by omega
      refine .inr (.inr ⟨k, by omega, w, u ++ v, before, ?_, rfl⟩)
      rw [count]
      exact groups_times.mpr ⟨u, v, times, last, rfl⟩
    · exact .inr (.inr ⟨5, by omega, w, g, before, .one is, rfl⟩)
    · exact .inr (.inr ⟨6, by omega, w, [], before, .none, rfl⟩)
  · rintro (groups | ⟨v, groups, rfl⟩ | ⟨k, bound, w, v, before, groups, rfl⟩)
    · exact .inl (groups_times.mp groups)
    · obtain ⟨u, v, times, last, rfl⟩ := groups_times.mp groups
      exact .inr (.inl ⟨u, v, times, last, rfl⟩)
    · rcases Nat.lt_or_ge k 5 with small | large
      · have count : 6 - k = 4 - k + 2 := by omega
        rw [count] at groups
        obtain ⟨u, v, times, last, rfl⟩ := groups_times.mp groups
        exact .inr (.inr (.inl ⟨k, by omega, w, u, v, before, times, last, rfl⟩))
      · have which : k = 5 ∨ k = 6 := by omega
        rcases which with rfl | rfl
        · cases groups with
          | one is => exact .inr (.inr (.inr (.inl ⟨w, v, before, is, rfl⟩)))
        · cases groups with
          | none => exact .inr (.inr (.inr (.inr ⟨w, before, rfl⟩)))

end Groups

/-! ## What may follow a place -/

/-- What may follow a place before a group. -/
inductive Rest : Pos → Bool → List UInt8 → Prop
  | close {exact : Bool} {m : Nat} (may : m = 0 ∨ exact = false) : Rest (.tail exact m) true []
  | last {p : Pos} {fresh : Bool} {g : List UInt8} (is : h16 g = true) (ends : p.last = true) :
      Rest p fresh g
  | more {p p' : Pos} {fresh : Bool} {g w : List UInt8} (is : h16 g = true)
      (next : p.next = some p') (rest : Rest p' false w) : Rest p fresh (g ++ 58 :: w)
  | quad {p : Pos} {fresh : Bool} {w : List UInt8} (may : p.quad = true)
      (is : IPv4address decOctet w) : Rest p fresh w
  | skip {n : Nat} {fresh : Bool} {w : List UInt8} (rest : Rest (.tail true (7 - (n + 1))) true w) :
      Rest (.lead (n + 1)) fresh (58 :: w)
  | skipAll {fresh : Bool} {w : List UInt8} (rest : Rest (.tail false 7) true w) :
      Rest (.lead 0) fresh (58 :: 58 :: w)

section Groups

variable {w : List UInt8}

theorem rest_of_groups_tail {exact : Bool} {n m : Nat} {fresh : Bool} (groups : Groups decOctet n w)
    (fits : n ≤ m) (all : exact = true → n = m) (empty : n = 0 → fresh = true) :
    Rest (.tail exact m) fresh w := by
  induction groups generalizing m fresh with
  | none =>
    obtain rfl := empty rfl
    refine .close ?_
    cases exact with
    | true => exact .inl (all rfl).symm
    | false => exact .inr rfl
  | one is =>
    refine .last is ?_
    cases exact with
    | true => simp [Pos.last, ← all rfl]
    | false => simp [Pos.last, fits]
  | quad is =>
    refine .quad ?_ is
    cases exact with
    | true => simp [Pos.quad, ← all rfl]
    | false => simp [Pos.quad, fits]
  | @more g w n is rest ih =>
    have two : 2 ≤ m := by omega
    have next : (Pos.tail exact m).next = some (.tail exact (m - 1)) := if_pos two
    refine .more is next (ih ?_ ?_ ?_)
    · omega
    · intro same
      have := all same
      omega
    · intro zero
      omega

theorem groups_of_rest_tail {p : Pos} {exact fresh : Bool} {m : Nat} (rest : Rest p fresh w)
    (here : p = .tail exact m) :
    ∃ n ≤ m, (exact = true → n = m) ∧ (fresh = false → n ≠ 0) ∧ Groups decOctet n w := by
  induction rest generalizing exact m with
  | close may =>
    obtain ⟨rfl, rfl⟩ := Pos.tail.inj here
    refine ⟨0, Nat.zero_le _, fun all => ?_, by simp, .none⟩
    rcases may with rfl | no
    · rfl
    · rw [all] at no
      cases no
  | last is ends =>
    subst here
    simp only [Pos.last, Bool.or_eq_true, beq_iff_eq, Bool.and_eq_true, Bool.not_eq_true',
      decide_eq_true_eq] at ends
    refine ⟨1, by omega, fun all => ?_, fun _ => by decide, .one is⟩
    rcases ends with rfl | ⟨no, -⟩
    · rfl
    · rw [all] at no
      cases no
  | quad may is =>
    subst here
    simp only [Pos.quad, Bool.or_eq_true, beq_iff_eq, Bool.and_eq_true, Bool.not_eq_true',
      decide_eq_true_eq] at may
    refine ⟨2, by omega, fun all => ?_, fun _ => by decide, .quad is⟩
    rcases may with rfl | ⟨no, -⟩
    · rfl
    · rw [all] at no
      cases no
  | more is next rest ih =>
    subst here
    obtain ⟨two, same⟩ := Option.ite_none_right_eq_some.mp next
    obtain ⟨n, fits, all, some, groups⟩ := ih (Option.some.inj same).symm
    obtain ⟨n, rfl⟩ := Nat.exists_eq_succ_of_ne_zero (some rfl)
    refine ⟨n + 2, by omega, fun exact => ?_, fun _ => by omega, .more is groups⟩
    have := all exact
    omega
  | skip => cases here
  | skipAll => cases here

/-- Groups that end the address without `::`. -/
theorem rest_of_groups_lead {n : Nat} {fresh : Bool} (groups : Groups decOctet (8 - n) w)
    (bound : n ≤ 7) : Rest (.lead n) fresh w := by
  generalize count : 8 - n = m at groups
  induction groups generalizing n fresh with
  | none => omega
  | one is =>
    refine .last is ?_
    simp only [Pos.last, beq_iff_eq]
    omega
  | quad is =>
    refine .quad ?_ is
    simp only [Pos.quad, beq_iff_eq]
    omega
  | more is rest ih =>
    have small : n ≤ 6 := by omega
    exact .more is (if_pos small) (ih (by omega) (by omega))

/-- Some groups, `::`, and all the groups that there may be. -/
theorem rest_of_before {n k : Nat} {fresh : Bool} {u g v : List UInt8} (times : Times k u)
    (is : h16 g = true) (groups : Groups decOctet (6 - k - n) v) (bound : n + k ≤ 6) :
    Rest (.lead n) fresh (u ++ g ++ 58 :: 58 :: v) := by
  induction k generalizing n fresh u with
  | zero =>
    obtain rfl := times_zero.mp times
    have small : n ≤ 6 := by omega
    refine .more is (if_pos small) (.skip (rest_of_groups_tail groups ?_ ?_ ?_))
    · omega
    · intro
      omega
    · exact fun _ => rfl
  | succ k ih =>
    obtain ⟨h, u, first, fewer, rfl⟩ := times_succ.mp times
    have small : n ≤ 6 := by omega
    simp only [List.append_assoc, List.cons_append]
    refine .more first (if_pos small) ?_
    rw [← List.append_assoc]
    apply ih fewer
    · have count : 6 - (k + 1) - n = 6 - k - (n + 1) := by omega
      rwa [count] at groups
    · omega

theorem groups_of_rest_lead {p : Pos} {fresh : Bool} {n : Nat} (rest : Rest p fresh w)
    (here : p = .lead n) (bound : n ≤ 7) :
    Groups decOctet (8 - n) w ∨
      (∃ k u g v, n + k ≤ 6 ∧ Times k u ∧ h16 g = true ∧ Groups decOctet (6 - k - n) v ∧
        w = u ++ g ++ 58 :: 58 :: v) ∨
      (∃ v, n ≠ 0 ∧ Groups decOctet (7 - n) v ∧ w = 58 :: v) ∨
      (∃ m v, n = 0 ∧ m ≤ 7 ∧ Groups decOctet m v ∧ w = 58 :: 58 :: v) := by
  induction rest generalizing n with
  | close => cases here
  | last is ends =>
    subst here
    obtain rfl : n = 7 := beq_iff_eq.mp ends
    exact .inl (.one is)
  | quad may is =>
    subst here
    obtain rfl : n = 6 := beq_iff_eq.mp may
    exact .inl (.quad is)
  | more is next rest ih =>
    subst here
    obtain ⟨small, same⟩ := Option.ite_none_right_eq_some.mp next
    rcases ih (Option.some.inj same).symm (by omega) with groups | ⟨k, u, g, v, fits, times, last,
      groups, rfl⟩ | ⟨v, -, groups, rfl⟩ | ⟨m, v, zero, -, -, -⟩
    · have count : 8 - n = 6 - n + 2 := by omega
      have fewer : 8 - (n + 1) = 6 - n + 1 := by omega
      rw [fewer] at groups
      rw [count]
      exact .inl (.more is groups)
    · have count : 6 - k - (n + 1) = 6 - (k + 1) - n := by omega
      rw [count] at groups
      refine .inr (.inl ⟨k + 1, _, g, v, by omega, times_succ.mpr ⟨_, u, is, times, rfl⟩, last,
        groups, ?_⟩)
      simp
    · have count : 7 - (n + 1) = 6 - 0 - n := by omega
      rw [count] at groups
      exact .inr (.inl ⟨0, [], _, v, by omega, times_zero.mpr rfl, is, groups, rfl⟩)
    · omega
  | skip rest =>
    obtain rfl := Pos.lead.inj here
    obtain ⟨m, -, all, -, groups⟩ := groups_of_rest_tail rest rfl
    rw [all rfl] at groups
    exact .inr (.inr (.inl ⟨_, by omega, groups, rfl⟩))
  | skipAll rest =>
    obtain rfl := Pos.lead.inj here
    obtain ⟨m, fits, -, -, groups⟩ := groups_of_rest_tail rest rfl
    exact .inr (.inr (.inr ⟨m, _, rfl, fits, groups, rfl⟩))

/-- What may follow `[` is the grammar of `uri.rl`. -/
theorem rest_iff {a : List UInt8} : Rest (.lead 0) true a ↔ UriIPv6address a := by
  rw [UriIPv6address, ipv6address_iff]
  constructor
  · intro rest
    rcases groups_of_rest_lead rest rfl (by decide) with groups | ⟨k, u, g, v, fits, times, last,
      groups, rfl⟩ | ⟨v, nonzero, -, -⟩ | ⟨m, v, -, fits, groups, rfl⟩
    · exact .inl groups
    · exact .inr (.inr ⟨k, by omega, u ++ g, v, .inr ⟨k, u, g, rfl, times, last, rfl⟩, groups, rfl⟩)
    · exact absurd rfl nonzero
    · rcases Nat.lt_or_ge m 7 with small | large
      · have count : 6 - (6 - m) = m := by omega
        refine .inr (.inr ⟨6 - m, by omega, [], v, .inl rfl, ?_, rfl⟩)
        rwa [count]
      · obtain rfl : m = 7 := by omega
        exact .inr (.inl ⟨v, groups, rfl⟩)
  · rintro (groups | ⟨v, groups, rfl⟩ | ⟨k, bound, w, v, rfl | ⟨n, u, g, rfl, times, last, rfl⟩,
      groups, rfl⟩)
    · exact rest_of_groups_lead groups (by decide)
    · exact .skipAll (rest_of_groups_tail groups (by decide) (by simp) (by simp))
    · exact .skipAll (rest_of_groups_tail groups (by omega) (by simp) (fun _ => rfl))
    · exact rest_of_before times last groups (by omega)

end Groups

/-! ## The two grammars -/

/-- The number that the digits stand for. -/
def octetValue (q : List UInt8) : Nat := q.foldl (fun n b => 10 * n + (b.toNat - 48)) 0

/-- An octet of RFC 3986 that is not one from 200 to 249. -/
def plainOctet (q : List UInt8) : Bool :=
  rfcOctet q && !(200 ≤ octetValue q && octetValue q ≤ 249)

def allDigits (q : List UInt8) : Bool := q.all fun b => isDigit b.toNat

section Octets

variable {two a b c : UInt8} {q : List UInt8}

theorem beq_code {n : UInt8} : (a == n) = decide (a.toNat = n.toNat) := by
  rw [beq_eq_decide]
  exact decide_eq_decide.mpr UInt8.toNat_inj.symm

theorem octetRule_three : octetRule two [a, b, c] = true ↔
    a.toNat = 49 ∧ isDigit b.toNat = true ∧ isDigit c.toNat = true ∨
      a.toNat = two.toNat ∧ (48 ≤ b.toNat ∧ b.toNat ≤ 52) ∧ isDigit c.toNat = true ∨
      a.toNat = 50 ∧ b.toNat = 53 ∧ 48 ≤ c.toNat ∧ c.toNat ≤ 53 := by
  simp [octetRule, beq_code, or_assoc, and_assoc]

theorem octetRule_two : octetRule two [a, b] = true ↔
    a.toNat ≠ 48 ∧ isDigit a.toNat = true ∧ isDigit b.toNat = true := by
  simp [octetRule, bne, beq_code, and_assoc]

theorem isDigit_iff {c : Nat} : isDigit c = true ↔ 48 ≤ c ∧ c ≤ 57 := by
  simp [isDigit]

theorem octetValue_le (is : decOctet q = true) : octetValue q ≤ 255 := by
  rw [decOctet] at is
  rcases q with _ | ⟨a, _ | ⟨b, _ | ⟨c, _ | ⟨d, q⟩⟩⟩⟩
  · cases is
  · have digit := isDigit_iff.mp is
    simp only [octetValue, List.foldl_cons, List.foldl_nil]
    omega
  · simp only [octetRule_two, isDigit_iff] at is
    simp only [octetValue, List.foldl_cons, List.foldl_nil]
    omega
  · have two : (2 : UInt8).toNat = 2 := rfl
    simp only [octetRule_three, isDigit_iff, two] at is
    simp only [octetValue, List.foldl_cons, List.foldl_nil]
    omega
  · cases is

/-- Without the byte of value 2 the octets of `uri.rl` are the plain ones. -/
theorem plain_iff : plainOctet q = true ↔ decOctet q = true ∧ 2 ∉ q := by
  have code : ∀ b : UInt8, 2 = b ↔ b.toNat = 2 := fun b =>
    ⟨fun same => same ▸ rfl, fun same => (UInt8.toNat_inj.mp same).symm⟩
  have two : (2 : UInt8).toNat = 2 := rfl
  have fifty : (50 : UInt8).toNat = 50 := rfl
  rw [plainOctet, rfcOctet, decOctet, Bool.and_eq_true, Bool.not_eq_true', Bool.and_eq_false_iff,
    decide_eq_false_iff_not, decide_eq_false_iff_not]
  rcases q with _ | ⟨a, _ | ⟨b, _ | ⟨c, _ | ⟨d, q⟩⟩⟩⟩
  · simp [octetRule]
  · simp only [octetRule, isDigit_iff, octetValue, List.foldl_cons, List.foldl_nil,
      List.mem_cons, List.not_mem_nil, or_false, code]
    omega
  · simp only [octetRule_two, isDigit_iff, octetValue, List.foldl_cons, List.foldl_nil,
      List.mem_cons, List.not_mem_nil, or_false, code]
    omega
  · simp only [octetRule_three, isDigit_iff, octetValue, List.foldl_cons, List.foldl_nil,
      List.mem_cons, List.not_mem_nil, or_false, code, two, fifty]
    -- which hundreds the octet has
    constructor
    · rintro ⟨one | low | high, other⟩ <;> omega
    · rintro ⟨one | low | high, plain⟩ <;> omega
  · simp [octetRule]

theorem mem_octetRule (is : octetRule two q = true) (member : b ∈ q) :
    isDigit b.toNat = true ∨ b = two := by
  rcases q with _ | ⟨c, _ | ⟨d, _ | ⟨e, _ | ⟨f, q⟩⟩⟩⟩
  · cases member
  · exact .inl (List.mem_singleton.mp member ▸ is)
  · simp only [octetRule_two] at is
    simp only [List.mem_cons, List.not_mem_nil, or_false] at member
    rcases member with rfl | rfl
    · exact .inl is.2.1
    · exact .inl is.2.2
  · simp only [octetRule_three, isDigit_iff] at is
    rw [isDigit_iff, ← UInt8.toNat_inj]
    simp only [List.mem_cons, List.not_mem_nil, or_false] at member
    rcases member with rfl | rfl | rfl <;> omega
  · cases is

end Octets

section Addresses

variable {octet octet' : List UInt8 → Bool} {repeats repeats' : Nat → Nat → Prop}
  {w a : List UInt8}

theorem ipv4_mono (octets : ∀ q, q <:+: w → octet q = true → octet' q = true)
    (is : IPv4address octet w) : IPv4address octet' w := by
  obtain ⟨q₁, q₂, q₃, q₄, first, second, third, fourth, rfl⟩ := is
  refine ⟨q₁, q₂, q₃, q₄, octets q₁ ?_ first, octets q₂ ?_ second, octets q₃ ?_ third,
    octets q₄ ?_ fourth, rfl⟩
  · exact ⟨[], 46 :: (q₂ ++ 46 :: (q₃ ++ 46 :: q₄)), by simp⟩
  · exact ⟨q₁ ++ [46], 46 :: (q₃ ++ 46 :: q₄), by simp⟩
  · exact ⟨q₁ ++ 46 :: (q₂ ++ [46]), 46 :: q₄, by simp⟩
  · exact ⟨q₁ ++ 46 :: (q₂ ++ 46 :: (q₃ ++ [46])), [], by simp⟩

theorem groups_mono {n : Nat} (octets : ∀ q, q <:+: w → octet q = true → octet' q = true)
    (groups : Groups octet n w) : Groups octet' n w := by
  induction groups with
  | none => exact .none
  | one is => exact .one is
  | quad is => exact .quad (ipv4_mono octets is)
  | @more g w n is rest ih =>
    refine .more is (ih fun q inside => octets q (inside.trans ?_))
    exact ⟨g ++ [58], [], by simp⟩

/-- An address is one of another grammar that has its octets and its repetitions. -/
theorem ipv6address_mono (octets : ∀ q, q <:+: a → octet q = true → octet' q = true)
    (counts : ∀ k n, repeats k n → repeats' k n) (is : IPv6address octet repeats a) :
    IPv6address octet' repeats' a := by
  rw [ipv6address_iff] at is ⊢
  rcases is with groups | ⟨v, groups, rfl⟩ | ⟨k, bound, w, v, before, groups, rfl⟩
  · exact .inl (groups_mono octets groups)
  · refine .inr (.inl ⟨v, groups_mono (fun q inside => octets q (inside.trans ?_)) groups, rfl⟩)
    exact ⟨[58, 58], [], by simp⟩
  · refine .inr (.inr ⟨k, bound, w, v, ?_, ?_, rfl⟩)
    · rcases before with rfl | ⟨n, u, g, repeated, times, is, rfl⟩
      · exact .inl rfl
      · exact .inr ⟨n, u, g, counts k n repeated, times, is, rfl⟩
    · refine groups_mono (fun q inside => octets q (inside.trans ?_)) groups
      exact ⟨w ++ [58, 58], [], by simp⟩

theorem mem_h16 {g : List UInt8} {b : UInt8} (is : h16 g = true) (member : b ∈ g) :
    isXdigit b.toNat = true := by
  simp only [h16, Bool.and_eq_true, List.all_eq_true] at is
  exact is.2 b member

theorem mem_before {k : Nat} {b : UInt8} (before : Before repeats k w) (member : b ∈ w) :
    isXdigit b.toNat = true ∨ b = 58 := by
  rcases before with rfl | ⟨n, _, g, -, ⟨gs, -, all, rfl⟩, is, rfl⟩
  · cases member
  · rcases List.mem_append.mp member with member | member
    · obtain ⟨h, known, member⟩ := List.mem_flatMap.mp member
      rcases List.mem_append.mp member with member | member
      · exact .inl (mem_h16 (all h known) member)
      · exact .inr (List.mem_singleton.mp member)
    · exact .inl (mem_h16 is member)

/-- Groups in which there is a dot end with an IPv4 address, which is all of them or follows a
colon. -/
theorem quad_of_groups {n : Nat} (groups : Groups octet n w) (dot : 46 ∈ w) :
    ∃ u v, IPv4address octet v ∧ (u = [] ∨ ∃ t, u = t ++ [58]) ∧ w = u ++ v := by
  have no_dot : ∀ {g : List UInt8}, h16 g = true → 46 ∉ g := fun is member => by
    cases mem_h16 is member
  induction groups with
  | none => cases dot
  | one is => exact absurd dot (no_dot is)
  | @quad w is => exact ⟨[], w, is, .inl rfl, rfl⟩
  | @more g w n is rest ih =>
    have later : 46 ∈ w := by
      rcases List.mem_append.mp dot with here | later
      · exact absurd here (no_dot is)
      · simpa using later
    obtain ⟨u, v, quad, colon, rfl⟩ := ih later
    refine ⟨g ++ 58 :: u, v, quad, .inr ?_, by simp⟩
    rcases colon with rfl | ⟨t, rfl⟩
    · exact ⟨g, rfl⟩
    · exact ⟨g ++ 58 :: t, by simp⟩

theorem quad_of_ipv6address (is : IPv6address octet repeats a) (dot : 46 ∈ a) :
    ∃ u v, IPv4address octet v ∧ (u = [] ∨ ∃ t, u = t ++ [58]) ∧ a = u ++ v := by
  rw [ipv6address_iff] at is
  rcases is with groups | ⟨v, groups, rfl⟩ | ⟨k, bound, w, v, before, groups, rfl⟩
  · exact quad_of_groups groups dot
  · obtain ⟨u, v, quad, colon, rfl⟩ := quad_of_groups groups (by simpa using dot)
    refine ⟨58 :: 58 :: u, v, quad, .inr ?_, rfl⟩
    rcases colon with rfl | ⟨t, rfl⟩
    · exact ⟨[58], rfl⟩
    · exact ⟨58 :: 58 :: t, rfl⟩
  · have later : 46 ∈ v := by
      rcases List.mem_append.mp dot with here | later
      · rcases mem_before before here with digit | colon
        · cases digit
        · cases colon
      · simpa using later
    obtain ⟨u, v, quad, colon, rfl⟩ := quad_of_groups groups later
    refine ⟨w ++ 58 :: 58 :: u, v, quad, .inr ?_, by simp⟩
    rcases colon with rfl | ⟨t, rfl⟩
    · exact ⟨w ++ [58], by simp⟩
    · exact ⟨w ++ 58 :: 58 :: t, by simp⟩

theorem mem_groups_bytes {n : Nat} {b : UInt8} (groups : Groups octet n w) (member : b ∈ w) :
    isXdigit b.toNat = true ∨ b = 58 ∨ b = 46 ∨ ∃ q, octet q = true ∧ b ∈ q := by
  induction groups with
  | none => cases member
  | one is => exact .inl (mem_h16 is member)
  | quad is =>
    obtain ⟨q₁, q₂, q₃, q₄, first, second, third, fourth, rfl⟩ := is
    simp only [List.mem_append, List.mem_cons] at member
    rcases member with here | dot | here | dot | here | dot | here
    · exact .inr (.inr (.inr ⟨q₁, first, here⟩))
    · exact .inr (.inr (.inl dot))
    · exact .inr (.inr (.inr ⟨q₂, second, here⟩))
    · exact .inr (.inr (.inl dot))
    · exact .inr (.inr (.inr ⟨q₃, third, here⟩))
    · exact .inr (.inr (.inl dot))
    · exact .inr (.inr (.inr ⟨q₄, fourth, here⟩))
  | more is rest ih =>
    rcases List.mem_append.mp member with here | later
    · exact .inl (mem_h16 is here)
    · rcases List.mem_cons.mp later with colon | later
      · exact .inr (.inl colon)
      · exact ih later

theorem mem_ipv6address {two b : UInt8} (is : IPv6address (octetRule two) repeats a)
    (member : b ∈ a) : isXdigit b.toNat = true ∨ b = 58 ∨ b = 46 ∨ b = two := by
  have of_groups : ∀ {n w}, Groups (octetRule two) n w → b ∈ w →
      isXdigit b.toNat = true ∨ b = 58 ∨ b = 46 ∨ b = two := by
    intro n w groups member
    rcases mem_groups_bytes groups member with digit | colon | dot | ⟨q, is, inside⟩
    · exact .inl digit
    · exact .inr (.inl colon)
    · exact .inr (.inr (.inl dot))
    · rcases mem_octetRule is inside with digit | slip
      · exact .inl (by simp [isXdigit, digit])
      · exact .inr (.inr (.inr slip))
  rw [ipv6address_iff] at is
  rcases is with groups | ⟨v, groups, rfl⟩ | ⟨k, bound, w, v, before, groups, rfl⟩
  · exact of_groups groups member
  · simp only [List.mem_cons] at member
    rcases member with colon | colon | later
    · exact .inr (.inl colon)
    · exact .inr (.inl colon)
    · exact of_groups groups later
  · simp only [List.mem_append, List.mem_cons] at member
    rcases member with here | colon | colon | later
    · rcases mem_before before here with digit | colon
      · exact .inl digit
      · exact .inr (.inl colon)
    · exact .inr (.inl colon)
    · exact .inr (.inl colon)
    · exact of_groups groups later

theorem rfc_no_two (is : RfcIPv6address a) : 2 ∉ a := by
  intro member
  rcases mem_ipv6address is member with digit | other | other | other
  · cases digit
  all_goals cases other

/-- An `IPvFuture` begins with a letter that no address holds. -/
theorem not_future {two : UInt8} (is : IPv6address (octetRule two) repeats a) (other : two ≠ 118) :
    ¬ IPvFuture a := by
  rintro ⟨h, c, -, -, -, -, rfl⟩
  rcases mem_ipv6address is (List.mem_cons_self ..) with digit | same | same | same
  · cases digit
  · cases same
  · cases same
  · exact other same.symm

/-- The grammars agree on an address that has no octet they write differently, and whose groups
before `::` come in the number that `uri.rl` asks for. -/
theorem grammars_agree_iff : (UriIPv6address a ↔ RfcIPv6address a) ↔
    (RfcIPv6address a → IPv6address plainOctet (fun k n => n = k) a) ∧
      ¬ (UriIPv6address a ∧ 2 ∈ a) := by
  have plain_of_uri : UriIPv6address a → 2 ∉ a → IPv6address plainOctet (fun k n => n = k) a := by
    intro is none
    refine ipv6address_mono (fun q inside octet => ?_) (fun _ _ same => same) is
    exact plain_iff.mpr ⟨octet, fun member => none (inside.subset member)⟩
  have rfc_of_plain : IPv6address plainOctet (fun k n => n = k) a → RfcIPv6address a := by
    refine ipv6address_mono (fun q _ octet => ?_) fun _ _ same => Nat.le_of_eq same
    rw [plainOctet, Bool.and_eq_true] at octet
    exact octet.1
  have uri_of_plain : IPv6address plainOctet (fun k n => n = k) a → UriIPv6address a :=
    ipv6address_mono (fun q _ octet => (plain_iff.mp octet).1) fun _ _ same => same
  constructor
  · intro agree
    refine ⟨fun is => plain_of_uri (agree.mpr is) (rfc_no_two is), ?_⟩
    rintro ⟨is, member⟩
    exact rfc_no_two (agree.mp is) member
  · rintro ⟨plain, none⟩
    refine ⟨fun is => rfc_of_plain (plain_of_uri is fun member => none ⟨is, member⟩), fun is => ?_⟩
    exact uri_of_plain (plain is)

end Addresses

end ServerFrame.Http.Literal
