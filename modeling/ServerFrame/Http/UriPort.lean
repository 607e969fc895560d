import ServerFrame.Http.UriZones
import ServerFrame.Http.Framing
import ServerFrame.Lib.EState

/-!
# The port of a URI

The digits behind the host go through `atoi`, an `int32_t`, the default of the scheme and a
`uint16_t`. Which digits they are is read off the text: they end the authority, behind a colon.
-/
namespace ServerFrame.Http

/-! ## What the actions leave alone -/

section Acts

variable {text : List UInt8} {p : Nat} {d d' : UriData}

theorem act_frame {a : UriAct} (acted : d.act text p a = .ok d') :
    (a ≠ .savePort → d'.uri.port = d.uri.port) ∧
      (a ≠ .saveScheme → d'.uri.scheme = d.uri.scheme) := by
  cases a with
  | savePort =>
    simp only [UriData.act] at acted
    split at acted
    next => cases acted
    next =>
      obtain rfl := Except.ok.inj acted
      exact ⟨fun other => absurd rfl other, fun _ => by dsimp only; split <;> rfl⟩
  | mark =>
    obtain rfl := Except.ok.inj acted
    exact ⟨fun _ => rfl, fun _ => rfl⟩
  | saveUserinfo | saveHost =>
    simp only [UriData.act] at acted
    split at acted
    next =>
      obtain rfl := Except.ok.inj acted
      exact ⟨fun _ => rfl, fun _ => rfl⟩
    next =>
      obtain ⟨s, -, acted⟩ := EState.except_bind_ok acted
      obtain rfl := Except.ok.inj acted
      exact ⟨fun _ => rfl, fun _ => rfl⟩
  | saveScheme =>
    obtain ⟨s, -, acted⟩ := EState.except_bind_ok acted
    obtain rfl := Except.ok.inj acted
    exact ⟨fun _ => rfl, fun other => absurd rfl other⟩
  | savePath | saveQuery | saveFragment =>
    obtain ⟨s, -, acted⟩ := EState.except_bind_ok acted
    obtain rfl := Except.ok.inj acted
    exact ⟨fun _ => rfl, fun _ => rfl⟩

theorem actAll_frame {acts : List UriAct} (acted : d.actAll text p acts = .ok d') :
    (.savePort ∉ acts → d'.uri.port = d.uri.port) ∧
      (.saveScheme ∉ acts → d'.uri.scheme = d.uri.scheme) := by
  induction acts generalizing d with
  | nil =>
    obtain rfl := Except.ok.inj acted
    exact ⟨fun _ => rfl, fun _ => rfl⟩
  | cons a acts ih =>
    obtain ⟨d₁, first, acted⟩ := EState.except_bind_ok acted
    obtain ⟨port, scheme⟩ := act_frame first
    obtain ⟨port', scheme'⟩ := ih acted
    simp only [List.mem_cons, not_or]
    exact ⟨fun none => (port' none.2).trans (port (Ne.symm none.1)),
      fun none => (scheme' none.2).trans (scheme (Ne.symm none.1))⟩

end Acts

theorem eof_tail : ∀ cs < 561, inTail cs = true → .savePort ∉ uriEofActs cs := by decide +kernel

theorem eof_port : ∀ cs < 561, inPort cs = true →
    (uriEofActs cs).head? = some .savePort ∧ .savePort ∉ (uriEofActs cs).tail := by decide +kernel

theorem eof_scheme (cs : Nat) : .saveScheme ∉ uriEofActs cs := by
  have none : ∀ entry ∈ uriEofActions, .saveScheme ∉ entry.2 := by decide
  rw [uriEofActs]
  split
  next entry acts found => exact none _ (List.mem_of_find?_eq_some found)
  next => exact List.not_mem_nil

theorem inTail_lt {cs : Nat} (zone : inTail cs = true) : cs < 561 := by
  simp only [inTail, numbered, Bool.or_eq_true, Bool.and_eq_true, decide_eq_true_eq, beq_iff_eq] at zone
  omega

theorem inPort_lt {cs : Nat} (zone : inPort cs = true) : cs < 561 := by
  simp only [inPort, Bool.or_eq_true, beq_iff_eq] at zone
  omega

theorem inAuthority_of_inPort {cs : Nat} (zone : inPort cs = true) : inAuthority cs = true := by
  simp only [inPort, Bool.or_eq_true, beq_iff_eq] at zone
  rcases zone with ((rfl | rfl) | rfl) | rfl <;> rfl

theorem inUserinfo_lt {cs : Nat} (zone : inUserinfo cs = true) : cs < uriParserFirstFinal := by
  simp only [inUserinfo, numbered, Bool.or_eq_true, Bool.and_eq_true, decide_eq_true_eq] at zone
  simp only [uriParserFirstFinal]
  omega

section Runs

variable {text w : List UInt8} {cs p cs' : Nat} {d d' : UriData}

/-- Behind the authority no port is saved. -/
theorem port_of_tail (zone : inTail cs = true)
    (ran : uriExecute text cs p d w = .ok (cs', d')) : d'.uri.port = d.uri.port := by
  induction w generalizing cs p d with
  | nil =>
    obtain ⟨d₁, acted, same⟩ := EState.except_bind_ok ran
    obtain ⟨-, rfl⟩ := Prod.mk.inj (Except.ok.inj same)
    exact (actAll_frame acted).1 (eof_tail cs (inTail_lt zone) zone)
  | cons b w ih =>
    rw [uriExecute] at ran
    split at ran
    next =>
      obtain ⟨-, rfl⟩ := Prod.mk.inj (Except.ok.inj ran)
      rfl
    next target acts moves =>
      obtain ⟨e, zoned, -, -, -, rfl, rfl⟩ := edge_of_uriTransition moves
      obtain ⟨d₁, acted, ran⟩ := EState.except_bind_ok ran
      obtain ⟨stays, no_port⟩ := zoned.tail zone
      exact (ih stays ran).trans ((actAll_frame acted).1 no_port)

/-- `save_port` and what follows it. -/
theorem port_of_acts {acts : List UriAct} {start : Nat} (marked : d.mark = some start)
    (later : p ≠ start) (first : acts.head? = some .savePort) (once : .savePort ∉ acts.tail)
    (acted : d.actAll text p acts = .ok d') : d'.uri.port = atoi (text.drop start) := by
  obtain ⟨rest, rfl⟩ := List.head?_eq_some_iff.mp first
  obtain ⟨d₁, saved, acted⟩ := EState.except_bind_ok acted
  simp only [UriData.act, marked, if_neg later] at saved
  obtain rfl := Except.ok.inj saved
  exact (actAll_frame acted).1 once

/-- The digits and what is behind them, with the mark at the first digit. -/
theorem port_of_inPort {start : Nat} {digits post : List UInt8} (zone : inPort cs = true)
    (marked : d.mark = some start) (later : start < p)
    (port : ∀ b ∈ digits, isDigit b = true) (after : ∀ b ∈ post.head?, ends b = true)
    (ran : uriExecute text cs p d (digits ++ post) = .ok (cs', d')) (fine : cs' ≠ 0) :
    d'.uri.port = atoi (text.drop start) := by
  induction digits generalizing cs p d with
  | nil =>
    rw [List.nil_append] at ran
    cases post with
    | nil =>
      obtain ⟨d₁, acted, same⟩ := EState.except_bind_ok ran
      obtain ⟨-, rfl⟩ := Prod.mk.inj (Except.ok.inj same)
      obtain ⟨first, once⟩ := eof_port cs (inPort_lt zone) zone
      exact port_of_acts marked (Nat.ne_of_gt later) first once acted
    | cons b post =>
      obtain ⟨target, acts, d₁, moves, acted, ran⟩ := step_of_ran ran fine
      obtain ⟨e, zoned, -, ported, accepts, rfl, rfl⟩ := edge_of_uriTransition moves
      have leaves := leaves_of_ends accepts (after b rfl)
      obtain ⟨first, once⟩ := ported.port zone leaves
      rw [port_of_tail (zoned.leave (inAuthority_of_inPort zone) leaves) ran]
      exact port_of_acts marked (Nat.ne_of_gt later) first once acted
  | cons b digits ih =>
    rw [List.cons_append] at ran
    obtain ⟨target, acts, d₁, moves, acted, ran⟩ := step_of_ran ran fine
    obtain ⟨e, -, -, ported, accepts, rfl, rfl⟩ := edge_of_uriTransition moves
    have digit := onDigit_of_accepts accepts (port b (List.mem_cons_self ..))
    obtain ⟨stays, quiet⟩ := ported.digit zone digit
    rw [quiet] at acted
    obtain rfl := Except.ok.inj acted
    exact ih stays marked (Nat.lt_succ_of_lt later)
      (fun c member => port c (List.mem_cons_of_mem _ member)) ran

/-- What only a userinfo can hold is not the end of an authority. -/
theorem not_inUserinfo {digits post : List UInt8} (zone : inUserinfo cs = true)
    (port : ∀ b ∈ digits, isDigit b = true) (after : ∀ b ∈ post.head?, ends b = true)
    (ran : uriExecute text cs p d (digits ++ post) = .ok (cs', d')) : cs' < uriParserFirstFinal := by
  induction digits generalizing cs p d with
  | nil =>
    rw [List.nil_append] at ran
    cases post with
    | nil =>
      obtain ⟨d₁, acted, same⟩ := EState.except_bind_ok ran
      obtain ⟨rfl, -⟩ := Prod.mk.inj (Except.ok.inj same)
      exact inUserinfo_lt zone
    | cons b post =>
      rw [uriExecute] at ran
      split at ran
      next =>
        obtain ⟨rfl, -⟩ := Prod.mk.inj (Except.ok.inj ran)
        decide
      next target acts moves =>
        obtain ⟨e, -, -, ported, accepts, rfl, rfl⟩ := edge_of_uriTransition moves
        have leaves := leaves_of_ends accepts (after b rfl)
        rw [ported.userinfo zone] at leaves
        cases leaves
  | cons b digits ih =>
    rw [List.cons_append, uriExecute] at ran
    split at ran
    next =>
      obtain ⟨rfl, -⟩ := Prod.mk.inj (Except.ok.inj ran)
      decide
    next target acts moves =>
      obtain ⟨e, -, -, ported, accepts, rfl, rfl⟩ := edge_of_uriTransition moves
      obtain ⟨d₁, -, ran⟩ := EState.except_bind_ok ran
      have digit := onDigit_of_accepts accepts (port b (List.mem_cons_self ..))
      exact ih (ported.more zone digit) (fun c member => port c (List.mem_cons_of_mem _ member)) ran

/-- From the first digit behind a colon on. -/
theorem port_of_colon {digits post : List UInt8} (zone : atPort cs = true ∨ inUserinfo cs = true)
    (nonempty : digits ≠ []) (port : ∀ b ∈ digits, isDigit b = true)
    (after : ∀ b ∈ post.head?, ends b = true)
    (ran : uriExecute text cs p d (digits ++ post) = .ok (cs', d'))
    (final : uriParserFirstFinal ≤ cs') : d'.uri.port = atoi (text.drop p) := by
  have fine : cs' ≠ 0 := Nat.ne_of_gt (Nat.lt_of_lt_of_le (by decide) final)
  rcases zone with zone | zone
  · obtain ⟨b, digits, rfl⟩ := List.exists_cons_of_ne_nil nonempty
    rw [List.cons_append] at ran
    obtain ⟨target, acts, d₁, moves, acted, ran⟩ := step_of_ran ran fine
    obtain ⟨e, -, -, ported, accepts, rfl, rfl⟩ := edge_of_uriTransition moves
    have digit := onDigit_of_accepts accepts (port b (List.mem_cons_self ..))
    obtain ⟨begins, marks⟩ := ported.first zone digit
    rw [marks] at acted
    obtain rfl := Except.ok.inj acted
    exact port_of_inPort begins rfl (Nat.lt_succ_self p)
      (fun c member => port c (List.mem_cons_of_mem _ member)) after ran fine
  · exact absurd final (Nat.not_le.mpr (not_inUserinfo zone port after ran))

/-- The port of an authority that ends with a colon and digits. -/
theorem port_of_authority {auth digits post : List UInt8} (zone : inAuthority cs = true)
    (stays : ∀ b ∈ auth, ends b = false) (nonempty : digits ≠ [])
    (port : ∀ b ∈ digits, isDigit b = true) (after : ∀ b ∈ post.head?, ends b = true)
    (ran : uriExecute text cs p d (auth ++ 58 :: (digits ++ post)) = .ok (cs', d'))
    (final : uriParserFirstFinal ≤ cs') :
    d'.uri.port = atoi (text.drop (p + auth.length + 1)) := by
  have fine : cs' ≠ 0 := Nat.ne_of_gt (Nat.lt_of_lt_of_le (by decide) final)
  obtain ⟨cs₁, d₁, reads, ran⟩ := reads_of_uriExecute ran fine
  have zone := reads_authority reads zone stays
  obtain ⟨target, acts, d₂, moves, -, ran⟩ := step_of_ran ran fine
  obtain ⟨e, -, -, ported, accepts, rfl, rfl⟩ := edge_of_uriTransition moves
  exact port_of_colon (ported.colon zone accepts) nonempty port after ran final

/-- A scheme is saved before the authority only. -/
theorem scheme_of_authority (zone : inAuthority cs = true ∨ inTail cs = true)
    (ran : uriExecute text cs p d w = .ok (cs', d')) : d'.uri.scheme = d.uri.scheme := by
  induction w generalizing cs p d with
  | nil =>
    obtain ⟨d₁, acted, same⟩ := EState.except_bind_ok ran
    obtain ⟨-, rfl⟩ := Prod.mk.inj (Except.ok.inj same)
    exact (actAll_frame acted).2 (eof_scheme cs)
  | cons b w ih =>
    rw [uriExecute] at ran
    split at ran
    next =>
      obtain ⟨-, rfl⟩ := Prod.mk.inj (Except.ok.inj ran)
      rfl
    next target acts moves =>
      obtain ⟨e, zoned, led, -, -, rfl, rfl⟩ := edge_of_uriTransition moves
      obtain ⟨d₁, acted, ran⟩ := EState.except_bind_ok ran
      have other : cs ≠ 508 := by
        rintro rfl
        rcases zone with zone | zone <;> cases zone
      have next : inAuthority e.target = true ∨ inTail e.target = true := by
        rcases zone with zone | zone
        · cases leaves : e.leaves with
          | true => exact .inr (zoned.leave zone leaves)
          | false => exact .inl (zoned.authority zone leaves)
        · exact .inr (zoned.tail zone).1
      exact (ih next ran).trans ((actAll_frame acted).2 (led.other other))

/-- The letters of a scheme: the mark stays at its start. -/
theorem reads_lead {v : List UInt8} (reads : UriReads text cs p d v cs' d')
    (zone : inLead cs = true) (start : cs = 451 → p = 0) (marked : cs = 508 → d.mark = some 0)
    (stays : ∀ b ∈ v, ends b = false ∧ b ≠ 58) :
    inLead cs' = true ∧ (cs' = 508 → d'.mark = some 0) := by
  induction reads with
  | nil => exact ⟨zone, marked⟩
  | cons moves acted rest ih =>
    obtain ⟨e, zoned, led, -, accepts, rfl, rfl⟩ := edge_of_uriTransition moves
    obtain ⟨here, no_colon⟩ := stays _ (List.mem_cons_self ..)
    have leaves := leaves_eq_false zoned (by simp [zone]) accepts here
    have colon : e.accepts 58 = false := by
      by_contra also
      have single := (led.colon zone (Bool.not_eq_false _ ▸ also)).1
      exact no_colon (UInt8.toNat_inj.mp (eq_of_single single accepts))
    refine ih (led.lead zone leaves colon) (fun again => absurd again led.once) (fun letter => ?_)
      fun b member => stays b (List.mem_cons_of_mem _ member)
    rcases led.letter letter with rfl | ⟨rfl, quiet⟩
    · rw [led.start rfl letter] at acted
      obtain rfl := Except.ok.inj acted
      rw [start rfl]
    · rw [quiet] at acted
      obtain rfl := Except.ok.inj acted
      exact marked rfl

end Runs

/-! ## Up to the authority -/

/-- What stands before an authority: nothing, or a scheme and its colon. -/
def Introduces (pre : List UInt8) : Prop :=
  pre = [] ∨ ∃ scheme, pre = scheme ++ [58] ∧ ∀ b ∈ scheme, ends b = false ∧ b ≠ 58

theorem authority_of_run {pre w : List UInt8} {cs : Nat} {d : UriData} (introduces : Introduces pre)
    (ran : uriExecute (pre ++ 47 :: 47 :: w) uriParserStart 0 ⟨none, .new⟩ (pre ++ 47 :: 47 :: w) =
      .ok (cs, d)) (fine : cs ≠ 0) :
    ∃ cs₁ d₁, inAuthority cs₁ = true ∧ d₁.uri.scheme = pre.dropLast ∧
      uriExecute (pre ++ 47 :: 47 :: w) cs₁ (pre.length + 2) d₁ w = .ok (cs, d) := by
  rcases introduces with rfl | ⟨scheme, rfl, letters⟩
  · exact ⟨459, ⟨none, .new⟩, rfl, rfl, ran⟩
  · generalize whole : scheme ++ [58] ++ 47 :: 47 :: w = text at ran ⊢
    have split : text = scheme ++ 58 :: 47 :: 47 :: w := by
      rw [← whole, List.append_assoc, List.singleton_append]
    nth_rewrite 2 [split] at ran
    obtain ⟨cs₁, d₁, reads, ran⟩ := reads_of_uriExecute ran fine
    obtain ⟨zone, marked⟩ := reads_lead reads rfl (fun _ => rfl) (fun other => by cases other) letters
    obtain ⟨target, acts, d₂, moves, acted, behind⟩ := step_of_ran ran fine
    obtain ⟨e, -, led, -, accepts, rfl, rfl⟩ := edge_of_uriTransition moves
    obtain ⟨-, rfl, target, acts⟩ := led.colon zone accepts
    rw [acts] at acted
    rw [target] at behind
    simp only [UriData.actAll, UriData.act, UriData.string, marked rfl] at acted
    have saved : d₂.uri.scheme = scheme := by
      rw [← Except.ok.inj acted, split]
      simp [Span.text]
    have position : (scheme ++ [58]).length + 2 = 0 + scheme.length + 1 + 1 + 1 := by simp
    rw [position]
    exact ⟨511, d₂, rfl, saved.trans List.dropLast_concat.symm, behind⟩

theorem ran_of_create {text : List UInt8} {u : Uri} (created : Uri.create text = .ok (some u)) :
    ∃ cs d, uriExecute text uriParserStart 0 ⟨none, .new⟩ text = .ok (cs, d) ∧
      uriParserFirstFinal ≤ cs ∧ d.uri = u := by
  obtain ⟨⟨cs, d⟩, ran, returned⟩ := EState.except_bind_ok created
  refine ⟨cs, d, ran, ?_⟩
  dsimp only at returned
  split at returned
  next => cases returned
  next =>
    split at returned
    next final => exact ⟨final, Option.some.inj (Except.ok.inj returned)⟩
    next => cases returned

/-- The port of a URI is what `atoi` makes of the digits, and its scheme is the one in the text. -/
theorem port_of_create {pre auth digits post : List UInt8} {u : Uri} (introduces : Introduces pre)
    (stays : ∀ b ∈ auth, ends b = false) (nonempty : digits ≠ [])
    (port : ∀ b ∈ digits, isDigit b = true) (after : ∀ b ∈ post.head?, ends b = true)
    (created : Uri.create (pre ++ 47 :: 47 :: (auth ++ 58 :: (digits ++ post))) = .ok (some u)) :
    u.port = atoi (digits ++ post) ∧ u.scheme = pre.dropLast := by
  obtain ⟨cs, d, ran, final, rfl⟩ := ran_of_create created
  have fine : cs ≠ 0 := Nat.ne_of_gt (Nat.lt_of_lt_of_le (by decide) final)
  obtain ⟨cs₁, d₁, zone, scheme, ran⟩ := authority_of_run introduces ran fine
  refine ⟨?_, (scheme_of_authority (.inl zone) ran).trans scheme⟩
  rw [port_of_authority zone stays nonempty port after ran final]
  have position : pre.length + 2 + auth.length + 1 = (pre ++ 47 :: 47 :: (auth ++ [58])).length := by
    simp only [List.length_append, List.length_cons, List.length_nil]
    omega
  have split : pre ++ 47 :: 47 :: (auth ++ 58 :: (digits ++ post)) =
      (pre ++ 47 :: 47 :: (auth ++ [58])) ++ (digits ++ post) := by simp
  rw [position, split, List.drop_left]

/-! ## The number -/

theorem atoi_digits {digits post : List UInt8} (nonempty : digits ≠ [])
    (port : ∀ b ∈ digits, isDigit b = true) (after : ∀ b ∈ post.head?, ends b = true) :
    atoi (digits ++ post) = asInt (min longMax (digitsValue 10 0 digits)) := by
  have known : ∀ b : UInt8, isDigit b = true →
      (digitValue 10 b).isSome = true ∧ isspace b = false ∧ b ≠ 45 ∧ b ≠ 43 := by decide +kernel
  have stop : ∀ b : UInt8, ends b = true → digitValue 10 b = none := by decide +kernel
  have value : digitsValue 10 0 (digits ++ post) = digitsValue 10 0 digits := by
    rw [digitsValue_append fun b member => (known b (port b member)).1]
    cases post with
    | nil => rfl
    | cons b post => rw [digitsValue, stop b (after b rfl)]
  obtain ⟨first, rest, rfl⟩ := List.exists_cons_of_ne_nil nonempty
  obtain ⟨-, no_space, no_minus, no_plus⟩ := known first (port first (List.mem_cons_self ..))
  have spaces : (first :: rest ++ post).dropWhile isspace = first :: rest ++ post := by
    rw [List.cons_append, List.dropWhile_cons, no_space]
    rfl
  have minus : ((first :: rest ++ post).head? == some 45) = false :=
    beq_eq_false_iff_ne.mpr fun same => no_minus (Option.some.inj same)
  have plus : ((first :: rest ++ post).head? == some 43) = false :=
    beq_eq_false_iff_ne.mpr fun same => no_plus (Option.some.inj same)
  have decimal : (10 : Nat) ≠ 16 := by decide
  simp only [atoi, strtol, spaces, minus, plus, Bool.or_false, Bool.false_eq_true, if_false,
    if_neg decimal, value]

theorem byteswap_byteswap (v : UInt16) : byteswap (byteswap v) = v := by
  apply UInt16.toBitVec_inj.mp
  simp only [byteswap, UInt16.toBitVec_or, UInt16.toBitVec_shiftLeft, UInt16.toBitVec_shiftRight]
  ext i bound
  simp
  grind

theorem getPort_createAddress {lookup : List UInt8 → Option IPAddress} {u : Uri} {addr : IPAddress}
    (created : u.createAddress lookup = some addr) :
    addr.getPort = UInt16.ofInt u.getPort := by
  obtain ⟨found, -, rfl⟩ := Option.map_eq_some_iff.mp created
  exact byteswap_byteswap _

/-- The schemes for which port 0 means another one. -/
def hasDefaultPort (scheme : List UInt8) : Bool :=
  scheme ∈ [ascii "http", ascii "ws", ascii "https", ascii "wss"]

theorem getPort_of_ne {u : Uri} (given : u.port ≠ 0) : u.getPort = u.port := by
  rw [Uri.getPort, if_pos given]

theorem getPort_of_zero {u : Uri} (zero : u.port = 0) :
    UInt16.ofInt u.getPort = 0 ↔ hasDefaultPort u.scheme = false := by
  simp only [Uri.getPort, zero, ne_eq, not_true_eq_false, if_false, hasDefaultPort, List.mem_cons,
    List.not_mem_nil, or_false, decide_eq_false_iff_not, not_or]
  split
  next plain =>
    simp only [show UInt16.ofInt 80 ≠ 0 by decide, false_iff]
    tauto
  next plain =>
    split
    next secure =>
      simp only [show UInt16.ofInt 443 ≠ 0 by decide, false_iff]
      tauto
    next secure =>
      simp only [show UInt16.ofInt 0 = 0 by decide, true_iff]
      tauto

/-- A URI whose port is a number of digits, from an authority that anything may precede: the
address gets the number exactly when it fits into 16 bits and is not 0 for a scheme with a
default. -/
theorem port_kept_iff {pre auth digits post : List UInt8} {u : Uri} {addr : IPAddress}
    {lookup : List UInt8 → Option IPAddress} (introduces : Introduces pre)
    (stays : ∀ b ∈ auth, ends b = false) (nonempty : digits ≠ [])
    (port : ∀ b ∈ digits, isDigit b = true) (after : ∀ b ∈ post.head?, ends b = true)
    (created : Uri.create (pre ++ 47 :: 47 :: (auth ++ 58 :: (digits ++ post))) = .ok (some u))
    (found : u.createAddress lookup = some addr) :
    addr.getPort.toNat = digitsValue 10 0 digits ↔
      digitsValue 10 0 digits < 2 ^ 16 ∧
        (digitsValue 10 0 digits ≠ 0 ∨ hasDefaultPort pre.dropLast = false) := by
  obtain ⟨number, scheme⟩ := port_of_create introduces stays nonempty port after created
  rw [atoi_digits nonempty port after] at number
  rw [getPort_createAddress found, ← scheme]
  generalize digitsValue 10 0 digits = n at number ⊢
  by_cases fits : n < 2 ^ 16
  · have small : min longMax (n : Int) = n := by
      rw [longMax]
      omega
    have same : u.port = n := by
      rw [number, small, asInt]
      exact Int.bmod_eq_of_le (by omega) (by omega)
    rw [and_iff_right fits]
    by_cases zero : n = 0
    · subst zero
      rw [or_iff_right fun other => absurd rfl other, ← getPort_of_zero same,
        ← UInt16.toNat_inj]
      rfl
    · have other : u.port ≠ 0 := by
        rw [same]
        exact Int.natCast_ne_zero.mpr zero
      rw [getPort_of_ne other, same, or_iff_left_of_imp fun _ => zero, iff_true_right zero]
      have reduced : ((n : Int) % 2 ^ 16).toNat = n := by omega
      rw [UInt16.ofInt, reduced]
      exact UInt16.toNat_ofNat_of_lt' fits
  · have bound := (UInt16.ofInt u.getPort).toNat_lt
    refine ⟨fun same => absurd (same ▸ bound) fits, fun small => absurd small.1 fits⟩

theorem port_kept_iff_8080 :
    ∃ u addr, Uri.create (ascii "http:" ++ 47 :: 47 ::
        (ascii "me@host" ++ 58 :: (ascii "8080" ++ ascii "/a?b"))) = .ok (some u) ∧
      u.createAddress (fun host => some ⟨host, 0⟩) = some addr ∧
      (addr.getPort.toNat = digitsValue 10 0 (ascii "8080") ↔
        digitsValue 10 0 (ascii "8080") < 2 ^ 16 ∧
          (digitsValue 10 0 (ascii "8080") ≠ 0 ∨
            hasDefaultPort (ascii "http:").dropLast = false)) := by
  have created : Uri.create (ascii "http:" ++ 47 :: 47 ::
      (ascii "me@host" ++ 58 :: (ascii "8080" ++ ascii "/a?b"))) =
      .ok (some ⟨ascii "http", ascii "me", ascii "host", ascii "/a", ascii "b", [], 8080⟩) := by
    rfl
  have found : Uri.createAddress (fun host => some ⟨host, 0⟩)
      ⟨ascii "http", ascii "me", ascii "host", ascii "/a", ascii "b", [], 8080⟩ =
      some ⟨ascii "host", byteswap 8080⟩ := by rfl
  exact ⟨_, _, created, found, port_kept_iff (.inr ⟨ascii "http", rfl, by decide +kernel⟩)
    (by decide +kernel) (by decide) (by decide +kernel) (by decide +kernel) created found⟩

/-- 65616 is 2^16 + 80: both URIs are accepted, and both addresses get port 80. -/
theorem port_not_kept :
    (∃ u addr, Uri.create (ascii "http://host:65616/") = .ok (some u) ∧
      u.createAddress (fun host => some ⟨host, 0⟩) = some addr ∧ addr.getPort = 80 ∧
      digitsValue 10 0 (ascii "65616") = 65616) ∧
    ∃ u addr, Uri.create (ascii "http://host:0/") = .ok (some u) ∧
      u.createAddress (fun host => some ⟨host, 0⟩) = some addr ∧ addr.getPort = 80 ∧
      digitsValue 10 0 (ascii "0") = 0 := by
  have large : Uri.create (ascii "http://host:65616/") =
      .ok (some ⟨ascii "http", [], ascii "host", ascii "/", [], [], 65616⟩) := by rfl
  have zero : Uri.create (ascii "http://host:0/") =
      .ok (some ⟨ascii "http", [], ascii "host", ascii "/", [], [], 0⟩) := by rfl
  exact ⟨⟨_, _, large, rfl, by decide, by decide⟩, ⟨_, _, zero, rfl, by decide, by decide⟩⟩

end ServerFrame.Http
