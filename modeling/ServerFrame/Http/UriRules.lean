import ServerFrame.Http.Rules
import ServerFrame.Http.Ipv6
import ServerFrame.Http.UriZones

/-!
# The rules of `uri.rl`

The rules for the parts of a URI, and that the generated states get through whatever they match.
Where the rules are those of `http11_parser.rl` without its relaxed letters, they are taken from
there.
-/
namespace ServerFrame.Http.UriRules

open Regular Rules

/-! ## The rules -/

def scheme : Expr UInt8 :=
  .cat (oneOf [(65, 90), (97, 122)]) (.star (oneOf (alphaDigit ++ [(43, 43), (45, 46)])))

def userinfo : Expr UInt8 := Rules.userinfo false

def regName : Expr UInt8 := Rules.regName false

/-- `2 [0-4] digit` begins with a byte of value 2. -/
def decOctet : Expr UInt8 :=
  choice Rules.digit [.cat (oneOf [(49, 57)]) Rules.digit,
    chain [text "1", Rules.digit, Rules.digit], chain [.sym [2], oneOf [(48, 52)], Rules.digit],
    chain [text "25", oneOf [(48, 53)]]]

def ipv4address : Expr UInt8 :=
  chain [decOctet, text ".", decOctet, text ".", decOctet, text ".", decOctet]

def pathAbempty : Expr UInt8 := Rules.pathAbempty false

def query : Expr UInt8 := Rules.query false

def fragment : Expr UInt8 := Rules.fragment false

/-- `host`. -/
def Host (h : List UInt8) : Prop :=
  Matches regName h ∨ Matches ipv4address h ∨
    ∃ a, (Literal.UriIPv6address a ∨ Literal.IPvFuture a) ∧ h = 91 :: (a ++ [93])

/-! ## The states -/

/-- A byte inside of a part, or the first one of it, which is marked. -/
def step (q : Nat × Bool) (b : UInt8) : Option (Nat × Bool) :=
  match uriTransition q.1 b with
  | none => none
  | some (target, acts) => if acts = (if q.2 then [.mark] else []) then some (target, false) else none

/-- From some states on the automaton gets through every word of `r`, to where `closes` holds. -/
def reads (r : Expr UInt8) (qs : List (Nat × Bool)) (closes : Nat × Bool → Bool) : Bool :=
  match Regular.ends step 16 r qs with
  | none => false
  | some ts => ts.all closes

/-- The part may end with the byte. -/
def closes (b : UInt8) (target : Nat) (acts : List UriAct) (q : Nat × Bool) : Bool :=
  !q.2 && uriTransition q.1 b == some (target, acts)

/-- Behind a host comes a port or a path. -/
def closesHost (q : Nat × Bool) : Bool :=
  (closes 58 521 [.saveHost] q || closes 58 514 [.saveHost] q) && closes 47 513 [.saveHost, .mark] q

/-- The letters of a userinfo that are not digits. -/
def otherLetters : List (Nat × Nat) :=
  [(65, 90), (97, 122), (45, 46), (95, 95), (126, 126)] ++ subDelims false ++ [(58, 58)]

/-- All parts are tested in one go. -/
private theorem reads_parts :
    reads scheme [(451, true)] (closes 58 509 [.saveScheme]) = true ∧
    reads regName [(511, true)] (fun q =>
      q == (511, true) || closes 58 521 [.saveHost] q && closes 64 522 [.saveUserinfo] q) = true ∧
    reads (.cat Rules.digit userinfo) [(521, true)] (closes 64 522 [.saveUserinfo]) = true ∧
    reads (.cat (.alt (oneOf otherLetters) pctEncoded) userinfo) [(521, false)]
      (closes 64 522 [.saveUserinfo]) = true ∧
    reads regName [(511, true), (522, true)] (fun q =>
      q == (511, true) || q == (522, true) || closesHost q) = true ∧
    reads ipv4address [(511, true), (522, true)] closesHost = true ∧
    reads (plus Rules.digit) [(521, true), (514, true)] (closes 47 513 [.savePort, .mark]) = true ∧
    reads (.cat (segment false) pathAbempty) [(513, false)] (· == (513, false)) = true ∧
    reads query [(456, true)] (fun q => q == (456, true) || q == (457, false)) = true ∧
    reads fragment [(453, true)] (fun q => q == (453, true) || q == (454, false)) = true := by
  decide +kernel

theorem reads_scheme : reads scheme [(451, true)] (closes 58 509 [.saveScheme]) = true :=
  reads_parts.1

theorem reads_name : reads regName [(511, true)] (fun q =>
    q == (511, true) || closes 58 521 [.saveHost] q && closes 64 522 [.saveUserinfo] q) = true :=
  reads_parts.2.1

/-- Digits behind the colon of a userinfo are marked as a port. -/
theorem reads_digit :
    reads (.cat Rules.digit userinfo) [(521, true)] (closes 64 522 [.saveUserinfo]) = true :=
  reads_parts.2.2.1

theorem reads_other : reads (.cat (.alt (oneOf otherLetters) pctEncoded) userinfo) [(521, false)]
    (closes 64 522 [.saveUserinfo]) = true :=
  reads_parts.2.2.2.1

theorem reads_regName : reads regName [(511, true), (522, true)] (fun q =>
    q == (511, true) || q == (522, true) || closesHost q) = true :=
  reads_parts.2.2.2.2.1

theorem reads_ipv4address : reads ipv4address [(511, true), (522, true)] closesHost = true :=
  reads_parts.2.2.2.2.2.1

theorem reads_port : reads (plus Rules.digit) [(521, true), (514, true)]
    (closes 47 513 [.savePort, .mark]) = true :=
  reads_parts.2.2.2.2.2.2.1

theorem reads_path : reads (.cat (segment false) pathAbempty) [(513, false)] (· == (513, false)) =
    true :=
  reads_parts.2.2.2.2.2.2.2.1

theorem reads_query : reads query [(456, true)] (fun q => q == (456, true) || q == (457, false)) =
    true :=
  reads_parts.2.2.2.2.2.2.2.2.1

theorem reads_fragment : reads fragment [(453, true)] (fun q =>
    q == (453, true) || q == (454, false)) = true :=
  reads_parts.2.2.2.2.2.2.2.2.2

section Runs

variable {w : List UInt8} {q t : Nat × Bool}

theorem run_of_reads {r : Expr UInt8} {qs : List (Nat × Bool)} {found : Nat × Bool → Bool}
    (tested : reads r qs found = true) (is : Matches r w) (member : q ∈ qs) :
    ∃ t, Run.run step q w = some t ∧ found t = true := by
  rw [reads] at tested
  split at tested
  next => cases tested
  next ts reached =>
    obtain ⟨t, known, ran⟩ := run_of_ends is reached member
    exact ⟨t, ran, List.all_eq_true.mp tested t known⟩

theorem transition_of_step {b : UInt8} (stepped : step q b = some t) :
    t.2 = false ∧ uriTransition q.1 b = some (t.1, if q.2 then [.mark] else []) := by
  rw [step] at stepped
  split at stepped
  next => cases stepped
  next target acts moves =>
    obtain ⟨quiet, same⟩ := Option.ite_none_right_eq_some.mp stepped
    obtain rfl := Option.some.inj same
    exact ⟨rfl, quiet ▸ moves⟩

/-- Inside of a part nothing happens but that its start is marked. -/
theorem reads_of_run (ran : Run.run step q w = some t) (text : List UInt8) (p : Nat) (d : UriData) :
    (w = [] ∧ t = q) ∨
      (t.2 = false ∧ UriReads text q.1 p d w t.1 (if q.2 then ⟨some p, d.uri⟩ else d)) := by
  induction w generalizing q p d with
  | nil => exact .inl ⟨rfl, (Option.some.inj ran).symm⟩
  | cons b w ih =>
    obtain ⟨q', stepped, ran⟩ := Run.run_cons_some ran
    obtain ⟨inside, moves⟩ := transition_of_step stepped
    have acted : d.actAll text p (if q.2 then [.mark] else []) =
        .ok (if q.2 then ⟨some p, d.uri⟩ else d) := by
      cases q.2 <;> rfl
    right
    rcases ih ran (p + 1) (if q.2 then ⟨some p, d.uri⟩ else d) with ⟨rfl, rfl⟩ | ⟨outside, rest⟩
    · exact ⟨inside, .cons moves acted .nil⟩
    · rw [inside, if_neg Bool.false_ne_true] at rest
      exact ⟨outside, .cons moves acted rest⟩

end Runs

theorem eq_of_text {s : String} {w : List UInt8} (is : Matches (text s) w) : w = ascii s := by
  rw [text] at is
  generalize ascii s = l at is ⊢
  induction l generalizing w with
  | nil =>
    cases is
    rfl
  | cons b l ih =>
    obtain ⟨u, v, first, later, rfl⟩ := matches_cat_iff.mp is
    obtain ⟨c, same, rfl⟩ := matches_sym_iff.mp first
    rw [ih later, List.mem_singleton.mp same]
    rfl

theorem path_cases {path : List UInt8} (is : Matches pathAbempty path) :
    path = [] ∨ ∃ r, Matches (.cat (segment false) pathAbempty) r ∧ path = 47 :: r := by
  rcases is.star_cases with rfl | ⟨u, v, first, rest, rfl⟩
  · exact .inl rfl
  · obtain ⟨slash, s, is_slash, segment, rfl⟩ := matches_cat_iff.mp first
    obtain rfl := eq_of_text is_slash
    exact .inr ⟨s ++ v, .cat segment rest, rfl⟩

/-! ## The userinfo -/

section Userinfo

variable {i : List UInt8} {b : UInt8} {w : List UInt8}

theorem bytes_append (l l' : List (Nat × Nat)) : bytes (l ++ l') = bytes l ++ bytes l' :=
  List.flatMap_append

theorem isDigit_iff : isDigit b = true ↔ b ∈ bytes [(48, 57)] := by
  rw [mem_bytes (by decide)]
  simp [isDigit, UInt8.le_iff_toNat_le]

/-- A userinfo up to its first colon, and from there on. -/
theorem userinfo_cases (is : Matches userinfo i) : Matches regName i ∨
    ∃ v w, Matches regName v ∧ Matches userinfo w ∧ i = v ++ 58 :: w := by
  refine Matches.star_induction (P := fun i => Matches regName i ∨
    ∃ v w, Matches regName v ∧ Matches userinfo w ∧ i = v ++ 58 :: w) (.inl .starNil)
    (fun u v first rest ih => ?_) is
  have known : Matches (.alt (oneOf (unreserved ++ subDelims false)) pctEncoded) u ∨ u = [58] := by
    rcases matches_alt_iff.mp first with letter | escaped
    · obtain ⟨b, member, rfl⟩ := matches_sym_iff.mp letter
      rw [bytes_append] at member
      rcases List.mem_append.mp member with member | colon
      · exact .inl (.altLeft (.sym member))
      · exact .inr (congrArg (fun b => [b]) (List.mem_singleton.mp colon))
    · exact .inl (.altRight escaped)
  rcases known with letter | rfl
  · rcases ih with name | ⟨v, w, name, later, rfl⟩
    · exact .inl (.starCons letter name)
    · exact .inr ⟨u ++ v, w, .starCons letter name, later, by simp⟩
  · exact .inr ⟨[], v, .starNil, rest, rfl⟩

theorem no_colon (is : Matches regName i) : 58 ∉ i := by
  have other : ∀ b ∈ i, (b != 58) = true := is.all (by decide +kernel)
  exact fun member => absurd (other 58 member) (by decide)

/-- The first byte behind the colon of a userinfo. -/
theorem userinfo_cons (is : Matches userinfo (b :: w)) :
    if isDigit b then Matches (.cat Rules.digit userinfo) (b :: w)
    else Matches (.cat (.alt (oneOf otherLetters) pctEncoded) userinfo) (b :: w) := by
  rcases is.star_cases with none | ⟨u, v, first, rest, split⟩
  · cases none
  · rw [split]
    rcases matches_alt_iff.mp first with letter | escaped
    · obtain ⟨c, member, rfl⟩ := matches_sym_iff.mp letter
      obtain ⟨rfl, rfl⟩ := List.cons.inj split
      split
      next is_digit => exact .cat (.sym (isDigit_iff.mp is_digit)) rest
      next other =>
        refine .cat (.altLeft (.sym ?_)) rest
        rw [isDigit_iff, mem_bytes (by decide)] at other
        rw [mem_bytes (by decide)] at member ⊢
        simp only [unreserved, alphaDigit, otherLetters, subDelims, moreDelims] at other member ⊢
        simp at other member ⊢
        omega
    · obtain ⟨percent, escape, sign, rest', rfl⟩ := matches_cat_iff.mp escaped
      obtain rfl := eq_of_text sign
      obtain ⟨rfl, -⟩ := List.cons.inj split
      exact .cat (.altRight escaped) rest

end Userinfo

end ServerFrame.Http.UriRules
