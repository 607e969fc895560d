import ServerFrame.Http.UriZones
import Mathlib.Tactic.IntervalCases

/-!
# What the states between brackets stand for

The states of `uri_parser` behind `[` count the groups of an IPv6 address: how many have been read,
how many may still come, how much of a group there is, and whether it may be an octet instead.
`Place` says so in words; `number` gives the state, and the two take the same steps. Bytes are
taken by their codes.
-/
namespace ServerFrame.Http.Literal

def isDigit (c : Nat) : Bool := 48 ≤ c && c ≤ 57

def isXdigit (c : Nat) : Bool := isDigit c || (65 ≤ c && c ≤ 70) || (97 ≤ c && c ≤ 102)

/-- `unreserved | sub_delims | ":"`. -/
def isFuture (c : Nat) : Bool :=
  c == 33 || c == 36 || (38 ≤ c && c ≤ 46) || (48 ≤ c && c ≤ 59) || c == 61 || (65 ≤ c && c ≤ 90) ||
    c == 95 || (97 ≤ c && c ≤ 122) || c == 126

/-- How much of a `dec_octet` has been read; `slip` is a byte of value 2. -/
inductive Octet where
  | begin
  | one
  | two
  | five
  /-- One more digit may come. -/
  | more
  | full
  | slip
  | slipped
  deriving DecidableEq

def Octet.step : Octet → Nat → Option Octet
  | .begin, c =>
    if c = 48 then some .full
    else if c = 49 then some .one
    else if c = 50 then some .two
    else if isDigit c then some .more
    else if c = 2 then some .slip
    else none
  | .one, c => if isDigit c then some .more else none
  | .two, c => if c = 53 then some .five else if isDigit c then some .full else none
  | .five, c => if 48 ≤ c && c ≤ 53 then some .full else none
  | .more, c => if isDigit c then some .full else none
  | .full, _ => none
  | .slip, c => if 48 ≤ c && c ≤ 52 then some .slipped else none
  | .slipped, c => if isDigit c then some .full else none

def Octet.complete : Octet → Bool
  | .one | .two | .five | .more | .full => true
  | .begin | .slip | .slipped => false

/-- Where a group stands. -/
inductive Pos where
  /-- Behind `n` groups with their colons. -/
  | lead (n : Nat)
  /-- Behind `::`, where `m` groups may come, or all of them must. -/
  | tail (exact : Bool) (m : Nat)
  deriving DecidableEq

/-- A group may stand here. -/
def Pos.room : Pos → Bool
  | .lead _ => true
  | .tail _ m => 1 ≤ m

/-- Two groups may end the address here, so that an IPv4 address may. -/
def Pos.quad : Pos → Bool
  | .lead n => n == 6
  | .tail exact m => m == 2 || (!exact && 2 ≤ m)

/-- One group may end the address here. -/
def Pos.last : Pos → Bool
  | .lead n => n == 7
  | .tail exact m => m == 1 || (!exact && 1 ≤ m)

/-- Where the next group stands. -/
def Pos.next : Pos → Option Pos
  | .lead n => if n ≤ 6 then some (.lead (n + 1)) else none
  | .tail exact m => if 2 ≤ m then some (.tail exact (m - 1)) else none

inductive Place where
  /-- Before a group; a `fresh` one may be missing. -/
  | start (p : Pos) (fresh : Bool)
  /-- Behind the first of two colons with no group before them. -/
  | colon
  /-- Behind `n` digits of a group, which may be an octet. -/
  | hex (p : Pos) (n : Nat) (o : Option Octet)
  /-- In an octet with `r` more to come. -/
  | octet (r : Nat) (o : Octet)
  /-- In an `IPvFuture`: behind the `v`, the digits, the dot, and what follows it. -/
  | future (k : Nat)
  deriving DecidableEq

namespace Place

/-- A byte before a group. -/
def enter (p : Pos) (c : Nat) : Option Place :=
  if isXdigit c then
    if p.room then some (.hex p 1 (if p.quad then Octet.begin.step c else none)) else none
  else if c = 2 then if p.quad then some (.octet 3 .slip) else none
  else if c = 58 then
    match p with
    | .lead 0 => some .colon
    -- all other groups that there may be must come
    | .lead n => some (.start (.tail true (7 - n)) true)
    | .tail _ _ => none
  else if c = 118 then
    match p with
    | .lead 0 => some (.future 0)
    | _ => none
  else none

def step : Place → Nat → Option Place
  | .start p _, c => enter p c
  | .colon, c => if c = 58 then some (.start (.tail false 7) true) else none
  | .hex p n o, c =>
    if isXdigit c then if n < 4 then some (.hex p (n + 1) (o.bind (·.step c))) else none
    else if c = 58 then p.next.map (.start · false)
    else if c = 46 then if o.any Octet.complete then some (.octet 2 .begin) else none
    else none
  | .octet r o, c =>
    if c = 46 then if o.complete && 1 ≤ r then some (.octet (r - 1) .begin) else none
    else (o.step c).map (.octet r ·)
  | .future k, c =>
    match k with
    | 0 => if isXdigit c then some (.future 1) else none
    | 1 => if isXdigit c then some (.future 1) else if c = 46 then some (.future 2) else none
    | _ => if isFuture c then some (.future 3) else none

/-- The address may end here. -/
def final : Place → Bool
  | .start (.tail exact m) fresh => fresh && (m == 0 || !exact)
  | .start (.lead _) _ => false
  | .colon => false
  | .hex p _ _ => p.last
  | .octet r o => r == 0 && o.complete
  | .future k => k == 3

/-! ## The numbers of the states -/

/-- The states for a group that may be an octet. -/
def quadNumber (first octet letter : Nat) : Nat → Option Octet → Nat
  | 1, none => letter
  | n, none => first + n - 1
  | 1, some .full => first
  | 1, some .one => octet
  | 2, some .more => octet + 1
  | 3, some .full => octet + 2
  | 1, some .two => octet + 3
  | 2, some .full => octet + 4
  | 2, some .five => octet + 5
  | 1, some .more => octet + 6
  | _, some _ => 0

def startNumber : Pos → Nat
  | .lead n => [260, 265, 270, 275, 280, 285, 290, 322].getD n 0
  | .tail true m => [305, 333, 335, 348, 353, 358, 363].getD m 0
  | .tail false m => [0, 333, 394, 389, 384, 379, 374, 369].getD m 0

def hexNumber (p : Pos) (n : Nat) (o : Option Octet) : Nat :=
  match p with
  | .lead 6 => quadNumber 318 326 334 n o
  | .lead 7 | .tail _ 1 => [0, 323, 324, 325, 305].getD n 0
  | .tail true 2 => quadNumber 336 340 347 n o
  | .tail false m => quadNumber (startNumber p + 1) (383 + 8 * m) (390 + 8 * m) n o
  | _ => startNumber p + n

def number : Place → Nat
  | .start p _ => startNumber p
  | .colon => 368
  | .hex p n o => hexNumber p n o
  | .octet r .begin => 302 - 4 * r
  | .octet r .slip => 303 - 4 * r
  | .octet r .slipped => 304 - 4 * r
  | .octet r .full => 305 - 4 * r
  | .octet r .one => 306 + 4 * r
  | .octet r .more => 307 + 4 * r
  | .octet r .two => 308 + 4 * r
  | .octet r .five => 309 + 4 * r
  | .future k => 447 + k

/-! ## All places -/

/-- How much of a group there may be, if it may be an octet. -/
def octetForm : Nat → Octet → Bool
  | 1, .full | 1, .one | 1, .two | 1, .more => true
  | 2, .more | 2, .full | 2, .five => true
  | 3, .full => true
  | _, _ => false

def valid : Place → Bool
  | .start (.lead n) fresh => n ≤ 7 && fresh == (n == 0)
  | .start (.tail false m) fresh => 1 ≤ m && m ≤ 7 && fresh == (m == 7)
  | .start (.tail true m) fresh => m ≤ 6 && (fresh || (1 ≤ m && m ≤ 5))
  | .colon => true
  | .hex p n o =>
    1 ≤ n && n ≤ 4 && (match p with
      | .lead l => l ≤ 7
      | .tail false m => 1 ≤ m && m ≤ 7
      | .tail true m => 1 ≤ m && m ≤ 6) &&
    match o with
    | none => true
    | some o => p.quad && octetForm n o
  | .octet r o => r ≤ 2 || r == 3 && (o == .slip || o == .slipped || o == .full)
  | .future k => k < 4

def starts : List (Pos × Bool) :=
  (.lead 0, true) :: [1, 2, 3, 4, 5, 6, 7].map (fun n => (.lead n, false)) ++
    (.tail false 7, true) :: [1, 2, 3, 4, 5, 6].map (fun m => (.tail false m, false)) ++
    [0, 1, 2, 3, 4, 5, 6].map (fun m => (.tail true m, true)) ++
    [1, 2, 3, 4, 5].map fun m => (.tail true m, false)

def groups : List Pos :=
  [0, 1, 2, 3, 4, 5, 6, 7].map .lead ++ [1, 2, 3, 4, 5, 6, 7].map (.tail false ·) ++
    [1, 2, 3, 4, 5, 6].map (.tail true ·)

/-- How much of a group there may be. -/
def forms (p : Pos) : List (Nat × Option Octet) :=
  [(1, none), (2, none), (3, none), (4, none)] ++
    if p.quad then
      [(1, some .full), (1, some .one), (1, some .two), (1, some .more), (2, some .more),
        (2, some .full), (2, some .five), (3, some .full)]
    else []

def octets : List (Nat × Octet) :=
  [(3, .slip), (3, .slipped), (3, .full)] ++
    [2, 1, 0].flatMap fun r =>
      [Octet.begin, .one, .two, .five, .more, .full, .slip, .slipped].map fun o => (r, o)

def all : List Place :=
  starts.map (fun s => .start s.1 s.2) ++ .colon ::
    groups.flatMap (fun p => (forms p).map fun f => .hex p f.1 f.2) ++
    octets.map (fun o => .octet o.1 o.2)

/-- The codes of the bytes of an IPv6 address. -/
def letters : List Nat :=
  [2, 46, 48, 49, 50, 51, 52, 53, 54, 55, 56, 57, 58, 65, 66, 67, 68, 69, 70, 93, 97, 98, 99, 100,
    101, 102, 118]

/-- The edge of a row for a code. -/
def edgeAt (row : List UriEdge) (c : Nat) : Option (Nat × List UriAct) :=
  (row.find? fun e => e.bytes.any fun range => range.1 ≤ c && c ≤ range.2).map fun e =>
    (e.target, e.acts)

/-- State and place take the same step, and `]` ends what may end. -/
theorem number_step : ∀ s ∈ all, ∀ c ∈ letters, edgeAt (uriRow s.number) c =
    if c = 93 then if s.final then some (512, []) else none
    else (s.step c).map fun s' => (s'.number, []) := by
  decide +kernel

theorem valid_step : ∀ s ∈ all, ∀ c ∈ letters, (s.step c).all valid = true := by decide +kernel

theorem future_step : ∀ k < 4, ∀ c < 256, edgeAt (uriRow (447 + k)) c =
    if c = 93 then if k = 3 then some (512, []) else none
    else ((future k).step c).map fun s' => (s'.number, []) := by
  decide +kernel

theorem future_valid : ∀ k < 4, ∀ c < 256, ((future k).step c).all valid = true := by
  decide +kernel

theorem row_letters : ∀ s ∈ all, ∀ e ∈ uriRow s.number, ∀ range ∈ e.bytes,
    ∃ known ∈ [(2, 2), (46, 46), (48, 58), (65, 70), (93, 93), (97, 102), (118, 118)],
      known.1 ≤ range.1 ∧ range.2 ≤ known.2 := by
  decide +kernel

theorem bracket_step : ∀ s ∈ all, s.step 93 = none := by decide +kernel

theorem future_bracket : ∀ k < 4, (future k).step 93 = none := by decide

theorem mem_groups {p : Pos} (is : (match p with
    | .lead l => decide (l ≤ 7)
    | .tail false m => 1 ≤ m && m ≤ 7
    | .tail true m => 1 ≤ m && m ≤ 6) = true) : p ∈ groups := by
  cases p with
  | lead l =>
    have small : l ≤ 7 := of_decide_eq_true is
    interval_cases l <;> decide
  | tail exact m =>
    cases exact with
    | true =>
      simp only [Bool.and_eq_true, decide_eq_true_eq] at is
      obtain ⟨first, last⟩ := is
      interval_cases m <;> decide
    | false =>
      simp only [Bool.and_eq_true, decide_eq_true_eq] at is
      obtain ⟨first, last⟩ := is
      interval_cases m <;> decide

theorem mem_starts {p : Pos} {fresh : Bool} (is : (start p fresh).valid = true) :
    (p, fresh) ∈ starts := by
  cases p with
  | lead l =>
    simp only [valid, Bool.and_eq_true, decide_eq_true_eq] at is
    obtain ⟨small, is⟩ := is
    interval_cases l <;> cases fresh <;> first | decide | cases is
  | tail exact m =>
    cases exact with
    | true =>
      simp only [valid, Bool.and_eq_true, Bool.or_eq_true, decide_eq_true_eq] at is
      obtain ⟨small, is⟩ := is
      interval_cases m <;> cases fresh <;> first | decide | simp at is
    | false =>
      simp only [valid, Bool.and_eq_true, decide_eq_true_eq] at is
      obtain ⟨⟨first, last⟩, is⟩ := is
      interval_cases m <;> cases fresh <;> first | decide | cases is

theorem mem_forms {p : Pos} {n : Nat} {o : Option Octet} (first : 1 ≤ n) (last : n ≤ 4)
    (is : (match o with
      | none => true
      | some o => p.quad && octetForm n o) = true) : (n, o) ∈ forms p := by
  rw [forms, List.mem_append]
  cases o with
  | none => interval_cases n <;> exact .inl (by decide)
  | some o =>
    simp only [Bool.and_eq_true] at is
    rw [if_pos is.1]
    interval_cases n <;> cases o <;> first | exact .inr (by decide) | cases is.2

/-- A place is one of the list. -/
theorem mem_all {s : Place} (is : s.valid = true) : s ∈ all ∨ ∃ k < 4, s = future k := by
  simp only [all, List.mem_append, List.mem_cons, List.mem_map, List.mem_flatMap]
  cases s with
  | start p fresh => exact .inl (.inl (.inl ⟨(p, fresh), mem_starts is, rfl⟩))
  | colon => exact .inl (.inl (.inr (.inl rfl)))
  | hex p n o =>
    simp only [valid, Bool.and_eq_true, decide_eq_true_eq] at is
    obtain ⟨⟨⟨first, last⟩, group⟩, form⟩ := is
    exact .inl (.inl (.inr (.inr ⟨p, mem_groups group, (n, o), mem_forms first last form, rfl⟩)))
  | octet r o =>
    refine .inl (.inr ⟨(r, o), ?_, rfl⟩)
    simp only [valid, Bool.or_eq_true, Bool.and_eq_true, decide_eq_true_eq, beq_iff_eq] at is
    rcases is with small | ⟨rfl, is⟩
    · interval_cases r <;> cases o <;> decide
    · rcases is with (rfl | rfl) | rfl <;> decide
  | future k => exact .inr ⟨k, of_decide_eq_true is, rfl⟩

theorem number_other {s : Place} (member : s ∈ all) {c : Nat} (other : c ∉ letters) :
    edgeAt (uriRow s.number) c = none := by
  rw [edgeAt, Option.map_eq_none_iff, List.find?_eq_none]
  intro e edge accepts
  obtain ⟨range, here, between⟩ := List.any_eq_true.mp accepts
  obtain ⟨known, is_known, low, high⟩ := row_letters s member e edge range here
  simp only [Bool.and_eq_true, decide_eq_true_eq] at between
  apply other
  simp only [List.mem_cons, List.not_mem_nil, or_false] at is_known
  simp only [letters, List.mem_cons, List.not_mem_nil, or_false]
  rcases is_known with rfl | rfl | rfl | rfl | rfl | rfl | rfl <;> omega

theorem isXdigit_other {c : Nat} (other : c ∉ letters) : isXdigit c = false := by
  simp only [letters, List.mem_cons, List.not_mem_nil, or_false] at other
  simp only [isXdigit, isDigit, Bool.or_eq_false_iff, Bool.and_eq_false_iff, decide_eq_false_iff_not]
  omega

theorem octet_other (o : Octet) {c : Nat} (other : c ∉ letters) : o.step c = none := by
  simp only [letters, List.mem_cons, List.not_mem_nil, or_false] at other
  have digit : isDigit c = false := by
    simp only [isDigit, Bool.and_eq_false_iff, decide_eq_false_iff_not]
    omega
  have low : (48 ≤ c && c ≤ 52) = false := by
    simp only [Bool.and_eq_false_iff, decide_eq_false_iff_not]
    omega
  have five : (48 ≤ c && c ≤ 53) = false := by
    simp only [Bool.and_eq_false_iff, decide_eq_false_iff_not]
    omega
  simp only [not_or] at other
  cases o <;> simp only [Octet.step, digit, low, five, other, if_false, Bool.false_eq_true]

theorem step_other {s : Place} (member : s ∈ all) {c : Nat} (other : c ∉ letters) :
    s.step c = none := by
  have no_digit := isXdigit_other other
  have no_octet := fun o => octet_other o other
  simp only [letters, List.mem_cons, List.not_mem_nil, or_false, not_or] at other
  cases s with
  | start p fresh => simp [step, enter, no_digit, other]
  | colon => simp [step, other]
  | hex p n o => simp [step, no_digit, other]
  | octet r o => simp [step, no_octet, other]
  | future k => simp [all] at member

section Simulation

variable {s s' : Place} {c : Nat}

/-- The state of a place takes the step of the place, and `]` where the address may end. -/
theorem number_follows (is : s.valid = true) (byte : c < 256) : edgeAt (uriRow s.number) c =
    if c = 93 then if s.final then some (512, []) else none
    else (s.step c).map fun s' => (s'.number, []) := by
  rcases mem_all is with member | ⟨k, small, rfl⟩
  · by_cases known : c ∈ letters
    · exact number_step s member c known
    · have other : c ≠ 93 := fun same => known (same ▸ by decide)
      rw [number_other member known, step_other member known, if_neg other]
      rfl
  · rw [number, future_step k small c byte]
    simp [final]

theorem no_bracket (is : s.valid = true) : s.step 93 = none := by
  rcases mem_all is with member | ⟨k, small, rfl⟩
  · exact bracket_step s member
  · exact future_bracket k small

theorem valid_of_step (is : s.valid = true) (byte : c < 256) (stepped : s.step c = some s') :
    s'.valid = true := by
  rcases mem_all is with member | ⟨k, small, rfl⟩
  · by_cases known : c ∈ letters
    · have all_valid := valid_step s member c known
      rwa [stepped] at all_valid
    · rw [step_other member known] at stepped
      cases stepped
  · have all_valid := future_valid k small c byte
    rwa [stepped] at all_valid

end Simulation

end Place

end ServerFrame.Http.Literal
