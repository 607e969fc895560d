import ServerFrame.ByteArray.Reachable

/-!
# Readers on data that is not all there

A typed reader reads in steps: a varint byte by byte, a string after its length. What the
unread bytes say about the item decides how far the reader gets; it leaves the array as it
was only when its first step fails.
-/
namespace ServerFrame.ByteArray

open EState

/-- The bytes between the cursor and the end. -/
def unread (ba : ByteArray) : List UInt8 := (contents ba).drop ba.position

section Unread

variable {ba : ByteArray}

theorem length_unread (inv : Inv ba) : (unread ba).length = ba.getReadSize := by
  rw [unread, List.length_drop, inv.length_contents, getReadSize]

theorem unread_advance (ba : ByteArray) (n : Nat) : unread (ba.advance n) = (unread ba).drop n := by
  have same : contents (ba.advance n) = contents ba := rfl
  have position_eq : (ba.advance n).position = ba.position + n := rfl
  rw [unread, same, position_eq, unread, List.drop_drop]

theorem inv_advance (inv : Inv ba) {n : Nat} (enough : n ≤ (unread ba).length) :
    Inv (ba.advance n) := by
  by_cases empty : n = 0
  · rw [empty, advance_zero inv]
    exact inv
  · rw [length_unread inv] at enough
    exact (read_advance inv n (Nat.pos_of_ne_zero empty) enough).2.inv

theorem advance_ne (ba : ByteArray) {n : Nat} (some_ : 0 < n) : ba.advance n ≠ ba := by
  intro same
  have moved : ba.position + n = ba.position := congrArg position same
  omega

end Unread

/-! ## What the bytes say -/

/-- How many bytes the varint of at most `rounds` bytes at the front takes, one more than
there are when they end inside it. -/
def varintSpan : Nat → List UInt8 → Nat
  | 0, _ => 0
  | _ + 1, [] => 1
  | rounds + 1, b :: bytes => if b < 0x80 then 1 else varintSpan rounds bytes + 1

/-- The value of that varint, over `result` from bit `i` on. -/
def varintValue (bits : Nat) : Nat → Nat → Nat → List UInt8 → Nat
  | 0, _, result, _ => result
  | _ + 1, _, result, [] => result
  | rounds + 1, i, result, b :: bytes =>
    if b < 0x80 then result ||| (b.toNat <<< i) % 2 ^ bits
    else varintValue bits rounds (i + 7) (result ||| ((b &&& 0x7f).toNat <<< i) % 2 ^ bits) bytes

def fixedValue (e : Endian) (n : Nat) (bytes : List UInt8) : Nat :=
  if e = byteOrder then ofMemory (bytes.take n) else byteswap n (ofMemory (bytes.take n))

namespace Kind

/-- Read behind a length. -/
def isString : Kind → Bool
  | .stringF16 | .stringF32 | .stringF64 | .stringVint => true
  | _ => false

/-- The size of the first `Read` of the reader. -/
def first : Kind → Nat
  | .fint8 | .fuint8 => 1
  | .fint16 | .fuint16 | .stringF16 => 2
  | .fint32 | .fuint32 | .float | .stringF32 => 4
  | .fint64 | .fuint64 | .double | .stringF64 => 8
  | .int32 | .uint32 | .int64 | .uint64 | .stringVint => 1

/-- How many bytes the number at the front takes: the item or the length of the string. -/
def numberSpan (bytes : List UInt8) : Kind → Nat
  | .int32 | .uint32 => varintSpan 5 bytes
  | .int64 | .uint64 | .stringVint => varintSpan 10 bytes
  | kind => kind.first

/-- The length that stands before the string. -/
def stringLength (e : Endian) (bytes : List UInt8) : Kind → Nat
  | .stringF16 => fixedValue e 2 bytes % 2 ^ 16
  | .stringF32 => fixedValue e 4 bytes % 2 ^ 32
  | .stringF64 => fixedValue e 8 bytes % 2 ^ 64
  | .stringVint => varintValue 64 10 0 0 bytes % 2 ^ 64
  | _ => 0

/-- How many bytes the item at the front takes, at least, when they end inside its number. -/
def span (e : Endian) (bytes : List UInt8) (kind : Kind) : Nat :=
  kind.numberSpan bytes + kind.stringLength e bytes

end Kind

/-! ## Numbers -/

/-- How a reader of a number ends: it takes `span` bytes; with fewer than `first` it throws
and changes nothing, and with some in between it throws after it has moved. -/
structure Outcome {α : Type} (r : ByteArrayM α) (ba : ByteArray) (first span : Nat) (a : α) :
    Prop where
  positive : 0 < first
  first_le : first ≤ span
  whole : span ≤ (unread ba).length → r ba = .ok a (ba.advance span)
  nothing : (unread ba).length < first → ∃ what, r ba = .error (.outOfRange what) ba
  part : first ≤ (unread ba).length → (unread ba).length < span →
    ∃ what ba', r ba = .error (.outOfRange what) ba' ∧ ba' ≠ ba

section Numbers

variable {α β : Type} {ba : ByteArray}

theorem Outcome.map {r : ByteArrayM α} {first span : Nat} {a : α} (outcome : Outcome r ba first span a)
    (f : α → β) : Outcome (do return f (← r)) ba first span (f a) where
  positive := outcome.positive
  first_le := outcome.first_le
  whole := fun enough => by rw [run_bind_ok (outcome.whole enough), run_pure]
  nothing := fun short => by
    obtain ⟨what, failed⟩ := outcome.nothing short
    exact ⟨what, by rw [run_bind_error failed]⟩
  part := fun some_ short => by
    obtain ⟨what, ba', failed, moved⟩ := outcome.part some_ short
    exact ⟨what, ba', by rw [run_bind_error failed], moved⟩

theorem outcome_read (inv : Inv ba) {n : Nat} (some_ : 0 < n) :
    Outcome (read n) ba n n ((unread ba).take n) where
  positive := some_
  first_le := Nat.le_refl n
  whole := fun enough => (read_advance inv n some_ (by rwa [← length_unread inv])).1
  nothing := fun short => ⟨_, read_short (by rwa [← length_unread inv])⟩
  part := fun enough short => absurd enough (Nat.not_le.mpr short)

theorem outcome_readFixed (inv : Inv ba) {n : Nat} (some_ : 0 < n) :
    Outcome (readFixed n) ba n n (fixedValue ba.endian n (unread ba)) := by
  have outcome := (outcome_read inv some_).map fun bytes =>
    if ba.endian = byteOrder then ofMemory bytes else byteswap n (ofMemory bytes)
  have same : readFixed n ba = (do
      return (fun bytes => if ba.endian = byteOrder then ofMemory bytes
        else byteswap n (ofMemory bytes)) (← read n) : ByteArrayM Nat) ba := by
    simp only [readFixed, run_bind, run_get]
    cases read n ba with
    | error fault ba' => rfl
    | ok bytes ba' =>
      dsimp only
      split <;> rfl
  refine ⟨some_, Nat.le_refl n, fun enough => ?_, fun short => ?_, fun enough short => ?_⟩
  · rw [same]
    exact outcome.whole enough
  · rw [same]
    exact outcome.nothing short
  · omega

theorem outcome_readFuint8 (inv : Inv ba) :
    Outcome readFuint8 ba 1 1 (UInt8.ofNat (ofMemory ((unread ba).take 1))) :=
  (outcome_read inv (by decide)).map _

/-- The loop takes the varint, or what there is of it. -/
theorem readVarintLoop_spec {bits : Nat} (rounds i result : Nat) (inv : Inv ba)
    (inside : i + 7 * rounds ≤ bits + 6) :
    (varintSpan rounds (unread ba) ≤ (unread ba).length →
      readVarintLoop bits rounds i result ba =
        .ok (varintValue bits rounds i result (unread ba))
          (ba.advance (varintSpan rounds (unread ba)))) ∧
    ((unread ba).length < varintSpan rounds (unread ba) →
      readVarintLoop bits rounds i result ba =
        .error (.outOfRange "not enough len") (ba.advance (unread ba).length)) := by
  induction rounds generalizing i result ba with
  | zero =>
    rw [varintSpan, varintValue, advance_zero inv]
    exact ⟨fun _ => rfl, fun short => absurd short (Nat.not_lt_zero _)⟩
  | succ rounds ih =>
    have more : i < bits := by omega
    cases bytes : unread ba with
    | nil =>
      have none_ : ba.getReadSize < 1 := by
        rw [← length_unread inv, bytes]
        decide
      have failed : readFuint8 ba = .error (.outOfRange "not enough len") ba :=
        run_bind_error (read_short none_) _
      rw [varintSpan, readVarintLoop, if_pos more, run_bind_error failed, List.length_nil,
        advance_zero inv]
      exact ⟨fun enough => absurd enough (by decide), fun _ => rfl⟩
    | cons b bytes' =>
      have enough : 1 ≤ (unread ba).length := by rw [bytes, List.length_cons]; omega
      have value : UInt8.ofNat (ofMemory ((unread ba).take 1)) = b := by
        rw [bytes]
        simp [ofMemory]
      have got : readFuint8 ba = .ok b (ba.advance 1) := by
        rw [← value]
        exact (outcome_readFuint8 inv).whole enough
      have left : unread (ba.advance 1) = bytes' := by rw [unread_advance, bytes]; rfl
      rw [varintSpan, varintValue, readVarintLoop, if_pos more, run_bind_ok got]
      by_cases last : b < 0x80
      · rw [if_pos last, if_pos last, if_pos last]
        exact ⟨fun _ => rfl, fun short => absurd short (by rw [List.length_cons]; omega)⟩
      · -- the rounds that are left, one byte farther on
        have behind := ih (i + 7) (result ||| ((b &&& 0x7f).toNat <<< i) % 2 ^ bits)
          (inv_advance inv enough) (by omega)
        rw [left, advance_advance, advance_advance, Nat.add_comm 1, Nat.add_comm 1] at behind
        rw [if_neg last, if_neg last, if_neg last, List.length_cons]
        exact ⟨fun whole => behind.1 (by omega), fun short => behind.2 (by omega)⟩

theorem outcome_varint {bits rounds : Nat} (inv : Inv ba) (some_ : 0 < rounds)
    (inside : 7 * rounds ≤ bits + 6) :
    Outcome (readVarintLoop bits rounds 0 0) ba 1 (varintSpan rounds (unread ba))
      (varintValue bits rounds 0 0 (unread ba)) := by
  obtain ⟨whole, short⟩ := @readVarintLoop_spec ba bits rounds 0 0 inv (by omega)
  have positive : 1 ≤ varintSpan rounds (unread ba) := by
    obtain ⟨rounds, rfl⟩ : ∃ n, rounds = n + 1 := ⟨rounds - 1, by omega⟩
    cases unread ba with
    | nil => exact Nat.le_refl 1
    | cons b bytes =>
      rw [varintSpan]
      split <;> omega
  refine ⟨by decide, positive, whole, fun nothing => ?_, fun first part => ?_⟩
  · have empty : (unread ba).length = 0 := by omega
    have failed := short (by omega)
    rw [empty, advance_zero inv] at failed
    exact ⟨_, failed⟩
  · exact ⟨_, _, short part, advance_ne ba first⟩

/-- What a reader returns, and where it stops, is decided by the unread bytes. -/
theorem Outcome.of_ok {r : ByteArrayM α} {first span : Nat} {a b : α} {ba' : ByteArray}
    (outcome : Outcome r ba first span a) (ran : r ba = .ok b ba') :
    b = a ∧ ba' = ba.advance span ∧ span ≤ (unread ba).length := by
  by_cases enough : span ≤ (unread ba).length
  · have same := outcome.whole enough
    rw [ran] at same
    injection same with value state
    exact ⟨value, state, enough⟩
  · by_cases some_ : first ≤ (unread ba).length
    · obtain ⟨what, ba'', failed, -⟩ := outcome.part some_ (Nat.lt_of_not_le enough)
      rw [ran] at failed
      cases failed
    · obtain ⟨what, failed⟩ := outcome.nothing (Nat.lt_of_not_le some_)
      rw [ran] at failed
      cases failed

end Numbers

/-! ## Items -/

/-- The reader returns when the item is all there; else it throws `std::out_of_range` and
leaves the array as it was. -/
def FailsCleanly (ba : ByteArray) (kind : Kind) : Prop :=
  match readItem kind ba with
  | .ok _ _ => kind.span ba.endian (unread ba) ≤ (unread ba).length
  | .error fault ba' => (∃ what, fault = .outOfRange what) ∧
      (unread ba).length < kind.span ba.endian (unread ba) ∧ ba' = ba

/-- There is less than the first `Read` asks for, or the item is all there, and a string is
neither longer than a string can be nor empty at the end of the last block. -/
def NothingOrWhole (ba : ByteArray) (kind : Kind) : Prop :=
  (unread ba).length < kind.first ∨
  kind.span ba.endian (unread ba) ≤ (unread ba).length ∧
    (kind.isString = true → kind.stringLength ba.endian (unread ba) ≤ maxStringSize ∧
      (kind.stringLength ba.endian (unread ba) = 0 →
        ba.position + kind.span ba.endian (unread ba) ≠ ba.capacity))

section Items

variable {ba : ByteArray} {kind : Kind}

/-- A number fails cleanly unless the bytes end inside it. -/
theorem failsCleanly_number {item : Item}
    (outcome : Outcome (readItem kind) ba kind.first (kind.numberSpan (unread ba)) item)
    (number : kind.isString = false) (no_length : kind.stringLength ba.endian (unread ba) = 0) :
    FailsCleanly ba kind ↔ NothingOrWhole ba kind := by
  have first_le := outcome.first_le
  have span_eq : kind.span ba.endian (unread ba) = kind.numberSpan (unread ba) := by
    rw [Kind.span, no_length, Nat.add_zero]
  rw [NothingOrWhole, FailsCleanly, span_eq, number]
  by_cases enough : kind.numberSpan (unread ba) ≤ (unread ba).length
  · rw [outcome.whole enough]
    exact ⟨fun whole => .inr ⟨whole, fun no => by cases no⟩, fun _ => enough⟩
  · by_cases some_ : kind.first ≤ (unread ba).length
    · obtain ⟨what, ba', failed, moved⟩ := outcome.part some_ (Nat.lt_of_not_le enough)
      rw [failed]
      refine ⟨fun clean => absurd clean.2.2 moved, fun condition => ?_⟩
      omega
    · obtain ⟨what, failed⟩ := outcome.nothing (Nat.lt_of_not_le some_)
      rw [failed]
      exact ⟨fun _ => .inl (Nat.lt_of_not_le some_), fun _ => ⟨⟨what, rfl⟩, by omega, rfl⟩⟩

/-- How `readString` ends behind a length that has been read. -/
theorem readString_empty_cases (inv : Inv ba) :
    readString 0 ba = .ok [] ba ∧ ba.position ≠ ba.capacity ∨
      readString 0 ba = .error .nullNode ba ∧ ba.position = ba.capacity := by
  have small : ¬ 0 > maxStringSize := by decide
  rw [readString, if_neg small]
  by_cases full : ba.position = ba.capacity
  · exact .inr ⟨read_zero_full inv full, full⟩
  · rcases read_zero inv with ran | ⟨-, at_end⟩
    · exact .inl ⟨ran, full⟩
    · exact absurd at_end full

theorem readString_spec (inv : Inv ba) {n : Nat} (some_ : 0 < n) (small : n ≤ maxStringSize) :
    Outcome (readString n) ba n n ((unread ba).take n) := by
  rw [readString, if_neg (Nat.not_lt.mpr small)]
  exact outcome_read inv some_

/-- A string behind a number that says its length. -/
theorem failsCleanly_string {α : Type} {r : ByteArrayM α} {a : α} {len : α → Nat}
    {make : List UInt8 → Item} (inv : Inv ba)
    (outcome : Outcome r ba kind.first (kind.numberSpan (unread ba)) a)
    (reader : readItem kind = (r >>= fun a => readString (len a)) >>= fun s => pure (make s))
    (string : kind.isString = true) (length_eq : kind.stringLength ba.endian (unread ba) = len a) :
    FailsCleanly ba kind ↔ NothingOrWhole ba kind := by
  have first_le := outcome.first_le
  have positive := outcome.positive
  have span_eq : kind.span ba.endian (unread ba) = kind.numberSpan (unread ba) + len a := by
    rw [Kind.span, length_eq]
  rw [NothingOrWhole, FailsCleanly, span_eq, length_eq, string, reader]
  by_cases enough : kind.numberSpan (unread ba) ≤ (unread ba).length
  · -- the length is read and the cursor has moved
    have inv' := inv_advance inv enough
    have moved := advance_ne ba (Nat.lt_of_lt_of_le positive first_le)
    have left : (unread (ba.advance (kind.numberSpan (unread ba)))).length =
        (unread ba).length - kind.numberSpan (unread ba) := by
      rw [unread_advance, List.length_drop]
    have position_eq : (ba.advance (kind.numberSpan (unread ba))).position =
        ba.position + kind.numberSpan (unread ba) := rfl
    have capacity_eq : (ba.advance (kind.numberSpan (unread ba))).capacity = ba.capacity := rfl
    rw [run_bind, run_bind_ok (outcome.whole enough)]
    generalize ba.advance (kind.numberSpan (unread ba)) = mid at inv' moved left position_eq capacity_eq
    by_cases empty : len a = 0
    · rw [empty, Nat.add_zero]
      rcases readString_empty_cases inv' with ⟨ran, inside⟩ | ⟨failed, at_end⟩
      · rw [ran]
        refine ⟨fun _ => .inr ⟨enough, fun _ => ⟨Nat.zero_le _, fun _ => ?_⟩⟩, fun _ => enough⟩
        omega
      · rw [failed]
        constructor
        · rintro ⟨⟨what, other⟩, -⟩
          cases other
        · rintro (short | ⟨-, condition⟩)
          · omega
          · exact absurd (by omega) ((condition rfl).2 rfl)
    · by_cases small : len a ≤ maxStringSize
      · have string_outcome := readString_spec inv' (Nat.pos_of_ne_zero empty) small
        by_cases all : len a ≤ (unread mid).length
        · rw [string_outcome.whole all]
          have whole : kind.numberSpan (unread ba) + len a ≤ (unread ba).length := by omega
          exact ⟨fun _ => .inr ⟨whole, fun _ => ⟨small, fun none_ => absurd none_ empty⟩⟩, fun _ => whole⟩
        · obtain ⟨what, failed⟩ := string_outcome.nothing (Nat.lt_of_not_le all)
          rw [failed]
          refine ⟨fun clean => absurd clean.2.2 moved, fun condition => ?_⟩
          omega
      · rw [readString, if_pos (Nat.lt_of_not_le small)]
        constructor
        · rintro ⟨⟨what, other⟩, -⟩
          cases other
        · rintro (short | ⟨-, condition⟩)
          · omega
          · exact absurd (condition rfl).1 small
  · by_cases some_ : kind.first ≤ (unread ba).length
    · obtain ⟨what, ba', failed, moved⟩ := outcome.part some_ (Nat.lt_of_not_le enough)
      rw [run_bind, run_bind_error failed]
      refine ⟨fun clean => absurd clean.2.2 moved, fun condition => ?_⟩
      omega
    · obtain ⟨what, failed⟩ := outcome.nothing (Nat.lt_of_not_le some_)
      rw [run_bind, run_bind_error failed]
      exact ⟨fun _ => .inl (Nat.lt_of_not_le some_), fun _ => ⟨⟨what, rfl⟩, by omega, rfl⟩⟩

end Items

/-- **Failed reads**: a typed reader throws `std::out_of_range` exactly when the item is not
all there, and leaves the array as it was when it throws, if and only if either its first
`Read` fails or the item is all there. -/
theorem failsCleanly_iff {ba : ByteArray} (reachable : Reachable ba) (kind : Kind) :
    FailsCleanly ba kind ↔ NothingOrWhole ba kind := by
  have inv := reachable.inv
  have two := outcome_readFixed inv (show 0 < 2 by decide)
  have four := outcome_readFixed inv (show 0 < 4 by decide)
  have eight := outcome_readFixed inv (show 0 < 8 by decide)
  have varint32 := outcome_varint inv (show 0 < 5 by decide) (show 7 * 5 ≤ 32 + 6 by decide)
  have varint64 := outcome_varint inv (show 0 < 10 by decide) (show 7 * 10 ≤ 64 + 6 by decide)
  cases kind with
  | fint8 => exact failsCleanly_number (((outcome_readFuint8 inv).map _).map _) rfl rfl
  | fuint8 => exact failsCleanly_number ((outcome_readFuint8 inv).map _) rfl rfl
  | fint16 => exact failsCleanly_number ((two.map _).map _) rfl rfl
  | fuint16 => exact failsCleanly_number ((two.map _).map _) rfl rfl
  | fint32 => exact failsCleanly_number ((four.map _).map _) rfl rfl
  | fuint32 => exact failsCleanly_number ((four.map _).map _) rfl rfl
  | fint64 => exact failsCleanly_number ((eight.map _).map _) rfl rfl
  | fuint64 => exact failsCleanly_number ((eight.map _).map _) rfl rfl
  | int32 => exact failsCleanly_number (((varint32.map _).map _).map _) rfl rfl
  | uint32 => exact failsCleanly_number ((varint32.map _).map _) rfl rfl
  | int64 => exact failsCleanly_number (((varint64.map _).map _).map _) rfl rfl
  | uint64 => exact failsCleanly_number ((varint64.map _).map _) rfl rfl
  | float => exact failsCleanly_number ((four.map _).map _) rfl rfl
  | double => exact failsCleanly_number ((eight.map _).map _) rfl rfl
  | stringF16 => exact failsCleanly_string inv (two.map _) rfl rfl UInt16.toNat_ofNat'.symm
  | stringF32 => exact failsCleanly_string inv (four.map _) rfl rfl UInt32.toNat_ofNat'.symm
  | stringF64 => exact failsCleanly_string inv (eight.map _) rfl rfl UInt64.toNat_ofNat'.symm
  | stringVint => exact failsCleanly_string inv (varint64.map _) rfl rfl UInt64.toNat_ofNat'.symm

/-- A varint of two bytes that is all there. -/
theorem failsCleanly_iff_varint :
    ∃ ba, Run.run act (new 4 fun _ => 0) [.call (.write [0x80, 1]), .call (.setPosition 0)] = some ba ∧
      FailsCleanly ba .uint32 := by
  have reachable : Reachable ⟨4, 0, 4, 2, [⟨[0x80, 1, 0, 0]⟩], some 0, .big, fun _ => 0, 4⟩ :=
    ⟨4, fun _ => 0, [.call (.write [0x80, 1]), .call (.setPosition 0)], by decide, rfl⟩
  refine ⟨_, rfl, (failsCleanly_iff reachable .uint32).mpr (.inr ⟨by decide, fun no => ?_⟩)⟩
  cases no

/-- The first byte of a varint of two: the reader throws and has moved over it. -/
theorem uint32_cut :
    ∃ ba ba', Reachable ba ∧ ba.position = 0 ∧ unread ba = [0x80] ∧
      readItem .uint32 ba = .error (.outOfRange "not enough len") ba' ∧ ba'.position = 1 ∧
      ¬ FailsCleanly ba .uint32 := by
  refine ⟨⟨4, 0, 4, 1, [⟨[0x80, 0, 0, 0]⟩], some 0, .big, fun _ => 0, 4⟩,
    ⟨4, 1, 4, 1, [⟨[0x80, 0, 0, 0]⟩], some 0, .big, fun _ => 0, 4⟩,
    ⟨4, fun _ => 0, [.call (.write [0x80]), .call (.setPosition 0)], by decide, rfl⟩, rfl, rfl, rfl,
    rfl, fun clean => ?_⟩
  obtain ⟨-, -, same⟩ := clean
  exact absurd (congrArg position same) (by decide)

end ServerFrame.ByteArray
