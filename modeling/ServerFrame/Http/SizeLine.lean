import ServerFrame.Http.ResponseHeader

/-!
# The size line of a chunk

The parser is set up anew for each read of a size line and keeps nothing of the reads
before. It takes the digits behind the start of the last read for the size.
-/
namespace ServerFrame.Http

open Segments

/-- What holds of the bytes of the values below 256 holds of all. -/
theorem byte_cases {P : UInt8 → Prop} (all : ∀ n ∈ List.range 256, P n.toUInt8) (b : UInt8) : P b := by
  have same : b.toNat.toUInt8 = b := by rw [Nat.toUInt8_eq, UInt8.ofNat_toNat]
  exact same ▸ all b.toNat (List.mem_range.mpr b.toNat_lt)

/-! ## Numbers -/

/-- A number in hexadecimal digits of either case. -/
structure IsSize (size : List UInt8) : Prop where
  nonempty : size ≠ []
  digits : ∀ b ∈ size, (digitValue 16 b).isSome = true

def hexValue (size : List UInt8) : Nat := digitsValue 16 0 size

/-- A larger number before the digits makes a larger number. -/
theorem digitsValue_mono {m n : Nat} (le : m ≤ n) (text : List UInt8) :
    n - m ≤ digitsValue 16 n text - digitsValue 16 m text ∧
      digitsValue 16 m text ≤ digitsValue 16 n text := by
  induction text generalizing m n with
  | nil => exact ⟨Nat.le_refl _, le⟩
  | cons b text ih =>
    rw [digitsValue, digitsValue]
    cases digitValue 16 b with
    | none => exact ⟨Nat.le_refl _, le⟩
    | some d =>
      obtain ⟨apart, below⟩ := ih (m := m * 16 + d) (n := n * 16 + d) (by omega)
      refine ⟨Nat.le_trans ?_ apart, below⟩
      omega

theorem digitsValue_zeros {zeros : List UInt8} (all : ∀ b ∈ zeros, b = 48) :
    digitsValue 16 0 zeros = 0 := by
  induction zeros with
  | nil => rfl
  | cons b zeros ih =>
    obtain rfl := all b (List.mem_cons_self ..)
    exact ih fun c member => all c (List.mem_cons_of_mem _ member)

theorem zeros_of_digitsValue {digits : List UInt8}
    (are_digits : ∀ b ∈ digits, (digitValue 16 b).isSome = true) (zero : digitsValue 16 0 digits = 0) :
    ∀ b ∈ digits, b = 48 := by
  induction digits with
  | nil =>
    intro b member
    cases member
  | cons b digits ih =>
    obtain ⟨d, is_digit⟩ := Option.isSome_iff_exists.mp (are_digits b (List.mem_cons_self ..))
    simp only [digitsValue, is_digit, Nat.zero_mul, Nat.zero_add] at zero
    obtain ⟨apart, -⟩ := digitsValue_mono (Nat.zero_le d) digits
    obtain rfl : d = 0 := by omega
    have first : b = 48 := byte_cases (P := fun b => digitValue 16 b = some 0 → b = 48)
      (by decide +kernel) b is_digit
    intro c member
    rcases List.mem_cons.mp member with rfl | member
    · exact first
    · exact ih (fun c member => are_digits c (List.mem_cons_of_mem _ member)) zero c member

/-- The digits behind a cut make the whole number if and only if those before are zeros; else
a smaller one. -/
theorem hexValue_drop {size : List UInt8} (digits : ∀ b ∈ size, (digitValue 16 b).isSome = true)
    (cut : Nat) :
    hexValue (size.drop cut) ≤ hexValue size ∧
      (hexValue (size.drop cut) = hexValue size ↔ ∀ b ∈ size.take cut, b = 48) := by
  have front_digits : ∀ b ∈ size.take cut, (digitValue 16 b).isSome = true :=
    fun b member => digits b (List.mem_of_mem_take member)
  have split : hexValue size = digitsValue 16 (digitsValue 16 0 (size.take cut)) (size.drop cut) := by
    rw [← digitsValue_append front_digits, List.take_append_drop, hexValue]
  obtain ⟨apart, below⟩ := digitsValue_mono (Nat.zero_le (digitsValue 16 0 (size.take cut)))
    (size.drop cut)
  rw [split]
  refine ⟨below, fun same => ?_, fun zeros => ?_⟩
  · refine zeros_of_digitsValue front_digits ?_
    rw [hexValue] at same
    omega
  · rw [digitsValue_zeros zeros, hexValue]

theorem not_sign_of_digit (b : UInt8) (digit : (digitValue 16 b).isSome = true) :
    isspace b = false ∧ b ≠ 45 ∧ b ≠ 43 ∧ b ≠ 120 ∧ b ≠ 88 :=
  byte_cases (P := fun b => (digitValue 16 b).isSome = true →
    isspace b = false ∧ b ≠ 45 ∧ b ≠ 43 ∧ b ≠ 120 ∧ b ≠ 88) (by decide +kernel) b digit

theorem dropHexPrefix_eq {a b : UInt8} {text : List UInt8} (other : b ≠ 120 ∧ b ≠ 88) :
    dropHexPrefix (a :: b :: text) = a :: b :: text := by
  rw [dropHexPrefix.eq_def]
  split
  next x d rest eq =>
    obtain ⟨rfl, tail_eq⟩ := List.cons_eq_cons.mp eq
    obtain ⟨rfl, rfl⟩ := List.cons_eq_cons.mp tail_eq
    rw [if_neg fun known => known.1.elim other.1 other.2]
  next => rfl

/-- `strtol` reads the digits at the front. -/
theorem strtol_digits {size : List UInt8} (is : IsSize size) {b : UInt8} (ends : digitValue 16 b = none)
    (no_hex : b ≠ 120 ∧ b ≠ 88) (more : List UInt8) :
    strtol 16 (size ++ b :: more) = min longMax (hexValue size) := by
  have value : digitsValue 16 0 (size ++ b :: more) = hexValue size := by
    rw [digitsValue_append is.digits, digitsValue, ends, hexValue]
  obtain ⟨first, rest, rfl⟩ := List.exists_cons_of_ne_nil is.nonempty
  -- a size that begins with `0x` is no size, since `x` is no digit
  have whole : dropHexPrefix (first :: rest ++ b :: more) = first :: rest ++ b :: more := by
    cases rest with
    | nil => exact dropHexPrefix_eq no_hex
    | cons c rest =>
      obtain ⟨-, -, -, other⟩ := not_sign_of_digit c (is.digits c (by simp))
      exact dropHexPrefix_eq other
  obtain ⟨no_space, no_minus, no_plus, -⟩ := not_sign_of_digit first
    (is.digits first (List.mem_cons_self ..))
  have spaces : (first :: rest ++ b :: more).dropWhile isspace = first :: rest ++ b :: more := by
    rw [List.cons_append, List.dropWhile_cons, no_space]
    rfl
  have minus : ((first :: rest ++ b :: more).head? == some 45) = false :=
    beq_eq_false_iff_ne.mpr fun same => no_minus (Option.some.inj same)
  have plus : ((first :: rest ++ b :: more).head? == some 43) = false :=
    beq_eq_false_iff_ne.mpr fun same => no_plus (Option.some.inj same)
  simp only [strtol, spaces, minus, plus, Bool.or_false, Bool.false_eq_true, if_false, if_true,
    whole, value]

/-- A size that fits into an `int` is read up to its line end. -/
theorem strtol_size {size : List UInt8} (is : IsSize size) (small : hexValue size < 2 ^ 31)
    (more : List UInt8) : asInt (strtol 16 (size ++ 13 :: more)) = hexValue size := by
  have fits : min longMax (hexValue size) = hexValue size := by
    rw [longMax]
    omega
  rw [strtol_digits is (by decide) (by decide), fits]
  unfold asInt
  exact Int.bmod_eq_of_le (by omega) (by omega)

/-! ## One buffer -/

/-- The parser set up anew, in state `cs`. -/
def anew (hp : HttpResponseParser) (cs : Nat) : HttpResponseParser :=
  { hp with parser := { HttpClientParser.init with cs := cs } }

theorem size_transition (b : UInt8) (digit : (digitValue 16 b).isSome = true) :
    clientTransition 1 b = some (2, [.mark]) ∧ clientTransition 2 b = some (2, []) :=
  byte_cases (P := fun b => (digitValue 16 b).isSome = true →
    clientTransition 1 b = some (2, [.mark]) ∧ clientTransition 2 b = some (2, []))
    (by decide +kernel) b digit

section Line

variable {buffer : List UInt8} {hp : HttpResponseParser}

theorem exec_digits {digits more : List UInt8} (p : Nat)
    (are_digits : ∀ b ∈ digits, (digitValue 16 b).isSome = true) :
    HttpResponseParser.exec buffer p (anew hp 2) (digits ++ more) =
      HttpResponseParser.exec buffer (p + digits.length) (anew hp 2) more := by
  induction digits generalizing p with
  | nil => rfl
  | cons b digits ih =>
    have moves : clientTransition (anew hp 2).parser.cs b = some (2, []) :=
      (size_transition b (are_digits b (List.mem_cons_self ..))).2
    have position : p + 1 + digits.length = p + (b :: digits).length := by
      rw [List.length_cons]
      omega
    rw [List.cons_append, HttpResponseParser.exec, moves]
    simp only [List.foldlM_nil, bind, Except.bind, pure, Except.pure, List.not_mem_nil, if_false]
    rw [← position]
    exact ih (p + 1) fun c member => are_digits c (List.mem_cons_of_mem _ member)

/-- The digits at the start of a buffer. -/
theorem exec_size {size more : List UInt8} (is : IsSize size) :
    HttpResponseParser.exec buffer 0 (anew hp 1) (size ++ more) =
      HttpResponseParser.exec buffer size.length (anew hp 2) more := by
  obtain ⟨first, rest, rfl⟩ := List.exists_cons_of_ne_nil is.nonempty
  have moves : clientTransition (anew hp 1).parser.cs first = some (2, [.mark]) :=
    (size_transition first (is.digits first (List.mem_cons_self ..))).1
  have not_done : ¬ ClientAct.done ∈ [ClientAct.mark] := by decide
  rw [List.cons_append, HttpResponseParser.exec, moves]
  simp only [List.foldlM_cons, List.foldlM_nil, HttpResponseParser.act, bind, Except.bind, pure,
    Except.pure, if_neg not_done]
  rw [List.length_cons, Nat.add_comm rest.length]
  exact exec_digits 1 fun c member => is.digits c (List.mem_cons_of_mem _ member)

/-- The parser behind a size of value `n`. -/
def sized (hp : HttpResponseParser) (n : Nat) : HttpResponseParser :=
  { hp with parser := { HttpClientParser.init with
    cs := 3, chunked := true, contentLen := n, chunksDone := (n : Int) ≤ 0 } }

theorem exec_return {size more : List UInt8} (is : IsSize size) (small : hexValue size < 2 ^ 31) :
    HttpResponseParser.exec (size ++ 13 :: more) 0 (anew hp 1) (size ++ 13 :: more) =
      HttpResponseParser.exec (size ++ 13 :: more) (size.length + 1) (sized hp (hexValue size)) more := by
  have known : clientTransition 2 13 = some (3, [.chunkSize]) := by decide
  have moves : clientTransition (anew hp 2).parser.cs 13 = some (3, [.chunkSize]) := known
  have not_done : ¬ ClientAct.done ∈ [ClientAct.chunkSize] := by decide
  have size_eq : asInt (strtol 16 ((size ++ 13 :: more).drop (anew hp 2).parser.mark)) =
      hexValue size := strtol_size is small more
  rw [exec_size is, HttpResponseParser.exec, moves]
  simp only [List.foldlM_cons, List.foldlM_nil, HttpResponseParser.act, size_eq, bind, Except.bind,
    pure, Except.pure, if_neg not_done]
  rfl

variable {env : ClientEnv}

theorem parse_fine {hp' : HttpResponseParser} {kept : List UInt8} {chunck : Bool}
    (executed : hp.execute buffer chunck = .ok (hp', kept))
    (alive : hp'.parser.cs ≠ httpclientParserError) (room : kept.length ≠ env.bufferSize)
    (fine : hp'.error = 0) : parse env hp buffer chunck = .ok (some (hp', kept)) := by
  rw [parse_of_execute executed alive room, if_pos fine]

/-- The digits of a size line, or some of them. -/
theorem parse_digits (is : IsSize buffer) (no_error : hp.error = 0) (room : 0 < env.bufferSize) :
    ∃ hp', parse env hp buffer true = .ok (some (hp', [])) ∧ hp'.isFinished = false ∧ hp'.error = 0 := by
  have pos := List.length_pos_iff.mpr is.nonempty
  have executed : HttpResponseParser.exec buffer 0 (anew hp 1) buffer =
      .ok (anew hp 2, buffer.length) := by
    have all : HttpResponseParser.exec buffer 0 (anew hp 1) (buffer ++ []) =
        HttpResponseParser.exec buffer buffer.length (anew hp 2) [] := exec_size is
    rwa [List.append_nil] at all
  have parsed : hp.execute buffer true =
      .ok ({ anew hp 2 with parser := { (anew hp 2).parser with nread := buffer.length } },
        buffer.drop buffer.length) :=
    execute_of_exec executed is.nonempty (Nat.le_refl _)
      ⟨Nat.zero_le _, Nat.zero_le _, Nat.zero_le _⟩ (Nat.zero_le _)
  have alive : (2 : Nat) ≠ httpclientParserError := by decide
  rw [List.drop_length] at parsed
  exact ⟨_, parse_fine parsed alive (by rw [List.length_nil]; omega) no_error, rfl, no_error⟩

/-- A size line without its last byte. -/
theorem parse_return {size : List UInt8} (is : IsSize size) (small : hexValue size < 2 ^ 31)
    (no_error : hp.error = 0) (room : 0 < env.bufferSize) :
    ∃ hp', parse env hp (size ++ [13]) true = .ok (some (hp', [])) ∧ hp'.isFinished = false ∧
      hp'.error = 0 := by
  have length_eq : (size ++ [13]).length = size.length + 1 := by simp
  have executed : HttpResponseParser.exec (size ++ [13]) 0 (anew hp 1) (size ++ [13]) =
      .ok (sized hp (hexValue size), size.length + 1) := exec_return is small
  have parsed : hp.execute (size ++ [13]) true =
      .ok ({ sized hp (hexValue size) with
        parser := { (sized hp (hexValue size)).parser with nread := size.length + 1 } },
        (size ++ [13]).drop (size.length + 1)) :=
    execute_of_exec executed (by simp) (by omega) ⟨Nat.zero_le _, Nat.zero_le _, Nat.zero_le _⟩
      (Nat.zero_le _)
  have alive : (3 : Nat) ≠ httpclientParserError := by decide
  rw [← length_eq, List.drop_length] at parsed
  exact ⟨_, parse_fine parsed alive (by rw [List.length_nil]; omega) no_error, rfl, no_error⟩

/-- All the digits of a size line, without its end. -/
theorem parse_cut {size got more : List UInt8} (is : IsSize size) (small : hexValue size < 2 ^ 31)
    (no_error : hp.error = 0) (room : 0 < env.bufferSize) (line_eq : size ++ [13, 10] = got ++ more)
    (more_ne : more ≠ []) (all_read : size.length ≤ got.length) :
    ∃ hp', parse env hp got true = .ok (some (hp', [])) ∧ hp'.isFinished = false ∧
      ∀ b ∈ more.head?, clientTransition 1 b = none := by
  have no_return : clientTransition 1 13 = none := by decide
  have no_feed : clientTransition 1 10 = none := by decide
  have lengths := congrArg List.length line_eq
  simp only [List.length_append, List.length_cons, List.length_nil] at lengths
  have more_pos := List.length_pos_iff.mpr more_ne
  obtain ⟨ends, rfl⟩ : ∃ ends, got = size ++ ends := by
    rcases List.append_eq_append_iff.mp line_eq with ⟨ends, got_eq, -⟩ | ⟨digits, size_eq, -⟩
    · exact ⟨ends, got_eq⟩
    · refine ⟨[], ?_⟩
      rw [size_eq, List.length_append] at all_read
      rw [size_eq, List.eq_nil_of_length_eq_zero (by omega : digits.length = 0), List.append_nil,
        List.append_nil]
  rw [List.append_assoc] at line_eq
  have ends_eq : [13, 10] = ends ++ more := List.append_cancel_left line_eq
  cases ends with
  | nil =>
    obtain ⟨hp', parsed, not_finished, -⟩ := parse_digits is no_error room
    rw [List.nil_append] at ends_eq
    subst ends_eq
    rw [List.append_nil]
    refine ⟨hp', parsed, not_finished, fun b first => ?_⟩
    obtain rfl : 13 = b := Option.some.inj first
    exact no_return
  | cons b ends =>
    obtain ⟨rfl, more_eq⟩ := List.cons_eq_cons.mp ends_eq
    cases ends with
    | nil =>
      obtain ⟨hp', parsed, not_finished, -⟩ := parse_return is small no_error room
      have more_is : [10] = more := more_eq
      subst more_is
      refine ⟨hp', parsed, not_finished, fun b first => ?_⟩
      obtain rfl : 10 = b := Option.some.inj first
      exact no_feed
    | cons c ends =>
      have none_left := (List.cons_eq_cons.mp more_eq).2
      exact absurd (List.append_eq_nil_iff.mp none_left.symm).2 more_ne

/-- What the parser says of a chunk of `n` bytes. -/
structure Announced (n : Nat) (hp : HttpResponseParser) : Prop where
  contentLen : hp.parser.contentLen = n
  chunksDone : hp.parser.chunksDone = decide ((n : Int) ≤ 0)
  error : hp.error = 0

/-- A whole size line. -/
theorem parse_size {size more : List UInt8} (is : IsSize size) (small : hexValue size < 2 ^ 31)
    (no_error : hp.error = 0) (fits : (size ++ 13 :: 10 :: more).length ≤ env.bufferSize) :
    ∃ hp', parse env hp (size ++ 13 :: 10 :: more) true = .ok (some (hp', more)) ∧
      hp'.isFinished = true ∧ Announced (hexValue size) hp' := by
  have length_eq : (size ++ 13 :: 10 :: more).length = size.length + 2 + more.length := by
    simp only [List.length_append, List.length_cons]
    omega
  have known : clientTransition 3 10 = some (120, [.done]) := by decide
  have moves : clientTransition (sized hp (hexValue size)).parser.cs 10 = some (120, [.done]) := known
  obtain ⟨hp₁, hp₁_eq⟩ : ∃ hp₁, hp₁ = { sized hp (hexValue size) with
      parser := { (sized hp (hexValue size)).parser with bodyStart := size.length + 2, cs := 120 } } :=
    ⟨_, rfl⟩
  have executed : HttpResponseParser.exec (size ++ 13 :: 10 :: more) 0 (anew hp 1)
      (size ++ 13 :: 10 :: more) = .ok (hp₁, size.length + 2) := by
    rw [exec_return is small, HttpResponseParser.exec, moves, hp₁_eq]
    rfl
  have within : Within ((size ++ 13 :: 10 :: more).length - 1) hp₁.parser := by
    rw [hp₁_eq]
    exact ⟨Nat.zero_le _, Nat.zero_le _, Nat.zero_le _⟩
  have start : hp₁.parser.bodyStart = size.length + 2 := by rw [hp₁_eq]
  have parsed : hp.execute (size ++ 13 :: 10 :: more) true =
      .ok ({ hp₁ with parser := { hp₁.parser with nread := size.length + 2 } },
        (size ++ 13 :: 10 :: more).drop (size.length + 2)) :=
    execute_of_exec executed (by simp) (by omega) within (by omega)
  have left_eq : (size ++ 13 :: 10 :: more).drop (size.length + 2) = more := by
    rw [← List.drop_drop, List.drop_left]
    rfl
  have alive : hp₁.parser.cs ≠ httpclientParserError := by
    rw [hp₁_eq]
    exact Nat.succ_ne_zero 119
  have fine : hp₁.error = 0 := by
    rw [hp₁_eq]
    exact no_error
  rw [left_eq] at parsed
  refine ⟨_, parse_fine parsed alive (by omega) fine, ?_, ?_, ?_, fine⟩
  all_goals
    rw [hp₁_eq]
    rfl

/-- What is no size line and no response. -/
theorem parse_other {b : UInt8} {more : List UInt8} (stops : clientTransition 1 b = none) :
    parse env hp (b :: more) true = .ok none := by
  have executed : HttpResponseParser.exec (b :: more) 0 (anew hp 1) (b :: more) =
      .ok (anew hp 0, 0) := by
    have moves : clientTransition (anew hp 1).parser.cs b = none := stops
    rw [HttpResponseParser.exec, moves]
    rfl
  have parsed : hp.execute (b :: more) true =
      .ok ({ anew hp 0 with parser := { (anew hp 0).parser with nread := 0 } },
        (b :: more).drop 0) :=
    execute_of_exec executed (List.cons_ne_nil _ _) (Nat.zero_le _)
      ⟨Nat.zero_le _, Nat.zero_le _, Nat.zero_le _⟩ (Nat.zero_le _)
  have stopped : HttpResponseParser.hasError
      { anew hp 0 with parser := { (anew hp 0).parser with nread := 0 } } = true := by
    simp [HttpResponseParser.hasError, anew, httpclientParserError]
  simp only [parse, parsed, bind, Except.bind, stopped, if_true, pure, Except.pure]

end Line

/-! ## The reads -/

section Reads

variable {env : ClientEnv} {fuel : Nat} {start : Bool} {hp : HttpResponseParser}
  {kept : List UInt8} {socket : Socket}

theorem recvSize_filled {buffer : List UInt8} {rest : Socket}
    (filled : (if !start || kept = [] then refill env kept socket else some (kept, socket)) =
      some (buffer, rest)) :
    recvSize env (fuel + 1) start hp kept socket =
      (parse env hp buffer true).bind fun
        | none => .ok none
        | some (hp, kept) =>
          if hp.isFinished then .ok (some (hp, kept, rest))
          else recvSize env fuel false hp kept rest := by
  rw [recvSize, filled]
  rfl

theorem recvSize_unfilled
    (unfilled : (if !start || kept = [] then refill env kept socket else some (kept, socket)) = none) :
    recvSize env (fuel + 1) start hp kept socket = .ok none := by
  rw [recvSize, unfilled]

/-- At the end of the stream, or before what is no size line, there is no size. -/
theorem recvSize_dead (room : 0 < env.bufferSize) (nonempty : ∀ s ∈ socket, s ≠ [])
    (begins : start = true ∨ kept = [])
    (dead : ∀ b ∈ (kept ++ socket.flatten).head?, clientTransition 1 b = none) :
    recvSize env fuel start hp kept socket = .ok none := by
  cases fuel with
  | zero => rfl
  | succ fuel =>
    have stops : ∀ {buffer : List UInt8} {rest : Socket}, buffer ≠ [] →
        kept ++ socket.flatten = buffer ++ rest.flatten →
        (if !start || kept = [] then refill env kept socket else some (kept, socket)) =
          some (buffer, rest) →
        recvSize env (fuel + 1) start hp kept socket = .ok none := by
      intro buffer rest buffer_ne stream filled
      obtain ⟨b, more, rfl⟩ := List.exists_cons_of_ne_nil buffer_ne
      rw [recvSize_filled filled, parse_other (dead b (by rw [stream]; rfl))]
      rfl
    by_cases empty : kept = []
    · subst empty
      have reads : (!start || decide (([] : List UInt8) = [])) = true := by simp
      cases socket with
      | nil =>
        refine recvSize_unfilled ?_
        rw [if_pos reads]
        rfl
      | cons s socket =>
        obtain ⟨got, rest, filled, brings⟩ := refill_nil room nonempty
        exact stops brings.got_ne brings.flatten (by rw [if_pos reads, filled])
    · have started : start = true := begins.resolve_right empty
      have goes_on : ¬ (!start || decide (kept = [])) = true := by simp [started, empty]
      exact stops empty rfl (if_neg goes_on)

/-- A read that ends among the digits of a size line. -/
theorem IsSize.cut {size got more : List UInt8} (is : IsSize size) (got_ne : got ≠ [])
    (line_eq : size ++ [13, 10] = got ++ more) (inside : got.length < size.length) :
    ∃ digits, size = got ++ digits ∧ more = digits ++ [13, 10] ∧ IsSize got ∧ IsSize digits ∧
      hexValue digits ≤ hexValue size := by
  obtain ⟨digits, size_eq, more_eq⟩ : ∃ digits, size = got ++ digits ∧ more = digits ++ [13, 10] := by
    rcases List.append_eq_append_iff.mp line_eq with ⟨ends, got_eq, -⟩ | digits
    · rw [got_eq, List.length_append] at inside
      omega
    · exact digits
  subst size_eq
  have behind : (got ++ digits).drop got.length = digits := List.drop_left
  have digits_ne : digits ≠ [] := by
    rintro rfl
    rw [List.append_nil] at inside
    exact Nat.lt_irrefl _ inside
  have below := (hexValue_drop is.digits got.length).1
  rw [behind] at below
  exact ⟨digits, rfl, more_eq, ⟨got_ne, fun b member => is.digits b (List.mem_append_left _ member)⟩,
    ⟨digits_ne, fun b member => is.digits b (List.mem_append_right _ member)⟩, below⟩

/-- There is fuel for a round, -/
theorem not_enough_zero {bufferSize : Nat} (socket : Socket) :
    ¬socket.flatten.length + 1 < 0 + min bufferSize (socket.headD []).length := by
  cases socket with
  | nil => simp
  | cons s socket =>
    rw [List.flatten_cons, List.length_append, List.headD_cons]
    omega

/-- and for another one behind it, since the next read brings a byte at least. -/
theorem enough_next {bufferSize fuel : Nat} {left : Socket} (room : 0 < bufferSize)
    (nonempty : ∀ s ∈ left, s ≠ []) (more : left.flatten ≠ []) (enough : left.flatten.length < fuel) :
    left.flatten.length + 1 < fuel + min bufferSize (left.headD []).length := by
  cases left with
  | nil => exact absurd rfl more
  | cons t left =>
    have t_pos := List.length_pos_iff.mpr (nonempty t List.mem_cons_self)
    rw [List.headD_cons]
    omega

/-- The size line behind the reads: the size is what lies behind the start of the last one, if
there are digits. -/
theorem recvSize_reads {size rest : List UInt8} (room : 0 < env.bufferSize) (is : IsSize size)
    (small : hexValue size < 2 ^ 31) (no_error : hp.error = 0) (nonempty : ∀ s ∈ socket, s ≠ [])
    (stream : socket.flatten = size ++ 13 :: 10 :: rest)
    (enough : socket.flatten.length + 1 < fuel + min env.bufferSize (socket.headD []).length) :
    (size.length ≤ readStart env.bufferSize (socket.map List.length) (size.length + 1) →
      recvSize env fuel start hp [] socket = .ok none) ∧
    (readStart env.bufferSize (socket.map List.length) (size.length + 1) < size.length →
      ∃ hp', recvSize env fuel start hp [] socket = .ok (some (hp',
          rest.take (readStop env.bufferSize (socket.map List.length) (size.length + 1) -
            (size.length + 2)),
          dropFront (readStop env.bufferSize (socket.map List.length) (size.length + 1)) socket)) ∧
        Announced (hexValue (size.drop
          (readStart env.bufferSize (socket.map List.length) (size.length + 1)))) hp') := by
  -- each read takes its part of the line, and the parser begins anew with the rest
  induction fuel generalizing start hp size socket with
  | zero => exact absurd enough (not_enough_zero socket)
  | succ fuel ih =>
    cases socket with
    | nil => exact absurd stream.symm (by simp)
    | cons s socket =>
      obtain ⟨got, left, filled, brings⟩ := refill_nil room nonempty
      have got_pos := List.length_pos_iff.mpr brings.got_ne
      have got_length := brings.length
      have fits : got.length ≤ env.bufferSize := by omega
      have reads : (if !start || ([] : List UInt8) = [] then refill env [] (s :: socket)
          else some ([], s :: socket)) = some (got, left) := by simp [filled]
      rw [brings.flatten] at stream
      have enough' : left.flatten.length < fuel := by
        rw [brings.flatten, List.length_append, List.headD_cons] at enough
        omega
      have line_stream : got ++ left.flatten = (size ++ [13, 10]) ++ rest := by
        rw [stream, List.append_assoc]
        rfl
      rw [recvSize_filled reads, List.map_cons]
      rcases split_stream line_stream with ⟨more, more_ne, line_eq, left_stream⟩ | ⟨more, rfl, rfl⟩
      · -- the read ends inside of the line
        have lengths := congrArg List.length line_eq
        simp only [List.length_append, List.length_cons, List.length_nil] at lengths
        have more_pos := List.length_pos_iff.mpr more_ne
        have cut_eq : readStart env.bufferSize (s.length :: socket.map List.length) (size.length + 1) =
            got.length + readStart env.bufferSize (left.map List.length)
              (size.length + 1 - got.length) := by
          rw [readStart_of_le room (by omega), ← brings.lengths, got_length]
        have stop_eq : readStop env.bufferSize (s.length :: socket.map List.length) (size.length + 1) =
            got.length + readStop env.bufferSize (left.map List.length)
              (size.length + 1 - got.length) := by
          rw [readStop_of_le room (by omega), ← brings.lengths, got_length]
        by_cases all_read : size.length ≤ got.length
        · -- the next read starts behind the digits
          obtain ⟨hp', parsed, not_finished, dead⟩ :=
            parse_cut is small no_error room line_eq more_ne all_read
          have lost : recvSize env fuel false hp' [] left = .ok none := by
            refine recvSize_dead room brings.nonempty (Or.inr rfl) fun b first => dead b ?_
            rwa [List.nil_append, left_stream, List.head?_append_of_ne_nil _ more_ne] at first
          rw [cut_eq, parsed]
          simp only [Except.bind, not_finished, Bool.false_eq_true, if_false]
          exact ⟨fun _ => lost, fun inside => by omega⟩
        · -- the next read starts among the digits
          obtain ⟨digits, rfl, rfl, front_is, digits_is, below⟩ :=
            is.cut brings.got_ne line_eq (Nat.lt_of_not_le all_read)
          obtain ⟨hp', parsed, not_finished, fine⟩ := parse_digits front_is no_error room
          have behind : (got ++ digits).drop got.length = digits := List.drop_left
          have left_line : left.flatten = digits ++ 13 :: 10 :: rest := by
            rw [left_stream, List.append_assoc]
            rfl
          have left_enough := enough_next room brings.nonempty (by simp [left_line]) enough'
          obtain ⟨lost, returns⟩ := @ih false hp' left digits digits_is (by omega) fine
            brings.nonempty left_line left_enough
          have position : (got ++ digits).length + 1 - got.length = digits.length + 1 := by
            rw [List.length_append]
            omega
          have left_eq : ∀ n, got.length + n - ((got ++ digits).length + 2) = n - (digits.length + 2) := by
            intro n
            rw [List.length_append]
            omega
          rw [position] at cut_eq stop_eq
          rw [cut_eq, stop_eq, left_eq, ← dropFront_dropFront, ← brings.rest_eq, ← List.drop_drop, behind,
            parsed, List.length_append]
          simp only [Except.bind, not_finished, Bool.false_eq_true, if_false]
          exact ⟨fun beyond => lost (by omega), fun inside => returns (by omega)⟩
      · -- the read holds the whole line
        have whole : size ++ [13, 10] ++ more = size ++ 13 :: 10 :: more := by simp
        have line_length : (size ++ [13, 10]).length = size.length + 2 := List.length_append
        obtain ⟨kept_eq, rest_eq⟩ := brings.complete (List.append_ne_nil_of_left_ne_nil is.nonempty _)
        rw [List.length_append, line_length] at got_length
        rw [line_length, Nat.add_sub_assoc (by decide)] at kept_eq rest_eq
        rw [whole] at fits
        obtain ⟨hp', parsed, finished, announced⟩ := parse_size is small no_error fits
        have cut_eq : readStart env.bufferSize (s.length :: socket.map List.length) (size.length + 1) =
            0 := readStart_of_lt (by omega)
        rw [cut_eq, kept_eq, rest_eq, whole, parsed]
        have size_pos := List.length_pos_iff.mpr is.nonempty
        refine ⟨fun none_left => by omega, fun _ => ⟨hp', ?_, announced⟩⟩
        simp only [Except.bind, finished, if_true]

end Reads

end ServerFrame.Http
