import ServerFrame.Http.Chunks

/-!
# Headers that end in another final state

The automaton has final states behind `first_final`, which a field without a value at the
end of a header leads to. `IsFinished` does not know them: the loop for the header goes on
and reads the first size line as the value of that field.
-/
namespace ServerFrame.Http

open Segments

/-- From state `cs` on, no header ends in `first_final` before the end of the stream, where
chunks have been announced. -/
def drains : Nat → Bool → List UInt8 → Bool
  | _, _, [] => true
  | cs, chunked, b :: bytes =>
    match clientTransition cs b with
    -- an error ends the response, which is as good as none
    | none => true
    | some (target, acts) =>
      if target = httpclientParserFirstFinal then (chunked || announces acts) && bytes.isEmpty
      else drains target (chunked || announces acts) bytes

/-- The stream has dried up, or goes on to. -/
def Dry (cs : Nat) (chunked : Bool) (stream : List UInt8) : Prop :=
  cs = httpclientParserError ∨ cs = httpclientParserFirstFinal ∧ chunked = true ∧ stream = [] ∨
    cs ≠ httpclientParserFirstFinal ∧ drains cs chunked stream = true

/-! ## The loop for the header -/

/-- Only two of the actions announce chunks. -/
theorem act_chunked {buffer : List UInt8} {p : Nat} {hp hp' : HttpResponseParser} {a : ClientAct}
    (acted : HttpResponseParser.act buffer p hp a = .ok hp') :
    hp'.parser.chunked = (hp.parser.chunked || (a == .transChunked || a == .chunkSize)) := by
  cases a with
  | writeValue =>
    rw [onResponseHttpField_marks acted]
    exact (Bool.or_false _).symm
  | reasonPhrase =>
    rw [onResponseReason_marks acted]
    exact (Bool.or_false _).symm
  | httpVersion =>
    cases acted
    rw [onResponseVersion_marks]
    exact (Bool.or_false _).symm
  | chunkSize =>
    cases acted
    exact (Bool.or_true _).symm
  | transChunked =>
    cases acted
    exact (Bool.or_true _).symm
  | _ =>
    cases acted
    exact (Bool.or_false _).symm

theorem acts_chunked {buffer : List UInt8} {p : Nat} {hp hp' : HttpResponseParser}
    {acts : List ClientAct}
    (acted : acts.foldlM (HttpResponseParser.act buffer p) hp = .ok hp') :
    hp'.parser.chunked = (hp.parser.chunked || announces acts) := by
  induction acts generalizing hp with
  | nil =>
    cases acted
    simp [announces]
  | cons a acts ih =>
    rw [List.foldlM_cons] at acted
    obtain ⟨hp₁, first, later⟩ := EState.except_bind_ok acted
    rw [ih later, act_chunked first, Bool.or_assoc]
    rfl

theorem exec_dry {buffer bytes more : List UInt8} {p q : Nat} {hp hp' : HttpResponseParser}
    (here : buffer.drop p = bytes) (going : hp.parser.cs ≠ httpclientParserFirstFinal)
    (dry : drains hp.parser.cs hp.parser.chunked (bytes ++ more) = true)
    (ran : HttpResponseParser.exec buffer p hp bytes = .ok (hp', q)) :
    Dry hp'.parser.cs hp'.parser.chunked (buffer.drop q ++ more) := by
  induction bytes generalizing p hp with
  | nil =>
    cases ran
    rw [here]
    exact .inr (.inr ⟨going, dry⟩)
  | cons b bytes ih =>
    have next : buffer.drop (p + 1) = bytes := by rw [← List.drop_drop, here]; rfl
    rw [HttpResponseParser.exec] at ran
    rw [List.cons_append, drains] at dry
    cases moves : clientTransition hp.parser.cs b with
    | none =>
      simp only [moves] at ran
      cases ran
      exact .inl rfl
    | some edge =>
      obtain ⟨target, acts⟩ := edge
      simp only [moves] at ran dry
      have done_iff := (clientTransition_alive moves).2.2
      rw [httpclientParserFirstFinal] at done_iff
      obtain ⟨acted_hp, acted, ran⟩ := EState.except_bind_ok ran
      rw [← acts_chunked acted] at dry
      -- the automaton stops behind the end of a header and is entered again for the rest
      by_cases done : .done ∈ acts
      · rw [if_pos done] at ran
        cases ran
        rw [next]
        by_cases finished : target = httpclientParserFirstFinal
        · rw [if_pos finished, Bool.and_eq_true, List.isEmpty_iff] at dry
          exact .inr (.inl ⟨finished, dry⟩)
        · rw [if_neg finished] at dry
          exact .inr (.inr ⟨finished, dry⟩)
      · have goes_on : target ≠ httpclientParserFirstFinal := by
          rw [httpclientParserFirstFinal]
          rintro rfl
          exact done (done_iff.mpr (Nat.le_refl _))
        rw [if_neg done] at ran
        rw [if_neg goes_on] at dry
        exact ih next goes_on dry ran

/-- What is read comes behind what is held. -/
theorem refill_some {env : ClientEnv} {kept buffer : List UInt8} {socket rest : Socket}
    (nonempty : ∀ s ∈ socket, s ≠ []) (filled : refill env kept socket = some (buffer, rest)) :
    buffer ++ rest.flatten = kept ++ socket.flatten ∧ ∀ s ∈ rest, s ≠ [] := by
  rw [refill] at filled
  cases front : read (env.bufferSize - kept.length) socket with
  | none =>
    rw [front] at filled
    cases filled
  | some result =>
    obtain ⟨got, left⟩ := result
    rw [front] at filled
    dsimp only at filled
    split at filled
    next => cases filled
    next =>
      cases filled
      rw [List.append_assoc, read_flatten front]
      exact ⟨rfl, read_nonempty nonempty front⟩

theorem parse_dry {env : ClientEnv} {buffer more kept : List UInt8} {hp hp' : HttpResponseParser}
    (going : hp.parser.cs ≠ httpclientParserFirstFinal)
    (dry : drains hp.parser.cs hp.parser.chunked (buffer ++ more) = true)
    (ran : parse env hp buffer false = .ok (some (hp', kept))) :
    hp'.parser.cs = httpclientParserFirstFinal ∧ hp'.parser.chunked = true ∧ kept ++ more = [] ∨
      hp'.parser.cs ≠ httpclientParserFirstFinal ∧
        drains hp'.parser.cs hp'.parser.chunked (kept ++ more) = true := by
  obtain ⟨ran, alive⟩ := parse_ok ran
  obtain ⟨hp₁, q, executed, rfl, rfl⟩ := execute_ok ran
  have after := @exec_dry buffer buffer more 0 q hp.enter hp₁ rfl going dry executed
  rcases after with dead | finished | goes_on
  · have stopped : hp₁.parser.cs = httpclientParserError := dead
    simp [HttpResponseParser.hasError, stopped] at alive
  · exact .inl finished
  · exact .inr goes_on

theorem recvHeader_dry {env : ClientEnv} {fuel : Nat} {hp hp' : HttpResponseParser}
    {kept kept' : List UInt8} {socket socket' : Socket} (nonempty : ∀ s ∈ socket, s ≠ [])
    (going : hp.parser.cs ≠ httpclientParserFirstFinal)
    (dry : drains hp.parser.cs hp.parser.chunked (kept ++ socket.flatten) = true)
    (ran : recvHeader env fuel hp kept socket = .ok (some (hp', kept', socket'))) :
    hp'.parser.chunked = true ∧ kept' ++ socket'.flatten = [] ∧ ∀ s ∈ socket', s ≠ [] := by
  induction fuel generalizing hp kept socket with
  | zero => cases ran
  | succ fuel ih =>
    rw [recvHeader] at ran
    cases filled : refill env kept socket with
    | none =>
      rw [filled] at ran
      cases ran
    | some brought =>
      obtain ⟨buffer, rest⟩ := brought
      obtain ⟨stream, rest_ne⟩ := refill_some nonempty filled
      rw [filled] at ran
      rw [← stream] at dry
      cases parsed : parse env hp buffer false with
      | error fault =>
        simp only [parsed, bind, Except.bind] at ran
        cases ran
      | ok result =>
        cases result with
        | none =>
          simp only [parsed, bind, Except.bind] at ran
          cases ran
        | some read =>
          obtain ⟨hp₁, kept₁⟩ := read
          simp only [parsed, bind, Except.bind] at ran
          rcases parse_dry going dry parsed with ⟨finished, announced, none_left⟩ | ⟨goes_on, dry₁⟩
          · have is_finished : hp₁.isFinished = true := beq_iff_eq.mpr finished
            rw [if_pos is_finished] at ran
            cases ran
            exact ⟨announced, none_left, rest_ne⟩
          · have not_finished : ¬ hp₁.isFinished = true := fun same => goes_on (beq_iff_eq.mp same)
            rw [if_neg not_finished] at ran
            exact ih rest_ne goes_on dry₁ ran

/-! ## What stands behind the header -/

/-- Behind the header, the stream is read on from its final state. -/
theorem drains_header {cs final : Nat} {chunked announced : Bool} {head more : List UInt8}
    (ends : headerEnd cs chunked head = some (final, announced))
    (other : final ≠ httpclientParserFirstFinal) :
    drains cs chunked (head ++ more) = drains final announced more := by
  induction head generalizing cs chunked with
  | nil => cases ends
  | cons b head ih =>
    obtain ⟨target, acts, moves, between | ⟨-, rfl, found⟩⟩ := headerEnd_cons ends
    · have goes_on : target ≠ httpclientParserFirstFinal := by
        rintro rfl
        exact between.1 ((clientTransition_alive moves).2.2.mpr (Nat.le_refl _))
      rw [List.cons_append, drains]
      simp only [moves, if_neg goes_on]
      exact ih between.2
    · cases found
      rw [List.cons_append, drains]
      simp only [moves, if_neg other, List.nil_append]

theorem final_of_headerEnd {cs final : Nat} {chunked announced : Bool} {head : List UInt8}
    (ends : headerEnd cs chunked head = some (final, announced)) :
    httpclientParserFirstFinal ≤ final := by
  induction head generalizing cs chunked with
  | nil => cases ends
  | cons b head ih =>
    obtain ⟨target, acts, moves, between | ⟨done, rfl, found⟩⟩ := headerEnd_cons ends
    · exact ih between.2
    · cases found
      exact (clientTransition_alive moves).2.2.mp done

/-- Where a digit leads in the value of a field. -/
theorem value_digit (b : UInt8) : (digitValue 16 b).isSome = true →
    ∀ cs ∈ [121, 122, 123, 64, 38, 115], ∀ edge ∈ clientTransition cs b, edge.1 ∈ [64, 38, 115] :=
  byte_cases (P := fun b => (digitValue 16 b).isSome = true →
    ∀ cs ∈ [121, 122, 123, 64, 38, 115], ∀ edge ∈ clientTransition cs b, edge.1 ∈ [64, 38, 115])
    (by decide +kernel) b

theorem value_return : ∀ cs ∈ [64, 38, 115], ∀ edge ∈ clientTransition cs 13, edge.1 = 24 := by
  decide

/-- A size is read as a value, up to the end of its line. -/
theorem drains_value {cs : Nat} {digits more : List UInt8}
    (are_digits : ∀ b ∈ digits, (digitValue 16 b).isSome = true)
    (inside : cs ∈ [64, 38, 115]) (behind : drains 20 true more = true) :
    drains cs true (digits ++ 13 :: 10 :: more) = true := by
  induction digits generalizing cs with
  | nil =>
    have feed : clientTransition 24 10 = some (20, []) := by decide
    rw [List.nil_append, drains]
    cases moves : clientTransition cs 13 with
    | none => rfl
    | some edge =>
      have target := value_return cs inside edge moves
      have at_return : (24 : Nat) ≠ httpclientParserFirstFinal := by decide
      have at_feed : (20 : Nat) ≠ httpclientParserFirstFinal := by decide
      simp only [target, if_neg at_return, Bool.true_or]
      rw [drains]
      simp only [feed, if_neg at_feed, Bool.true_or, behind]
  | cons b digits ih =>
    rw [List.cons_append, drains]
    cases moves : clientTransition cs b with
    | none => rfl
    | some edge =>
      have known : cs ∈ [121, 122, 123, 64, 38, 115] := by
        simp only [List.mem_cons, List.not_mem_nil, or_false] at inside ⊢
        omega
      have target := value_digit b (are_digits b (List.mem_cons_self ..)) cs known edge moves
      have not_final : edge.1 ≠ httpclientParserFirstFinal := by
        rw [httpclientParserFirstFinal]
        simp only [List.mem_cons, List.not_mem_nil, or_false] at target
        omega
      simp only [if_neg not_final, Bool.true_or]
      exact ih (fun c member => are_digits c (List.mem_cons_of_mem _ member)) target

/-- A size line behind such a header. -/
theorem drains_size {final : Nat} {size more : List UInt8} (is : IsSize size)
    (least : httpclientParserFirstFinal ≤ final) (other : final ≠ httpclientParserFirstFinal)
    (behind : drains 20 true more = true) : drains final true (size ++ 13 :: 10 :: more) = true := by
  obtain ⟨b, digits, rfl⟩ := List.exists_cons_of_ne_nil is.nonempty
  rw [httpclientParserFirstFinal] at least other
  rw [List.cons_append, drains]
  cases moves : clientTransition final b with
  | none => rfl
  | some edge =>
    have known : final ∈ [121, 122, 123, 64, 38, 115] := by
      -- a state that is not in the table has no edges
      have in_table : final < clientStates.length := by
        by_contra beyond
        rw [clientTransition, List.getD_eq_getElem?_getD,
          List.getElem?_eq_none (Nat.le_of_not_lt beyond)] at moves
        cases moves
      have length_eq : clientStates.length = 124 := by decide +kernel
      simp only [List.mem_cons, List.not_mem_nil, or_false]
      omega
    have target := value_digit b (is.digits b (List.mem_cons_self ..)) final known edge moves
    have not_final : edge.1 ≠ httpclientParserFirstFinal := by
      rw [httpclientParserFirstFinal]
      simp only [List.mem_cons, List.not_mem_nil, or_false] at target
      omega
    simp only [if_neg not_final, Bool.true_or]
    exact drains_value (fun c member => is.digits c (List.mem_cons_of_mem _ member)) target behind

/-- Blank data is no field, and the end of the body is the end of a header. -/
theorem drains_data {data : List UInt8} (blank : ∀ b ∈ data, b = 0) (filled : data ≠ [])
    (more : List UInt8) : drains 20 true (data ++ more) = true := by
  obtain ⟨b, data, rfl⟩ := List.exists_cons_of_ne_nil filled
  have no_edge : clientTransition 20 0 = none := by decide
  rw [List.cons_append, drains, blank b (List.mem_cons_self ..), no_edge]

theorem drains_end : drains 20 true [13, 10] = true := by
  decide

/-- A header that ends in another final state than `first_final`, in front of blank chunks,
is not finished before the connection ends. -/
theorem recvHeader_unfinished {env : ClientEnv} {fuel final : Nat} {head : List UInt8}
    {chunks : List (List UInt8 × List UInt8)} {last : List UInt8 × List UInt8}
    {socket socket' : Socket} {hp' : HttpResponseParser} {kept' : List UInt8}
    (ends : headerEnd 1 false head = some (final, true))
    (other : final ≠ httpclientParserFirstFinal)
    (are : ∀ chunk ∈ chunks, IsChunk chunk ∧ 0 < hexValue chunk.1)
    (blank : ∀ chunk ∈ chunks, ∀ b ∈ chunk.2, b = 0) (is_last : IsChunk last)
    (zero : hexValue last.1 = 0) (nonempty : ∀ s ∈ socket, s ≠ [])
    (stream : socket.flatten = head ++ encode (chunks ++ [last]))
    (ran : recvHeader env fuel .new [] socket = .ok (some (hp', kept', socket'))) :
    hp'.parser.chunked = true ∧ kept' ++ socket'.flatten = [] ∧ ∀ s ∈ socket', s ≠ [] := by
  have least := final_of_headerEnd ends
  have behind : drains final true (encode (chunks ++ [last])) = true := by
    -- what follows the header is a size line, then blank data or the end of the body
    cases chunks with
    | nil =>
      have no_data : last.2 = [] := List.eq_nil_of_length_eq_zero (is_last.length.trans zero)
      rw [List.nil_append, encode_cons, no_data]
      exact drains_size is_last.is least other drains_end
    | cons chunk chunks =>
      obtain ⟨is, pos⟩ := are chunk (List.mem_cons_self ..)
      have filled : chunk.2 ≠ [] := List.ne_nil_of_length_pos (by rw [is.length]; exact pos)
      rw [List.cons_append, encode_cons]
      exact drains_size is.is least other
        (drains_data (blank chunk (List.mem_cons_self ..)) filled _)
  have start : (HttpResponseParser.new).parser.cs ≠ httpclientParserFirstFinal := by decide
  refine recvHeader_dry nonempty start ?_ ran
  rw [List.nil_append, stream]
  exact (drains_header ends other).trans behind

end ServerFrame.Http
