import ServerFrame.Http.ContentEncoding
import ServerFrame.Http.ResponseWalk

/-!
# Responses out and in again

A response that `HttpResponse::Dump` writes comes back from `RecvResponse` as it was, if its
header lies in the first read. The header that arrives has the lines of `Dump` as assignments:
of several cookies the last one is left.
-/
namespace ServerFrame.Http

open Segments HttpResponseParser

/-- A response as `Dump` can write it so that its lines can be told apart. -/
structure HttpResponse.Plain (r : HttpResponse) (cookies : List (List UInt8)) : Prop where
  version : r.version = 0x10 ∨ r.version = 0x11
  status : -2 ^ 31 ≤ r.status ∧ r.status < 2 ^ 31
  reason : ∀ b ∈ r.reason, isContent b = true
  sorted : r.headers.Sorted
  fields : ∀ e ∈ r.headers, Field e
  cookies : ∀ cookie ∈ cookies, Value (ascii "Set-Cookie") cookie
  lengths : r.body = [] → ∀ e ∈ r.headers, isLength e.1 = false

namespace HttpResponse

/-- The reason as `Dump` writes it. -/
def phrase (r : HttpResponse) : List UInt8 :=
  if r.reason = [] then ascii (httpStatusToString r.status) else r.reason

/-- The lines behind those of the map. -/
def added (r : HttpResponse) (cookies : List (List UInt8)) : List (List UInt8 × List UInt8) :=
  cookies.map (ascii "Set-Cookie", ·) ++ (connectionField false r.close ++ lengthField r.body)

/-- What `Dump` writes before the body. -/
def head (r : HttpResponse) (cookies : List (List UInt8)) : List UInt8 :=
  versionText r.version ++ 32 :: (printed (r.status % 2 ^ 32).toNat ++ 32 :: (r.phrase ++ 13 :: 10 ::
    (headerLines (printedHeaders false r.headers ++ r.added cookies) ++ [13, 10])))

theorem dump_head (r : HttpResponse) (cookies : List (List UInt8)) :
    r.dump false cookies = r.head cookies ++ r.body := by
  have lines := dump_lines (.response r false cookies)
  have blank : ascii " " = [32] := by decide
  have newline : ascii "\r\n" = [13, 10] := by decide
  rw [Message.dump] at lines
  rw [lines, head, phrase, added, versionText, Message.startLine, Message.start, Message.fields,
    Message.body, blank, newline]
  simp

/-! ## The status line -/

theorem httpStatusToString_cases (status : Int) :
    httpStatusToString status ∈ "<unknown>" :: httpStatusMap.map (·.2) := by
  rw [httpStatusToString]
  cases found : httpStatusMap.find? fun entry => entry.1 = status with
  | none => exact List.mem_cons_self ..
  | some entry =>
    exact List.mem_cons_of_mem _ (List.mem_map_of_mem (List.mem_of_find?_eq_some found))

theorem texts_fine : ∀ text ∈ "<unknown>" :: httpStatusMap.map (·.2),
    ascii text ≠ [] ∧ (ascii text).all isContent = true := by
  decide +kernel

theorem phrase_ne (r : HttpResponse) : r.phrase ≠ [] := by
  rw [phrase]
  split
  next => exact (texts_fine _ (httpStatusToString_cases r.status)).1
  next some_ => exact some_

theorem phrase_content {r : HttpResponse} (reason : ∀ b ∈ r.reason, isContent b = true) :
    ∀ b ∈ r.phrase, isContent b = true := by
  rw [phrase]
  split
  next => exact List.all_eq_true.mp (texts_fine _ (httpStatusToString_cases r.status)).2
  next => exact reason

end HttpResponse

theorem printed_ne (n : Nat) : printed n ≠ [] := by
  simp [printed, Nat.toDigits_ne_nil]

/-- What is known of a digit, with the rows of the table that a status goes through. -/
theorem digit_byte {b : UInt8} (digit : 48 ≤ b.toNat ∧ b.toNat ≤ 57) :
    (isspace b = false ∧ b ≠ 45 ∧ b ≠ 43) ∧ isFirst b = true ∧
      clientTransition 16 b = some (17, [.mark]) ∧ clientTransition 17 b = some (17, []) := by
  have all : (List.range 256).all (fun n => !(48 ≤ n.toUInt8.toNat && n.toUInt8.toNat ≤ 57) ||
      decide ((isspace n.toUInt8 = false ∧ n.toUInt8 ≠ 45 ∧ n.toUInt8 ≠ 43) ∧ isFirst n.toUInt8 = true ∧
        clientTransition 16 n.toUInt8 = some (17, [.mark]) ∧
        clientTransition 17 n.toUInt8 = some (17, []))) = true := by
    decide +kernel
  have here := all_bytes (p := fun b => !(48 ≤ b.toNat && b.toNat ≤ 57) ||
    decide ((isspace b = false ∧ b ≠ 45 ∧ b ≠ 43) ∧ isFirst b = true ∧
      clientTransition 16 b = some (17, [.mark]) ∧ clientTransition 17 b = some (17, []))) all b
  rw [decide_eq_true digit.1, decide_eq_true digit.2, Bool.and_true, Bool.not_true, Bool.false_or] at here
  exact of_decide_eq_true here

/-- A status as it is printed and read: an `int` comes back. -/
theorem atoi_printed {status : Int} (range : -2 ^ 31 ≤ status ∧ status < 2 ^ 31) (rest : List UInt8) :
    atoi (printed (status % 2 ^ 32).toNat ++ 32 :: rest) = status := by
  obtain ⟨n, n_eq⟩ : ∃ n, n = (status % 2 ^ 32).toNat := ⟨_, rfl⟩
  have bound : n < 2 ^ 32 := by omega
  have digits : ∀ b ∈ printed n, (digitValue 10 b).isSome = true := by
    intro b member
    obtain ⟨first, last⟩ := digit_of_mem_printed member
    rw [digitValue_decimal first last]
    rfl
  have value : digitsValue 10 0 (printed n ++ 32 :: rest) = n := by
    have ends : digitValue 10 32 = none := by decide
    rw [digitsValue_append digits, digitsValue_printed, digitsValue, ends]
  cases written : printed n with
  | nil => exact absurd written (printed_ne n)
  | cons d text =>
    have digit := digit_of_mem_printed (n := n) (b := d) (by simp [written])
    obtain ⟨not_space, not_minus, not_plus⟩ := (digit_byte digit).1
    have read : strtol 10 (d :: text ++ 32 :: rest) = n := by
      rw [written, List.cons_append] at value
      have small : min longMax (n : Int) = n := by
        rw [longMax]
        omega
      simp only [strtol, List.cons_append, List.dropWhile_cons, not_space, Bool.false_eq_true, if_false]
      simp [value, not_minus, not_plus, small]
    have whole : (n : Int) = status % 2 ^ 32 := by omega
    rw [← n_eq, written, atoi, read, asInt, whole, Int.bmod_def]
    split
    · omega
    · omega

theorem version_line {version : UInt8} (known : version = 0x10 ∨ version = 0x11) :
    ∃ text, versionText version = 72 :: text ∧ quietPath 8 text = some 15 ∧
      versionOf (versionText version) = some version := by
  rcases known with rfl | rfl
  · exact ⟨ascii "TTP/1.0", by decide, rfl, by decide⟩
  · exact ⟨ascii "TTP/1.1", by decide, rfl, by decide⟩

theorem reason_byte {b : UInt8} (content : isContent b = true) :
    clientTransition 18 b = some (19, [.mark]) ∧ clientTransition 19 b = some (19, []) := by
  have all : (List.range 256).all (fun n => !isContent n.toUInt8 ||
      (clientTransition 18 n.toUInt8 == some (19, [.mark]) &&
        clientTransition 19 n.toUInt8 == some (19, []))) = true := by
    decide +kernel
  have here := all_bytes (p := fun b => !isContent b ||
    (clientTransition 18 b == some (19, [.mark]) && clientTransition 19 b == some (19, []))) all b
  simpa [content] using here

/-- A part of which every byte leads from `cs` to `cs`. -/
theorem quietPath_loop {cs : Nat} {bytes : List UInt8}
    (loops : ∀ b ∈ bytes, clientTransition cs b = some (cs, [])) : quietPath cs bytes = some cs := by
  induction bytes with
  | nil => rfl
  | cons b bytes ih =>
    rw [quietPath_cons (loops b (List.mem_cons_self ..))]
    exact ih fun c member => loops c (List.mem_cons_of_mem _ member)

section StatusLine

variable {buffer rest : List UInt8} {p : Nat}

/-- The parser with its version, status and reason. -/
def HttpResponseParser.lined (hp : HttpResponseParser) (mark cs : Nat) (data : HttpResponse) :
    HttpResponseParser :=
  { hp with parser := { hp.parser with mark := mark, cs := cs }, data := data }

theorem continues_version {hp : HttpResponseParser} {version : UInt8}
    (known : version = 0x10 ∨ version = 0x11) (first : hp.parser.cs = 1)
    (here : buffer = versionText version ++ 32 :: rest) :
    Continues buffer 0 hp ((versionText version).length + 1)
      (hp.lined 0 16 { hp.data with version := version }) := by
  obtain ⟨text, text_eq, path, read⟩ := version_line known
  have whole : buffer.drop 0 = versionText version ++ 32 :: rest := here
  have here₀ : buffer.drop 0 = 72 :: (text ++ 32 :: rest) := by rw [whole, text_eq]; rfl
  have starts : clientTransition hp.parser.cs 72 = some (8, [.mark]) := by
    rw [first]
    rfl
  have opened : Continues buffer 0 hp 1 (hp.lined 0 8 hp.data) :=
    continues_byte here₀ starts (by decide) rfl
  have walked : Continues buffer 1 (hp.lined 0 8 hp.data) (1 + text.length) (hp.lined 0 15 hp.data) :=
    continues_path (drop_succ_of_drop here₀) path
  have behind := drop_part whole
  rw [Nat.zero_add] at behind
  have position : 1 + text.length = (versionText version).length := by
    rw [text_eq, List.length_cons, Nat.add_comm]
  rw [position] at walked
  have taken : buffer.take (versionText version).length = versionText version := by
    rw [here, List.take_left]
  have at_end : (versionText version).length ≤ buffer.length := by
    rw [here, List.length_append]
    exact Nat.le_add_right ..
  have reported : act buffer (versionText version).length (hp.lined 0 15 hp.data) .httpVersion =
      .ok (hp.lined 0 15 { hp.data with version := version }) := by
    have mark_eq : (hp.lined 0 15 hp.data).parser.mark = 0 := rfl
    rw [act, mark_eq, List.drop_zero, client_len (Nat.zero_le _), Nat.sub_zero,
      onResponseVersion_eq at_end, taken, read]
    rfl
  have blank : clientTransition 15 32 = some (16, [.httpVersion]) := rfl
  have closed : Continues buffer (versionText version).length (hp.lined 0 15 hp.data)
      ((versionText version).length + 1) (hp.lined 0 16 { hp.data with version := version }) := by
    refine continues_byte (s := hp.lined 0 15 hp.data) behind blank (by decide)
      (t := hp.lined 0 15 { hp.data with version := version }) ?_
    exact congrArg (· >>= fun hp => [].foldlM (act buffer _) hp) reported
  exact (opened.trans walked).trans closed

theorem continues_status {s : HttpResponseParser} {status : Int} (mark : Nat)
    (range : -2 ^ 31 ≤ status ∧ status < 2 ^ 31)
    (here : buffer.drop p = printed (status % 2 ^ 32).toNat ++ 32 :: rest) :
    Continues buffer p (s.lined mark 16 s.data) (p + (printed (status % 2 ^ 32).toNat).length + 1)
      (s.lined p 18 { s.data with status := status }) := by
  have read := atoi_printed range rest
  have digit : ∀ b ∈ printed (status % 2 ^ 32).toNat, 48 ≤ b.toNat ∧ b.toNat ≤ 57 :=
    fun b member => digit_of_mem_printed member
  have behind := drop_part here
  rw [← here] at read
  cases written : printed (status % 2 ^ 32).toNat with
  | nil => exact absurd written (printed_ne _)
  | cons d text =>
    rw [written] at here digit behind
    have opened : Continues buffer p (s.lined mark 16 s.data) (p + 1) (s.lined p 17 s.data) :=
      continues_byte here (digit_byte (digit d (List.mem_cons_self ..))).2.2.1
        (by decide : ClientAct.done ∉ [ClientAct.mark]) rfl
    have path : quietPath 17 text = some 17 :=
      quietPath_loop fun b member => (digit_byte (digit b (List.mem_cons_of_mem _ member))).2.2.2
    have walked : Continues buffer (p + 1) (s.lined p 17 s.data) (p + 1 + text.length)
        (s.lined p 17 s.data) :=
      continues_path (drop_succ_of_drop here) path
    have position : p + 1 + text.length = p + (d :: text).length := by
      rw [List.length_cons]
      omega
    rw [position] at walked
    have blank : clientTransition 17 32 = some (18, [.statusCode]) := rfl
    have closed : Continues buffer (p + (d :: text).length) (s.lined p 17 s.data)
        (p + (d :: text).length + 1) (s.lined p 18 { s.data with status := status }) := by
      refine continues_byte (s := s.lined p 17 s.data) behind blank (by decide)
        (t := s.lined p 17 { s.data with status := status }) ?_
      have stored : onResponseStatus (s.lined p 17 s.data) (buffer.drop p) =
          s.lined p 17 { s.data with status := status } := by
        rw [onResponseStatus, read]
        rfl
      exact congrArg Except.ok stored
    exact (opened.trans walked).trans closed

theorem continues_reason {s : HttpResponseParser} {reason : List UInt8} (mark : Nat)
    (some_ : reason ≠ []) (content : ∀ b ∈ reason, isContent b = true)
    (small : buffer.length ≤ HttpRequestParser.maxSize)
    (here : buffer.drop p = reason ++ 13 :: 10 :: rest) :
    Continues buffer p (s.lined mark 18 s.data) (p + reason.length + 1 + 1)
      (s.lined p 20 { s.data with reason := reason }) := by
  have behind := drop_part here
  have line := drop_succ_of_drop behind
  have at_end := length_of_drop here some_
  have reported : act buffer (p + reason.length) (s.lined p 19 s.data) .reasonPhrase =
      .ok (s.lined p 19 { s.data with reason := reason }) := by
    have mark_eq : (s.lined p 19 s.data).parser.mark = p := rfl
    rw [act, mark_eq, client_len (Nat.le_add_right ..), Nat.add_sub_cancel_left, onResponseReason, here,
      client_str (by omega), List.take_left]
    rfl
  have closing : clientTransition 19 13 = some (24, [.reasonPhrase]) ∧
      clientTransition 24 10 = some (20, []) := ⟨rfl, rfl⟩
  cases reason with
  | nil => exact absurd rfl some_
  | cons b reason =>
    have opened : Continues buffer p (s.lined mark 18 s.data) (p + 1) (s.lined p 19 s.data) :=
      continues_byte here (reason_byte (content b (List.mem_cons_self ..))).1
        (by decide : ClientAct.done ∉ [ClientAct.mark]) rfl
    have path : quietPath 19 reason = some 19 :=
      quietPath_loop fun c member => (reason_byte (content c (List.mem_cons_of_mem _ member))).2
    have walked : Continues buffer (p + 1) (s.lined p 19 s.data) (p + 1 + reason.length)
        (s.lined p 19 s.data) :=
      continues_path (drop_succ_of_drop here) path
    have position : p + 1 + reason.length = p + (b :: reason).length := by
      rw [List.length_cons]
      omega
    rw [position] at walked
    have closed : Continues buffer (p + (b :: reason).length) (s.lined p 19 s.data)
        (p + (b :: reason).length + 1) (s.lined p 24 { s.data with reason := b :: reason }) := by
      refine continues_byte (s := s.lined p 19 s.data) behind closing.1 (by decide)
        (t := s.lined p 19 { s.data with reason := b :: reason }) ?_
      exact congrArg (· >>= fun hp => [].foldlM (act buffer _) hp) reported
    have ended : Continues buffer (p + (b :: reason).length + 1)
        (s.lined p 24 { s.data with reason := b :: reason }) (p + (b :: reason).length + 1 + 1)
        (s.lined p 20 { s.data with reason := b :: reason }) :=
      continues_byte (s := s.lined p 24 { s.data with reason := b :: reason }) line closing.2
        List.not_mem_nil rfl
    exact ((opened.trans walked).trans closed).trans ended

end StatusLine

/-! ## The header -/

section Header

variable {r : HttpResponse} {cookies : List (List UInt8)}

theorem Value.of_tested {name value : List UInt8} (content : value.all isContent = true)
    (first : value.head?.any isFirst = true) : Value name value where
  content := fun _ member => List.all_eq_true.mp content _ member
  first := fun b is => by
    rw [Option.mem_def.mp is] at first
    exact first
  empty := fun empty => by
    rw [empty] at first
    cases first

theorem Value.of_connection (close : Bool) :
    Value (ascii "connection") (ascii (if close then "close" else "keep-alive")) := by
  cases close
  · exact .of_tested rfl rfl
  · exact .of_tested rfl rfl

theorem Value.of_length (n : Nat) : Value (ascii "content-length") (printed n) := by
  have digit : ∀ b ∈ printed n, isFirst b = true := fun b member =>
    (digit_byte (digit_of_mem_printed member)).2.1
  refine ⟨fun b member => ?_, fun b first => digit b (List.mem_of_mem_head? first),
    fun empty => absurd empty (printed_ne n)⟩
  have first := digit b member
  rw [isFirst, Bool.and_eq_true, Bool.and_eq_true, Bool.and_eq_true, Bool.and_eq_true] at first
  exact first.1.1.1.1

/-- The names that `Dump` writes by itself. -/
theorem field_of_value {name value : List UInt8} (is : Value name value)
    (known : name ∈ [ascii "Set-Cookie", ascii "connection", ascii "content-length"]) :
    Field (name, value) := by
  have all : ∀ name ∈ [ascii "Set-Cookie", ascii "connection", ascii "content-length"],
      name ≠ [] ∧ (∀ b ∈ name, b ∈ Rules.token) ∧
        strcasecmp name (ascii "transfer-encoding") ≠ .eq := by
    decide +kernel
  obtain ⟨named, token, other⟩ := all name known
  exact ⟨is, named, token, other⟩

/-- Every line that `Dump` writes is a field. -/
theorem fields_of_plain (plain : r.Plain cookies) :
    ∀ e ∈ printedHeaders false r.headers ++ r.added cookies, Field e := by
  intro e member
  rw [HttpResponse.added, List.mem_append, List.mem_append, List.mem_append] at member
  rcases member with member | member | member | member
  · exact plain.fields e (List.mem_of_mem_filter member)
  · obtain ⟨cookie, is_cookie, rfl⟩ := List.mem_map.mp member
    exact field_of_value (plain.cookies cookie is_cookie) (by simp)
  · obtain rfl := List.mem_singleton.mp member
    exact field_of_value (.of_connection r.close) (by simp)
  · rw [lengthField] at member
    split at member
    next => cases member
    next =>
      obtain rfl := List.mem_singleton.mp member
      exact field_of_value (.of_length _) (by simp)

/-- The response that the parser makes of the status line. -/
def HttpResponse.started (r : HttpResponse) : HttpResponse :=
  { HttpResponse.new with version := r.version, status := r.status, reason := r.phrase }

/-- The response that it makes of the header. -/
def HttpResponse.parsed (r : HttpResponse) (cookies : List (List UInt8)) : HttpResponse :=
  r.started.setHeaders (printedHeaders false r.headers ++ r.added cookies)

/-- The parser takes the header and stops behind it. -/
theorem exec_head (plain : r.Plain cookies) {buffer more : List UInt8}
    (here : buffer = r.head cookies ++ more) (small : buffer.length ≤ HttpRequestParser.maxSize) :
    ∃ hp', exec buffer 0 HttpResponseParser.new.enter buffer = .ok (hp', (r.head cookies).length) ∧
      Within ((r.head cookies).length - 1) hp'.parser ∧
      hp'.parser.cs = httpclientParserFirstFinal ∧ hp'.parser.bodyStart = (r.head cookies).length ∧
      hp'.parser.chunked = false ∧ hp'.data = r.parsed cookies ∧ hp'.error = 0 := by
  obtain ⟨hp₀, hp₀_eq⟩ : ∃ hp₀, hp₀ = HttpResponseParser.new.enter := ⟨_, rfl⟩
  have status_here : buffer = versionText r.version ++ 32 :: (printed (r.status % 2 ^ 32).toNat ++
      32 :: (r.phrase ++ 13 :: 10 :: (headerLines (printedHeaders false r.headers ++ r.added cookies) ++
        13 :: 10 :: more))) := by
    rw [here, HttpResponse.head]
    simp
  have state₀ : hp₀.parser.cs = 1 := by
    rw [hp₀_eq]
    rfl
  have first := continues_version plain.version state₀ status_here
  have here₁ := drop_succ_of_drop (drop_part (p := 0) status_here)
  rw [Nat.zero_add] at here₁
  have second := continues_status (s := hp₀.lined 0 16 { hp₀.data with version := r.version }) 0
    plain.status here₁
  have here₂ := drop_succ_of_drop (drop_part here₁)
  have third := continues_reason (s := hp₀.lined 0 16
    { hp₀.data with version := r.version, status := r.status })
    ((versionText r.version).length + 1) (HttpResponse.phrase_ne r)
    (HttpResponse.phrase_content plain.reason) small here₂
  have here₃ := drop_succ_of_drop (drop_succ_of_drop (drop_part here₂))
  obtain ⟨start, start_eq⟩ : ∃ start, start = (versionText r.version).length + 1 +
    (printed (r.status % 2 ^ 32).toNat).length + 1 + r.phrase.length + 1 + 1 := ⟨_, rfl⟩
  have to_lines := (first.trans second).trans third
  rw [← start_eq] at here₃ to_lines
  have line : AtLine start r.started
      (hp₀.lined ((versionText r.version).length + 1 + (printed (r.status % 2 ^ 32).toNat).length + 1) 20
        { hp₀.data with version := r.version, status := r.status, reason := r.phrase }) := by
    rw [hp₀_eq]
    refine ⟨.inl rfl, ⟨?_, Nat.zero_le _, Nat.zero_le _⟩, rfl, rfl, rfl⟩
    show (versionText r.version).length + 1 + (printed (r.status % 2 ^ 32).toNat).length + 1 ≤ start
    omega
  obtain ⟨hp₁, to_end, line₁⟩ := continues_fields line (fields_of_plain plain) small here₃
  obtain ⟨hp₂, ended, within, cs, bodyStart, chunked, data, error⟩ :=
    exec_empty_line line₁ (drop_part here₃)
  have position : start + (headerLines (printedHeaders false r.headers ++ r.added cookies)).length + 2 =
      (r.head cookies).length := by
    rw [HttpResponse.head, start_eq]
    simp only [List.length_append, List.length_cons, List.length_nil]
    omega
  rw [position] at ended bodyStart
  refine ⟨hp₂, ?_, ?_, cs, bodyStart, chunked, data, error⟩
  · have whole : exec buffer 0 hp₀ (buffer.drop 0) = _ := to_lines.trans to_end
    rw [ended, List.drop_zero, hp₀_eq] at whole
    exact whole
  · rwa [show (r.head cookies).length - 1 = start +
      (headerLines (printedHeaders false r.headers ++ r.added cookies)).length + 1 by omega]

theorem parsed_eq (r : HttpResponse) (cookies : List (List UInt8)) :
    r.parsed cookies = { r.started with headers := (r.parsed cookies).headers } := by
  have frame : ∀ (entries : List (List UInt8 × List UInt8)) (q : HttpResponse),
      q.setHeaders entries = { q with headers := (q.setHeaders entries).headers } := by
    intro entries
    induction entries with
    | nil => exact fun _ => rfl
    | cons e entries ih => exact fun q => ih (q.setHeader e.1 e.2)
  exact frame _ _

/-- The lines are assignments to the map. -/
theorem parsed_headers_eq (plain : r.Plain cookies) :
    (r.parsed cookies).headers =
      (r.added cookies).foldl (fun m e => MapType.set e.1 e.2 m) (printedHeaders false r.headers) := by
  have assigned : ∀ (entries : List (List UInt8 × List UInt8)) (q : HttpResponse),
      (q.setHeaders entries).headers = entries.foldl (fun m e => MapType.set e.1 e.2 m) q.headers := by
    intro entries
    induction entries with
    | nil => exact fun _ => rfl
    | cons e entries ih => exact fun q => ih (q.setHeader e.1 e.2)
  have sorted : MapType.Sorted ([] ++ printedHeaders false r.headers) := plain.sorted.filter _
  have alone : (printedHeaders false r.headers).foldl (fun m e => MapType.set e.1 e.2 m) [] =
      printedHeaders false r.headers := foldl_set_sorted sorted
  have empty : r.started.headers = [] := rfl
  rw [HttpResponse.parsed, assigned, List.foldl_append, empty, alone]

theorem find_printedHeaders {name : List UInt8} (m : MapType)
    (other : folded (ascii "connection") ≠ folded name) :
    (printedHeaders false m).find name = m.find name := by
  induction m with
  | nil => rfl
  | cons e m ih =>
    rw [printedHeaders, List.filter_cons, Bool.false_or]
    split
    next => rw [MapType.find_cons, MapType.find_cons]; split <;> [rfl; exact ih]
    next is =>
      have same : strcasecmp e.1 (ascii "connection") = .eq := by simpa using is
      rw [MapType.find_cons, if_neg (strcasecmp_eq_iff.mp same ▸ other)]
      exact ih

/-- The length that arrives is that of the body. -/
theorem find_parsed_length (plain : r.Plain cookies) :
    (r.parsed cookies).headers.find (ascii "content-length") =
      if r.body = [] then none else some (printed r.body.length) := by
  have apart : folded (ascii "Set-Cookie") ≠ folded (ascii "content-length") ∧
      folded (ascii "connection") ≠ folded (ascii "content-length") := by decide
  rw [parsed_headers_eq plain, HttpResponse.added, ← List.append_assoc, List.foldl_append, lengthField]
  split
  next empty =>
    rw [List.foldl_nil, find_foldl_set, find_printedHeaders _ apart.2]
    · have none_there : ∀ e ∈ r.headers, ¬ (strcasecmp e.1 (ascii "content-length") == .eq) = true :=
        fun e member => Bool.eq_false_iff.mp (plain.lengths empty e member)
      rw [MapType.find, List.find?_eq_none.mpr none_there, Option.map_none]
    · intro e member
      rcases List.mem_append.mp member with member | member
      · obtain ⟨cookie, -, rfl⟩ := List.mem_map.mp member
        exact apart.1
      · obtain rfl := List.mem_singleton.mp member
        exact apart.2
  next => rw [List.foldl_cons, List.foldl_nil, MapType.find_set, if_pos rfl]

/-- So does the encoding. -/
theorem getHeader_parsed_encoding (plain : r.Plain cookies) :
    (r.parsed cookies).getHeader (ascii "content-encoding") = r.getHeader (ascii "content-encoding") := by
  have apart : folded (ascii "Set-Cookie") ≠ folded (ascii "content-encoding") ∧
      folded (ascii "connection") ≠ folded (ascii "content-encoding") ∧
      folded (ascii "content-length") ≠ folded (ascii "content-encoding") := by decide
  rw [HttpResponse.getHeader, HttpResponse.getHeader, parsed_headers_eq plain, find_foldl_set,
    find_printedHeaders _ apart.2.1]
  intro e member
  rw [HttpResponse.added, List.mem_append, List.mem_append] at member
  rcases member with member | member | member
  · obtain ⟨cookie, -, rfl⟩ := List.mem_map.mp member
    exact apart.1
  · obtain rfl := List.mem_singleton.mp member
    exact apart.2.1
  · rw [lengthField] at member
    split at member
    next => cases member
    next =>
      obtain rfl := List.mem_singleton.mp member
      exact apart.2.2

/-- `Execute` on a buffer that begins with the header. -/
theorem execute_head (plain : r.Plain cookies) {buffer front : List UInt8}
    (here : buffer = r.head cookies ++ front) (small : buffer.length ≤ HttpRequestParser.maxSize) :
    ∃ hp, HttpResponseParser.new.execute buffer false = .ok (hp, front) ∧
      hp.parser.cs = httpclientParserFirstFinal ∧ hp.parser.chunked = false ∧
      hp.data = r.parsed cookies ∧ hp.error = 0 := by
  obtain ⟨hp, executed, within, cs, bodyStart, chunked, data, error⟩ := exec_head plain here small
  have head_pos : 0 < (r.head cookies).length := by
    rw [HttpResponse.head, List.length_append, List.length_cons]
    omega
  have head_le : (r.head cookies).length ≤ buffer.length := by
    rw [here, List.length_append]
    exact Nat.le_add_right ..
  have entered : exec buffer 0
      (if false then { HttpResponseParser.new with parser := .init } else HttpResponseParser.new).enter
        buffer = .ok (hp, (r.head cookies).length) := executed
  have ran := execute_of_exec entered (List.ne_nil_of_length_pos (by omega)) head_le
    (within.mono (by omega)) (by omega)
  rw [here, List.drop_left, ← here] at ran
  exact ⟨_, ran, cs, chunked, data, error⟩

/-- The length that is announced. -/
theorem getContentLength_parsed {lexicalCast : List UInt8 → Option UInt64} {hp : HttpResponseParser}
    (plain : r.Plain cookies) (data : hp.data = r.parsed cookies) (small : r.body.length < 2 ^ 31)
    (cast : lexicalCast (printed r.body.length) = some r.body.length.toUInt64) :
    toInt64 (hp.getContentLength lexicalCast) = r.body.length := by
  rw [HttpResponseParser.getContentLength, HttpResponse.getHeaderAs, data, find_parsed_length plain]
  by_cases empty : r.body = []
  · have zero : toInt64 0 = 0 := by decide
    rw [if_pos empty, empty]
    exact zero
  · simp only [if_neg empty, cast, Option.getD_some]
    exact toInt64_toUInt64 small

end Header

/-! ## The round trip -/

/-- The body as `RecvResponse` hands it on. -/
def ClientEnv.decoded (env : ClientEnv) (encoding body : List UInt8) : List UInt8 :=
  if body = [] then [] else (contentFormat encoding).elim body fun format => env.undo format body

/-- The response comes back, with its content encoding undone; `Dump` has added headers. -/
structure HttpResponse.GivesBack (env : ClientEnv) (r : HttpResponse) (cookies : List (List UInt8))
    (response : HttpResponse) : Prop where
  status : response.status = r.status
  version : response.version = r.version
  reason : response.reason = r.phrase
  body : response.body = env.decoded (r.getHeader (ascii "content-encoding")) r.body
  headers : response.headers =
    (r.added cookies).foldl (fun m e => MapType.set e.1 e.2 m) (printedHeaders false r.headers)

/-- What `RecvResponse` does with the body it has received. -/
theorem recvResponse_decoded {env : ClientEnv} {socket rest : Socket} {hp : HttpResponseParser}
    {body : List UInt8} (received : recvContent env socket = .ok (some (hp, body, rest)))
    (fresh : hp.data.body = []) :
    recvResponse env socket = .ok (some ({ hp.data with
      body := env.decoded (hp.data.getHeader (ascii "content-encoding")) body }, rest)) := by
  by_cases empty : body = []
  · rw [recvResponse, received]
    simp only [bind, Except.bind, pure, Except.pure, if_pos empty, ClientEnv.decoded]
    rw [← fresh]
  · cases encoded : contentFormat (hp.data.getHeader (ascii "content-encoding")) with
    | some format =>
      rw [recvResponse_undoes received empty encoded, ClientEnv.decoded, if_neg empty, encoded]
      rfl
    | none =>
      rw [contentFormat] at encoded
      split at encoded
      next => cases encoded
      next not_gzip =>
        split at encoded
        next => cases encoded
        next not_deflate =>
          rw [recvResponse, received]
          simp only [bind, Except.bind, pure, Except.pure, if_neg empty, ClientEnv.decoded, contentFormat,
            if_neg not_gzip, if_neg not_deflate, Option.elim_none]

/-- The body, of which `front` came with the header. -/
theorem recvBody_rest {front later after : List UInt8} {rest : Socket} (nonempty : ∀ t ∈ rest, t ≠ [])
    (stream : rest.flatten = later ++ after) (small : (front ++ later).length < 2 ^ 31) :
    recvBody (front ++ later).length front rest =
      some (front ++ later, dropFront later.length rest) := by
  rw [List.length_append] at small
  rw [recvBody, List.length_append]
  by_cases more : front.length < front.length + later.length
  · have same : toInt later.length = later.length := by
      unfold toInt
      exact Int.bmod_eq_of_le (by omega) (by omega)
    have positive : 0 < toInt later.length := by omega
    have there : later.length ≤ rest.flatten.length := by
      rw [stream, List.length_append]
      exact Nat.le_add_right ..
    rw [if_pos more, Nat.add_sub_cancel_left, readFixSize,
      readFixLoop_eq nonempty (Nat.le_refl _) there]
    simp only [if_neg (Int.not_le.mpr positive), Option.map_some, stream, List.take_left]
  · obtain rfl : later = [] := List.eq_nil_of_length_eq_zero (by omega)
    rw [if_neg more, List.length_nil, dropFront_zero nonempty]
    simp

/-- **A response that is dumped is received as it was**: where its header lies in the first read,
which does not go past its body, and whatever the segments of the body are, `RecvResponse` gives
back status, version, reason, headers and body and leaves alone what follows. -/
theorem recvResponse_dump {env : ClientEnv} {r : HttpResponse} {cookies : List (List UInt8)}
    {s after : List UInt8} {socket : Socket} (plain : r.Plain cookies)
    (stream : (s :: socket).flatten = r.dump false cookies ++ after)
    (nonempty : ∀ t ∈ s :: socket, t ≠ [])
    (whole : (r.head cookies).length ≤ min env.bufferSize s.length)
    (inside : min env.bufferSize s.length ≤ (r.dump false cookies).length)
    (small : r.body.length < 2 ^ 31)
    (cast : env.lexicalCast (printed r.body.length) = some r.body.length.toUInt64) :
    ∃ response, recvResponse env (s :: socket) = .ok (some (response,
        dropFront (r.dump false cookies).length (s :: socket))) ∧
      r.GivesBack env cookies response := by
  have head_pos : 0 < (r.head cookies).length := by
    rw [HttpResponse.head, List.length_append, List.length_cons]
    omega
  have room : 0 < env.bufferSize := by omega
  obtain ⟨got, rest, filled, brings⟩ := refill_nil room nonempty
  have got_length := brings.length
  have fits : got.length ≤ env.bufferSize := by omega
  rw [r.dump_head, List.append_assoc, brings.flatten] at stream
  rw [r.dump_head, List.length_append, ← got_length] at inside
  rw [← got_length] at whole
  -- the first read brings the header and a part of the body
  obtain ⟨front, rfl⟩ : r.head cookies <+: got :=
    List.prefix_of_prefix_length_le (List.prefix_append ..) (stream ▸ List.prefix_append ..) whole
  rw [List.append_assoc] at stream
  have rest_stream : front ++ rest.flatten = r.body ++ after := List.append_cancel_left stream
  rw [List.length_append] at inside fits
  obtain ⟨later, body_eq⟩ : front <+: r.body :=
    List.prefix_of_prefix_length_le (rest_stream ▸ List.prefix_append front rest.flatten)
      (List.prefix_append r.body after) (by omega)
  have later_stream : rest.flatten = later ++ after := by
    rw [← body_eq, List.append_assoc] at rest_stream
    exact List.append_cancel_left rest_stream
  have held : (r.head cookies ++ front).length ≤ env.bufferSize := by rwa [List.length_append]
  obtain ⟨hp, executed, cs, chunked, data, error⟩ := execute_head plain rfl (small_of_fits held)
  have alive : hp.parser.cs ≠ httpclientParserError := by
    rw [cs]
    decide
  have some_room : front.length ≠ env.bufferSize := by omega
  have parsed := parse_of_execute executed alive some_room
  have finished : hp.isFinished = true := by rw [HttpResponseParser.isFinished, cs, beq_self_eq_true]
  have header : recvHeader env ((s :: socket).flatten.length + 1) .new [] (s :: socket) =
      .ok (some (hp, front, rest)) := by
    rw [recvHeader, filled]
    simp only [parsed, if_pos error, bind, Except.bind, finished, if_true]
    rfl
  have announced := getContentLength_parsed plain data small cast
  have left_eq : dropFront later.length rest = dropFront (r.dump false cookies).length (s :: socket) := by
    rw [brings.rest_eq, dropFront_dropFront, r.dump_head, ← body_eq, List.length_append,
      List.length_append, List.length_append, Nat.add_assoc]
  have received : recvContent env (s :: socket) =
      .ok (some (hp, r.body, dropFront (r.dump false cookies).length (s :: socket))) := by
    rw [recvContent, header, ← left_eq]
    simp only [bind, Except.bind, pure, Except.pure, chunked, Bool.false_eq_true, if_false, announced]
    by_cases empty : r.body = []
    · obtain ⟨-, rfl⟩ := List.append_eq_nil_iff.mp (body_eq.trans empty)
      rw [empty, if_neg (by simp), List.length_nil, dropFront_zero brings.nonempty]
    · have positive : 0 < (r.body.length : Int) :=
        Int.natCast_pos.mpr (List.length_pos_iff.mpr empty)
      have arrives := recvBody_rest brings.nonempty later_stream (body_eq ▸ small)
      rw [body_eq] at arrives
      rw [if_pos positive, Int.toNat_natCast, arrives]
      rfl
  have fresh : hp.data.body = [] := by
    rw [data, parsed_eq]
    rfl
  have headers := parsed_headers_eq plain
  refine ⟨_, recvResponse_decoded received fresh, ?_⟩
  rw [data, getHeader_parsed_encoding plain]
  rw [parsed_eq] at headers ⊢
  exact ⟨rfl, rfl, rfl, rfl, headers⟩

/-- Of the cookies the last one is left. -/
theorem last_cookie_left {env : ClientEnv} {r response : HttpResponse} {cookies : List (List UInt8)}
    (back : r.GivesBack env cookies response) (cookie : List UInt8) (last : cookies.getLast? = some cookie) :
    response.headers.find (ascii "set-cookie") = some cookie := by
  have apart : folded (ascii "connection") ≠ folded (ascii "set-cookie") ∧
      folded (ascii "content-length") ≠ folded (ascii "set-cookie") := by decide
  have same : folded (ascii "Set-Cookie") = folded (ascii "set-cookie") := by decide
  obtain ⟨front, rfl⟩ := List.getLast?_eq_some_iff.mp last
  rw [back.headers, HttpResponse.added, List.foldl_append, find_foldl_set]
  · rw [List.map_append, List.foldl_append, List.map_singleton, List.foldl_cons, List.foldl_nil,
      MapType.find_set, if_pos same]
  · intro e member
    rcases List.mem_append.mp member with member | member
    · obtain rfl := List.mem_singleton.mp member
      exact apart.1
    · rw [lengthField] at member
      split at member
      next => cases member
      next =>
        obtain rfl := List.mem_singleton.mp member
        exact apart.2

def browsing : ClientEnv := { session with gunzip := id, inflate := id }

/-- What a handler has made, with two cookies. -/
def missing : HttpResponse where
  status := 404
  version := 0x11
  close := false
  reason := []
  body := ascii "gone"
  headers := [(ascii "Server", ascii "ygw")]

/-- The body arrives in three parts, and what follows stays on the connection. -/
theorem recvResponse_dump_missing :
    ∃ response, recvResponse browsing [missing.head [ascii "a=1", ascii "b=2"] ++ ascii "g",
        ascii "o", ascii "neHTTP"] = .ok (some (response, [ascii "HTTP"])) ∧
      missing.GivesBack browsing [ascii "a=1", ascii "b=2"] response := by
  have fields : ∀ e ∈ missing.headers, Field e := by
    intro e member
    obtain rfl := List.mem_singleton.mp member
    exact ⟨.of_tested rfl rfl, by decide, by decide +kernel, by decide⟩
  have cookies : ∀ cookie ∈ [ascii "a=1", ascii "b=2"], Value (ascii "Set-Cookie") cookie := by
    intro cookie member
    have known : cookie = ascii "a=1" ∨ cookie = ascii "b=2" := by simpa using member
    rcases known with rfl | rfl
    · exact .of_tested rfl rfl
    · exact .of_tested rfl rfl
  have plain : missing.Plain [ascii "a=1", ascii "b=2"] :=
    { version := .inr rfl
      status := by decide
      reason := nofun
      sorted := List.pairwise_singleton ..
      fields := fields
      cookies := cookies
      lengths := fun empty => absurd empty (by decide) }
  have sent : dropFront (missing.dump false [ascii "a=1", ascii "b=2"]).length
        [missing.head [ascii "a=1", ascii "b=2"] ++ ascii "g", ascii "o", ascii "neHTTP"] =
          [ascii "HTTP"] ∧
      [missing.head [ascii "a=1", ascii "b=2"] ++ ascii "g", ascii "o", ascii "neHTTP"].flatten =
        missing.dump false [ascii "a=1", ascii "b=2"] ++ ascii "HTTP" ∧
      (∀ t ∈ [missing.head [ascii "a=1", ascii "b=2"] ++ ascii "g", ascii "o", ascii "neHTTP"], t ≠ []) ∧
      (missing.head [ascii "a=1", ascii "b=2"]).length ≤
        min browsing.bufferSize (missing.head [ascii "a=1", ascii "b=2"] ++ ascii "g").length ∧
      min browsing.bufferSize (missing.head [ascii "a=1", ascii "b=2"] ++ ascii "g").length ≤
        (missing.dump false [ascii "a=1", ascii "b=2"]).length := by
    decide +kernel
  obtain ⟨left, stream, nonempty, whole, inside⟩ := sent
  have received := recvResponse_dump plain stream nonempty whole inside (by decide) (by decide)
  rwa [left] at received

end ServerFrame.Http
