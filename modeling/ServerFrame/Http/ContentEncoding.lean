import ServerFrame.Http.Connection
import ServerFrame.Stream.ZlibStream

/-!
# Corrupt compressed data

`ZlibStream::Decode` looks at no answer of `inflate` but `Z_STREAM_ERROR`. What that means for its
callers, of which `RecvResponse` is one.
-/
namespace ServerFrame.Http

open ServerFrame.Stream ServerFrame.Stream.ZlibStream

/-- `valid y x`: `y` is one complete stream of the format, and `x` what it holds. Where all calls
return `Z_OK`, the bytes that were written are such a stream, and the result is what it holds. -/
def Reported (valid : List UInt8 → List UInt8 → Prop) (y : List UInt8)
    (out : List Int × List UInt8) : Prop :=
  (∀ ret ∈ out.1, ret = zOk) → valid y out.2

/-- The format that `RecvResponse` undoes. -/
def contentFormat (encoding : List UInt8) : Option Format :=
  if strcasecmp encoding (ascii "gzip") = .eq then some .gzip
  else if strcasecmp encoding (ascii "deflate") = .eq then some .deflate
  else none

def ClientEnv.undo (env : ClientEnv) : Format → List UInt8 → List UInt8
  | .gzip => env.gunzip
  | _ => env.inflate

/-- The connection undoes a content encoding by a stream that is written to once. -/
def UndoesBy (env : ClientEnv) (z : Zlib) (format : Format) : Prop :=
  ∀ body, ∃ N rets, ∀ fuel, N ≤ fuel →
    decode z format {} 4096 fuel [[body]] = some (rets, env.undo format body)

section Results

variable {z : Zlib} {format : Format}

/-- All calls return `Z_OK`, so that corrupt data is reported exactly when there is none. -/
theorem decode_reported_iff {p : Params} (inflating : Inflating z format p)
    {valid : List UInt8 → List UInt8 → Prop}
    (complete : ∀ y x, valid y x → inflating.inflated y = x) {n : Nat} (some_ : 1 ≤ n)
    (writes : List (List (List UInt8))) :
    ∃ N out, (∀ fuel, N ≤ fuel → decode z format p n fuel writes = some out) ∧
      (Reported valid writes.flatten.flatten out ↔ (∃ x, valid writes.flatten.flatten x) ∧
        inflating.inflated (writes.flatten.map cut).flatten =
          inflating.inflated writes.flatten.flatten) := by
  obtain ⟨N, decoded⟩ := decode_spec inflating some_ writes
  refine ⟨N, _, decoded, ?_⟩
  constructor
  · intro reported
    have is := reported fun ret member => List.eq_of_mem_replicate member
    exact ⟨⟨_, is⟩, (complete _ _ is).symm⟩
  · rintro ⟨⟨x, is⟩, same⟩ -
    rw [same, complete _ _ is]
    exact is

/-- The body that is delivered is what the stream gives. -/
theorem undo_eq {env : ClientEnv} (inflating : Inflating z format {}) (undoes : UndoesBy env z format)
    (body : List UInt8) : env.undo format body = inflating.inflated (cut body) := by
  obtain ⟨N, rets, undone⟩ := undoes body
  obtain ⟨N', decoded⟩ := decode_spec inflating (n := 4096) (by decide) [[body]]
  have same := (undone (max N N') (Nat.le_max_left ..)).symm.trans
    (decoded (max N N') (Nat.le_max_right ..))
  have out := congrArg Prod.snd (Option.some.inj same)
  refine out.trans ?_
  simp

theorem recvResponse_undoes {env : ClientEnv} {socket rest : Socket} {hp : HttpResponseParser}
    {body : List UInt8} (received : recvContent env socket = .ok (some (hp, body, rest)))
    (some_ : body ≠ [])
    (encoded : contentFormat (hp.data.getHeader (ascii "content-encoding")) = some format) :
    recvResponse env socket = .ok (some ({ hp.data with body := env.undo format body }, rest)) := by
  rw [recvResponse, received]
  simp only [bind, Except.bind, pure, Except.pure, if_neg some_]
  unfold contentFormat at encoded
  split at encoded
  next gzip =>
    obtain rfl := Option.some.inj encoded
    rw [if_pos gzip]
    rfl
  next other =>
    rw [if_neg other]
    split at encoded
    next deflate =>
      obtain rfl := Option.some.inj encoded
      rw [if_pos deflate]
      rfl
    next => cases encoded

/-- Corrupt data is reported, and no response is delivered whose body is not what was compressed,
exactly when the bytes are one complete stream; where a piece has 2^32 bytes or more, what is left
of the pieces has to hold the same. -/
theorem corrupt_data_reported_iff {p : Params} (inflating : Inflating z format p)
    {valid : List UInt8 → List UInt8 → Prop}
    (complete : ∀ y x, valid y x → inflating.inflated y = x) {n : Nat} (some_ : 1 ≤ n)
    (writes : List (List (List UInt8))) :
    (∃ N out, (∀ fuel, N ≤ fuel → decode z format p n fuel writes = some out) ∧
      (Reported valid writes.flatten.flatten out ↔ (∃ x, valid writes.flatten.flatten x) ∧
        inflating.inflated (writes.flatten.map cut).flatten =
          inflating.inflated writes.flatten.flatten)) ∧
    (p = {} → ∀ env socket rest hp body, UndoesBy env z format →
      recvContent env socket = .ok (some (hp, body, rest)) → body ≠ [] →
      contentFormat (hp.data.getHeader (ascii "content-encoding")) = some format →
      ((∀ response, recvResponse env socket = .ok (some (response, rest)) →
          valid body response.body) ↔
        (∃ x, valid body x) ∧ inflating.inflated (cut body) = inflating.inflated body)) := by
  refine ⟨decode_reported_iff inflating complete some_ writes, ?_⟩
  rintro rfl env socket rest hp body undoes received nonempty encoded
  have delivered := recvResponse_undoes received nonempty encoded
  have same := undo_eq inflating undoes body
  constructor
  · intro valid_response
    have is := valid_response _ delivered
    exact ⟨⟨_, is⟩, by rw [complete _ _ is, ← same]⟩
  · rintro ⟨⟨x, is⟩, cut_same⟩ response delivered'
    have eq := Except.ok.inj (delivered.symm.trans delivered')
    obtain ⟨rfl, -⟩ := Prod.mk.inj (Option.some.inj eq)
    dsimp only
    rw [same, cut_same, complete _ _ is]
    exact is

/-- The byte `a`, written in two pieces. -/
theorem corrupt_data_reported_iff_letter :
    ∃ N out, (∀ fuel, N ≤ fuel → decode sample .deflate {} 2 fuel [[[0x4b, 4]], [[0]]] = some out) ∧
      Reported (fun y x => y = deflated x) [0x4b, 4, 0] out := by
  have complete (y x : List UInt8) (is : y = deflated x) : undeflated y = x := by
    rw [is, undeflated_deflated]
  obtain ⟨⟨N, out, decoded, iff⟩, -⟩ := corrupt_data_reported_iff (sampleInflating .deflate {})
    complete (n := 2) (by decide) [[[0x4b, 4]], [[0]]]
  exact ⟨N, out, decoded, iff.mpr ⟨⟨[97], rfl⟩, rfl⟩⟩

end Results

theorem not_deflated {y x : List UInt8} (is : y = deflated x) :
    y = deflated (undeflated y) := by
  rw [is, undeflated_deflated]

/-- A stream that lacks its last byte, and one with a byte behind it: all calls return `Z_OK`. -/
theorem corrupt_data_accepted :
    decode sample .deflate {} 2 9 [[[0x4b, 4]]] = some ([zOk, zOk], [97]) ∧
    (¬∃ x, [0x4b, 4] = deflated x) ∧
    decode sample .deflate {} 2 9 [[[0x4b, 4, 0]], [[7]]] = some ([zOk, zOk, zOk], [97]) ∧
    ¬∃ x, [0x4b, 4, 0, 7] = deflated x := by
  refine ⟨by decide, ?_, by decide, ?_⟩
  · rintro ⟨x, is⟩
    exact absurd (not_deflated is) (by decide)
  · rintro ⟨x, is⟩
    exact absurd (not_deflated is) (by decide)

end ServerFrame.Http
