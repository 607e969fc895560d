import Mathlib.Algebra.Ring.Nat
import Mathlib.Data.List.Basic

/-!
# Codecs that are called with some input and some space

A codec is a state and a call: it is given input and room for output, and says how much of the
input it has taken and what it has put out. A caller that gets no room back calls it again with
what is left of the input. What all calls of a session put out is its output, whatever room they
were given.
-/
namespace Codec

variable {σ : Type*}

/-- What a call comes to. -/
structure Called (σ : Type*) where
  ret : Int
  consumed : Nat
  output : List UInt8
  next : σ

/-- A call: the state, whether the input ends with this one, the input and the room for output. -/
abbrev Call (σ : Type*) := σ → Bool → List UInt8 → Nat → Called σ

/-- Calls for one piece of input up to one that leaves room, and their output. -/
inductive Drained (call : Call σ) (finish : Bool) : σ → List UInt8 → List UInt8 → σ → Prop
  | last {s : σ} {input : List UInt8} {space : Nat} (some_ : 0 < space)
      (room : (call s finish input space).output.length < space) :
      Drained call finish s input (call s finish input space).output (call s finish input space).next
  | more {s t : σ} {input out : List UInt8} {space : Nat} (some_ : 0 < space)
      (full : (call s finish input space).output.length = space)
      (rest : Drained call finish (call s finish input space).next
        (input.drop (call s finish input space).consumed) out t) :
      Drained call finish s input ((call s finish input space).output ++ out) t

/-- Piece after piece. -/
inductive Feeds (call : Call σ) : σ → List (List UInt8) → List UInt8 → σ → Prop
  | nil (s : σ) : Feeds call s [] [] s
  | cons {s t u : σ} {piece out out' : List UInt8} {pieces : List (List UInt8)}
      (first : Drained call false s piece out t) (rest : Feeds call t pieces out' u) :
      Feeds call s (piece :: pieces) (out ++ out') u

/-- A session: pieces of input, and then the end of it. -/
def Whole (call : Call σ) (s : σ) (pieces : List (List UInt8)) (out : List UInt8) : Prop :=
  ∃ front back t u, Feeds call s pieces front t ∧ Drained call true t [] back u ∧
    out = front ++ back

theorem Feeds.append {call : Call σ} {s t u : σ} {pieces pieces' : List (List UInt8)}
    {out out' : List UInt8} (first : Feeds call s pieces out t)
    (rest : Feeds call t pieces' out' u) : Feeds call s (pieces ++ pieces') (out ++ out') u := by
  induction first with
  | nil s => exact rest
  | cons drained _ ih =>
    rw [List.append_assoc]
    exact .cons drained (ih rest)

/-! ## What a caller may rely on -/

/-- `ready s finish` says that the codec may be called so; `pending` bounds the output that is
still to come. `failed` is the answer to a call that may not be made. -/
structure Streaming (call : Call σ) (failed : Int) (ready : σ → Bool → Prop)
    (pending : σ → Bool → List UInt8 → Nat) : Prop where
  finish : ∀ s, ready s false → ready s true
  next : ∀ s b input space, ready s b → ready (call s b input space).next b
  accepted : ∀ s b input space, ready s b → (call s b input space).ret ≠ failed
  fits : ∀ s b input space, (call s b input space).output.length ≤ space
  bounded : ∀ s b input space, ready s b → (call s b input space).output.length +
    pending (call s b input space).next b (input.drop (call s b input space).consumed) ≤
      pending s b input

/-! ## Codecs that put out what they can -/

section Available

variable (available : Bool → List UInt8 → List UInt8)

/-- The codec takes all its input at once. What it can put out depends on the input so far, of
which it keeps count, and on whether it was the last. -/
def ofAvailable : Call (List UInt8 × Nat) := fun (given, made) finish input space =>
  let output := ((available finish (given ++ input)).drop made).take space
  ⟨0, input.length, output, (given ++ input, made + output.length)⟩

variable {available}

theorem streaming_ofAvailable :
    Streaming (ofAvailable available) (-2) (fun _ _ => True)
      (fun s finish input => (available finish (s.1 ++ input)).length - s.2) where
  finish _ _ := trivial
  next _ _ _ _ _ := trivial
  accepted s b input space _ := by
    have quiet : (ofAvailable available s b input space).ret = 0 := rfl
    rw [quiet]
    decide
  fits _ _ _ _ := List.length_take_le _ _
  bounded s b input space _ := by
    simp only [ofAvailable, List.drop_length, List.append_nil, List.length_take, List.length_drop]
    omega

/-- A piece is drained when all that is available has been put out. -/
theorem drained_ofAvailable {finish : Bool} {s t : List UInt8 × Nat} {input out : List UInt8}
    (drained : Drained (ofAvailable available) finish s input out t) :
    out = (available finish (s.1 ++ input)).drop s.2 ∧ t = (s.1 ++ input, s.2 + out.length) := by
  induction drained with
  | @last s input space some_ room =>
    have all : (ofAvailable available s finish input space).output =
        (available finish (s.1 ++ input)).drop s.2 := by
      refine List.take_of_length_le ?_
      simp only [ofAvailable, List.length_take] at room
      omega
    exact ⟨all, rfl⟩
  | @more s t input out space some_ full rest ih =>
    simp only [ofAvailable, List.drop_length, List.append_nil] at ih full ⊢
    obtain ⟨out_eq, rfl⟩ := ih
    rw [full] at out_eq ⊢
    refine ⟨?_, by simp [full, Nat.add_assoc]⟩
    rw [out_eq, ← List.drop_drop, List.take_append_drop]

/-- What has been put out is where the rest of a longer output is appended. -/
theorem append_drop_of_prefix {front whole : List UInt8} (before : front <+: whole) :
    front ++ whole.drop front.length = whole := by
  obtain ⟨rest, rfl⟩ := before
  rw [List.drop_left]

theorem feeds_ofAvailable
    (grows : ∀ given more, available false given <+: available false (given ++ more))
    {s t : List UInt8 × Nat} {pieces : List (List UInt8)} {out : List UInt8} (front : List UInt8)
    (feeds : Feeds (ofAvailable available) s pieces out t)
    (so_far : front <+: available false s.1) (made : s.2 = front.length) :
    front ++ out <+: available false t.1 ∧ t.1 = s.1 ++ pieces.flatten ∧
      t.2 = (front ++ out).length := by
  induction feeds generalizing front with
  | nil s => simpa using ⟨so_far, made⟩
  | @cons s t u piece out out' pieces first rest ih =>
    obtain ⟨out_eq, rfl⟩ := drained_ofAvailable first
    have before := so_far.trans (grows s.1 piece)
    have front_eq : front ++ out = available false (s.1 ++ piece) := by
      rw [out_eq, made, append_drop_of_prefix before]
    have so_far' : front ++ out <+: available false (s.1 ++ piece) := ⟨[], by
      rw [List.append_nil, front_eq]⟩
    obtain ⟨fed, given, made'⟩ := ih (front ++ out) so_far' (by rw [made, List.length_append])
    rw [← List.append_assoc]
    exact ⟨fed, by rw [given, List.flatten_cons, List.append_assoc], made'⟩

/-- Where input never takes anything back, the output of a session is what is available then. -/
theorem whole_ofAvailable
    (grows : ∀ given more, available false given <+: available false (given ++ more))
    (ends : ∀ given, available false given <+: available true given)
    {pieces : List (List UInt8)} {out : List UInt8}
    (whole : Whole (ofAvailable available) ([], 0) pieces out) :
    out = available true pieces.flatten := by
  obtain ⟨front, back, t, u, feeds, drained, rfl⟩ := whole
  obtain ⟨fed, given, made⟩ := feeds_ofAvailable grows [] feeds List.nil_prefix rfl
  obtain ⟨back_eq, -⟩ := drained_ofAvailable drained
  rw [List.nil_append] at fed given made
  rw [List.append_nil, given, made] at back_eq
  rw [given] at fed
  rw [back_eq, append_drop_of_prefix (fed.trans (ends _))]

end Available

end Codec
