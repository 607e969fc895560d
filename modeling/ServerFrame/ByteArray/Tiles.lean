import ServerFrame.ByteArray.Invariant
import ServerFrame.ByteArray.Views

/-!
# Segments of the chain

The segments that the walks hand out tile a stretch of the chain: each starts where the
one before it ends. What they hold, and what storing into them does, follows from that
alone.
-/
namespace ServerFrame.ByteArray

open Splice EState

/-- The segments tile the stretch `[p, q)` of a chain of blocks of `b` bytes. -/
inductive Tiles (b : Nat) : List Iovec → Nat → Nat → Prop
  | nil (p : Nat) : Tiles b [] p p
  | cons {iov : Iovec} {iovs : List Iovec} {p q : Nat} (start : iov.node * b + iov.offset = p)
      (some_ : 0 < iov.len) (inside : iov.offset + iov.len ≤ b) (rest : Tiles b iovs (p + iov.len) q) :
      Tiles b (iov :: iovs) p q

namespace Tiles

variable {b p q : Nat} {iovs : List Iovec}

theorem sum_len (tiles : Tiles b iovs p q) : p + (iovs.map Iovec.len).sum = q := by
  induction tiles with
  | nil p => rfl
  | cons start some_ inside rest ih =>
    rw [List.map_cons, List.sum_cons]
    omega

theorem some_ (tiles : Tiles b iovs p q) : ∀ iov ∈ iovs, 0 < iov.len := by
  induction tiles with
  | nil p =>
    intro iov member
    cases member
  | cons start some_ inside rest ih =>
    intro iov member
    rcases List.mem_cons.mp member with rfl | member
    · exact some_
    · exact ih iov member

theorem inside (tiles : Tiles b iovs p q) : ∀ iov ∈ iovs, iov.offset + iov.len ≤ b := by
  induction tiles with
  | nil p =>
    intro iov member
    cases member
  | cons start some_ inside rest ih =>
    intro iov member
    rcases List.mem_cons.mp member with rfl | member
    · exact inside
    · exact ih iov member

theorem within (tiles : Tiles b iovs p q) :
    ∀ iov ∈ iovs, p ≤ iov.node * b + iov.offset ∧ iov.node * b + iov.offset + iov.len ≤ q := by
  induction tiles with
  | nil p =>
    intro iov member
    cases member
  | cons start some_ inside rest ih =>
    have total := rest.sum_len
    intro iov member
    rcases List.mem_cons.mp member with rfl | member
    · omega
    · have bounds := ih iov member
      omega

/-- Of two segments the first ends before the second starts. -/
theorem apart (tiles : Tiles b iovs p q) : iovs.Pairwise fun first second =>
    first.node * b + first.offset + first.len ≤ second.node * b + second.offset := by
  induction tiles with
  | nil p => exact List.Pairwise.nil
  | cons start some_ inside rest ih =>
    refine List.Pairwise.cons (fun second member => ?_) ih
    have bounds := rest.within second member
    omega

end Tiles

/-! ## The walk -/

theorem iovecLoop_tiles {b : Nat} (nodes : List Node) (uniform : Uniform b nodes) (i npos len : Nat)
    (start : npos < b) (fits : npos + len ≤ b * nodes.length) :
    ∃ iovs, iovecLoop i nodes npos len = .ok iovs ∧
      Tiles b iovs (i * b + npos) (i * b + npos + len) := by
  induction nodes generalizing i npos len with
  | nil =>
    simp only [List.length_nil, Nat.mul_zero] at fits
    have none_ : len = 0 := by omega
    exact ⟨[], by simp [iovecLoop, none_], by rw [none_]; exact .nil _⟩
  | cons node rest ih =>
    have size : node.size = b := uniform node (List.mem_cons_self ..)
    simp only [iovecLoop, size]
    by_cases some_ : len > 0
    · rw [if_pos some_]
      by_cases last : b - npos ≥ len
      · rw [if_pos last]
        exact ⟨_, rfl, .cons rfl some_ (by dsimp only; omega) (.nil _)⟩
      · -- the next segment starts with its block
        simp only [List.length_cons, Nat.mul_succ] at fits
        obtain ⟨iovs, looped, tiles⟩ :=
          ih uniform.tail (i + 1) 0 (len - (b - npos)) (by omega) (by omega)
        have border : (i + 1) * b + 0 = i * b + npos + (b - npos) := by
          rw [Nat.succ_mul]
          omega
        have stop : i * b + npos + (b - npos) + (len - (b - npos)) = i * b + npos + len := by omega
        rw [border, stop] at tiles
        exact ⟨_, by rw [if_neg last, looped], .cons rfl (by dsimp only; omega) (by dsimp only; omega) tiles⟩
    · have none_ : len = 0 := by omega
      exact ⟨[], by rw [if_neg some_], by rw [none_]; exact .nil _⟩

/-- A walk for more than the chain holds runs off its end. -/
theorem iovecLoop_past {b : Nat} (nodes : List Node) (uniform : Uniform b nodes) (i npos len : Nat)
    (start : npos < b) (some_ : 0 < len) (past : b * nodes.length < npos + len) :
    iovecLoop i nodes npos len = .error .nullNode := by
  induction nodes generalizing i npos len with
  | nil => simp [iovecLoop, some_]
  | cons node rest ih =>
    have size : node.size = b := uniform node (List.mem_cons_self ..)
    simp only [List.length_cons, Nat.mul_succ] at past
    have missing : ¬ b - npos ≥ len := by omega
    have behind := ih uniform.tail (i + 1) 0 (len - (b - npos)) (by omega) (by omega) (by omega)
    simp only [iovecLoop, size, if_pos some_, if_neg missing, behind]

theorem getWriteBuffers_spec {ba : ByteArray} (inv : Inv ba) (len : Nat) :
    ∃ iovs ba', getWriteBuffers len ba = .ok iovs ba' ∧ Grown ba ba' ∧
      Tiles ba.baseSize iovs ba.position (ba.position + len) ∧ ba.position + len ≤ ba'.capacity := by
  have position_le := inv.position_le
  have size_le := inv.size_le
  by_cases empty : len = 0
  · refine ⟨[], ba, by simp [getWriteBuffers, empty], .refl inv, ?_, by omega⟩
    rw [empty]
    exact .nil _
  obtain ⟨grown, room⟩ := addCapacity_spec inv len
  simp only [getWriteBuffers, if_neg empty, run_bind, run_modify, run_get]
  generalize addCapacity len ba = g at grown room ⊢
  have inv' := grown.inv
  obtain ⟨split, offset, uniform, behind⟩ := cursor_split inv'
  have position_eq := grown.position_eq
  have capacity_le := grown.capacity_le
  have ahead : g.position + len ≤ g.capacity := by
    simp only [getCapacity] at room
    omega
  have cur : g.cur = some (g.position / g.baseSize) := by
    rw [inv'.cur_eq, if_neg (by omega)]
  have start := Nat.mod_lt g.position inv'.positive
  have below := Nat.mod_le g.position g.baseSize
  obtain ⟨iovs, looped, tiles⟩ := iovecLoop_tiles _ uniform (g.position / g.baseSize)
    (g.position % g.baseSize) len start (by omega)
  rw [Nat.div_add_mod', grown.position_eq, grown.baseSize_eq] at tiles
  refine ⟨iovs, g, ?_, grown, tiles, by omega⟩
  simp only [cur, looped, run_pure]

/-! ## What the segments hold -/

section Chain

variable {b : Nat} {nodes : List Node}

/-- The chain around one of its nodes. -/
theorem flat_split (uniform : Uniform b nodes) {i : Nat} (inside : i < nodes.length) :
    ∃ front back, flat nodes = front ++ (nodes[i].bytes ++ back) ∧ front.length = i * b ∧
      front = flat (nodes.take i) ∧ back = flat (nodes.drop (i + 1)) := by
  refine ⟨flat (nodes.take i), flat (nodes.drop (i + 1)), ?_, ?_, rfl, rfl⟩
  · rw [← flat_cons, ← List.drop_eq_getElem_cons inside, ← flat_append, List.take_append_drop]
  · rw [length_flat_take uniform (Nat.le_of_lt inside), Nat.mul_comm]

/-- A segment that ends inside of the chain lies in one of its nodes. -/
theorem node_lt {iov : Iovec} {p : Nat} (start : iov.node * b + iov.offset = p) (some_ : 0 < iov.len)
    (fits : p + iov.len ≤ b * nodes.length) : iov.node < nodes.length := by
  by_contra beyond
  have long := Nat.mul_le_mul_left b (Nat.le_of_not_lt beyond)
  rw [Nat.mul_comm b iov.node] at long
  omega

/-- Segments inside of the chain lie in its blocks. -/
theorem Tiles.in_block (uniform : Uniform b nodes) {iovs : List Iovec} {p q : Nat}
    (tiles : Tiles b iovs p q) (fits : q ≤ b * nodes.length) :
    ∀ iov ∈ iovs, ∃ node, nodes[iov.node]? = some node ∧ iov.offset + iov.len ≤ node.size := by
  intro iov member
  have bounds := tiles.within iov member
  have stops : iov.node * b + iov.offset + iov.len ≤ b * nodes.length := Nat.le_trans bounds.2 fits
  have known : iov.node < nodes.length := node_lt rfl (tiles.some_ iov member) stops
  have size : nodes[iov.node].size = b := uniform _ (List.getElem_mem known)
  exact ⟨nodes[iov.node], List.getElem?_eq_getElem known, by rw [size]; exact tiles.inside iov member⟩

theorem load_eq (uniform : Uniform b nodes) {i offset len : Nat} (inside : i < nodes.length)
    (fits : offset + len ≤ b) :
    nodes[i].load offset len = ((flat nodes).drop (i * b + offset)).take len := by
  have size : nodes[i].bytes.length = b := uniform _ (List.getElem_mem inside)
  obtain ⟨front, back, split, length_eq, -⟩ := flat_split uniform inside
  rw [split, ← length_eq, List.drop_length_add_append, Node.load,
    List.drop_append_of_le_length (by omega),
    List.take_append_of_le_length (by rw [List.length_drop]; omega)]

theorem gather_tiles (uniform : Uniform b nodes) {iovs : List Iovec} {p q : Nat}
    (tiles : Tiles b iovs p q) (fits : q ≤ b * nodes.length) :
    gather nodes iovs = ((flat nodes).drop p).take (q - p) := by
  induction tiles with
  | nil p => simp [gather]
  | @cons iov iovs p q start some_ inside rest ih =>
    have total := rest.sum_len
    have known : iov.node < nodes.length := node_lt start some_ (by omega)
    have first : gather nodes (iov :: iovs) = nodes[iov.node].load iov.offset iov.len ++
        gather nodes iovs := by
      simp only [gather, List.flatMap_cons, List.getElem?_eq_getElem known]
    have split : q - p = iov.len + (q - (p + iov.len)) := by omega
    rw [first, ih fits, load_eq uniform known inside, start, split, List.take_add, List.drop_drop]

/-- Storing into one block. -/
theorem flat_modify (uniform : Uniform b nodes) {i offset : Nat} {xs : List UInt8}
    (inside : i < nodes.length) (fits : offset + xs.length ≤ b) :
    flat (nodes.modify i fun node => node.store offset xs) = splice (flat nodes) (i * b + offset) xs ∧
      Uniform b (nodes.modify i fun node => node.store offset xs) := by
  have size : nodes[i].bytes.length = b := uniform _ (List.getElem_mem inside)
  have modified : (nodes.modify i fun node => node.store offset xs) =
      nodes.take i ++ nodes[i].store offset xs :: nodes.drop (i + 1) := by
    rw [List.modify_eq_take_cons_drop inside]
  obtain ⟨front, back, split, length_eq, rfl, rfl⟩ := flat_split uniform inside
  constructor
  · rw [split, ← length_eq, splice_append_right, splice_append_left _ _ _ _ (by omega), modified,
      flat_append, flat_cons]
    rfl
  · rw [modified]
    have stored : (nodes[i].store offset xs).size = b := by
      rw [Node.size, Node.store, length_splice _ _ _ (by omega)]
      omega
    refine Uniform.append (fun node member => uniform node (List.mem_of_mem_take member)) ?_
    intro node member
    rcases List.mem_cons.mp member with rfl | member
    · exact stored
    · exact uniform node (List.mem_of_mem_drop member)

/-- Storing into segments that tile a stretch overwrites its front part. -/
theorem scatter_tiles {iovs : List Iovec} {p q : Nat} (tiles : Tiles b iovs p q)
    (uniform : Uniform b nodes) (fits : q ≤ b * nodes.length) (bytes : List UInt8) :
    flat (scatter nodes iovs bytes) = splice (flat nodes) p (bytes.take (q - p)) ∧
      Uniform b (scatter nodes iovs bytes) ∧ (scatter nodes iovs bytes).length = nodes.length := by
  induction tiles generalizing nodes bytes with
  | nil p => simp [scatter, uniform]
  | @cons iov iovs p q start some_ inside rest ih =>
    have total := rest.sum_len
    have known : iov.node < nodes.length := node_lt start some_ (by omega)
    have short : (bytes.take iov.len).length ≤ iov.len := by
      rw [List.length_take]
      omega
    obtain ⟨stored, uniform'⟩ :=
      flat_modify uniform known (Nat.le_trans (Nat.add_le_add_left short iov.offset) inside)
    rw [start] at stored
    obtain ⟨flat_eq, uniform_all, length_eq⟩ := ih uniform' (by rwa [List.length_modify])
      (bytes.drop iov.len)
    refine ⟨?_, uniform_all, by rw [scatter, length_eq, List.length_modify]⟩
    rw [scatter, flat_eq, stored]
    by_cases enough : iov.len ≤ bytes.length
    · -- the segment is filled and the store goes on in the next one
      have filled : (bytes.take iov.len).length = iov.len := by
        rw [List.length_take]
        omega
      have start_le : p ≤ (flat nodes).length := by
        rw [length_flat uniform]
        omega
      have split : q - p = iov.len + (q - (p + iov.len)) := by omega
      have next := splice_splice (flat nodes) p (bytes.take iov.len)
        ((bytes.drop iov.len).take (q - (p + iov.len))) start_le
      rw [filled, ← List.take_add, ← split] at next
      exact next
    · have none_left : bytes.drop iov.len = [] := List.drop_eq_nil_of_le (by omega)
      rw [none_left, List.take_nil, splice_nil, List.take_of_length_le (by omega),
        List.take_of_length_le (by omega)]

end Chain

end ServerFrame.ByteArray
