import ServerFrame.Http.Tokens

/-!
# What the states of the grammar promise

The states come in the order of the parts of a request, so that each part but the fields
is reported at most once. A value is reported only behind its name, and a query only
behind its start. All of it is read off the edges.
-/
namespace ServerFrame.Http

/-- The part of the request that a state is in: method, path, query, fragment, version,
and what follows. The messages that are not HTTP have a path only. -/
def rank (cs : Nat) : Nat :=
  if cs ≤ 2 || (175 ≤ cs && cs ≤ 193) then 0
  else if 29 ≤ cs && cs ≤ 32 then 2
  else if 20 ≤ cs && cs ≤ 23 then 3
  else if cs != 3 && cs ≤ 12 then 4
  else if (13 ≤ cs && cs ≤ 18) || (196 ≤ cs && cs ≤ 197) || (199 ≤ cs && cs ≤ 201) || 348 ≤ cs then 5
  else 1

/-- The part that an action reports. -/
def Act.part : Act → Option Nat
  | .requestMethod => some 0
  | .requestPath => some 1
  | .queryString => some 2
  | .fragment => some 3
  | .httpVersion => some 4
  | _ => none

/-- A field name has been read and its value is being read. -/
def inValue (cs : Nat) : Bool := cs == 15 || cs == 16

def inQuery (cs : Nat) : Bool := 30 ≤ cs && cs ≤ 32

/-- Before a value its name is complete, before a query its start is marked, and both
hold in the next state if it relies on them. -/
def ordered (target : Nat) : Bool → Bool → List Act → Bool
  | named, asked, [] => (!inValue target || named) && (!inQuery target || asked)
  | named, asked, a :: acts =>
    match a with
    | .startField => ordered target false asked acts
    | .writeField => ordered target true asked acts
    | .startQuery => ordered target named true acts
    | .writeValue => named && ordered target named asked acts
    | .queryString => asked && ordered target named asked acts
    | _ => ordered target named asked acts

/-- The facts about an edge from state `cs`. -/
structure Edge.Sound (cs : Nat) (e : Edge) : Prop where
  rank_le : rank cs ≤ rank e.target
  once : e.acts.Nodup
  parts : ∀ a ∈ e.acts, ∀ k ∈ a.part, rank cs ≤ k ∧ k < rank e.target
  done_iff : .done ∈ e.acts ↔ httpParserFirstFinal ≤ e.target
  space : .requestMethod ∈ e.acts → e.bytes = [(32, 32)] ∧ e.relaxed = false
  ordered : ordered e.target (inValue cs) (inQuery cs) e.acts = true

instance (cs : Nat) (e : Edge) : Decidable (e.Sound cs) :=
  decidable_of_iff
    (rank cs ≤ rank e.target ∧ e.acts.Nodup ∧
      (∀ a ∈ e.acts, ∀ k ∈ a.part, rank cs ≤ k ∧ k < rank e.target) ∧
      (.done ∈ e.acts ↔ httpParserFirstFinal ≤ e.target) ∧
      (.requestMethod ∈ e.acts → e.bytes = [(32, 32)] ∧ e.relaxed = false) ∧
      Http.ordered e.target (inValue cs) (inQuery cs) e.acts = true)
    ⟨fun ⟨a, b, c, d, e, f⟩ => ⟨a, b, c, d, e, f⟩, fun ⟨a, b, c, d, e, f⟩ => ⟨a, b, c, d, e, f⟩⟩

/-- Tests the edges of the states from `cs` on. -/
def soundFrom : Nat → List (List Edge) → Bool
  | _, [] => true
  | cs, row :: rows => row.all (fun e => decide (e.Sound cs)) && soundFrom (cs + 1) rows

theorem sound_of_soundFrom {first : Nat} {rows : List (List Edge)}
    (tested : soundFrom first rows = true) {i : Nat} {e : Edge} (member : e ∈ rows.getD i []) :
    e.Sound (first + i) := by
  induction rows generalizing first i with
  | nil => simp at member
  | cons row rows ih =>
    rw [soundFrom, Bool.and_eq_true, List.all_eq_true] at tested
    cases i with
    | zero => simpa using tested.1 e member
    | succ i =>
      have found := ih tested.2 member
      rwa [Nat.add_right_comm] at found

theorem states_sound : soundFrom 0 states = true := by decide +kernel

/-- Every transition is an edge with these facts. -/
theorem transition_sound {uriRelaxed : Bool} {cs target : Nat} {b : UInt8} {acts : List Act}
    (moves : transition uriRelaxed cs b = some (target, acts)) :
    ∃ e : Edge, e.Sound cs ∧ e.accepts uriRelaxed b = true ∧ e.target = target ∧ e.acts = acts := by
  rw [transition, Option.map_eq_some_iff] at moves
  obtain ⟨e, found, same⟩ := moves
  cases same
  have sound := sound_of_soundFrom states_sound (List.mem_of_find?_eq_some found)
  rw [Nat.zero_add] at sound
  have accepted := List.find?_eq_some_iff_append.mp found
  exact ⟨e, sound, accepted.1, rfl, rfl⟩

/-- A method ends at a space. -/
theorem space_of_method {uriRelaxed : Bool} {cs target : Nat} {b : UInt8} {acts : List Act}
    (moves : transition uriRelaxed cs b = some (target, acts)) (reports : .requestMethod ∈ acts) :
    b = 32 := by
  obtain ⟨e, sound, accepted, -, rfl⟩ := transition_sound moves
  obtain ⟨bytes_eq, strict⟩ := sound.space reports
  simp only [Edge.accepts, bytes_eq, strict, List.any_cons, List.any_nil, Bool.and_false,
    Bool.false_and, Bool.or_false, Bool.and_eq_true, decide_eq_true_eq] at accepted
  exact UInt8.toNat_inj.mp (Nat.le_antisymm accepted.2 accepted.1)

/-! ## Each part is reported once -/

/-- The part of the request that a token belongs to; there may be any number of fields. -/
def Token.part : Token → Option Nat
  | .method _ => some 0
  | .path _ => some 1
  | .query _ => some 2
  | .fragment _ => some 3
  | .version _ => some 4
  | .field _ _ => none

theorem part_of_token {m : Marks} {p : Nat} {a : Act} {t : Token} (reports : m.token p a = some t) :
    t.part = a.part := by
  cases a <;> cases reports <;> rfl

theorem part_inj {a b : Act} {k : Nat} (of_a : a.part = some k) (of_b : b.part = some k) : a = b := by
  cases a <;> cases of_a <;> cases b <;> cases of_b <;> rfl

theorem part_of_mem_tokens {m : Marks} {p : Nat} {acts : List Act} {t : Token}
    (member : t ∈ m.tokens p acts) : ∃ a ∈ acts, t.part = a.part := by
  induction acts generalizing m with
  | nil => cases member
  | cons a acts ih =>
    rcases List.mem_append.mp member with here | later
    · exact ⟨a, List.mem_cons_self .., part_of_token (Option.mem_toList.mp here)⟩
    · obtain ⟨b, b_mem, same⟩ := ih later
      exact ⟨b, List.mem_cons_of_mem _ b_mem, same⟩

/-- Two tokens are of different parts, or both are fields. -/
def Token.Apart (t u : Token) : Prop := ∀ k, t.part = some k → u.part ≠ some k

theorem tokens_apart {m : Marks} {p : Nat} {acts : List Act} (once : acts.Nodup) :
    (m.tokens p acts).Pairwise Token.Apart := by
  induction acts generalizing m with
  | nil => exact List.Pairwise.nil
  | cons a acts ih =>
    obtain ⟨fresh, once⟩ := List.nodup_cons.mp once
    refine List.pairwise_append.mpr ⟨?_, ih once, ?_⟩
    · cases m.token p a <;> simp
    · intro t here u later k of_t of_u
      obtain ⟨b, b_mem, same⟩ := part_of_mem_tokens later
      rw [part_of_token (Option.mem_toList.mp here)] at of_t
      cases part_inj of_t (same.symm.trans of_u)
      exact fresh b_mem

/-- A state only reports what is not behind it. -/
theorem rank_le_of_mem_scan {uriRelaxed : Bool} {cs p k : Nat} {m : Marks} {bytes : List UInt8}
    {t : Token} (member : t ∈ scan uriRelaxed cs m p bytes) (of_t : t.part = some k) :
    rank cs ≤ k := by
  induction bytes generalizing cs m p with
  | nil => cases member
  | cons b bytes ih =>
    rw [scan] at member
    split at member
    next => cases member
    next target acts moves =>
      obtain ⟨e, sound, -, rfl, rfl⟩ := transition_sound moves
      rcases List.mem_append.mp member with here | later
      · obtain ⟨a, a_mem, same⟩ := part_of_mem_tokens here
        exact (sound.parts a a_mem k (same.symm.trans of_t)).1
      · exact Nat.le_trans sound.rank_le (ih later)

theorem scan_apart (uriRelaxed : Bool) (cs : Nat) (m : Marks) (p : Nat) (bytes : List UInt8) :
    (scan uriRelaxed cs m p bytes).Pairwise Token.Apart := by
  induction bytes generalizing cs m p with
  | nil => exact List.Pairwise.nil
  | cons b bytes ih =>
    rw [scan]
    split
    next => exact List.Pairwise.nil
    next target acts moves =>
      obtain ⟨e, sound, -, rfl, rfl⟩ := transition_sound moves
      refine List.pairwise_append.mpr ⟨tokens_apart sound.once, ih .., ?_⟩
      intro t here u later k of_t of_u
      -- the next state is past the part that is reported here
      obtain ⟨a, a_mem, same⟩ := part_of_mem_tokens here
      have past := (sound.parts a a_mem k (same.symm.trans of_t)).2
      exact Nat.not_lt.mpr (rank_le_of_mem_scan later of_u) past

/-! ## Where tokens begin and end -/

/-- The text of a token; that of a field is its value. -/
def Token.span : Token → Span
  | .method s => s
  | .path s => s
  | .query s => s
  | .fragment s => s
  | .version s => s
  | .field _ value => value

/-- No mark lies ahead. -/
structure Marks.Behind (m : Marks) (p : Nat) : Prop where
  mark : m.mark ≤ p
  fieldStart : m.fieldStart ≤ p
  fieldStop : m.fieldStop ≤ p
  queryStart : m.queryStart ≤ p

theorem Marks.Behind.set {m : Marks} {p : Nat} (behind : m.Behind p) (a : Act) :
    (m.set p a).Behind p := by
  obtain ⟨h₁, h₂, h₃, h₄⟩ := behind
  cases a <;> constructor <;> first | assumption | exact Nat.le_refl p

theorem Marks.Behind.setAll {m : Marks} {p : Nat} (behind : m.Behind p) (acts : List Act) :
    (m.setAll p acts).Behind p := by
  induction acts generalizing m with
  | nil => exact behind
  | cons a acts ih => exact ih (behind.set a)

theorem Marks.Behind.mono {m : Marks} {p q : Nat} (behind : m.Behind p) (le : p ≤ q) : m.Behind q :=
  ⟨Nat.le_trans behind.mark le, Nat.le_trans behind.fieldStart le,
    Nat.le_trans behind.fieldStop le, Nat.le_trans behind.queryStart le⟩

theorem Marks.behind_new : Marks.new.Behind 0 :=
  ⟨Nat.le_refl 0, Nat.le_refl 0, Nat.le_refl 0, Nat.le_refl 0⟩

theorem span_of_token {m : Marks} {p : Nat} {a : Act} {t : Token} (behind : m.Behind p)
    (reports : m.token p a = some t) : t.span.start ≤ t.span.stop ∧ t.span.stop = p := by
  obtain ⟨h₁, h₂, h₃, h₄⟩ := behind
  cases a <;> cases reports <;> exact ⟨by assumption, rfl⟩

theorem span_of_mem_tokens {m : Marks} {p : Nat} {acts : List Act} {t : Token}
    (behind : m.Behind p) (member : t ∈ m.tokens p acts) :
    t.span.start ≤ t.span.stop ∧ t.span.stop = p := by
  induction acts generalizing m with
  | nil => cases member
  | cons a acts ih =>
    rcases List.mem_append.mp member with here | later
    · exact span_of_token behind (Option.mem_toList.mp here)
    · exact ih (behind.set a) later

/-- A token lies in the bytes that have been read when it is reported. -/
theorem span_of_mem_scan {uriRelaxed : Bool} {cs p : Nat} {m : Marks} {bytes : List UInt8}
    {t : Token} (behind : m.Behind p) (member : t ∈ scan uriRelaxed cs m p bytes) :
    t.span.start ≤ t.span.stop ∧ t.span.stop < p + bytes.length := by
  induction bytes generalizing cs m p with
  | nil => cases member
  | cons b bytes ih =>
    rw [scan] at member
    split at member
    next => cases member
    next target acts moves =>
      rw [List.length_cons]
      rcases List.mem_append.mp member with here | later
      · obtain ⟨le, stop_eq⟩ := span_of_mem_tokens behind here
        exact ⟨le, by omega⟩
      · obtain ⟨le, lt⟩ := ih ((behind.setAll acts).mono (Nat.le_succ p)) later
        exact ⟨le, by omega⟩

end ServerFrame.Http
