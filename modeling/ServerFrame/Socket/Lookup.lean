import ServerFrame.Util.StdString
import Mathlib.Data.List.TakeWhile

/-!
# What `Address::Lookup` asks for

The host string is split into a node and a service, which `getaddrinfo` gets as C strings. A pointer
into the string is an index of it; behind its last character it has a NUL.
-/
namespace ServerFrame.Lookup

open StdString

/-- `memchr(s + start, c, n)`. -/
def memchr (s : List UInt8) (c : UInt8) (start n : Nat) : Option Nat :=
  (((s.drop start).take n).findIdx? (· == c)).map (· + start)

/-- The hints: all but these three are 0. -/
structure Hints where
  aiFamily : Int
  aiSocktype : Int
  aiProtocol : Int

/-- The node and the service; the service `none` is a null pointer. -/
structure Query where
  node : List UInt8
  service : Option (List UInt8)
  deriving DecidableEq

/-- The check for an IPv6 address in brackets: what `node` and `service` are behind it. -/
def splitBrackets (host : List UInt8) : List UInt8 × Option Nat :=
  if host.head? = some 91 then
    match memchr host 93 1 (host.length - 1) with
    | some endipv6 =>
      let service := if host[endipv6 + 1]? = some 58 then some (endipv6 + 2) else none
      ((host.drop 1).take (endipv6 - 1), service)
    | none => ([], none)
  else ([], none)

/-- The check for a node and a service. -/
def splitColon (host : List UInt8) : List UInt8 × Option Nat :=
  match memchr host 58 0 host.length with
  | some service =>
    match memchr host 58 (service + 1) (host.length - service - 1) with
    | none => (host.take service, some (service + 1))
    | some _ => ([], some service)
  | none => ([], none)

/-- What `getaddrinfo` is called with. -/
def query (host : List UInt8) : Query :=
  let (node, service) := splitBrackets host
  let (node, service) := if node = [] then splitColon host else (node, service)
  let node := if node = [] then host else node
  ⟨cString node, service.map fun i => cString (host.drop i)⟩

/-- What a call of `Lookup` leaves behind: what it passed on, its result, and the addresses. -/
structure Outcome (β : Type) where
  hints : Hints
  passed : Query
  ok : Bool
  result : List β

/-- `Lookup`. `getaddrinfo` gives the list of addresses, or an error. -/
def lookup {α β : Type} (getaddrinfo : Hints → Query → Option (List α)) (create : α → β)
    (result : List β) (host : List UInt8) (family type protocol : Int) : Outcome β :=
  let hints : Hints := ⟨family, type, protocol⟩
  match getaddrinfo hints (query host) with
  | none => ⟨hints, query host, false, result⟩
  | some results =>
    let result := result ++ results.map create
    ⟨hints, query host, !result.isEmpty, result⟩

/-! ## The forms of a host string -/

/-- A host name: no `:`, and no bracket in front. -/
structure Name where
  text : List UInt8
  noColon : 58 ∉ text
  noBracket : text.head? ≠ some 91

/-- A port: no `:`. -/
structure Port where
  text : List UInt8
  noColon : 58 ∉ text

/-- An IPv6 literal, as far as it matters: at least two `:` and no bracket. -/
structure V6 where
  text : List UInt8
  colons : 2 ≤ text.count 58
  noOpen : 91 ∉ text
  noClose : 93 ∉ text

inductive Form where
  | name (h : Name)
  | namePort (h : Name) (port : Port)
  | bracket (v6 : V6)
  | bracketPort (v6 : V6) (port : Port)
  | bare (v6 : V6)

namespace Form

/-- The host string. -/
def text : Form → List UInt8
  | name h => h.text
  | namePort h port => h.text ++ 58 :: port.text
  | bracket v6 => 91 :: (v6.text ++ [93])
  | bracketPort v6 port => 91 :: (v6.text ++ 93 :: 58 :: port.text)
  | bare v6 => v6.text

/-- What it says. -/
def means : Form → Query
  | name h => ⟨h.text, none⟩
  | namePort h port => ⟨h.text, some port.text⟩
  | bracket v6 => ⟨v6.text, none⟩
  | bracketPort v6 port => ⟨v6.text, some port.text⟩
  | bare v6 => ⟨v6.text, none⟩

def isBare : Form → Bool
  | bare _ => true
  | _ => false

/-- A port without a name in front. -/
def onlyPort : Form → Bool
  | namePort h _ => h.text.isEmpty
  | _ => false

end Form

example : query [97, 58, 56, 48] = ⟨[97], some [56, 48]⟩ := by decide

/-! ## Searches -/

section Searches

variable {front rest : List UInt8} {c : UInt8} {n : Nat}

theorem cString_eq_self_iff {s : List UInt8} : cString s = s ↔ 0 ∉ s := by
  constructor
  · intro whole member
    rw [← whole] at member
    exact absurd (List.mem_takeWhile_imp member) (by decide)
  · intro absent
    apply List.takeWhile_eq_self_iff.mpr
    intro c member
    simp only [bne_iff_ne, ne_eq]
    rintro rfl
    exact absent member

theorem memchr_none {s : List UInt8} {start : Nat} (absent : c ∉ s.drop start) :
    memchr s c start n = none := by
  have nowhere : ((s.drop start).take n).findIdx? (· == c) = none := by
    rw [List.findIdx?_eq_none_iff]
    intro x member
    simp only [beq_eq_false_iff_ne, ne_eq]
    rintro rfl
    exact absent (List.mem_of_mem_take member)
  rw [memchr, nowhere]
  rfl

/-- The first one behind `lead` is found, if it is among the characters that are looked at. -/
theorem memchr_some (lead rest : List UInt8) (n : Nat) (before : c ∉ front)
    (enough : front.length < n) :
    memchr (lead ++ (front ++ c :: rest)) c lead.length n = some (lead.length + front.length) := by
  obtain ⟨more, rfl⟩ : ∃ more, n = front.length + (more + 1) := ⟨n - front.length - 1, by omega⟩
  have nowhere : front.findIdx? (· == c) = none := by
    rw [List.findIdx?_eq_none_iff]
    intro x member
    simp only [beq_eq_false_iff_ne, ne_eq]
    rintro rfl
    exact before member
  rw [memchr, List.drop_left, List.take_length_add_append, List.take_succ_cons,
    List.findIdx?_append, nowhere, List.findIdx?_cons, beq_self_eq_true]
  simp [Nat.add_comm]

end Searches

/-! ## What each form becomes -/

/-- Two `:` in a text: the part before the first, and what is behind it with another one. -/
theorem exists_colons {s : List UInt8} (colons : 2 ≤ s.count 58) :
    ∃ front rest, s = front ++ 58 :: rest ∧ 58 ∉ front ∧ 58 ∈ rest := by
  have member : 58 ∈ s := List.count_pos_iff.mp (by omega)
  obtain ⟨front, rest, rfl, before⟩ := List.eq_append_cons_of_mem member
  have none_ : front.count 58 = 0 := List.count_eq_zero.mpr before
  rw [List.count_append, none_, List.count_cons_self] at colons
  exact ⟨front, rest, rfl, before, List.count_pos_iff.mp (by omega)⟩

/-- A string that the brackets are not found in. -/
theorem query_plain {host : List UInt8} (noBracket : host.head? ≠ some 91) :
    query host = ⟨cString (if (splitColon host).1 = [] then host else (splitColon host).1),
      (splitColon host).2.map fun i => cString (host.drop i)⟩ := by
  rw [query, splitBrackets, if_neg noBracket]
  rfl

theorem query_name (h : Name) : query h.text = ⟨cString h.text, none⟩ := by
  have nothing : splitColon h.text = ([], none) := by
    rw [splitColon, memchr_none (by simpa using h.noColon)]
  rw [query_plain h.noBracket, nothing]
  rfl

theorem query_namePort (h : Name) (port : Port) : query (h.text ++ 58 :: port.text) =
    ⟨cString (if h.text = [] then 58 :: port.text else h.text), some (cString port.text)⟩ := by
  have noBracket : (h.text ++ 58 :: port.text).head? ≠ some 91 := by
    cases text : h.text with
    | nil => simp
    | cons c rest =>
      have first := h.noBracket
      rw [text] at first
      simpa using first
  have found : memchr (h.text ++ 58 :: port.text) 58 0 (h.text ++ 58 :: port.text).length =
      some h.text.length := by
    have at_ := memchr_some [] port.text (h.text ++ 58 :: port.text).length h.noColon (by simp)
    simpa using at_
  have behind : (h.text ++ 58 :: port.text).drop (h.text.length + 1) = port.text := by
    rw [List.drop_append]
    simp
  -- the only `:`, so that what is in front of it becomes the node
  have alone : ∀ n, memchr (h.text ++ 58 :: port.text) 58 (h.text.length + 1) n = none := fun n =>
    memchr_none (by rw [behind]; exact port.noColon)
  have split : splitColon (h.text ++ 58 :: port.text) = (h.text, some (h.text.length + 1)) := by
    rw [splitColon, found]
    simp only [alone, List.take_left]
  rw [query_plain noBracket, split]
  simp only [Option.map_some, behind]
  by_cases empty : h.text = []
  · rw [if_pos empty, if_pos empty, empty]
    rfl
  · rw [if_neg empty, if_neg empty]

/-- The text behind the first `:` is passed as a service. -/
theorem query_bare (v6 : V6) : ∃ service, query v6.text = ⟨cString v6.text, some service⟩ := by
  obtain ⟨front, rest, whole, before, more⟩ := exists_colons v6.colons
  have noBracket : v6.text.head? ≠ some 91 := fun head =>
    v6.noOpen (List.mem_of_mem_head? head)
  have found : memchr v6.text 58 0 v6.text.length = some front.length := by
    have at_ := memchr_some [] rest v6.text.length before (by simp [whole])
    simpa [← whole] using at_
  obtain ⟨front', rest', whole', before'⟩ := List.eq_append_cons_of_mem more
  -- another `:` behind it: no node is set, and the service stays where it is
  have second : memchr v6.text 58 (front.length + 1) (v6.text.length - front.length - 1) =
      some (front.length + 1 + front'.length) := by
    have at_ := memchr_some (front ++ [58]) rest' (v6.text.length - front.length - 1) before'
      (by rw [whole, whole']; simp)
    have same : front ++ [58] ++ (front' ++ 58 :: rest') = v6.text := by rw [whole, whole']; simp
    rwa [same, List.length_append, List.length_singleton] at at_
  have split : splitColon v6.text = ([], some front.length) := by
    rw [splitColon, found]
    simp only [second]
  rw [query_plain noBracket, split]
  exact ⟨cString (v6.text.drop front.length), rfl⟩

theorem query_brackets (v6 : V6) (rest : List UInt8) : query (91 :: (v6.text ++ 93 :: rest)) =
    ⟨cString v6.text, if rest.head? = some 58 then some (cString rest.tail) else none⟩ := by
  have some_ : v6.text ≠ [] := fun empty => by
    have colons := v6.colons
    rw [empty] at colons
    exact absurd colons (by decide)
  have found : memchr (91 :: (v6.text ++ 93 :: rest)) 93 1
      ((91 :: (v6.text ++ 93 :: rest)).length - 1) = some (v6.text.length + 1) := by
    have at_ := memchr_some [91] rest ((91 :: (v6.text ++ 93 :: rest)).length - 1) v6.noClose (by simp)
    simpa [Nat.add_comm] using at_
  have behind : (91 :: (v6.text ++ 93 :: rest))[v6.text.length + 1 + 1]? = rest.head? := by
    rw [List.getElem?_cons_succ, List.getElem?_append_right (by omega)]
    simp [List.head?_eq_getElem?]
  have port : (91 :: (v6.text ++ 93 :: rest)).drop (v6.text.length + 1 + 2) = rest.tail := by
    rw [show v6.text.length + 1 + 2 = v6.text.length + 2 + 1 from rfl, List.drop_succ_cons,
      List.drop_append, List.drop_of_length_le (by omega)]
    simp
  have split : splitBrackets (91 :: (v6.text ++ 93 :: rest)) =
      (v6.text, if rest.head? = some 58 then some (v6.text.length + 1 + 2) else none) := by
    rw [splitBrackets, List.head?_cons, if_pos rfl, found]
    simp only [behind, Nat.add_sub_cancel, List.drop_succ_cons, List.drop_zero, List.take_left]
  rw [query, split]
  simp only [if_neg some_]
  congr 1
  split
  · rw [Option.map_some, port]
  · rfl

/-! ## The forms that are taken apart as they should be -/

theorem query_form_iff (form : Form) : query form.text = form.means ↔
    form.isBare = false ∧ form.onlyPort = false ∧ 0 ∉ form.text := by
  cases form with
  | name h =>
    simp only [Form.text, Form.means, query_name, Query.mk.injEq, cString_eq_self_iff, and_true,
      Form.isBare, Form.onlyPort, true_and]
  | namePort h port =>
    simp only [Form.text, Form.means, query_namePort, Query.mk.injEq, Option.some.injEq,
      cString_eq_self_iff, Form.isBare, Form.onlyPort, List.isEmpty_eq_false_iff, true_and]
    by_cases empty : h.text = []
    · -- the node is the host string then, with the `:` in front
      simp [empty, cString]
    · simp [empty, cString_eq_self_iff]
  | bracket v6 =>
    simp [Form.text, Form.means, query_brackets, cString_eq_self_iff, Form.isBare, Form.onlyPort]
  | bracketPort v6 port =>
    simp [Form.text, Form.means, query_brackets, cString_eq_self_iff, Form.isBare, Form.onlyPort]
  | bare v6 =>
    obtain ⟨service, passed⟩ := query_bare v6
    simp [Form.text, Form.means, passed, Form.isBare]

/-- `Lookup` passes on what the form says exactly if it is no bare IPv6 literal, which is left with a
service from the search for one, if there is a name in front of a port, and if no NUL ends the
string early. -/
theorem lookup_passes_iff {α β : Type} (getaddrinfo : Hints → Query → Option (List α))
    (create : α → β) (result : List β) (family type protocol : Int) (form : Form) :
    (lookup getaddrinfo create result form.text family type protocol).passed = form.means ↔
      form.isBare = false ∧ form.onlyPort = false ∧ 0 ∉ form.text := by
  have passed : (lookup getaddrinfo create result form.text family type protocol).passed =
      query form.text := by
    rw [lookup]
    split <;> rfl
  rw [passed, query_form_iff]

/-- `::1` is passed with the service `::1`. -/
theorem lookup_passes_service :
    let v6 : V6 := ⟨[58, 58, 49], by decide, by decide, by decide⟩
    let none_ : Hints → Query → Option (List Nat) := fun _ _ => none
    (lookup none_ id [] (Form.bare v6).text 10 1 0).passed = ⟨[58, 58, 49], some [58, 58, 49]⟩ ∧
      (lookup none_ id [] (Form.bare v6).text 10 1 0).passed ≠ (Form.bare v6).means := by
  decide

end ServerFrame.Lookup
