import Mathlib.Algebra.Ring.Nat
import Mathlib.Data.List.Basic

/-!
# The states of `httpclient_parser`

The generated automaton of `httpclient_parser.rl.cc`, as for `http11_parser`: for each state
the bytes on which it goes on, the state it goes to and its actions. The first edge that
accepts a byte is taken; what no edge accepts leads to the error state 0. The final states
are 120 to 123, of which `httpclient_parser_is_finished` tests for the first.
-/
namespace ServerFrame.Http

/-- The actions of the grammar; `start_value` is `mark`. -/
inductive ClientAct where
  | mark
  | startField
  | writeField
  | writeContentLen
  | writeConnectionClose
  | writeValue
  | reasonPhrase
  | statusCode
  | httpVersion
  | chunkSize
  | transChunked
  | done
  deriving DecidableEq, Repr

structure ClientEdge where
  bytes : List (Nat × Nat)
  target : Nat
  acts : List ClientAct

def ClientEdge.accepts (e : ClientEdge) (b : UInt8) : Bool :=
  e.bytes.any fun range => range.1 ≤ b.toNat && b.toNat ≤ range.2

private def edge (bytes : List (Nat × Nat)) (target : Nat) (acts : List ClientAct) : ClientEdge :=
  ⟨bytes, target, acts⟩

private def clientXdigit : List (Nat × Nat) := [(48, 57), (65, 70), (97, 102)]

private def clientToken : List (Nat × Nat) :=
  [(33, 33), (35, 39), (42, 43), (45, 46), (48, 57), (65, 90), (94, 122), (124, 124), (126, 126)]

private def blank : List (Nat × Nat) := [(9, 9), (11, 12), (32, 32)]

private def space : List (Nat × Nat) := [(9, 13), (32, 32)]

private def anyByte : List (Nat × Nat) := [(0, 255)]

private def clientStates1To60 : List (List ClientEdge) := [
  /- 1 -/ [edge [(72, 72)] 8 [.mark], edge clientXdigit 2 [.mark]],
  /- 2 -/ [edge [(10, 10)] 120 [.chunkSize, .done], edge [(13, 13)] 3 [.chunkSize],
    edge [(59, 59)] 4 [.chunkSize], edge clientXdigit 2 []],
  /- 3 -/ [edge [(10, 10)] 120 [.done]],
  /- 4 -/ [edge clientToken 5 [.startField]],
  /- 5 -/ [edge [(10, 10)] 120 [.writeField, .mark, .writeValue, .done],
    edge [(13, 13)] 3 [.writeField, .mark, .writeValue],
    edge [(59, 59)] 4 [.writeField, .mark, .writeValue], edge [(61, 61)] 6 [.writeField, .mark],
    edge clientToken 5 []],
  /- 6 -/ [edge clientToken 7 [.mark]],
  /- 7 -/ [edge [(10, 10)] 120 [.writeValue, .done], edge [(13, 13)] 3 [.writeValue],
    edge [(59, 59)] 4 [.writeValue], edge clientToken 7 []],
  /- 8 -/ [edge [(84, 84)] 9 []],
  /- 9 -/ [edge [(84, 84)] 10 []],
  /- 10 -/ [edge [(80, 80)] 11 []],
  /- 11 -/ [edge [(47, 47)] 12 []],
  /- 12 -/ [edge [(48, 57)] 13 []],
  /- 13 -/ [edge [(46, 46)] 14 [], edge [(48, 57)] 13 []],
  /- 14 -/ [edge [(48, 57)] 15 []],
  /- 15 -/ [edge [(32, 32)] 16 [.httpVersion], edge [(48, 57)] 15 []],
  /- 16 -/ [edge [(48, 57)] 17 [.mark]],
  /- 17 -/ [edge [(32, 32)] 18 [.statusCode], edge [(48, 57)] 17 []],
  /- 18 -/ [edge [(0, 9), (11, 255)] 19 [.mark]],
  /- 19 -/ [edge [(10, 10)] 20 [.reasonPhrase], edge [(13, 13)] 24 [.reasonPhrase],
    edge anyByte 19 []],
  /- 20 -/ [edge [(10, 10)] 120 [.done], edge [(13, 13)] 3 [],
    edge [(67, 67), (99, 99)] 25 [.startField], edge [(84, 84), (116, 116)] 44 [.startField],
    edge clientToken 21 [.startField]],
  /- 21 -/ [edge [(58, 58)] 22 [.writeField], edge clientToken 21 []],
  /- 22 -/ [edge [(10, 10)] 20 [.mark, .writeValue], edge [(13, 13)] 24 [.mark, .writeValue],
    edge blank 22 [.mark], edge anyByte 23 [.mark]],
  /- 23 -/ [edge [(10, 10)] 20 [.writeValue], edge [(13, 13)] 24 [.writeValue], edge anyByte 23 []],
  /- 24 -/ [edge [(10, 10)] 20 []],
  /- 25 -/ [edge [(58, 58)] 22 [.writeField], edge [(79, 79), (111, 111)] 26 [],
    edge clientToken 21 []],
  /- 26 -/ [edge [(58, 58)] 22 [.writeField], edge [(78, 78), (110, 110)] 27 [],
    edge clientToken 21 []],
  /- 27 -/ [edge [(58, 58)] 22 [.writeField], edge [(78, 78), (110, 110)] 28 [],
    edge [(84, 84), (116, 116)] 101 [], edge clientToken 21 []],
  /- 28 -/ [edge [(58, 58)] 22 [.writeField], edge [(69, 69), (101, 101)] 29 [],
    edge clientToken 21 []],
  /- 29 -/ [edge [(58, 58)] 22 [.writeField], edge [(67, 67), (99, 99)] 30 [],
    edge clientToken 21 []],
  /- 30 -/ [edge [(58, 58)] 22 [.writeField], edge [(84, 84), (116, 116)] 31 [],
    edge clientToken 21 []],
  /- 31 -/ [edge [(58, 58)] 22 [.writeField], edge [(73, 73), (105, 105)] 32 [],
    edge clientToken 21 []],
  /- 32 -/ [edge [(58, 58)] 22 [.writeField], edge [(79, 79), (111, 111)] 33 [],
    edge clientToken 21 []],
  /- 33 -/ [edge [(58, 58)] 22 [.writeField], edge [(78, 78), (110, 110)] 34 [],
    edge clientToken 21 []],
  /- 34 -/ [edge [(58, 58)] 35 [.writeField], edge clientToken 21 []],
  /- 35 -/ [edge [(10, 10)] 36 [.mark, .writeValue], edge [(13, 13)] 95 [.mark, .writeValue],
    edge [(67, 67), (99, 99)] 96 [.mark], edge blank 35 [.mark], edge anyByte 23 [.mark]],
  /- 36 -/ [edge [(10, 10)] 122 [.done], edge [(13, 13)] 89 [],
    edge [(67, 67), (99, 99)] 90 [.startField], edge [(84, 84), (116, 116)] 44 [.startField],
    edge blank 37 [], edge clientToken 21 [.startField]],
  /- 37 -/ [edge [(67, 67), (99, 99)] 38 [], edge space 37 []],
  /- 38 -/ [edge [(76, 76), (108, 108)] 39 []],
  /- 39 -/ [edge [(79, 79), (111, 111)] 40 []],
  /- 40 -/ [edge [(83, 83), (115, 115)] 41 []],
  /- 41 -/ [edge [(69, 69), (101, 101)] 42 []],
  /- 42 -/ [edge [(10, 10)] 43 [], edge [(13, 13)] 88 []],
  /- 43 -/ [edge [(10, 10)] 120 [.writeConnectionClose, .done],
    edge [(13, 13)] 3 [.writeConnectionClose],
    edge [(67, 67), (99, 99)] 25 [.writeConnectionClose, .startField],
    edge [(84, 84), (116, 116)] 44 [.writeConnectionClose, .startField],
    edge clientToken 21 [.writeConnectionClose, .startField]],
  /- 44 -/ [edge [(58, 58)] 22 [.writeField], edge [(82, 82), (114, 114)] 45 [],
    edge clientToken 21 []],
  /- 45 -/ [edge [(58, 58)] 22 [.writeField], edge [(65, 65), (97, 97)] 46 [],
    edge clientToken 21 []],
  /- 46 -/ [edge [(58, 58)] 22 [.writeField], edge [(78, 78), (110, 110)] 47 [],
    edge clientToken 21 []],
  /- 47 -/ [edge [(58, 58)] 22 [.writeField], edge [(83, 83), (115, 115)] 48 [],
    edge clientToken 21 []],
  /- 48 -/ [edge [(58, 58)] 22 [.writeField], edge [(70, 70), (102, 102)] 49 [],
    edge clientToken 21 []],
  /- 49 -/ [edge [(58, 58)] 22 [.writeField], edge [(69, 69), (101, 101)] 50 [],
    edge clientToken 21 []],
  /- 50 -/ [edge [(58, 58)] 22 [.writeField], edge [(82, 82), (114, 114)] 51 [],
    edge clientToken 21 []],
  /- 51 -/ [edge [(45, 45)] 52 [], edge [(58, 58)] 22 [.writeField], edge clientToken 21 []],
  /- 52 -/ [edge [(58, 58)] 22 [.writeField], edge [(69, 69), (101, 101)] 53 [],
    edge clientToken 21 []],
  /- 53 -/ [edge [(58, 58)] 22 [.writeField], edge [(78, 78), (110, 110)] 54 [],
    edge clientToken 21 []],
  /- 54 -/ [edge [(58, 58)] 22 [.writeField], edge [(67, 67), (99, 99)] 55 [],
    edge clientToken 21 []],
  /- 55 -/ [edge [(58, 58)] 22 [.writeField], edge [(79, 79), (111, 111)] 56 [],
    edge clientToken 21 []],
  /- 56 -/ [edge [(58, 58)] 22 [.writeField], edge [(68, 68), (100, 100)] 57 [],
    edge clientToken 21 []],
  /- 57 -/ [edge [(58, 58)] 22 [.writeField], edge [(73, 73), (105, 105)] 58 [],
    edge clientToken 21 []],
  /- 58 -/ [edge [(58, 58)] 22 [.writeField], edge [(78, 78), (110, 110)] 59 [],
    edge clientToken 21 []],
  /- 59 -/ [edge [(58, 58)] 22 [.writeField], edge [(71, 71), (103, 103)] 60 [],
    edge clientToken 21 []],
  /- 60 -/ [edge [(58, 58)] 61 [.writeField], edge clientToken 21 []]
]

private def clientStates61To123 : List (List ClientEdge) := [
  /- 61 -/ [edge [(10, 10)] 62 [.mark, .writeValue], edge [(13, 13)] 80 [.mark, .writeValue],
    edge [(67, 67), (99, 99)] 81 [.mark], edge blank 61 [.mark], edge anyByte 23 [.mark]],
  /- 62 -/ [edge [(10, 10)] 121 [.done], edge [(13, 13)] 72 [],
    edge [(67, 67), (99, 99)] 73 [.mark, .startField],
    edge [(84, 84), (116, 116)] 44 [.startField], edge blank 63 [],
    edge clientToken 21 [.startField]],
  /- 63 -/ [edge [(67, 67), (99, 99)] 64 [.mark], edge space 63 []],
  /- 64 -/ [edge [(72, 72), (104, 104)] 65 []],
  /- 65 -/ [edge [(85, 85), (117, 117)] 66 []],
  /- 66 -/ [edge [(78, 78), (110, 110)] 67 []],
  /- 67 -/ [edge [(75, 75), (107, 107)] 68 []],
  /- 68 -/ [edge [(69, 69), (101, 101)] 69 []],
  /- 69 -/ [edge [(68, 68), (100, 100)] 70 []],
  /- 70 -/ [edge [(10, 10)] 20 [.writeValue, .transChunked], edge [(13, 13)] 71 [.writeValue]],
  /- 71 -/ [edge [(10, 10)] 20 [.transChunked]],
  /- 72 -/ [edge [(10, 10)] 121 [.done], edge [(67, 67), (99, 99)] 64 [.mark], edge space 63 []],
  /- 73 -/ [edge [(58, 58)] 22 [.writeField], edge [(72, 72), (104, 104)] 74 [],
    edge [(79, 79), (111, 111)] 26 [], edge clientToken 21 []],
  /- 74 -/ [edge [(58, 58)] 22 [.writeField], edge [(85, 85), (117, 117)] 75 [],
    edge clientToken 21 []],
  /- 75 -/ [edge [(58, 58)] 22 [.writeField], edge [(78, 78), (110, 110)] 76 [],
    edge clientToken 21 []],
  /- 76 -/ [edge [(58, 58)] 22 [.writeField], edge [(75, 75), (107, 107)] 77 [],
    edge clientToken 21 []],
  /- 77 -/ [edge [(58, 58)] 22 [.writeField], edge [(69, 69), (101, 101)] 78 [],
    edge clientToken 21 []],
  /- 78 -/ [edge [(58, 58)] 22 [.writeField], edge [(68, 68), (100, 100)] 79 [],
    edge clientToken 21 []],
  /- 79 -/ [edge [(10, 10)] 20 [.writeValue, .transChunked], edge [(13, 13)] 71 [.writeValue],
    edge [(58, 58)] 22 [.writeField], edge clientToken 21 []],
  /- 80 -/ [edge [(10, 10)] 62 [], edge [(67, 67), (99, 99)] 64 [.mark], edge space 63 []],
  /- 81 -/ [edge [(10, 10)] 20 [.writeValue], edge [(13, 13)] 24 [.writeValue],
    edge [(72, 72), (104, 104)] 82 [], edge anyByte 23 []],
  /- 82 -/ [edge [(10, 10)] 20 [.writeValue], edge [(13, 13)] 24 [.writeValue],
    edge [(85, 85), (117, 117)] 83 [], edge anyByte 23 []],
  /- 83 -/ [edge [(10, 10)] 20 [.writeValue], edge [(13, 13)] 24 [.writeValue],
    edge [(78, 78), (110, 110)] 84 [], edge anyByte 23 []],
  /- 84 -/ [edge [(10, 10)] 20 [.writeValue], edge [(13, 13)] 24 [.writeValue],
    edge [(75, 75), (107, 107)] 85 [], edge anyByte 23 []],
  /- 85 -/ [edge [(10, 10)] 20 [.writeValue], edge [(13, 13)] 24 [.writeValue],
    edge [(69, 69), (101, 101)] 86 [], edge anyByte 23 []],
  /- 86 -/ [edge [(10, 10)] 20 [.writeValue], edge [(13, 13)] 24 [.writeValue],
    edge [(68, 68), (100, 100)] 87 [], edge anyByte 23 []],
  /- 87 -/ [edge [(10, 10)] 20 [.writeValue, .transChunked], edge [(13, 13)] 71 [.writeValue],
    edge anyByte 23 []],
  /- 88 -/ [edge [(10, 10)] 43 []],
  /- 89 -/ [edge [(10, 10)] 122 [.done], edge [(67, 67), (99, 99)] 38 [], edge space 37 []],
  /- 90 -/ [edge [(58, 58)] 22 [.writeField], edge [(76, 76), (108, 108)] 91 [],
    edge [(79, 79), (111, 111)] 26 [], edge clientToken 21 []],
  /- 91 -/ [edge [(58, 58)] 22 [.writeField], edge [(79, 79), (111, 111)] 92 [],
    edge clientToken 21 []],
  /- 92 -/ [edge [(58, 58)] 22 [.writeField], edge [(83, 83), (115, 115)] 93 [],
    edge clientToken 21 []],
  /- 93 -/ [edge [(58, 58)] 22 [.writeField], edge [(69, 69), (101, 101)] 94 [],
    edge clientToken 21 []],
  /- 94 -/ [edge [(10, 10)] 43 [], edge [(13, 13)] 88 [], edge [(58, 58)] 22 [.writeField],
    edge clientToken 21 []],
  /- 95 -/ [edge [(10, 10)] 36 [], edge [(67, 67), (99, 99)] 38 [], edge space 37 []],
  /- 96 -/ [edge [(10, 10)] 20 [.writeValue], edge [(13, 13)] 24 [.writeValue],
    edge [(76, 76), (108, 108)] 97 [], edge anyByte 23 []],
  /- 97 -/ [edge [(10, 10)] 20 [.writeValue], edge [(13, 13)] 24 [.writeValue],
    edge [(79, 79), (111, 111)] 98 [], edge anyByte 23 []],
  /- 98 -/ [edge [(10, 10)] 20 [.writeValue], edge [(13, 13)] 24 [.writeValue],
    edge [(83, 83), (115, 115)] 99 [], edge anyByte 23 []],
  /- 99 -/ [edge [(10, 10)] 20 [.writeValue], edge [(13, 13)] 24 [.writeValue],
    edge [(69, 69), (101, 101)] 100 [], edge anyByte 23 []],
  /- 100 -/ [edge [(10, 10)] 43 [.writeValue], edge [(13, 13)] 88 [.writeValue],
    edge anyByte 23 []],
  /- 101 -/ [edge [(58, 58)] 22 [.writeField], edge [(69, 69), (101, 101)] 102 [],
    edge clientToken 21 []],
  /- 102 -/ [edge [(58, 58)] 22 [.writeField], edge [(78, 78), (110, 110)] 103 [],
    edge clientToken 21 []],
  /- 103 -/ [edge [(58, 58)] 22 [.writeField], edge [(84, 84), (116, 116)] 104 [],
    edge clientToken 21 []],
  /- 104 -/ [edge [(45, 45)] 105 [], edge [(58, 58)] 22 [.writeField], edge clientToken 21 []],
  /- 105 -/ [edge [(58, 58)] 22 [.writeField], edge [(76, 76), (108, 108)] 106 [],
    edge clientToken 21 []],
  /- 106 -/ [edge [(58, 58)] 22 [.writeField], edge [(69, 69), (101, 101)] 107 [],
    edge clientToken 21 []],
  /- 107 -/ [edge [(58, 58)] 22 [.writeField], edge [(78, 78), (110, 110)] 108 [],
    edge clientToken 21 []],
  /- 108 -/ [edge [(58, 58)] 22 [.writeField], edge [(71, 71), (103, 103)] 109 [],
    edge clientToken 21 []],
  /- 109 -/ [edge [(58, 58)] 22 [.writeField], edge [(84, 84), (116, 116)] 110 [],
    edge clientToken 21 []],
  /- 110 -/ [edge [(58, 58)] 22 [.writeField], edge [(72, 72), (104, 104)] 111 [],
    edge clientToken 21 []],
  /- 111 -/ [edge [(58, 58)] 112 [.writeField], edge clientToken 21 []],
  /- 112 -/ [edge [(10, 10)] 113 [.mark, .writeValue], edge [(13, 13)] 118 [.mark, .writeValue],
    edge blank 112 [.mark], edge [(48, 57)] 119 [.mark], edge anyByte 23 [.mark]],
  /- 113 -/ [edge [(10, 10)] 123 [.done], edge [(13, 13)] 116 [],
    edge [(67, 67), (99, 99)] 25 [.startField], edge [(84, 84), (116, 116)] 44 [.startField],
    edge blank 114 [], edge [(48, 57)] 117 [.mark, .startField], edge clientToken 21 [.startField]],
  /- 114 -/ [edge space 114 [], edge [(48, 57)] 115 [.mark]],
  /- 115 -/ [edge [(10, 10)] 20 [.writeContentLen, .writeValue],
    edge [(13, 13)] 24 [.writeContentLen, .writeValue], edge [(48, 57)] 115 []],
  /- 116 -/ [edge [(10, 10)] 123 [.done], edge space 114 [], edge [(48, 57)] 115 [.mark]],
  /- 117 -/ [edge [(10, 10)] 20 [.writeContentLen, .writeValue],
    edge [(13, 13)] 24 [.writeContentLen, .writeValue], edge [(58, 58)] 22 [.writeField],
    edge [(48, 57)] 117 [], edge clientToken 21 []],
  /- 118 -/ [edge [(10, 10)] 113 [], edge space 114 [], edge [(48, 57)] 115 [.mark]],
  /- 119 -/ [edge [(10, 10)] 20 [.writeContentLen, .writeValue],
    edge [(13, 13)] 24 [.writeContentLen, .writeValue], edge [(48, 57)] 119 [], edge anyByte 23 []],
  /- 120 -/ [],
  /- 121 -/ [edge [(67, 67), (99, 99)] 64 [.mark], edge space 63 []],
  /- 122 -/ [edge [(67, 67), (99, 99)] 38 [], edge space 37 []],
  /- 123 -/ [edge space 114 [], edge [(48, 57)] 115 [.mark]]
]

/-- The edges of the states from 0 on. -/
def clientStates : List (List ClientEdge) := [] :: (clientStates1To60 ++ clientStates61To123)

/-- `httpclient_parser_start`, `httpclient_parser_first_final` and `httpclient_parser_error`. -/
def httpclientParserStart : Nat := 1

def httpclientParserFirstFinal : Nat := 120

def httpclientParserError : Nat := 0

/-- Where state `cs` goes on byte `b`, and what it does; `none` leads to the error state. -/
def clientTransition (cs : Nat) (b : UInt8) : Option (Nat × List ClientAct) :=
  ((clientStates.getD cs []).find? (·.accepts b)).map fun e => (e.target, e.acts)

end ServerFrame.Http
