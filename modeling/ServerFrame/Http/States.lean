import Mathlib.Algebra.Ring.Nat
import Mathlib.Data.List.Basic

/-!
# The states of `http11_parser`

The generated automaton of `http11_parser.rl.cc`: for each state the bytes on which it
goes on, the state it goes to, and the actions it takes there in their order. What no
edge accepts leads to the error state 0. `(0 - 31)` in the grammar is a difference of
sets, so tokens and values may hold control bytes, and `6( h16 ":" )` asks for a byte of
value 6; the states below are those of the generated code.
-/
namespace ServerFrame.Http

/-- The actions of the grammar; `start_value` is `mark`. -/
inductive Act where
  | mark
  | startField
  | writeField
  | writeValue
  | requestMethod
  | requestUri
  | fragment
  | startQuery
  | queryString
  | httpVersion
  | requestPath
  | done
  | xml
  | json
  deriving DecidableEq, Repr

/-- An edge of a state. The delimiters `{`, `}` and `^` are accepted on a `relaxed`
edge when `uri_relaxed` is set. -/
structure Edge where
  bytes : List (Nat × Nat)
  relaxed : Bool
  target : Nat
  acts : List Act

def Edge.accepts (e : Edge) (uriRelaxed : Bool) (b : UInt8) : Bool :=
  e.bytes.any (fun range => range.1 ≤ b.toNat && b.toNat ≤ range.2) ||
    (uriRelaxed && e.relaxed && (b == 94 || b == 123 || b == 125))

private def on (bytes : List (Nat × Nat)) (target : Nat) (acts : List Act) : Edge :=
  ⟨bytes, false, target, acts⟩

private def onRelaxed (bytes : List (Nat × Nat)) (target : Nat) (acts : List Act) : Edge :=
  ⟨bytes, true, target, acts⟩

private def digit : List (Nat × Nat) := [(48, 57)]

private def xdigit : List (Nat × Nat) := [(48, 57), (65, 70), (97, 102)]

private def hexLetter : List (Nat × Nat) := [(65, 70), (97, 102)]

private def upperDigit : List (Nat × Nat) := [(48, 57), (65, 90)]

private def regName : List (Nat × Nat) :=
  [(33, 33), (36, 36), (38, 46), (48, 57), (59, 59), (61, 61), (65, 90), (95, 95), (97, 122),
    (126, 126)]

private def userinfo : List (Nat × Nat) :=
  [(33, 33), (36, 36), (38, 46), (48, 59), (61, 61), (65, 90), (95, 95), (97, 122), (126, 126)]

private def segmentNc : List (Nat × Nat) :=
  [(33, 33), (36, 36), (38, 46), (48, 57), (59, 59), (61, 61), (64, 90), (95, 95), (97, 122),
    (126, 126)]

private def pchar : List (Nat × Nat) :=
  [(33, 33), (36, 36), (38, 46), (48, 59), (61, 61), (64, 90), (95, 95), (97, 122), (126, 126),
    (128, 255)]

private def pcharSlash : List (Nat × Nat) :=
  [(33, 33), (36, 36), (38, 59), (61, 61), (64, 90), (95, 95), (97, 122), (126, 126), (128, 255)]

private def queryChar : List (Nat × Nat) :=
  [(33, 33), (36, 36), (38, 59), (61, 61), (63, 90), (95, 95), (97, 122), (126, 126), (128, 255)]

private def token : List (Nat × Nat) :=
  [(1, 8), (10, 31), (33, 33), (35, 39), (42, 43), (45, 46), (48, 57), (65, 90), (94, 122),
    (124, 124), (126, 126)]

private def states1To59 : List (List Edge) := [
  /- 1 -/ [on upperDigit 2 [.mark], on [(60, 60)] 194 [.mark], on [(64, 64)] 198 [.mark]],
  /- 2 -/ [on [(32, 32)] 3 [.requestMethod], on upperDigit 175 []],
  /- 3 -/ [on [(32, 32)] 4 [.mark, .requestPath, .requestUri], onRelaxed [(33, 33), (36, 36),
    (38, 46), (48, 57), (59, 59), (61, 61), (64, 64), (95, 95), (126, 126)] 19 [.mark],
    on [(35, 35)] 20 [.mark, .requestPath, .requestUri], on [(37, 37)] 24 [.mark],
    on [(47, 47)] 33 [.mark], on [(63, 63)] 29 [.mark, .requestPath],
    on [(65, 90), (97, 122)] 173 [.mark]],
  /- 4 -/ [on [(72, 72)] 5 [.mark]],
  /- 5 -/ [on [(84, 84)] 6 []],
  /- 6 -/ [on [(84, 84)] 7 []],
  /- 7 -/ [on [(80, 80)] 8 []],
  /- 8 -/ [on [(47, 47)] 9 []],
  /- 9 -/ [on [(49, 49)] 10 []],
  /- 10 -/ [on [(46, 46)] 11 []],
  /- 11 -/ [on [(48, 49)] 12 []],
  /- 12 -/ [on [(10, 10)] 13 [.httpVersion], on [(13, 13)] 17 [.httpVersion]],
  /- 13 -/ [on [(1, 8), (11, 12), (14, 31), (33, 33), (35, 39), (42, 43), (45, 46), (48, 57),
    (65, 90), (94, 122), (124, 124), (126, 126)] 14 [.startField],
    on [(10, 10)] 348 [.startField, .done], on [(13, 13)] 18 [.startField]],
  /- 14 -/ [on token 14 [], on [(58, 58)] 15 [.writeField]],
  /- 15 -/ [on [(1, 8), (11, 12), (14, 31), (33, 126), (128, 255)] 16 [.mark],
    on [(9, 9), (32, 32)] 15 [.mark], on [(10, 10)] 13 [.mark, .writeValue],
    on [(13, 13)] 17 [.mark, .writeValue]],
  /- 16 -/ [on [(1, 9), (11, 12), (14, 126), (128, 255)] 16 [], on [(10, 10)] 13 [.writeValue],
    on [(13, 13)] 17 [.writeValue]],
  /- 17 -/ [on [(10, 10)] 13 []],
  /- 18 -/ [on [(1, 8), (11, 31), (33, 33), (35, 39), (42, 43), (45, 46), (48, 57), (65, 90),
    (94, 122), (124, 124), (126, 126)] 14 [], on [(10, 10)] 348 [.done],
    on [(58, 58)] 15 [.writeField]],
  /- 19 -/ [on [(32, 32)] 4 [.requestPath, .requestUri], onRelaxed segmentNc 19 [],
    on [(35, 35)] 20 [.requestPath, .requestUri], on [(37, 37)] 24 [], on [(47, 47)] 26 [],
    on [(63, 63)] 29 [.requestPath]],
  /- 20 -/ [on [(32, 32)] 4 [.mark, .fragment], onRelaxed queryChar 21 [.mark],
    on [(37, 37)] 22 [.mark]],
  /- 21 -/ [on [(32, 32)] 4 [.fragment], onRelaxed queryChar 21 [], on [(37, 37)] 22 []],
  /- 22 -/ [on xdigit 23 []],
  /- 23 -/ [on xdigit 21 []],
  /- 24 -/ [on xdigit 25 []],
  /- 25 -/ [on xdigit 19 []],
  /- 26 -/ [on [(32, 32)] 4 [.requestPath, .requestUri], onRelaxed pcharSlash 26 [],
    on [(35, 35)] 20 [.requestPath, .requestUri], on [(37, 37)] 27 [],
    on [(63, 63)] 29 [.requestPath]],
  /- 27 -/ [on xdigit 28 []],
  /- 28 -/ [on xdigit 26 []],
  /- 29 -/ [on [(32, 32)] 4 [.startQuery, .queryString, .requestUri],
    onRelaxed queryChar 30 [.startQuery],
    on [(35, 35)] 20 [.startQuery, .queryString, .requestUri], on [(37, 37)] 31 [.startQuery]],
  /- 30 -/ [on [(32, 32)] 4 [.queryString, .requestUri], onRelaxed queryChar 30 [],
    on [(35, 35)] 20 [.queryString, .requestUri], on [(37, 37)] 31 []],
  /- 31 -/ [on xdigit 32 []],
  /- 32 -/ [on xdigit 30 []],
  /- 33 -/ [on [(32, 32)] 4 [.requestPath, .requestUri], onRelaxed pchar 26 [],
    on [(35, 35)] 20 [.requestPath, .requestUri], on [(37, 37)] 27 [], on [(47, 47)] 34 [],
    on [(63, 63)] 29 [.requestPath]],
  /- 34 -/ [on [(32, 32)] 4 [.requestPath, .requestUri], onRelaxed regName 35 [],
    on [(35, 35)] 20 [.requestPath, .requestUri], on [(37, 37)] 36 [], on [(47, 47)] 26 [],
    on [(58, 58)] 38 [], on [(63, 63)] 29 [.requestPath], on [(64, 64)] 42 [], on [(91, 91)] 47 []],
  /- 35 -/ [on [(32, 32)] 4 [.requestPath, .requestUri], onRelaxed regName 35 [],
    on [(35, 35)] 20 [.requestPath, .requestUri], on [(37, 37)] 36 [], on [(47, 47)] 26 [],
    on [(58, 58)] 38 [], on [(63, 63)] 29 [.requestPath], on [(64, 64)] 42 []],
  /- 36 -/ [on xdigit 37 []],
  /- 37 -/ [on xdigit 35 []],
  /- 38 -/ [on [(32, 32)] 4 [.requestPath, .requestUri], onRelaxed [(33, 33), (36, 36), (38, 46),
    (58, 59), (61, 61), (65, 90), (95, 95), (97, 122), (126, 126)] 39 [],
    on [(35, 35)] 20 [.requestPath, .requestUri], on [(37, 37)] 40 [], on [(47, 47)] 26 [],
    on digit 38 [], on [(63, 63)] 29 [.requestPath], on [(64, 64)] 42 []],
  /- 39 -/ [onRelaxed userinfo 39 [], on [(37, 37)] 40 [], on [(64, 64)] 42 []],
  /- 40 -/ [on xdigit 41 []],
  /- 41 -/ [on xdigit 39 []],
  /- 42 -/ [on [(32, 32)] 4 [.requestPath, .requestUri], onRelaxed regName 43 [],
    on [(35, 35)] 20 [.requestPath, .requestUri], on [(37, 37)] 44 [], on [(47, 47)] 26 [],
    on [(58, 58)] 46 [], on [(63, 63)] 29 [.requestPath], on [(91, 91)] 47 []],
  /- 43 -/ [on [(32, 32)] 4 [.requestPath, .requestUri], onRelaxed regName 43 [],
    on [(35, 35)] 20 [.requestPath, .requestUri], on [(37, 37)] 44 [], on [(47, 47)] 26 [],
    on [(58, 58)] 46 [], on [(63, 63)] 29 [.requestPath]],
  /- 44 -/ [on xdigit 45 []],
  /- 45 -/ [on xdigit 43 []],
  /- 46 -/ [on [(32, 32)] 4 [.requestPath, .requestUri],
    on [(35, 35)] 20 [.requestPath, .requestUri], on [(47, 47)] 26 [], on digit 46 [],
    on [(63, 63)] 29 [.requestPath]],
  /- 47 -/ [on [(6, 6)] 48 [], on xdigit 91 [], on [(58, 58)] 167 [], on [(118, 118)] 169 []],
  /- 48 -/ [on xdigit 49 []],
  /- 49 -/ [on xdigit 50 [], on [(58, 58)] 53 []],
  /- 50 -/ [on xdigit 51 [], on [(58, 58)] 53 []],
  /- 51 -/ [on xdigit 52 [], on [(58, 58)] 53 []],
  /- 52 -/ [on [(58, 58)] 53 []],
  /- 53 -/ [on [(48, 48), (51, 57)] 54 [], on [(49, 49)] 84 [], on [(50, 50)] 87 [],
    on hexLetter 90 []],
  /- 54 -/ [on [(46, 46)] 55 [], on xdigit 77 [], on [(58, 58)] 80 []],
  /- 55 -/ [on [(48, 48), (51, 57)] 56 [], on [(49, 49)] 72 [], on [(50, 50)] 74 []],
  /- 56 -/ [on [(46, 46)] 57 []],
  /- 57 -/ [on [(48, 48), (51, 57)] 58 [], on [(49, 49)] 67 [], on [(50, 50)] 69 []],
  /- 58 -/ [on [(46, 46)] 59 []],
  /- 59 -/ [on [(48, 48), (51, 57)] 60 [], on [(49, 49)] 62 [], on [(50, 50)] 64 []]
]

private def states60To119 : List (List Edge) := [
  /- 60 -/ [on [(93, 93)] 61 []],
  /- 61 -/ [on [(32, 32)] 4 [.requestPath, .requestUri],
    on [(35, 35)] 20 [.requestPath, .requestUri], on [(47, 47)] 26 [], on [(58, 58)] 46 [],
    on [(63, 63)] 29 [.requestPath]],
  /- 62 -/ [on digit 63 [], on [(93, 93)] 61 []],
  /- 63 -/ [on digit 60 [], on [(93, 93)] 61 []],
  /- 64 -/ [on [(48, 48)] 65 [], on [(53, 53)] 66 [], on [(93, 93)] 61 []],
  /- 65 -/ [on digit 60 []],
  /- 66 -/ [on [(48, 48)] 60 []],
  /- 67 -/ [on [(46, 46)] 59 [], on digit 68 []],
  /- 68 -/ [on [(46, 46)] 59 [], on digit 58 []],
  /- 69 -/ [on [(46, 46)] 59 [], on [(48, 48)] 70 [], on [(53, 53)] 71 []],
  /- 70 -/ [on digit 58 []],
  /- 71 -/ [on [(48, 48)] 58 []],
  /- 72 -/ [on [(46, 46)] 57 [], on digit 73 []],
  /- 73 -/ [on [(46, 46)] 57 [], on digit 56 []],
  /- 74 -/ [on [(46, 46)] 57 [], on [(48, 48)] 75 [], on [(53, 53)] 76 []],
  /- 75 -/ [on digit 56 []],
  /- 76 -/ [on [(48, 48)] 56 []],
  /- 77 -/ [on xdigit 78 [], on [(58, 58)] 80 []],
  /- 78 -/ [on xdigit 79 [], on [(58, 58)] 80 []],
  /- 79 -/ [on [(58, 58)] 80 []],
  /- 80 -/ [on xdigit 81 []],
  /- 81 -/ [on xdigit 82 [], on [(93, 93)] 61 []],
  /- 82 -/ [on xdigit 83 [], on [(93, 93)] 61 []],
  /- 83 -/ [on xdigit 60 [], on [(93, 93)] 61 []],
  /- 84 -/ [on [(46, 46)] 55 [], on digit 85 [], on [(58, 58)] 80 [], on hexLetter 77 []],
  /- 85 -/ [on [(46, 46)] 55 [], on digit 86 [], on [(58, 58)] 80 [], on hexLetter 78 []],
  /- 86 -/ [on [(46, 46)] 55 [], on xdigit 79 [], on [(58, 58)] 80 []],
  /- 87 -/ [on [(46, 46)] 55 [], on [(48, 48)] 88 [],
    on [(49, 52), (54, 57), (65, 70), (97, 102)] 77 [], on [(53, 53)] 89 [], on [(58, 58)] 80 []],
  /- 88 -/ [on digit 86 [], on [(58, 58)] 80 [], on hexLetter 78 []],
  /- 89 -/ [on [(48, 48)] 86 [], on [(49, 57), (65, 70), (97, 102)] 78 [], on [(58, 58)] 80 []],
  /- 90 -/ [on xdigit 77 [], on [(58, 58)] 80 []],
  /- 91 -/ [on xdigit 92 [], on [(58, 58)] 95 []],
  /- 92 -/ [on xdigit 93 [], on [(58, 58)] 95 []],
  /- 93 -/ [on xdigit 94 [], on [(58, 58)] 95 []],
  /- 94 -/ [on [(58, 58)] 95 []],
  /- 95 -/ [on xdigit 96 [], on [(58, 58)] 166 []],
  /- 96 -/ [on xdigit 97 [], on [(58, 58)] 100 []],
  /- 97 -/ [on xdigit 98 [], on [(58, 58)] 100 []],
  /- 98 -/ [on xdigit 99 [], on [(58, 58)] 100 []],
  /- 99 -/ [on [(58, 58)] 100 []],
  /- 100 -/ [on xdigit 101 [], on [(58, 58)] 165 []],
  /- 101 -/ [on xdigit 102 [], on [(58, 58)] 105 []],
  /- 102 -/ [on xdigit 103 [], on [(58, 58)] 105 []],
  /- 103 -/ [on xdigit 104 [], on [(58, 58)] 105 []],
  /- 104 -/ [on [(58, 58)] 105 []],
  /- 105 -/ [on xdigit 106 [], on [(58, 58)] 164 []],
  /- 106 -/ [on xdigit 107 [], on [(58, 58)] 110 []],
  /- 107 -/ [on xdigit 108 [], on [(58, 58)] 110 []],
  /- 108 -/ [on xdigit 109 [], on [(58, 58)] 110 []],
  /- 109 -/ [on [(58, 58)] 110 []],
  /- 110 -/ [on xdigit 111 [], on [(58, 58)] 163 []],
  /- 111 -/ [on xdigit 112 [], on [(58, 58)] 115 []],
  /- 112 -/ [on xdigit 113 [], on [(58, 58)] 115 []],
  /- 113 -/ [on xdigit 114 [], on [(58, 58)] 115 []],
  /- 114 -/ [on [(58, 58)] 115 []],
  /- 115 -/ [on xdigit 116 [], on [(58, 58)] 151 []],
  /- 116 -/ [on xdigit 117 [], on [(58, 58)] 120 []],
  /- 117 -/ [on xdigit 118 [], on [(58, 58)] 120 []],
  /- 118 -/ [on xdigit 119 [], on [(58, 58)] 120 []],
  /- 119 -/ [on [(58, 58)] 120 []]
]

private def states120To179 : List (List Edge) := [
  /- 120 -/ [on xdigit 121 [], on [(58, 58)] 150 []],
  /- 121 -/ [on xdigit 122 [], on [(58, 58)] 125 []],
  /- 122 -/ [on xdigit 123 [], on [(58, 58)] 125 []],
  /- 123 -/ [on xdigit 124 [], on [(58, 58)] 125 []],
  /- 124 -/ [on [(58, 58)] 125 []],
  /- 125 -/ [on xdigit 121 [], on [(58, 58)] 126 []],
  /- 126 -/ [on [(2, 3)] 48 [], on [(48, 48), (51, 57)] 127 [], on [(49, 49)] 143 [],
    on [(50, 50)] 146 [], on hexLetter 149 [], on [(93, 93)] 61 []],
  /- 127 -/ [on [(46, 46)] 55 [], on xdigit 128 [], on [(58, 58)] 131 [], on [(93, 93)] 61 []],
  /- 128 -/ [on xdigit 129 [], on [(58, 58)] 131 [], on [(93, 93)] 61 []],
  /- 129 -/ [on xdigit 130 [], on [(58, 58)] 131 [], on [(93, 93)] 61 []],
  /- 130 -/ [on [(58, 58)] 131 [], on [(93, 93)] 61 []],
  /- 131 -/ [on [(48, 48), (51, 57)] 132 [], on [(49, 49)] 136 [], on [(50, 50)] 139 [],
    on hexLetter 142 []],
  /- 132 -/ [on [(46, 46)] 55 [], on xdigit 133 [], on [(58, 58)] 80 [], on [(93, 93)] 61 []],
  /- 133 -/ [on xdigit 134 [], on [(58, 58)] 80 [], on [(93, 93)] 61 []],
  /- 134 -/ [on xdigit 135 [], on [(58, 58)] 80 [], on [(93, 93)] 61 []],
  /- 135 -/ [on [(58, 58)] 80 [], on [(93, 93)] 61 []],
  /- 136 -/ [on [(46, 46)] 55 [], on digit 137 [], on [(58, 58)] 80 [], on hexLetter 133 [],
    on [(93, 93)] 61 []],
  /- 137 -/ [on [(46, 46)] 55 [], on digit 138 [], on [(58, 58)] 80 [], on hexLetter 134 [],
    on [(93, 93)] 61 []],
  /- 138 -/ [on [(46, 46)] 55 [], on xdigit 135 [], on [(58, 58)] 80 [], on [(93, 93)] 61 []],
  /- 139 -/ [on [(46, 46)] 55 [], on [(48, 48)] 140 [],
    on [(49, 52), (54, 57), (65, 70), (97, 102)] 133 [], on [(53, 53)] 141 [], on [(58, 58)] 80 [],
    on [(93, 93)] 61 []],
  /- 140 -/ [on digit 138 [], on [(58, 58)] 80 [], on hexLetter 134 [], on [(93, 93)] 61 []],
  /- 141 -/ [on [(48, 48)] 138 [], on [(49, 57), (65, 70), (97, 102)] 134 [], on [(58, 58)] 80 [],
    on [(93, 93)] 61 []],
  /- 142 -/ [on xdigit 133 [], on [(58, 58)] 80 [], on [(93, 93)] 61 []],
  /- 143 -/ [on [(46, 46)] 55 [], on digit 144 [], on [(58, 58)] 131 [], on hexLetter 128 [],
    on [(93, 93)] 61 []],
  /- 144 -/ [on [(46, 46)] 55 [], on digit 145 [], on [(58, 58)] 131 [], on hexLetter 129 [],
    on [(93, 93)] 61 []],
  /- 145 -/ [on [(46, 46)] 55 [], on xdigit 130 [], on [(58, 58)] 131 [], on [(93, 93)] 61 []],
  /- 146 -/ [on [(46, 46)] 55 [], on [(48, 48)] 147 [],
    on [(49, 52), (54, 57), (65, 70), (97, 102)] 128 [], on [(53, 53)] 148 [],
    on [(58, 58)] 131 [], on [(93, 93)] 61 []],
  /- 147 -/ [on digit 145 [], on [(58, 58)] 131 [], on hexLetter 129 [], on [(93, 93)] 61 []],
  /- 148 -/ [on [(48, 48)] 145 [], on [(49, 57), (65, 70), (97, 102)] 129 [], on [(58, 58)] 131 [],
    on [(93, 93)] 61 []],
  /- 149 -/ [on xdigit 128 [], on [(58, 58)] 131 [], on [(93, 93)] 61 []],
  /- 150 -/ [on [(2, 3)] 48 [], on [(48, 48), (51, 57)] 127 [], on [(49, 49)] 143 [],
    on [(50, 50)] 146 [], on hexLetter 149 []],
  /- 151 -/ [on [(2, 3)] 48 [], on [(48, 48), (51, 57)] 152 [], on [(49, 49)] 156 [],
    on [(50, 50)] 159 [], on hexLetter 162 []],
  /- 152 -/ [on [(46, 46)] 55 [], on xdigit 153 [], on [(58, 58)] 131 []],
  /- 153 -/ [on xdigit 154 [], on [(58, 58)] 131 []],
  /- 154 -/ [on xdigit 155 [], on [(58, 58)] 131 []],
  /- 155 -/ [on [(58, 58)] 131 []],
  /- 156 -/ [on [(46, 46)] 55 [], on digit 157 [], on [(58, 58)] 131 [], on hexLetter 153 []],
  /- 157 -/ [on [(46, 46)] 55 [], on digit 158 [], on [(58, 58)] 131 [], on hexLetter 154 []],
  /- 158 -/ [on [(46, 46)] 55 [], on xdigit 155 [], on [(58, 58)] 131 []],
  /- 159 -/ [on [(46, 46)] 55 [], on [(48, 48)] 160 [],
    on [(49, 52), (54, 57), (65, 70), (97, 102)] 153 [], on [(53, 53)] 161 [],
    on [(58, 58)] 131 []],
  /- 160 -/ [on digit 158 [], on [(58, 58)] 131 [], on hexLetter 154 []],
  /- 161 -/ [on [(48, 48)] 158 [], on [(49, 57), (65, 70), (97, 102)] 154 [], on [(58, 58)] 131 []],
  /- 162 -/ [on xdigit 153 [], on [(58, 58)] 131 []],
  /- 163 -/ [on [(2, 3)] 48 [], on xdigit 49 []],
  /- 164 -/ [on [(2, 3)] 48 []],
  /- 165 -/ [on [(3, 3)] 48 []],
  /- 166 -/ [on [(4, 4)] 48 []],
  /- 167 -/ [on [(58, 58)] 168 []],
  /- 168 -/ [on [(2, 5)] 48 [], on [(48, 48), (51, 57)] 127 [], on [(49, 49)] 143 [],
    on [(50, 50)] 146 [], on hexLetter 149 [], on [(93, 93)] 61 []],
  /- 169 -/ [on xdigit 170 []],
  /- 170 -/ [on [(46, 46)] 171 [], on xdigit 170 []],
  /- 171 -/ [onRelaxed userinfo 172 []],
  /- 172 -/ [onRelaxed userinfo 172 [], on [(93, 93)] 61 []],
  /- 173 -/ [on [(32, 32)] 4 [.requestPath, .requestUri], onRelaxed [(33, 33), (36, 36), (38, 42),
    (44, 44), (59, 59), (61, 61), (64, 64), (95, 95), (126, 126)] 19 [],
    on [(35, 35)] 20 [.requestPath, .requestUri], on [(37, 37)] 24 [],
    on [(43, 43), (45, 46), (48, 57), (65, 90), (97, 122)] 173 [], on [(47, 47)] 26 [],
    on [(58, 58)] 174 [], on [(63, 63)] 29 [.requestPath]],
  /- 174 -/ [on [(32, 32)] 4 [.mark, .requestPath, .requestUri], onRelaxed pchar 26 [.mark],
    on [(35, 35)] 20 [.mark, .requestPath, .requestUri], on [(37, 37)] 27 [.mark],
    on [(47, 47)] 33 [.mark], on [(63, 63)] 29 [.mark, .requestPath]],
  /- 175 -/ [on [(32, 32)] 3 [.requestMethod], on upperDigit 176 []],
  /- 176 -/ [on [(32, 32)] 3 [.requestMethod], on upperDigit 177 []],
  /- 177 -/ [on [(32, 32)] 3 [.requestMethod], on upperDigit 178 []],
  /- 178 -/ [on [(32, 32)] 3 [.requestMethod], on upperDigit 179 []],
  /- 179 -/ [on [(32, 32)] 3 [.requestMethod], on upperDigit 180 []]
]

private def states180To239 : List (List Edge) := [
  /- 180 -/ [on [(32, 32)] 3 [.requestMethod], on upperDigit 181 []],
  /- 181 -/ [on [(32, 32)] 3 [.requestMethod], on upperDigit 182 []],
  /- 182 -/ [on [(32, 32)] 3 [.requestMethod], on upperDigit 183 []],
  /- 183 -/ [on [(32, 32)] 3 [.requestMethod], on upperDigit 184 []],
  /- 184 -/ [on [(32, 32)] 3 [.requestMethod], on upperDigit 185 []],
  /- 185 -/ [on [(32, 32)] 3 [.requestMethod], on upperDigit 186 []],
  /- 186 -/ [on [(32, 32)] 3 [.requestMethod], on upperDigit 187 []],
  /- 187 -/ [on [(32, 32)] 3 [.requestMethod], on upperDigit 188 []],
  /- 188 -/ [on [(32, 32)] 3 [.requestMethod], on upperDigit 189 []],
  /- 189 -/ [on [(32, 32)] 3 [.requestMethod], on upperDigit 190 []],
  /- 190 -/ [on [(32, 32)] 3 [.requestMethod], on upperDigit 191 []],
  /- 191 -/ [on [(32, 32)] 3 [.requestMethod], on upperDigit 192 []],
  /- 192 -/ [on [(32, 32)] 3 [.requestMethod], on upperDigit 193 []],
  /- 193 -/ [on [(32, 32)] 3 [.requestMethod]],
  /- 194 -/ [on [(45, 46), (48, 57), (65, 90), (97, 122)] 195 []],
  /- 195 -/ [on [(9, 13), (32, 32), (47, 47), (62, 62)] 196 [.requestPath],
    on [(45, 46), (48, 57), (65, 90), (97, 122)] 195 []],
  /- 196 -/ [on [(0, 61), (63, 255)] 196 [], on [(62, 62)] 197 []],
  /- 197 -/ [on [(0, 0)] 349 [.xml, .done], on [(1, 61), (63, 255)] 196 [], on [(62, 62)] 197 []],
  /- 198 -/ [on [(32, 32)] 199 [.requestPath], onRelaxed segmentNc 202 [], on [(37, 37)] 203 [],
    on [(47, 47)] 208 []],
  /- 199 -/ [on [(123, 123)] 200 [.mark]],
  /- 200 -/ [on [(0, 124), (126, 255)] 200 [], on [(125, 125)] 201 []],
  /- 201 -/ [on [(0, 0)] 349 [.json, .done], on [(1, 124), (126, 255)] 200 [],
    on [(125, 125)] 201 []],
  /- 202 -/ [on [(32, 32)] 199 [.requestPath], onRelaxed segmentNc 202 [], on [(37, 37)] 203 [],
    on [(47, 47)] 205 []],
  /- 203 -/ [on xdigit 204 []],
  /- 204 -/ [on xdigit 202 []],
  /- 205 -/ [on [(32, 32)] 199 [.requestPath], onRelaxed pcharSlash 205 [], on [(37, 37)] 206 []],
  /- 206 -/ [on xdigit 207 []],
  /- 207 -/ [on xdigit 205 []],
  /- 208 -/ [on [(32, 32)] 199 [.requestPath], onRelaxed pchar 205 [], on [(37, 37)] 206 [],
    on [(47, 47)] 209 []],
  /- 209 -/ [on [(32, 32)] 199 [.requestPath], onRelaxed regName 210 [], on [(37, 37)] 211 [],
    on [(47, 47)] 205 [], on [(58, 58)] 213 [], on [(64, 64)] 217 [], on [(91, 91)] 222 []],
  /- 210 -/ [on [(32, 32)] 199 [.requestPath], onRelaxed regName 210 [], on [(37, 37)] 211 [],
    on [(47, 47)] 205 [], on [(58, 58)] 213 [], on [(64, 64)] 217 []],
  /- 211 -/ [on xdigit 212 []],
  /- 212 -/ [on xdigit 210 []],
  /- 213 -/ [on [(32, 32)] 199 [.requestPath], onRelaxed [(33, 33), (36, 36), (38, 46), (58, 59),
    (61, 61), (65, 90), (95, 95), (97, 122), (126, 126)] 214 [], on [(37, 37)] 215 [],
    on [(47, 47)] 205 [], on digit 213 [], on [(64, 64)] 217 []],
  /- 214 -/ [onRelaxed userinfo 214 [], on [(37, 37)] 215 [], on [(64, 64)] 217 []],
  /- 215 -/ [on xdigit 216 []],
  /- 216 -/ [on xdigit 214 []],
  /- 217 -/ [on [(32, 32)] 199 [.requestPath], onRelaxed regName 218 [], on [(37, 37)] 219 [],
    on [(47, 47)] 205 [], on [(58, 58)] 221 [], on [(91, 91)] 222 []],
  /- 218 -/ [on [(32, 32)] 199 [.requestPath], onRelaxed regName 218 [], on [(37, 37)] 219 [],
    on [(47, 47)] 205 [], on [(58, 58)] 221 []],
  /- 219 -/ [on xdigit 220 []],
  /- 220 -/ [on xdigit 218 []],
  /- 221 -/ [on [(32, 32)] 199 [.requestPath], on [(47, 47)] 205 [], on digit 221 []],
  /- 222 -/ [on [(6, 6)] 223 [], on xdigit 266 [], on [(58, 58)] 342 [], on [(118, 118)] 344 []],
  /- 223 -/ [on xdigit 224 []],
  /- 224 -/ [on xdigit 225 [], on [(58, 58)] 228 []],
  /- 225 -/ [on xdigit 226 [], on [(58, 58)] 228 []],
  /- 226 -/ [on xdigit 227 [], on [(58, 58)] 228 []],
  /- 227 -/ [on [(58, 58)] 228 []],
  /- 228 -/ [on [(48, 48), (51, 57)] 229 [], on [(49, 49)] 259 [], on [(50, 50)] 262 [],
    on hexLetter 265 []],
  /- 229 -/ [on [(46, 46)] 230 [], on xdigit 252 [], on [(58, 58)] 255 []],
  /- 230 -/ [on [(48, 48), (51, 57)] 231 [], on [(49, 49)] 247 [], on [(50, 50)] 249 []],
  /- 231 -/ [on [(46, 46)] 232 []],
  /- 232 -/ [on [(48, 48), (51, 57)] 233 [], on [(49, 49)] 242 [], on [(50, 50)] 244 []],
  /- 233 -/ [on [(46, 46)] 234 []],
  /- 234 -/ [on [(48, 48), (51, 57)] 235 [], on [(49, 49)] 237 [], on [(50, 50)] 239 []],
  /- 235 -/ [on [(93, 93)] 236 []],
  /- 236 -/ [on [(32, 32)] 199 [.requestPath], on [(47, 47)] 205 [], on [(58, 58)] 221 []],
  /- 237 -/ [on digit 238 [], on [(93, 93)] 236 []],
  /- 238 -/ [on digit 235 [], on [(93, 93)] 236 []],
  /- 239 -/ [on [(48, 48)] 240 [], on [(53, 53)] 241 [], on [(93, 93)] 236 []]
]

private def states240To299 : List (List Edge) := [
  /- 240 -/ [on digit 235 []],
  /- 241 -/ [on [(48, 48)] 235 []],
  /- 242 -/ [on [(46, 46)] 234 [], on digit 243 []],
  /- 243 -/ [on [(46, 46)] 234 [], on digit 233 []],
  /- 244 -/ [on [(46, 46)] 234 [], on [(48, 48)] 245 [], on [(53, 53)] 246 []],
  /- 245 -/ [on digit 233 []],
  /- 246 -/ [on [(48, 48)] 233 []],
  /- 247 -/ [on [(46, 46)] 232 [], on digit 248 []],
  /- 248 -/ [on [(46, 46)] 232 [], on digit 231 []],
  /- 249 -/ [on [(46, 46)] 232 [], on [(48, 48)] 250 [], on [(53, 53)] 251 []],
  /- 250 -/ [on digit 231 []],
  /- 251 -/ [on [(48, 48)] 231 []],
  /- 252 -/ [on xdigit 253 [], on [(58, 58)] 255 []],
  /- 253 -/ [on xdigit 254 [], on [(58, 58)] 255 []],
  /- 254 -/ [on [(58, 58)] 255 []],
  /- 255 -/ [on xdigit 256 []],
  /- 256 -/ [on xdigit 257 [], on [(93, 93)] 236 []],
  /- 257 -/ [on xdigit 258 [], on [(93, 93)] 236 []],
  /- 258 -/ [on xdigit 235 [], on [(93, 93)] 236 []],
  /- 259 -/ [on [(46, 46)] 230 [], on digit 260 [], on [(58, 58)] 255 [], on hexLetter 252 []],
  /- 260 -/ [on [(46, 46)] 230 [], on digit 261 [], on [(58, 58)] 255 [], on hexLetter 253 []],
  /- 261 -/ [on [(46, 46)] 230 [], on xdigit 254 [], on [(58, 58)] 255 []],
  /- 262 -/ [on [(46, 46)] 230 [], on [(48, 48)] 263 [],
    on [(49, 52), (54, 57), (65, 70), (97, 102)] 252 [], on [(53, 53)] 264 [],
    on [(58, 58)] 255 []],
  /- 263 -/ [on digit 261 [], on [(58, 58)] 255 [], on hexLetter 253 []],
  /- 264 -/ [on [(48, 48)] 261 [], on [(49, 57), (65, 70), (97, 102)] 253 [], on [(58, 58)] 255 []],
  /- 265 -/ [on xdigit 252 [], on [(58, 58)] 255 []],
  /- 266 -/ [on xdigit 267 [], on [(58, 58)] 270 []],
  /- 267 -/ [on xdigit 268 [], on [(58, 58)] 270 []],
  /- 268 -/ [on xdigit 269 [], on [(58, 58)] 270 []],
  /- 269 -/ [on [(58, 58)] 270 []],
  /- 270 -/ [on xdigit 271 [], on [(58, 58)] 341 []],
  /- 271 -/ [on xdigit 272 [], on [(58, 58)] 275 []],
  /- 272 -/ [on xdigit 273 [], on [(58, 58)] 275 []],
  /- 273 -/ [on xdigit 274 [], on [(58, 58)] 275 []],
  /- 274 -/ [on [(58, 58)] 275 []],
  /- 275 -/ [on xdigit 276 [], on [(58, 58)] 340 []],
  /- 276 -/ [on xdigit 277 [], on [(58, 58)] 280 []],
  /- 277 -/ [on xdigit 278 [], on [(58, 58)] 280 []],
  /- 278 -/ [on xdigit 279 [], on [(58, 58)] 280 []],
  /- 279 -/ [on [(58, 58)] 280 []],
  /- 280 -/ [on xdigit 281 [], on [(58, 58)] 339 []],
  /- 281 -/ [on xdigit 282 [], on [(58, 58)] 285 []],
  /- 282 -/ [on xdigit 283 [], on [(58, 58)] 285 []],
  /- 283 -/ [on xdigit 284 [], on [(58, 58)] 285 []],
  /- 284 -/ [on [(58, 58)] 285 []],
  /- 285 -/ [on xdigit 286 [], on [(58, 58)] 338 []],
  /- 286 -/ [on xdigit 287 [], on [(58, 58)] 290 []],
  /- 287 -/ [on xdigit 288 [], on [(58, 58)] 290 []],
  /- 288 -/ [on xdigit 289 [], on [(58, 58)] 290 []],
  /- 289 -/ [on [(58, 58)] 290 []],
  /- 290 -/ [on xdigit 291 [], on [(58, 58)] 326 []],
  /- 291 -/ [on xdigit 292 [], on [(58, 58)] 295 []],
  /- 292 -/ [on xdigit 293 [], on [(58, 58)] 295 []],
  /- 293 -/ [on xdigit 294 [], on [(58, 58)] 295 []],
  /- 294 -/ [on [(58, 58)] 295 []],
  /- 295 -/ [on xdigit 296 [], on [(58, 58)] 325 []],
  /- 296 -/ [on xdigit 297 [], on [(58, 58)] 300 []],
  /- 297 -/ [on xdigit 298 [], on [(58, 58)] 300 []],
  /- 298 -/ [on xdigit 299 [], on [(58, 58)] 300 []],
  /- 299 -/ [on [(58, 58)] 300 []]
]

private def states300To349 : List (List Edge) := [
  /- 300 -/ [on xdigit 296 [], on [(58, 58)] 301 []],
  /- 301 -/ [on [(2, 3)] 223 [], on [(48, 48), (51, 57)] 302 [], on [(49, 49)] 318 [],
    on [(50, 50)] 321 [], on hexLetter 324 [], on [(93, 93)] 236 []],
  /- 302 -/ [on [(46, 46)] 230 [], on xdigit 303 [], on [(58, 58)] 306 [], on [(93, 93)] 236 []],
  /- 303 -/ [on xdigit 304 [], on [(58, 58)] 306 [], on [(93, 93)] 236 []],
  /- 304 -/ [on xdigit 305 [], on [(58, 58)] 306 [], on [(93, 93)] 236 []],
  /- 305 -/ [on [(58, 58)] 306 [], on [(93, 93)] 236 []],
  /- 306 -/ [on [(48, 48), (51, 57)] 307 [], on [(49, 49)] 311 [], on [(50, 50)] 314 [],
    on hexLetter 317 []],
  /- 307 -/ [on [(46, 46)] 230 [], on xdigit 308 [], on [(58, 58)] 255 [], on [(93, 93)] 236 []],
  /- 308 -/ [on xdigit 309 [], on [(58, 58)] 255 [], on [(93, 93)] 236 []],
  /- 309 -/ [on xdigit 310 [], on [(58, 58)] 255 [], on [(93, 93)] 236 []],
  /- 310 -/ [on [(58, 58)] 255 [], on [(93, 93)] 236 []],
  /- 311 -/ [on [(46, 46)] 230 [], on digit 312 [], on [(58, 58)] 255 [], on hexLetter 308 [],
    on [(93, 93)] 236 []],
  /- 312 -/ [on [(46, 46)] 230 [], on digit 313 [], on [(58, 58)] 255 [], on hexLetter 309 [],
    on [(93, 93)] 236 []],
  /- 313 -/ [on [(46, 46)] 230 [], on xdigit 310 [], on [(58, 58)] 255 [], on [(93, 93)] 236 []],
  /- 314 -/ [on [(46, 46)] 230 [], on [(48, 48)] 315 [],
    on [(49, 52), (54, 57), (65, 70), (97, 102)] 308 [], on [(53, 53)] 316 [],
    on [(58, 58)] 255 [], on [(93, 93)] 236 []],
  /- 315 -/ [on digit 313 [], on [(58, 58)] 255 [], on hexLetter 309 [], on [(93, 93)] 236 []],
  /- 316 -/ [on [(48, 48)] 313 [], on [(49, 57), (65, 70), (97, 102)] 309 [], on [(58, 58)] 255 [],
    on [(93, 93)] 236 []],
  /- 317 -/ [on xdigit 308 [], on [(58, 58)] 255 [], on [(93, 93)] 236 []],
  /- 318 -/ [on [(46, 46)] 230 [], on digit 319 [], on [(58, 58)] 306 [], on hexLetter 303 [],
    on [(93, 93)] 236 []],
  /- 319 -/ [on [(46, 46)] 230 [], on digit 320 [], on [(58, 58)] 306 [], on hexLetter 304 [],
    on [(93, 93)] 236 []],
  /- 320 -/ [on [(46, 46)] 230 [], on xdigit 305 [], on [(58, 58)] 306 [], on [(93, 93)] 236 []],
  /- 321 -/ [on [(46, 46)] 230 [], on [(48, 48)] 322 [],
    on [(49, 52), (54, 57), (65, 70), (97, 102)] 303 [], on [(53, 53)] 323 [],
    on [(58, 58)] 306 [], on [(93, 93)] 236 []],
  /- 322 -/ [on digit 320 [], on [(58, 58)] 306 [], on hexLetter 304 [], on [(93, 93)] 236 []],
  /- 323 -/ [on [(48, 48)] 320 [], on [(49, 57), (65, 70), (97, 102)] 304 [], on [(58, 58)] 306 [],
    on [(93, 93)] 236 []],
  /- 324 -/ [on xdigit 303 [], on [(58, 58)] 306 [], on [(93, 93)] 236 []],
  /- 325 -/ [on [(2, 3)] 223 [], on [(48, 48), (51, 57)] 302 [], on [(49, 49)] 318 [],
    on [(50, 50)] 321 [], on hexLetter 324 []],
  /- 326 -/ [on [(2, 3)] 223 [], on [(48, 48), (51, 57)] 327 [], on [(49, 49)] 331 [],
    on [(50, 50)] 334 [], on hexLetter 337 []],
  /- 327 -/ [on [(46, 46)] 230 [], on xdigit 328 [], on [(58, 58)] 306 []],
  /- 328 -/ [on xdigit 329 [], on [(58, 58)] 306 []],
  /- 329 -/ [on xdigit 330 [], on [(58, 58)] 306 []],
  /- 330 -/ [on [(58, 58)] 306 []],
  /- 331 -/ [on [(46, 46)] 230 [], on digit 332 [], on [(58, 58)] 306 [], on hexLetter 328 []],
  /- 332 -/ [on [(46, 46)] 230 [], on digit 333 [], on [(58, 58)] 306 [], on hexLetter 329 []],
  /- 333 -/ [on [(46, 46)] 230 [], on xdigit 330 [], on [(58, 58)] 306 []],
  /- 334 -/ [on [(46, 46)] 230 [], on [(48, 48)] 335 [],
    on [(49, 52), (54, 57), (65, 70), (97, 102)] 328 [], on [(53, 53)] 336 [],
    on [(58, 58)] 306 []],
  /- 335 -/ [on digit 333 [], on [(58, 58)] 306 [], on hexLetter 329 []],
  /- 336 -/ [on [(48, 48)] 333 [], on [(49, 57), (65, 70), (97, 102)] 329 [], on [(58, 58)] 306 []],
  /- 337 -/ [on xdigit 328 [], on [(58, 58)] 306 []],
  /- 338 -/ [on [(2, 3)] 223 [], on xdigit 224 []],
  /- 339 -/ [on [(2, 3)] 223 []],
  /- 340 -/ [on [(3, 3)] 223 []],
  /- 341 -/ [on [(4, 4)] 223 []],
  /- 342 -/ [on [(58, 58)] 343 []],
  /- 343 -/ [on [(2, 5)] 223 [], on [(48, 48), (51, 57)] 302 [], on [(49, 49)] 318 [],
    on [(50, 50)] 321 [], on hexLetter 324 [], on [(93, 93)] 236 []],
  /- 344 -/ [on xdigit 345 []],
  /- 345 -/ [on [(46, 46)] 346 [], on xdigit 345 []],
  /- 346 -/ [onRelaxed userinfo 347 []],
  /- 347 -/ [onRelaxed userinfo 347 [], on [(93, 93)] 236 []],
  /- 348 -/ [on token 14 [], on [(58, 58)] 15 [.writeField]],
  /- 349 -/ []
]

/-- The edges of the states from 0 on. -/
def states : List (List Edge) :=
  [] :: (states1To59 ++ states60To119 ++ states120To179 ++ states180To239 ++ states240To299 ++
    states300To349)

/-- `http_parser_start`, `http_parser_first_final` and `http_parser_error`. -/
def httpParserStart : Nat := 1

def httpParserFirstFinal : Nat := 348

def httpParserError : Nat := 0

/-- Where state `cs` goes on byte `b`, and what it does; `none` leads to the error state. -/
def transition (uriRelaxed : Bool) (cs : Nat) (b : UInt8) : Option (Nat × List Act) :=
  ((states.getD cs []).find? (·.accepts uriRelaxed b)).map fun e => (e.target, e.acts)

end ServerFrame.Http
