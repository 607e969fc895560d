import Mathlib.Algebra.Ring.Nat
import Mathlib.Data.List.Basic

/-!
# The states of `uri_parser`

The generated automaton of `uri.rl.cc`, as for `http11_parser`: for each state the bytes on which
it goes on, the state it goes to and its actions. What no edge accepts leads to the error state 0.
A `char` is signed, so that the bytes from 128 on are those that are not `ascii`. The final states
are those from 451 on, each with the actions it takes at the end of the text. `2 [0-4] digit` in
the grammar asks for a byte of value 2, and `(h16 ":"){n}` for exactly `n` groups.
-/
namespace ServerFrame.Http

/-- The actions of the grammar; `marku` and `markh` are the same. -/
inductive UriAct where
  | mark
  | saveScheme
  | savePort
  | saveUserinfo
  | saveHost
  | savePath
  | saveQuery
  | saveFragment
  deriving DecidableEq, Repr

structure UriEdge where
  bytes : List (Nat × Nat)
  target : Nat
  acts : List UriAct

def UriEdge.accepts (e : UriEdge) (b : UInt8) : Bool :=
  e.bytes.any fun range => range.1 ≤ b.toNat && b.toNat ≤ range.2

private def amongDo (bytes : List (Nat × Nat)) (target : Nat) (acts : List UriAct) : UriEdge :=
  ⟨bytes, target, acts⟩

private def among (bytes : List (Nat × Nat)) (target : Nat) : UriEdge := ⟨bytes, target, []⟩

private def byteDo (b target : Nat) (acts : List UriAct) : UriEdge := ⟨[(b, b)], target, acts⟩

private def byte (b target : Nat) : UriEdge := ⟨[(b, b)], target, []⟩

private def uriDigit : List (Nat × Nat) := [(48, 57)]

private def uriXdigit : List (Nat × Nat) := [(48, 57), (65, 70), (97, 102)]

private def uriHexLetter : List (Nat × Nat) := [(65, 70), (97, 102)]

private def uriRegName : List (Nat × Nat) :=
  [(33, 33), (36, 36), (38, 46), (48, 57), (59, 59), (61, 61), (65, 90), (95, 95), (97, 122),
    (126, 126)]

private def noDigit : List (Nat × Nat) :=
  [(33, 33), (36, 36), (38, 46), (59, 59), (61, 61), (65, 90), (95, 95), (97, 122), (126, 126)]

private def noDot : List (Nat × Nat) :=
  [(33, 33), (36, 36), (38, 45), (48, 57), (59, 59), (61, 61), (65, 90), (95, 95), (97, 122),
    (126, 126)]

private def noDotDigit : List (Nat × Nat) :=
  [(33, 33), (36, 36), (38, 45), (59, 59), (61, 61), (65, 90), (95, 95), (97, 122), (126, 126)]

private def noDotTo5 : List (Nat × Nat) :=
  [(33, 33), (36, 36), (38, 45), (54, 57), (59, 59), (61, 61), (65, 90), (95, 95), (97, 122),
    (126, 126)]

private def userinfoNoDigit : List (Nat × Nat) :=
  [(33, 33), (36, 36), (38, 46), (58, 59), (61, 61), (65, 90), (95, 95), (97, 122), (126, 126)]

private def uriUserinfo : List (Nat × Nat) :=
  [(33, 33), (36, 36), (38, 46), (48, 59), (61, 61), (65, 90), (95, 95), (97, 122), (126, 126)]

private def uriPchar : List (Nat × Nat) :=
  [(33, 33), (36, 36), (38, 46), (48, 59), (61, 61), (64, 90), (95, 95), (97, 122), (126, 126),
    (128, 255)]

private def uriPcharSlash : List (Nat × Nat) :=
  [(33, 33), (36, 36), (38, 59), (61, 61), (64, 90), (95, 95), (97, 122), (126, 126), (128, 255)]

private def uriQueryChar : List (Nat × Nat) :=
  [(33, 33), (36, 36), (38, 59), (61, 61), (63, 90), (95, 95), (97, 122), (126, 126), (128, 255)]

private def uriStates0To19 : List (List UriEdge) := [
  /- 0 -/ [], /- 1 -/ [among uriXdigit 2], /- 2 -/ [among uriXdigit 454],
  /- 3 -/ [among uriXdigit 4], /- 4 -/ [among uriXdigit 452], /- 5 -/ [among uriXdigit 6],
  /- 6 -/ [among uriXdigit 455], /- 7 -/ [among uriXdigit 8], /- 8 -/ [among uriXdigit 457],
  /- 9 -/ [among [(48, 52)] 10], /- 10 -/ [among uriDigit 11], /- 11 -/ [byte 46 12],
  /- 12 -/ [byte 2 13, byte 48 15, byte 49 27, byte 50 29, among [(51, 57)] 28],
  /- 13 -/ [among [(48, 52)] 14], /- 14 -/ [among uriDigit 15], /- 15 -/ [byte 46 16],
  /- 16 -/ [byte 2 17, byte 48 19, byte 49 23, byte 50 25, among [(51, 57)] 24],
  /- 17 -/ [among [(48, 52)] 18], /- 18 -/ [among uriDigit 19], /- 19 -/ [byte 46 20]
]

private def uriStates20To39 : List (List UriEdge) := [
  /- 20 -/ [byte 2 21, byte 48 460, byte 49 463, byte 50 465, among [(51, 57)] 464],
  /- 21 -/ [among [(48, 52)] 22], /- 22 -/ [among uriDigit 460], /- 23 -/ [byte 46 20,
  among uriDigit 24], /- 24 -/ [byte 46 20, among uriDigit 19], /- 25 -/ [byte 46 20,
  among [(48, 52), (54, 57)] 19, byte 53 26], /- 26 -/ [byte 46 20, among [(48, 53)] 19],
  /- 27 -/ [byte 46 16, among uriDigit 28], /- 28 -/ [byte 46 16, among uriDigit 15],
  /- 29 -/ [byte 46 16, among [(48, 52), (54, 57)] 15, byte 53 30], /- 30 -/ [byte 46 16,
  among [(48, 53)] 15], /- 31 -/ [among uriXdigit 32], /- 32 -/ [among uriXdigit 467],
  /- 33 -/ [among uriUserinfo 33, byte 37 34, byteDo 64 469 [.saveUserinfo]],
  /- 34 -/ [among uriXdigit 35], /- 35 -/ [among uriXdigit 33], /- 36 -/ [among uriXdigit 37],
  /- 37 -/ [among uriXdigit 470], /- 38 -/ [among uriXdigit 39, byte 58 146, byte 118 225],
  /- 39 -/ [among uriXdigit 40, byte 58 43]
]

private def uriStates40To59 : List (List UriEdge) := [
  /- 40 -/ [among uriXdigit 41, byte 58 43], /- 41 -/ [among uriXdigit 42, byte 58 43],
  /- 42 -/ [byte 58 43], /- 43 -/ [among uriXdigit 44, byte 58 141], /- 44 -/ [among uriXdigit 45,
  byte 58 48], /- 45 -/ [among uriXdigit 46, byte 58 48], /- 46 -/ [among uriXdigit 47,
  byte 58 48], /- 47 -/ [byte 58 48], /- 48 -/ [among uriXdigit 49, byte 58 136],
  /- 49 -/ [among uriXdigit 50, byte 58 53], /- 50 -/ [among uriXdigit 51, byte 58 53],
  /- 51 -/ [among uriXdigit 52, byte 58 53], /- 52 -/ [byte 58 53], /- 53 -/ [among uriXdigit 54,
  byte 58 131], /- 54 -/ [among uriXdigit 55, byte 58 58], /- 55 -/ [among uriXdigit 56,
  byte 58 58], /- 56 -/ [among uriXdigit 57, byte 58 58], /- 57 -/ [byte 58 58],
  /- 58 -/ [among uriXdigit 59, byte 58 126], /- 59 -/ [among uriXdigit 60, byte 58 63]
]

private def uriStates60To79 : List (List UriEdge) := [
  /- 60 -/ [among uriXdigit 61, byte 58 63], /- 61 -/ [among uriXdigit 62, byte 58 63],
  /- 62 -/ [byte 58 63], /- 63 -/ [among uriXdigit 64, byte 58 113], /- 64 -/ [among uriXdigit 65,
  byte 58 68], /- 65 -/ [among uriXdigit 66, byte 58 68], /- 66 -/ [among uriXdigit 67,
  byte 58 68], /- 67 -/ [byte 58 68], /- 68 -/ [byte 2 69, byte 48 96, byte 49 104, byte 50 107,
  among [(51, 57)] 110, byte 58 111, among uriHexLetter 112], /- 69 -/ [among [(48, 52)] 70],
  /- 70 -/ [among uriDigit 71], /- 71 -/ [byte 46 72], /- 72 -/ [byte 2 73, byte 48 75, byte 49 92,
  byte 50 94, among [(51, 57)] 93], /- 73 -/ [among [(48, 52)] 74], /- 74 -/ [among uriDigit 75],
  /- 75 -/ [byte 46 76], /- 76 -/ [byte 2 77, byte 48 79, byte 49 88, byte 50 90,
  among [(51, 57)] 89], /- 77 -/ [among [(48, 52)] 78], /- 78 -/ [among uriDigit 79],
  /- 79 -/ [byte 46 80]
]

private def uriStates80To99 : List (List UriEdge) := [
  /- 80 -/ [byte 2 81, byte 48 83, byte 49 84, byte 50 86, among [(51, 57)] 85],
  /- 81 -/ [among [(48, 52)] 82], /- 82 -/ [among uriDigit 83], /- 83 -/ [byte 93 460],
  /- 84 -/ [among uriDigit 85, byte 93 460], /- 85 -/ [among uriDigit 83, byte 93 460],
  /- 86 -/ [among [(48, 52), (54, 57)] 83, byte 53 87, byte 93 460], /- 87 -/ [among [(48, 53)] 83,
  byte 93 460], /- 88 -/ [byte 46 80, among uriDigit 89], /- 89 -/ [byte 46 80, among uriDigit 79],
  /- 90 -/ [byte 46 80, among [(48, 52), (54, 57)] 79, byte 53 91], /- 91 -/ [byte 46 80,
  among [(48, 53)] 79], /- 92 -/ [byte 46 76, among uriDigit 93], /- 93 -/ [byte 46 76,
  among uriDigit 75], /- 94 -/ [byte 46 76, among [(48, 52), (54, 57)] 75, byte 53 95],
  /- 95 -/ [byte 46 76, among [(48, 53)] 75], /- 96 -/ [byte 46 72, among uriXdigit 97,
  byte 58 100], /- 97 -/ [among uriXdigit 98, byte 58 100], /- 98 -/ [among uriXdigit 99,
  byte 58 100], /- 99 -/ [byte 58 100]
]

private def uriStates100To119 : List (List UriEdge) := [
  /- 100 -/ [among uriXdigit 101, byte 58 83], /- 101 -/ [among uriXdigit 102, byte 93 460],
  /- 102 -/ [among uriXdigit 103, byte 93 460], /- 103 -/ [among uriXdigit 83, byte 93 460],
  /- 104 -/ [byte 46 72, among uriDigit 105, byte 58 100, among uriHexLetter 97],
  /- 105 -/ [byte 46 72, among uriDigit 106, byte 58 100, among uriHexLetter 98],
  /- 106 -/ [byte 46 72, among uriXdigit 99, byte 58 100], /- 107 -/ [byte 46 72,
  among [(48, 52), (54, 57)] 108, byte 53 109, byte 58 100, among uriHexLetter 97],
  /- 108 -/ [byte 46 72, among uriXdigit 98, byte 58 100], /- 109 -/ [byte 46 72,
  among [(48, 53)] 106, among [(54, 57), (65, 70), (97, 102)] 98, byte 58 100],
  /- 110 -/ [byte 46 72, among uriDigit 108, byte 58 100, among uriHexLetter 97],
  /- 111 -/ [among uriXdigit 101], /- 112 -/ [among uriXdigit 97, byte 58 100],
  /- 113 -/ [byte 2 69, byte 48 114, byte 49 118, byte 50 121, among [(51, 57)] 124,
  among uriHexLetter 125], /- 114 -/ [byte 46 72, among uriXdigit 115, byte 58 111],
  /- 115 -/ [among uriXdigit 116, byte 58 111], /- 116 -/ [among uriXdigit 117, byte 58 111],
  /- 117 -/ [byte 58 111], /- 118 -/ [byte 46 72, among uriDigit 119, byte 58 111,
  among uriHexLetter 115], /- 119 -/ [byte 46 72, among uriDigit 120, byte 58 111,
  among uriHexLetter 116]
]

private def uriStates120To139 : List (List UriEdge) := [
  /- 120 -/ [byte 46 72, among uriXdigit 117, byte 58 111], /- 121 -/ [byte 46 72,
  among [(48, 52), (54, 57)] 122, byte 53 123, byte 58 111, among uriHexLetter 115],
  /- 122 -/ [byte 46 72, among uriXdigit 116, byte 58 111], /- 123 -/ [byte 46 72,
  among [(48, 53)] 120, among [(54, 57), (65, 70), (97, 102)] 116, byte 58 111],
  /- 124 -/ [byte 46 72, among uriDigit 122, byte 58 111, among uriHexLetter 115],
  /- 125 -/ [among uriXdigit 115, byte 58 111], /- 126 -/ [among uriXdigit 127],
  /- 127 -/ [among uriXdigit 128, byte 58 113], /- 128 -/ [among uriXdigit 129, byte 58 113],
  /- 129 -/ [among uriXdigit 130, byte 58 113], /- 130 -/ [byte 58 113],
  /- 131 -/ [among uriXdigit 132], /- 132 -/ [among uriXdigit 133, byte 58 126],
  /- 133 -/ [among uriXdigit 134, byte 58 126], /- 134 -/ [among uriXdigit 135, byte 58 126],
  /- 135 -/ [byte 58 126], /- 136 -/ [among uriXdigit 137], /- 137 -/ [among uriXdigit 138,
  byte 58 131], /- 138 -/ [among uriXdigit 139, byte 58 131], /- 139 -/ [among uriXdigit 140,
  byte 58 131]
]

private def uriStates140To159 : List (List UriEdge) := [
  /- 140 -/ [byte 58 131], /- 141 -/ [among uriXdigit 142], /- 142 -/ [among uriXdigit 143,
  byte 58 136], /- 143 -/ [among uriXdigit 144, byte 58 136], /- 144 -/ [among uriXdigit 145,
  byte 58 136], /- 145 -/ [byte 58 136], /- 146 -/ [byte 58 147], /- 147 -/ [byte 2 69,
  byte 48 148, byte 49 217, byte 50 220, among [(51, 57)] 223, among uriHexLetter 224,
  byte 93 460], /- 148 -/ [byte 46 72, among uriXdigit 149, byte 58 152, byte 93 460],
  /- 149 -/ [among uriXdigit 150, byte 58 152, byte 93 460], /- 150 -/ [among uriXdigit 151,
  byte 58 152, byte 93 460], /- 151 -/ [byte 58 152, byte 93 460], /- 152 -/ [byte 2 69,
  byte 48 153, byte 49 209, byte 50 212, among [(51, 57)] 215, among uriHexLetter 216],
  /- 153 -/ [byte 46 72, among uriXdigit 154, byte 58 157, byte 93 460],
  /- 154 -/ [among uriXdigit 155, byte 58 157, byte 93 460], /- 155 -/ [among uriXdigit 156,
  byte 58 157, byte 93 460], /- 156 -/ [byte 58 157, byte 93 460], /- 157 -/ [byte 2 69,
  byte 48 158, byte 49 201, byte 50 204, among [(51, 57)] 207, among uriHexLetter 208],
  /- 158 -/ [byte 46 72, among uriXdigit 159, byte 58 162, byte 93 460],
  /- 159 -/ [among uriXdigit 160, byte 58 162, byte 93 460]
]

private def uriStates160To179 : List (List UriEdge) := [
  /- 160 -/ [among uriXdigit 161, byte 58 162, byte 93 460], /- 161 -/ [byte 58 162, byte 93 460],
  /- 162 -/ [byte 2 69, byte 48 163, byte 49 193, byte 50 196, among [(51, 57)] 199,
  among uriHexLetter 200], /- 163 -/ [byte 46 72, among uriXdigit 164, byte 58 167, byte 93 460],
  /- 164 -/ [among uriXdigit 165, byte 58 167, byte 93 460], /- 165 -/ [among uriXdigit 166,
  byte 58 167, byte 93 460], /- 166 -/ [byte 58 167, byte 93 460], /- 167 -/ [byte 2 69,
  byte 48 168, byte 49 185, byte 50 188, among [(51, 57)] 191, among uriHexLetter 192],
  /- 168 -/ [byte 46 72, among uriXdigit 169, byte 58 172, byte 93 460],
  /- 169 -/ [among uriXdigit 170, byte 58 172, byte 93 460], /- 170 -/ [among uriXdigit 171,
  byte 58 172, byte 93 460], /- 171 -/ [byte 58 172, byte 93 460], /- 172 -/ [byte 2 69,
  byte 48 173, byte 49 177, byte 50 180, among [(51, 57)] 183, among uriHexLetter 184],
  /- 173 -/ [byte 46 72, among uriXdigit 174, byte 58 111, byte 93 460],
  /- 174 -/ [among uriXdigit 175, byte 58 111, byte 93 460], /- 175 -/ [among uriXdigit 176,
  byte 58 111, byte 93 460], /- 176 -/ [byte 58 111, byte 93 460], /- 177 -/ [byte 46 72,
  among uriDigit 178, byte 58 111, among uriHexLetter 174, byte 93 460], /- 178 -/ [byte 46 72,
  among uriDigit 179, byte 58 111, among uriHexLetter 175, byte 93 460], /- 179 -/ [byte 46 72,
  among uriXdigit 176, byte 58 111, byte 93 460]
]

private def uriStates180To199 : List (List UriEdge) := [
  /- 180 -/ [byte 46 72, among [(48, 52), (54, 57)] 181, byte 53 182, byte 58 111,
  among uriHexLetter 174, byte 93 460], /- 181 -/ [byte 46 72, among uriXdigit 175, byte 58 111,
  byte 93 460], /- 182 -/ [byte 46 72, among [(48, 53)] 179,
  among [(54, 57), (65, 70), (97, 102)] 175, byte 58 111, byte 93 460], /- 183 -/ [byte 46 72,
  among uriDigit 181, byte 58 111, among uriHexLetter 174, byte 93 460],
  /- 184 -/ [among uriXdigit 174, byte 58 111, byte 93 460], /- 185 -/ [byte 46 72,
  among uriDigit 186, byte 58 172, among uriHexLetter 169, byte 93 460], /- 186 -/ [byte 46 72,
  among uriDigit 187, byte 58 172, among uriHexLetter 170, byte 93 460], /- 187 -/ [byte 46 72,
  among uriXdigit 171, byte 58 172, byte 93 460], /- 188 -/ [byte 46 72,
  among [(48, 52), (54, 57)] 189, byte 53 190, byte 58 172, among uriHexLetter 169, byte 93 460],
  /- 189 -/ [byte 46 72, among uriXdigit 170, byte 58 172, byte 93 460], /- 190 -/ [byte 46 72,
  among [(48, 53)] 187, among [(54, 57), (65, 70), (97, 102)] 170, byte 58 172, byte 93 460],
  /- 191 -/ [byte 46 72, among uriDigit 189, byte 58 172, among uriHexLetter 169, byte 93 460],
  /- 192 -/ [among uriXdigit 169, byte 58 172, byte 93 460], /- 193 -/ [byte 46 72,
  among uriDigit 194, byte 58 167, among uriHexLetter 164, byte 93 460], /- 194 -/ [byte 46 72,
  among uriDigit 195, byte 58 167, among uriHexLetter 165, byte 93 460], /- 195 -/ [byte 46 72,
  among uriXdigit 166, byte 58 167, byte 93 460], /- 196 -/ [byte 46 72,
  among [(48, 52), (54, 57)] 197, byte 53 198, byte 58 167, among uriHexLetter 164, byte 93 460],
  /- 197 -/ [byte 46 72, among uriXdigit 165, byte 58 167, byte 93 460], /- 198 -/ [byte 46 72,
  among [(48, 53)] 195, among [(54, 57), (65, 70), (97, 102)] 165, byte 58 167, byte 93 460],
  /- 199 -/ [byte 46 72, among uriDigit 197, byte 58 167, among uriHexLetter 164, byte 93 460]
]

private def uriStates200To219 : List (List UriEdge) := [
  /- 200 -/ [among uriXdigit 164, byte 58 167, byte 93 460], /- 201 -/ [byte 46 72,
  among uriDigit 202, byte 58 162, among uriHexLetter 159, byte 93 460], /- 202 -/ [byte 46 72,
  among uriDigit 203, byte 58 162, among uriHexLetter 160, byte 93 460], /- 203 -/ [byte 46 72,
  among uriXdigit 161, byte 58 162, byte 93 460], /- 204 -/ [byte 46 72,
  among [(48, 52), (54, 57)] 205, byte 53 206, byte 58 162, among uriHexLetter 159, byte 93 460],
  /- 205 -/ [byte 46 72, among uriXdigit 160, byte 58 162, byte 93 460], /- 206 -/ [byte 46 72,
  among [(48, 53)] 203, among [(54, 57), (65, 70), (97, 102)] 160, byte 58 162, byte 93 460],
  /- 207 -/ [byte 46 72, among uriDigit 205, byte 58 162, among uriHexLetter 159, byte 93 460],
  /- 208 -/ [among uriXdigit 159, byte 58 162, byte 93 460], /- 209 -/ [byte 46 72,
  among uriDigit 210, byte 58 157, among uriHexLetter 154, byte 93 460], /- 210 -/ [byte 46 72,
  among uriDigit 211, byte 58 157, among uriHexLetter 155, byte 93 460], /- 211 -/ [byte 46 72,
  among uriXdigit 156, byte 58 157, byte 93 460], /- 212 -/ [byte 46 72,
  among [(48, 52), (54, 57)] 213, byte 53 214, byte 58 157, among uriHexLetter 154, byte 93 460],
  /- 213 -/ [byte 46 72, among uriXdigit 155, byte 58 157, byte 93 460], /- 214 -/ [byte 46 72,
  among [(48, 53)] 211, among [(54, 57), (65, 70), (97, 102)] 155, byte 58 157, byte 93 460],
  /- 215 -/ [byte 46 72, among uriDigit 213, byte 58 157, among uriHexLetter 154, byte 93 460],
  /- 216 -/ [among uriXdigit 154, byte 58 157, byte 93 460], /- 217 -/ [byte 46 72,
  among uriDigit 218, byte 58 152, among uriHexLetter 149, byte 93 460], /- 218 -/ [byte 46 72,
  among uriDigit 219, byte 58 152, among uriHexLetter 150, byte 93 460], /- 219 -/ [byte 46 72,
  among uriXdigit 151, byte 58 152, byte 93 460]
]

private def uriStates220To239 : List (List UriEdge) := [
  /- 220 -/ [byte 46 72, among [(48, 52), (54, 57)] 221, byte 53 222, byte 58 152,
  among uriHexLetter 149, byte 93 460], /- 221 -/ [byte 46 72, among uriXdigit 150, byte 58 152,
  byte 93 460], /- 222 -/ [byte 46 72, among [(48, 53)] 219,
  among [(54, 57), (65, 70), (97, 102)] 150, byte 58 152, byte 93 460], /- 223 -/ [byte 46 72,
  among uriDigit 221, byte 58 152, among uriHexLetter 149, byte 93 460],
  /- 224 -/ [among uriXdigit 149, byte 58 152, byte 93 460], /- 225 -/ [among uriXdigit 226],
  /- 226 -/ [byte 46 227, among uriXdigit 226], /- 227 -/ [among uriUserinfo 228],
  /- 228 -/ [among uriUserinfo 228, byte 93 460], /- 229 -/ [among [(48, 52)] 230],
  /- 230 -/ [among uriDigit 231], /- 231 -/ [byte 46 232], /- 232 -/ [byte 2 233, byte 48 235,
  byte 49 249, byte 50 251, among [(51, 57)] 250], /- 233 -/ [among [(48, 52)] 234],
  /- 234 -/ [among uriDigit 235], /- 235 -/ [byte 46 236], /- 236 -/ [byte 2 237, byte 48 239,
  byte 49 245, byte 50 247, among [(51, 57)] 246], /- 237 -/ [among [(48, 52)] 238],
  /- 238 -/ [among uriDigit 239], /- 239 -/ [byte 46 240]
]

private def uriStates240To259 : List (List UriEdge) := [
  /- 240 -/ [byte 2 241, byte 48 512, byte 49 516, byte 50 518, among [(51, 57)] 517],
  /- 241 -/ [among [(48, 52)] 242], /- 242 -/ [among uriDigit 512],
  /- 243 -/ [among uriXdigit 244], /- 244 -/ [among uriXdigit 513], /- 245 -/ [byte 46 240,
  among uriDigit 246], /- 246 -/ [byte 46 240, among uriDigit 239], /- 247 -/ [byte 46 240,
  among [(48, 52), (54, 57)] 239, byte 53 248], /- 248 -/ [byte 46 240, among [(48, 53)] 239],
  /- 249 -/ [byte 46 236, among uriDigit 250], /- 250 -/ [byte 46 236, among uriDigit 235],
  /- 251 -/ [byte 46 236, among [(48, 52), (54, 57)] 235, byte 53 252], /- 252 -/ [byte 46 236,
  among [(48, 53)] 235], /- 253 -/ [among uriXdigit 254], /- 254 -/ [among uriXdigit 520],
  /- 255 -/ [among uriUserinfo 255, byte 37 256, byteDo 64 522 [.saveUserinfo]],
  /- 256 -/ [among uriXdigit 257], /- 257 -/ [among uriXdigit 255],
  /- 258 -/ [among uriXdigit 259], /- 259 -/ [among uriXdigit 523]
]

private def uriStates260To279 : List (List UriEdge) := [
  /- 260 -/ [among uriXdigit 261, byte 58 368, byte 118 447], /- 261 -/ [among uriXdigit 262,
  byte 58 265], /- 262 -/ [among uriXdigit 263, byte 58 265], /- 263 -/ [among uriXdigit 264,
  byte 58 265], /- 264 -/ [byte 58 265], /- 265 -/ [among uriXdigit 266, byte 58 363],
  /- 266 -/ [among uriXdigit 267, byte 58 270], /- 267 -/ [among uriXdigit 268, byte 58 270],
  /- 268 -/ [among uriXdigit 269, byte 58 270], /- 269 -/ [byte 58 270],
  /- 270 -/ [among uriXdigit 271, byte 58 358], /- 271 -/ [among uriXdigit 272, byte 58 275],
  /- 272 -/ [among uriXdigit 273, byte 58 275], /- 273 -/ [among uriXdigit 274, byte 58 275],
  /- 274 -/ [byte 58 275], /- 275 -/ [among uriXdigit 276, byte 58 353],
  /- 276 -/ [among uriXdigit 277, byte 58 280], /- 277 -/ [among uriXdigit 278, byte 58 280],
  /- 278 -/ [among uriXdigit 279, byte 58 280], /- 279 -/ [byte 58 280]
]

private def uriStates280To299 : List (List UriEdge) := [
  /- 280 -/ [among uriXdigit 281, byte 58 348], /- 281 -/ [among uriXdigit 282, byte 58 285],
  /- 282 -/ [among uriXdigit 283, byte 58 285], /- 283 -/ [among uriXdigit 284, byte 58 285],
  /- 284 -/ [byte 58 285], /- 285 -/ [among uriXdigit 286, byte 58 335],
  /- 286 -/ [among uriXdigit 287, byte 58 290], /- 287 -/ [among uriXdigit 288, byte 58 290],
  /- 288 -/ [among uriXdigit 289, byte 58 290], /- 289 -/ [byte 58 290], /- 290 -/ [byte 2 291,
  byte 48 318, byte 49 326, byte 50 329, among [(51, 57)] 332, byte 58 333,
  among uriHexLetter 334], /- 291 -/ [among [(48, 52)] 292], /- 292 -/ [among uriDigit 293],
  /- 293 -/ [byte 46 294], /- 294 -/ [byte 2 295, byte 48 297, byte 49 314, byte 50 316,
  among [(51, 57)] 315], /- 295 -/ [among [(48, 52)] 296], /- 296 -/ [among uriDigit 297],
  /- 297 -/ [byte 46 298], /- 298 -/ [byte 2 299, byte 48 301, byte 49 310, byte 50 312,
  among [(51, 57)] 311], /- 299 -/ [among [(48, 52)] 300]
]

private def uriStates300To319 : List (List UriEdge) := [
  /- 300 -/ [among uriDigit 301], /- 301 -/ [byte 46 302], /- 302 -/ [byte 2 303, byte 48 305,
  byte 49 306, byte 50 308, among [(51, 57)] 307], /- 303 -/ [among [(48, 52)] 304],
  /- 304 -/ [among uriDigit 305], /- 305 -/ [byte 93 512], /- 306 -/ [among uriDigit 307,
  byte 93 512], /- 307 -/ [among uriDigit 305, byte 93 512],
  /- 308 -/ [among [(48, 52), (54, 57)] 305, byte 53 309, byte 93 512],
  /- 309 -/ [among [(48, 53)] 305, byte 93 512], /- 310 -/ [byte 46 302, among uriDigit 311],
  /- 311 -/ [byte 46 302, among uriDigit 301], /- 312 -/ [byte 46 302,
  among [(48, 52), (54, 57)] 301, byte 53 313], /- 313 -/ [byte 46 302, among [(48, 53)] 301],
  /- 314 -/ [byte 46 298, among uriDigit 315], /- 315 -/ [byte 46 298, among uriDigit 297],
  /- 316 -/ [byte 46 298, among [(48, 52), (54, 57)] 297, byte 53 317], /- 317 -/ [byte 46 298,
  among [(48, 53)] 297], /- 318 -/ [byte 46 294, among uriXdigit 319, byte 58 322],
  /- 319 -/ [among uriXdigit 320, byte 58 322]
]

private def uriStates320To339 : List (List UriEdge) := [
  /- 320 -/ [among uriXdigit 321, byte 58 322], /- 321 -/ [byte 58 322],
  /- 322 -/ [among uriXdigit 323, byte 58 305], /- 323 -/ [among uriXdigit 324, byte 93 512],
  /- 324 -/ [among uriXdigit 325, byte 93 512], /- 325 -/ [among uriXdigit 305, byte 93 512],
  /- 326 -/ [byte 46 294, among uriDigit 327, byte 58 322, among uriHexLetter 319],
  /- 327 -/ [byte 46 294, among uriDigit 328, byte 58 322, among uriHexLetter 320],
  /- 328 -/ [byte 46 294, among uriXdigit 321, byte 58 322], /- 329 -/ [byte 46 294,
  among [(48, 52), (54, 57)] 330, byte 53 331, byte 58 322, among uriHexLetter 319],
  /- 330 -/ [byte 46 294, among uriXdigit 320, byte 58 322], /- 331 -/ [byte 46 294,
  among [(48, 53)] 328, among [(54, 57), (65, 70), (97, 102)] 320, byte 58 322],
  /- 332 -/ [byte 46 294, among uriDigit 330, byte 58 322, among uriHexLetter 319],
  /- 333 -/ [among uriXdigit 323], /- 334 -/ [among uriXdigit 319, byte 58 322],
  /- 335 -/ [byte 2 291, byte 48 336, byte 49 340, byte 50 343, among [(51, 57)] 346,
  among uriHexLetter 347], /- 336 -/ [byte 46 294, among uriXdigit 337, byte 58 333],
  /- 337 -/ [among uriXdigit 338, byte 58 333], /- 338 -/ [among uriXdigit 339, byte 58 333],
  /- 339 -/ [byte 58 333]
]

private def uriStates340To359 : List (List UriEdge) := [
  /- 340 -/ [byte 46 294, among uriDigit 341, byte 58 333, among uriHexLetter 337],
  /- 341 -/ [byte 46 294, among uriDigit 342, byte 58 333, among uriHexLetter 338],
  /- 342 -/ [byte 46 294, among uriXdigit 339, byte 58 333], /- 343 -/ [byte 46 294,
  among [(48, 52), (54, 57)] 344, byte 53 345, byte 58 333, among uriHexLetter 337],
  /- 344 -/ [byte 46 294, among uriXdigit 338, byte 58 333], /- 345 -/ [byte 46 294,
  among [(48, 53)] 342, among [(54, 57), (65, 70), (97, 102)] 338, byte 58 333],
  /- 346 -/ [byte 46 294, among uriDigit 344, byte 58 333, among uriHexLetter 337],
  /- 347 -/ [among uriXdigit 337, byte 58 333], /- 348 -/ [among uriXdigit 349],
  /- 349 -/ [among uriXdigit 350, byte 58 335], /- 350 -/ [among uriXdigit 351, byte 58 335],
  /- 351 -/ [among uriXdigit 352, byte 58 335], /- 352 -/ [byte 58 335],
  /- 353 -/ [among uriXdigit 354], /- 354 -/ [among uriXdigit 355, byte 58 348],
  /- 355 -/ [among uriXdigit 356, byte 58 348], /- 356 -/ [among uriXdigit 357, byte 58 348],
  /- 357 -/ [byte 58 348], /- 358 -/ [among uriXdigit 359], /- 359 -/ [among uriXdigit 360,
  byte 58 353]
]

private def uriStates360To379 : List (List UriEdge) := [
  /- 360 -/ [among uriXdigit 361, byte 58 353], /- 361 -/ [among uriXdigit 362, byte 58 353],
  /- 362 -/ [byte 58 353], /- 363 -/ [among uriXdigit 364], /- 364 -/ [among uriXdigit 365,
  byte 58 358], /- 365 -/ [among uriXdigit 366, byte 58 358], /- 366 -/ [among uriXdigit 367,
  byte 58 358], /- 367 -/ [byte 58 358], /- 368 -/ [byte 58 369], /- 369 -/ [byte 2 291,
  byte 48 370, byte 49 439, byte 50 442, among [(51, 57)] 445, among uriHexLetter 446,
  byte 93 512], /- 370 -/ [byte 46 294, among uriXdigit 371, byte 58 374, byte 93 512],
  /- 371 -/ [among uriXdigit 372, byte 58 374, byte 93 512], /- 372 -/ [among uriXdigit 373,
  byte 58 374, byte 93 512], /- 373 -/ [byte 58 374, byte 93 512], /- 374 -/ [byte 2 291,
  byte 48 375, byte 49 431, byte 50 434, among [(51, 57)] 437, among uriHexLetter 438],
  /- 375 -/ [byte 46 294, among uriXdigit 376, byte 58 379, byte 93 512],
  /- 376 -/ [among uriXdigit 377, byte 58 379, byte 93 512], /- 377 -/ [among uriXdigit 378,
  byte 58 379, byte 93 512], /- 378 -/ [byte 58 379, byte 93 512], /- 379 -/ [byte 2 291,
  byte 48 380, byte 49 423, byte 50 426, among [(51, 57)] 429, among uriHexLetter 430]
]

private def uriStates380To399 : List (List UriEdge) := [
  /- 380 -/ [byte 46 294, among uriXdigit 381, byte 58 384, byte 93 512],
  /- 381 -/ [among uriXdigit 382, byte 58 384, byte 93 512], /- 382 -/ [among uriXdigit 383,
  byte 58 384, byte 93 512], /- 383 -/ [byte 58 384, byte 93 512], /- 384 -/ [byte 2 291,
  byte 48 385, byte 49 415, byte 50 418, among [(51, 57)] 421, among uriHexLetter 422],
  /- 385 -/ [byte 46 294, among uriXdigit 386, byte 58 389, byte 93 512],
  /- 386 -/ [among uriXdigit 387, byte 58 389, byte 93 512], /- 387 -/ [among uriXdigit 388,
  byte 58 389, byte 93 512], /- 388 -/ [byte 58 389, byte 93 512], /- 389 -/ [byte 2 291,
  byte 48 390, byte 49 407, byte 50 410, among [(51, 57)] 413, among uriHexLetter 414],
  /- 390 -/ [byte 46 294, among uriXdigit 391, byte 58 394, byte 93 512],
  /- 391 -/ [among uriXdigit 392, byte 58 394, byte 93 512], /- 392 -/ [among uriXdigit 393,
  byte 58 394, byte 93 512], /- 393 -/ [byte 58 394, byte 93 512], /- 394 -/ [byte 2 291,
  byte 48 395, byte 49 399, byte 50 402, among [(51, 57)] 405, among uriHexLetter 406],
  /- 395 -/ [byte 46 294, among uriXdigit 396, byte 58 333, byte 93 512],
  /- 396 -/ [among uriXdigit 397, byte 58 333, byte 93 512], /- 397 -/ [among uriXdigit 398,
  byte 58 333, byte 93 512], /- 398 -/ [byte 58 333, byte 93 512], /- 399 -/ [byte 46 294,
  among uriDigit 400, byte 58 333, among uriHexLetter 396, byte 93 512]
]

private def uriStates400To419 : List (List UriEdge) := [
  /- 400 -/ [byte 46 294, among uriDigit 401, byte 58 333, among uriHexLetter 397, byte 93 512],
  /- 401 -/ [byte 46 294, among uriXdigit 398, byte 58 333, byte 93 512], /- 402 -/ [byte 46 294,
  among [(48, 52), (54, 57)] 403, byte 53 404, byte 58 333, among uriHexLetter 396, byte 93 512],
  /- 403 -/ [byte 46 294, among uriXdigit 397, byte 58 333, byte 93 512], /- 404 -/ [byte 46 294,
  among [(48, 53)] 401, among [(54, 57), (65, 70), (97, 102)] 397, byte 58 333, byte 93 512],
  /- 405 -/ [byte 46 294, among uriDigit 403, byte 58 333, among uriHexLetter 396, byte 93 512],
  /- 406 -/ [among uriXdigit 396, byte 58 333, byte 93 512], /- 407 -/ [byte 46 294,
  among uriDigit 408, byte 58 394, among uriHexLetter 391, byte 93 512], /- 408 -/ [byte 46 294,
  among uriDigit 409, byte 58 394, among uriHexLetter 392, byte 93 512], /- 409 -/ [byte 46 294,
  among uriXdigit 393, byte 58 394, byte 93 512], /- 410 -/ [byte 46 294,
  among [(48, 52), (54, 57)] 411, byte 53 412, byte 58 394, among uriHexLetter 391, byte 93 512],
  /- 411 -/ [byte 46 294, among uriXdigit 392, byte 58 394, byte 93 512], /- 412 -/ [byte 46 294,
  among [(48, 53)] 409, among [(54, 57), (65, 70), (97, 102)] 392, byte 58 394, byte 93 512],
  /- 413 -/ [byte 46 294, among uriDigit 411, byte 58 394, among uriHexLetter 391, byte 93 512],
  /- 414 -/ [among uriXdigit 391, byte 58 394, byte 93 512], /- 415 -/ [byte 46 294,
  among uriDigit 416, byte 58 389, among uriHexLetter 386, byte 93 512], /- 416 -/ [byte 46 294,
  among uriDigit 417, byte 58 389, among uriHexLetter 387, byte 93 512], /- 417 -/ [byte 46 294,
  among uriXdigit 388, byte 58 389, byte 93 512], /- 418 -/ [byte 46 294,
  among [(48, 52), (54, 57)] 419, byte 53 420, byte 58 389, among uriHexLetter 386, byte 93 512],
  /- 419 -/ [byte 46 294, among uriXdigit 387, byte 58 389, byte 93 512]
]

private def uriStates420To439 : List (List UriEdge) := [
  /- 420 -/ [byte 46 294, among [(48, 53)] 417, among [(54, 57), (65, 70), (97, 102)] 387,
  byte 58 389, byte 93 512], /- 421 -/ [byte 46 294, among uriDigit 419, byte 58 389,
  among uriHexLetter 386, byte 93 512], /- 422 -/ [among uriXdigit 386, byte 58 389, byte 93 512],
  /- 423 -/ [byte 46 294, among uriDigit 424, byte 58 384, among uriHexLetter 381, byte 93 512],
  /- 424 -/ [byte 46 294, among uriDigit 425, byte 58 384, among uriHexLetter 382, byte 93 512],
  /- 425 -/ [byte 46 294, among uriXdigit 383, byte 58 384, byte 93 512], /- 426 -/ [byte 46 294,
  among [(48, 52), (54, 57)] 427, byte 53 428, byte 58 384, among uriHexLetter 381, byte 93 512],
  /- 427 -/ [byte 46 294, among uriXdigit 382, byte 58 384, byte 93 512], /- 428 -/ [byte 46 294,
  among [(48, 53)] 425, among [(54, 57), (65, 70), (97, 102)] 382, byte 58 384, byte 93 512],
  /- 429 -/ [byte 46 294, among uriDigit 427, byte 58 384, among uriHexLetter 381, byte 93 512],
  /- 430 -/ [among uriXdigit 381, byte 58 384, byte 93 512], /- 431 -/ [byte 46 294,
  among uriDigit 432, byte 58 379, among uriHexLetter 376, byte 93 512], /- 432 -/ [byte 46 294,
  among uriDigit 433, byte 58 379, among uriHexLetter 377, byte 93 512], /- 433 -/ [byte 46 294,
  among uriXdigit 378, byte 58 379, byte 93 512], /- 434 -/ [byte 46 294,
  among [(48, 52), (54, 57)] 435, byte 53 436, byte 58 379, among uriHexLetter 376, byte 93 512],
  /- 435 -/ [byte 46 294, among uriXdigit 377, byte 58 379, byte 93 512], /- 436 -/ [byte 46 294,
  among [(48, 53)] 433, among [(54, 57), (65, 70), (97, 102)] 377, byte 58 379, byte 93 512],
  /- 437 -/ [byte 46 294, among uriDigit 435, byte 58 379, among uriHexLetter 376, byte 93 512],
  /- 438 -/ [among uriXdigit 376, byte 58 379, byte 93 512], /- 439 -/ [byte 46 294,
  among uriDigit 440, byte 58 374, among uriHexLetter 371, byte 93 512]
]

private def uriStates440To459 : List (List UriEdge) := [
  /- 440 -/ [byte 46 294, among uriDigit 441, byte 58 374, among uriHexLetter 372, byte 93 512],
  /- 441 -/ [byte 46 294, among uriXdigit 373, byte 58 374, byte 93 512], /- 442 -/ [byte 46 294,
  among [(48, 52), (54, 57)] 443, byte 53 444, byte 58 374, among uriHexLetter 371, byte 93 512],
  /- 443 -/ [byte 46 294, among uriXdigit 372, byte 58 374, byte 93 512], /- 444 -/ [byte 46 294,
  among [(48, 53)] 441, among [(54, 57), (65, 70), (97, 102)] 372, byte 58 374, byte 93 512],
  /- 445 -/ [byte 46 294, among uriDigit 443, byte 58 374, among uriHexLetter 371, byte 93 512],
  /- 446 -/ [among uriXdigit 371, byte 58 374, byte 93 512], /- 447 -/ [among uriXdigit 448],
  /- 448 -/ [byte 46 449, among uriXdigit 448], /- 449 -/ [among uriUserinfo 450],
  /- 450 -/ [among uriUserinfo 450, byte 93 512], /- 451 -/ [among [(33, 33), (36, 36), (38, 46),
  (48, 57), (59, 59), (61, 61), (64, 64), (95, 95), (126, 126), (128, 255)] 452, byte 35 453,
  byte 37 3, byte 47 458, byte 63 456, amongDo [(65, 90), (97, 122)] 508 [.mark]],
  /- 452 -/ [among [(33, 33), (36, 36), (38, 46), (48, 57), (59, 59), (61, 61), (64, 90), (95, 95),
  (97, 122), (126, 126), (128, 255)] 452, byte 35 453, byte 37 3, byte 47 455, byte 63 456],
  /- 453 -/ [amongDo uriQueryChar 454 [.mark], byteDo 37 1 [.mark]],
  /- 454 -/ [among uriQueryChar 454, byte 37 1], /- 455 -/ [among uriPcharSlash 455, byte 35 453,
  byte 37 5, byte 63 456], /- 456 -/ [amongDo uriQueryChar 457 [.mark],
  byteDo 35 453 [.mark, .saveQuery], byteDo 37 7 [.mark]], /- 457 -/ [among uriQueryChar 457,
  byteDo 35 453 [.saveQuery], byte 37 7], /- 458 -/ [among uriPchar 455, byte 35 453, byte 37 5,
  byte 47 459, byte 63 456], /- 459 -/ [byteDo 2 9 [.mark], amongDo noDigit 467 [.mark],
  byteDo 35 453 [.mark, .saveHost], byteDo 37 31 [.mark], byteDo 47 455 [.mark, .saveHost],
  byteDo 48 490 [.mark], byteDo 49 504 [.mark], byteDo 50 506 [.mark],
  amongDo [(51, 57)] 505 [.mark], byteDo 58 468 [.mark, .saveHost],
  byteDo 63 456 [.mark, .saveHost], byteDo 64 469 [.mark, .saveUserinfo], byteDo 91 38 [.mark]]
]

private def uriStates460To479 : List (List UriEdge) := [
  /- 460 -/ [byteDo 35 453 [.saveHost], byteDo 47 455 [.saveHost], byteDo 58 461 [.saveHost],
  byteDo 63 456 [.saveHost]], /- 461 -/ [byteDo 35 453 [.mark, .savePort],
  byteDo 47 455 [.mark, .savePort], amongDo uriDigit 462 [.mark],
  byteDo 63 456 [.mark, .savePort]], /- 462 -/ [byteDo 35 453 [.savePort],
  byteDo 47 455 [.savePort], among uriDigit 462, byteDo 63 456 [.savePort]],
  /- 463 -/ [byteDo 35 453 [.saveHost], byteDo 47 455 [.saveHost], among uriDigit 464,
  byteDo 58 461 [.saveHost], byteDo 63 456 [.saveHost]], /- 464 -/ [byteDo 35 453 [.saveHost],
  byteDo 47 455 [.saveHost], among uriDigit 460, byteDo 58 461 [.saveHost],
  byteDo 63 456 [.saveHost]], /- 465 -/ [byteDo 35 453 [.saveHost], byteDo 47 455 [.saveHost],
  among [(48, 52), (54, 57)] 460, byte 53 466, byteDo 58 461 [.saveHost],
  byteDo 63 456 [.saveHost]], /- 466 -/ [byteDo 35 453 [.saveHost], byteDo 47 455 [.saveHost],
  among [(48, 53)] 460, byteDo 58 461 [.saveHost], byteDo 63 456 [.saveHost]],
  /- 467 -/ [among uriRegName 467, byteDo 35 453 [.saveHost], byte 37 31,
  byteDo 47 455 [.saveHost], byteDo 58 468 [.saveHost], byteDo 63 456 [.saveHost],
  byteDo 64 469 [.saveUserinfo]], /- 468 -/ [among userinfoNoDigit 33,
  byteDo 35 453 [.mark, .savePort], byte 37 34, byteDo 47 455 [.mark, .savePort],
  amongDo uriDigit 489 [.mark], byteDo 63 456 [.mark, .savePort], byteDo 64 469 [.saveUserinfo]],
  /- 469 -/ [byteDo 2 9 [.mark], amongDo noDigit 470 [.mark], byteDo 35 453 [.mark, .saveHost],
  byteDo 37 36 [.mark], byteDo 47 455 [.mark, .saveHost], byteDo 48 471 [.mark],
  byteDo 49 485 [.mark], byteDo 50 487 [.mark], amongDo [(51, 57)] 486 [.mark],
  byteDo 58 461 [.mark, .saveHost], byteDo 63 456 [.mark, .saveHost], byteDo 91 38 [.mark]],
  /- 470 -/ [among uriRegName 470, byteDo 35 453 [.saveHost], byte 37 36,
  byteDo 47 455 [.saveHost], byteDo 58 461 [.saveHost], byteDo 63 456 [.saveHost]],
  /- 471 -/ [among noDot 470, byteDo 35 453 [.saveHost], byte 37 36, byte 46 472,
  byteDo 47 455 [.saveHost], byteDo 58 461 [.saveHost], byteDo 63 456 [.saveHost]],
  /- 472 -/ [byte 2 13, among noDigit 470, byteDo 35 453 [.saveHost], byte 37 36,
  byteDo 47 455 [.saveHost], byte 48 473, byte 49 481, byte 50 483, among [(51, 57)] 482,
  byteDo 58 461 [.saveHost], byteDo 63 456 [.saveHost]], /- 473 -/ [among noDot 470,
  byteDo 35 453 [.saveHost], byte 37 36, byte 46 474, byteDo 47 455 [.saveHost],
  byteDo 58 461 [.saveHost], byteDo 63 456 [.saveHost]], /- 474 -/ [byte 2 17, among noDigit 470,
  byteDo 35 453 [.saveHost], byte 37 36, byteDo 47 455 [.saveHost], byte 48 475, byte 49 477,
  byte 50 479, among [(51, 57)] 478, byteDo 58 461 [.saveHost], byteDo 63 456 [.saveHost]],
  /- 475 -/ [among noDot 470, byteDo 35 453 [.saveHost], byte 37 36, byte 46 476,
  byteDo 47 455 [.saveHost], byteDo 58 461 [.saveHost], byteDo 63 456 [.saveHost]],
  /- 476 -/ [byte 2 21, among uriRegName 470, byteDo 35 453 [.saveHost], byte 37 36,
  byteDo 47 455 [.saveHost], byteDo 58 461 [.saveHost], byteDo 63 456 [.saveHost]],
  /- 477 -/ [among noDotDigit 470, byteDo 35 453 [.saveHost], byte 37 36, byte 46 476,
  byteDo 47 455 [.saveHost], among uriDigit 478, byteDo 58 461 [.saveHost],
  byteDo 63 456 [.saveHost]], /- 478 -/ [among noDotDigit 470, byteDo 35 453 [.saveHost],
  byte 37 36, byte 46 476, byteDo 47 455 [.saveHost], among uriDigit 475,
  byteDo 58 461 [.saveHost], byteDo 63 456 [.saveHost]], /- 479 -/ [among noDotDigit 470,
  byteDo 35 453 [.saveHost], byte 37 36, byte 46 476, byteDo 47 455 [.saveHost],
  among [(48, 52), (54, 57)] 475, byte 53 480, byteDo 58 461 [.saveHost],
  byteDo 63 456 [.saveHost]]
]

private def uriStates480To499 : List (List UriEdge) := [
  /- 480 -/ [among noDotTo5 470, byteDo 35 453 [.saveHost], byte 37 36, byte 46 476,
  byteDo 47 455 [.saveHost], among [(48, 53)] 475, byteDo 58 461 [.saveHost],
  byteDo 63 456 [.saveHost]], /- 481 -/ [among noDotDigit 470, byteDo 35 453 [.saveHost],
  byte 37 36, byte 46 474, byteDo 47 455 [.saveHost], among uriDigit 482,
  byteDo 58 461 [.saveHost], byteDo 63 456 [.saveHost]], /- 482 -/ [among noDotDigit 470,
  byteDo 35 453 [.saveHost], byte 37 36, byte 46 474, byteDo 47 455 [.saveHost],
  among uriDigit 473, byteDo 58 461 [.saveHost], byteDo 63 456 [.saveHost]],
  /- 483 -/ [among noDotDigit 470, byteDo 35 453 [.saveHost], byte 37 36, byte 46 474,
  byteDo 47 455 [.saveHost], among [(48, 52), (54, 57)] 473, byte 53 484,
  byteDo 58 461 [.saveHost], byteDo 63 456 [.saveHost]], /- 484 -/ [among noDotTo5 470,
  byteDo 35 453 [.saveHost], byte 37 36, byte 46 474, byteDo 47 455 [.saveHost],
  among [(48, 53)] 473, byteDo 58 461 [.saveHost], byteDo 63 456 [.saveHost]],
  /- 485 -/ [among noDotDigit 470, byteDo 35 453 [.saveHost], byte 37 36, byte 46 472,
  byteDo 47 455 [.saveHost], among uriDigit 486, byteDo 58 461 [.saveHost],
  byteDo 63 456 [.saveHost]], /- 486 -/ [among noDotDigit 470, byteDo 35 453 [.saveHost],
  byte 37 36, byte 46 472, byteDo 47 455 [.saveHost], among uriDigit 471,
  byteDo 58 461 [.saveHost], byteDo 63 456 [.saveHost]], /- 487 -/ [among noDotDigit 470,
  byteDo 35 453 [.saveHost], byte 37 36, byte 46 472, byteDo 47 455 [.saveHost],
  among [(48, 52), (54, 57)] 471, byte 53 488, byteDo 58 461 [.saveHost],
  byteDo 63 456 [.saveHost]], /- 488 -/ [among noDotTo5 470, byteDo 35 453 [.saveHost], byte 37 36,
  byte 46 472, byteDo 47 455 [.saveHost], among [(48, 53)] 471, byteDo 58 461 [.saveHost],
  byteDo 63 456 [.saveHost]], /- 489 -/ [among userinfoNoDigit 33, byteDo 35 453 [.savePort],
  byte 37 34, byteDo 47 455 [.savePort], among uriDigit 489, byteDo 63 456 [.savePort],
  byteDo 64 469 [.saveUserinfo]], /- 490 -/ [among noDot 467, byteDo 35 453 [.saveHost],
  byte 37 31, byte 46 491, byteDo 47 455 [.saveHost], byteDo 58 468 [.saveHost],
  byteDo 63 456 [.saveHost], byteDo 64 469 [.saveUserinfo]], /- 491 -/ [byte 2 13,
  among noDigit 467, byteDo 35 453 [.saveHost], byte 37 31, byteDo 47 455 [.saveHost], byte 48 492,
  byte 49 500, byte 50 502, among [(51, 57)] 501, byteDo 58 468 [.saveHost],
  byteDo 63 456 [.saveHost], byteDo 64 469 [.saveUserinfo]], /- 492 -/ [among noDot 467,
  byteDo 35 453 [.saveHost], byte 37 31, byte 46 493, byteDo 47 455 [.saveHost],
  byteDo 58 468 [.saveHost], byteDo 63 456 [.saveHost], byteDo 64 469 [.saveUserinfo]],
  /- 493 -/ [byte 2 17, among noDigit 467, byteDo 35 453 [.saveHost], byte 37 31,
  byteDo 47 455 [.saveHost], byte 48 494, byte 49 496, byte 50 498, among [(51, 57)] 497,
  byteDo 58 468 [.saveHost], byteDo 63 456 [.saveHost], byteDo 64 469 [.saveUserinfo]],
  /- 494 -/ [among noDot 467, byteDo 35 453 [.saveHost], byte 37 31, byte 46 495,
  byteDo 47 455 [.saveHost], byteDo 58 468 [.saveHost], byteDo 63 456 [.saveHost],
  byteDo 64 469 [.saveUserinfo]], /- 495 -/ [byte 2 21, among uriRegName 467,
  byteDo 35 453 [.saveHost], byte 37 31, byteDo 47 455 [.saveHost], byteDo 58 468 [.saveHost],
  byteDo 63 456 [.saveHost], byteDo 64 469 [.saveUserinfo]], /- 496 -/ [among noDotDigit 467,
  byteDo 35 453 [.saveHost], byte 37 31, byte 46 495, byteDo 47 455 [.saveHost],
  among uriDigit 497, byteDo 58 468 [.saveHost], byteDo 63 456 [.saveHost],
  byteDo 64 469 [.saveUserinfo]], /- 497 -/ [among noDotDigit 467, byteDo 35 453 [.saveHost],
  byte 37 31, byte 46 495, byteDo 47 455 [.saveHost], among uriDigit 494,
  byteDo 58 468 [.saveHost], byteDo 63 456 [.saveHost], byteDo 64 469 [.saveUserinfo]],
  /- 498 -/ [among noDotDigit 467, byteDo 35 453 [.saveHost], byte 37 31, byte 46 495,
  byteDo 47 455 [.saveHost], among [(48, 52), (54, 57)] 494, byte 53 499,
  byteDo 58 468 [.saveHost], byteDo 63 456 [.saveHost], byteDo 64 469 [.saveUserinfo]],
  /- 499 -/ [among noDotTo5 467, byteDo 35 453 [.saveHost], byte 37 31, byte 46 495,
  byteDo 47 455 [.saveHost], among [(48, 53)] 494, byteDo 58 468 [.saveHost],
  byteDo 63 456 [.saveHost], byteDo 64 469 [.saveUserinfo]]
]

private def uriStates500To519 : List (List UriEdge) := [
  /- 500 -/ [among noDotDigit 467, byteDo 35 453 [.saveHost], byte 37 31, byte 46 493,
  byteDo 47 455 [.saveHost], among uriDigit 501, byteDo 58 468 [.saveHost],
  byteDo 63 456 [.saveHost], byteDo 64 469 [.saveUserinfo]], /- 501 -/ [among noDotDigit 467,
  byteDo 35 453 [.saveHost], byte 37 31, byte 46 493, byteDo 47 455 [.saveHost],
  among uriDigit 492, byteDo 58 468 [.saveHost], byteDo 63 456 [.saveHost],
  byteDo 64 469 [.saveUserinfo]], /- 502 -/ [among noDotDigit 467, byteDo 35 453 [.saveHost],
  byte 37 31, byte 46 493, byteDo 47 455 [.saveHost], among [(48, 52), (54, 57)] 492, byte 53 503,
  byteDo 58 468 [.saveHost], byteDo 63 456 [.saveHost], byteDo 64 469 [.saveUserinfo]],
  /- 503 -/ [among noDotTo5 467, byteDo 35 453 [.saveHost], byte 37 31, byte 46 493,
  byteDo 47 455 [.saveHost], among [(48, 53)] 492, byteDo 58 468 [.saveHost],
  byteDo 63 456 [.saveHost], byteDo 64 469 [.saveUserinfo]], /- 504 -/ [among noDotDigit 467,
  byteDo 35 453 [.saveHost], byte 37 31, byte 46 491, byteDo 47 455 [.saveHost],
  among uriDigit 505, byteDo 58 468 [.saveHost], byteDo 63 456 [.saveHost],
  byteDo 64 469 [.saveUserinfo]], /- 505 -/ [among noDotDigit 467, byteDo 35 453 [.saveHost],
  byte 37 31, byte 46 491, byteDo 47 455 [.saveHost], among uriDigit 490,
  byteDo 58 468 [.saveHost], byteDo 63 456 [.saveHost], byteDo 64 469 [.saveUserinfo]],
  /- 506 -/ [among noDotDigit 467, byteDo 35 453 [.saveHost], byte 37 31, byte 46 491,
  byteDo 47 455 [.saveHost], among [(48, 52), (54, 57)] 490, byte 53 507,
  byteDo 58 468 [.saveHost], byteDo 63 456 [.saveHost], byteDo 64 469 [.saveUserinfo]],
  /- 507 -/ [among noDotTo5 467, byteDo 35 453 [.saveHost], byte 37 31, byte 46 491,
  byteDo 47 455 [.saveHost], among [(48, 53)] 490, byteDo 58 468 [.saveHost],
  byteDo 63 456 [.saveHost], byteDo 64 469 [.saveUserinfo]], /- 508 -/ [among [(33, 33), (36, 36),
  (38, 42), (44, 44), (59, 59), (61, 61), (64, 64), (95, 95), (126, 126), (128, 255)] 452,
  byte 35 453, byte 37 3, among [(43, 43), (45, 46), (48, 57), (65, 90), (97, 122)] 508,
  byte 47 455, byteDo 58 509 [.saveScheme], byte 63 456], /- 509 -/ [among uriPchar 455,
  byte 35 453, byte 37 5, byte 47 510, byte 63 456], /- 510 -/ [among uriPchar 455, byte 35 453,
  byte 37 5, byte 47 511, byte 63 456], /- 511 -/ [byteDo 2 229 [.mark],
  amongDo noDigit 520 [.mark], byteDo 35 453 [.mark, .saveHost, .savePath], byteDo 37 253 [.mark],
  byteDo 47 513 [.mark, .saveHost], byteDo 48 543 [.mark], byteDo 49 557 [.mark],
  byteDo 50 559 [.mark], amongDo [(51, 57)] 558 [.mark], byteDo 58 521 [.mark, .saveHost],
  byteDo 63 456 [.mark, .saveHost, .savePath], byteDo 64 522 [.mark, .saveUserinfo],
  byteDo 91 260 [.mark]], /- 512 -/ [byteDo 35 453 [.saveHost, .mark, .savePath],
  byteDo 47 513 [.saveHost, .mark], byteDo 58 514 [.saveHost],
  byteDo 63 456 [.saveHost, .mark, .savePath]], /- 513 -/ [among uriPcharSlash 513,
  byteDo 35 453 [.savePath], byte 37 243, byteDo 63 456 [.savePath]],
  /- 514 -/ [byteDo 35 453 [.mark, .savePort, .savePath], byteDo 47 513 [.mark, .savePort],
  amongDo uriDigit 515 [.mark], byteDo 63 456 [.mark, .savePort, .savePath]],
  /- 515 -/ [byteDo 35 453 [.savePort, .mark, .savePath], byteDo 47 513 [.savePort, .mark],
  among uriDigit 515, byteDo 63 456 [.savePort, .mark, .savePath]],
  /- 516 -/ [byteDo 35 453 [.saveHost, .mark, .savePath], byteDo 47 513 [.saveHost, .mark],
  among uriDigit 517, byteDo 58 514 [.saveHost], byteDo 63 456 [.saveHost, .mark, .savePath]],
  /- 517 -/ [byteDo 35 453 [.saveHost, .mark, .savePath], byteDo 47 513 [.saveHost, .mark],
  among uriDigit 512, byteDo 58 514 [.saveHost], byteDo 63 456 [.saveHost, .mark, .savePath]],
  /- 518 -/ [byteDo 35 453 [.saveHost, .mark, .savePath], byteDo 47 513 [.saveHost, .mark],
  among [(48, 52), (54, 57)] 512, byte 53 519, byteDo 58 514 [.saveHost],
  byteDo 63 456 [.saveHost, .mark, .savePath]],
  /- 519 -/ [byteDo 35 453 [.saveHost, .mark, .savePath], byteDo 47 513 [.saveHost, .mark],
  among [(48, 53)] 512, byteDo 58 514 [.saveHost], byteDo 63 456 [.saveHost, .mark, .savePath]]
]

private def uriStates520To539 : List (List UriEdge) := [
  /- 520 -/ [among uriRegName 520, byteDo 35 453 [.saveHost, .mark, .savePath], byte 37 253,
  byteDo 47 513 [.saveHost, .mark], byteDo 58 521 [.saveHost],
  byteDo 63 456 [.saveHost, .mark, .savePath], byteDo 64 522 [.saveUserinfo]],
  /- 521 -/ [among userinfoNoDigit 255, byteDo 35 453 [.mark, .savePort, .savePath], byte 37 256,
  byteDo 47 513 [.mark, .savePort], amongDo uriDigit 542 [.mark],
  byteDo 63 456 [.mark, .savePort, .savePath], byteDo 64 522 [.saveUserinfo]],
  /- 522 -/ [byteDo 2 229 [.mark], amongDo noDigit 523 [.mark],
  byteDo 35 453 [.mark, .saveHost, .savePath], byteDo 37 258 [.mark],
  byteDo 47 513 [.mark, .saveHost], byteDo 48 524 [.mark], byteDo 49 538 [.mark],
  byteDo 50 540 [.mark], amongDo [(51, 57)] 539 [.mark], byteDo 58 514 [.mark, .saveHost],
  byteDo 63 456 [.mark, .saveHost, .savePath], byteDo 91 260 [.mark]],
  /- 523 -/ [among uriRegName 523, byteDo 35 453 [.saveHost, .mark, .savePath], byte 37 258,
  byteDo 47 513 [.saveHost, .mark], byteDo 58 514 [.saveHost],
  byteDo 63 456 [.saveHost, .mark, .savePath]], /- 524 -/ [among noDot 523,
  byteDo 35 453 [.saveHost, .mark, .savePath], byte 37 258, byte 46 525,
  byteDo 47 513 [.saveHost, .mark], byteDo 58 514 [.saveHost],
  byteDo 63 456 [.saveHost, .mark, .savePath]], /- 525 -/ [byte 2 233, among noDigit 523,
  byteDo 35 453 [.saveHost, .mark, .savePath], byte 37 258, byteDo 47 513 [.saveHost, .mark],
  byte 48 526, byte 49 534, byte 50 536, among [(51, 57)] 535, byteDo 58 514 [.saveHost],
  byteDo 63 456 [.saveHost, .mark, .savePath]], /- 526 -/ [among noDot 523,
  byteDo 35 453 [.saveHost, .mark, .savePath], byte 37 258, byte 46 527,
  byteDo 47 513 [.saveHost, .mark], byteDo 58 514 [.saveHost],
  byteDo 63 456 [.saveHost, .mark, .savePath]], /- 527 -/ [byte 2 237, among noDigit 523,
  byteDo 35 453 [.saveHost, .mark, .savePath], byte 37 258, byteDo 47 513 [.saveHost, .mark],
  byte 48 528, byte 49 530, byte 50 532, among [(51, 57)] 531, byteDo 58 514 [.saveHost],
  byteDo 63 456 [.saveHost, .mark, .savePath]], /- 528 -/ [among noDot 523,
  byteDo 35 453 [.saveHost, .mark, .savePath], byte 37 258, byte 46 529,
  byteDo 47 513 [.saveHost, .mark], byteDo 58 514 [.saveHost],
  byteDo 63 456 [.saveHost, .mark, .savePath]], /- 529 -/ [byte 2 241, among uriRegName 523,
  byteDo 35 453 [.saveHost, .mark, .savePath], byte 37 258, byteDo 47 513 [.saveHost, .mark],
  byteDo 58 514 [.saveHost], byteDo 63 456 [.saveHost, .mark, .savePath]],
  /- 530 -/ [among noDotDigit 523, byteDo 35 453 [.saveHost, .mark, .savePath], byte 37 258,
  byte 46 529, byteDo 47 513 [.saveHost, .mark], among uriDigit 531, byteDo 58 514 [.saveHost],
  byteDo 63 456 [.saveHost, .mark, .savePath]], /- 531 -/ [among noDotDigit 523,
  byteDo 35 453 [.saveHost, .mark, .savePath], byte 37 258, byte 46 529,
  byteDo 47 513 [.saveHost, .mark], among uriDigit 528, byteDo 58 514 [.saveHost],
  byteDo 63 456 [.saveHost, .mark, .savePath]], /- 532 -/ [among noDotDigit 523,
  byteDo 35 453 [.saveHost, .mark, .savePath], byte 37 258, byte 46 529,
  byteDo 47 513 [.saveHost, .mark], among [(48, 52), (54, 57)] 528, byte 53 533,
  byteDo 58 514 [.saveHost], byteDo 63 456 [.saveHost, .mark, .savePath]],
  /- 533 -/ [among noDotTo5 523, byteDo 35 453 [.saveHost, .mark, .savePath], byte 37 258,
  byte 46 529, byteDo 47 513 [.saveHost, .mark], among [(48, 53)] 528, byteDo 58 514 [.saveHost],
  byteDo 63 456 [.saveHost, .mark, .savePath]], /- 534 -/ [among noDotDigit 523,
  byteDo 35 453 [.saveHost, .mark, .savePath], byte 37 258, byte 46 527,
  byteDo 47 513 [.saveHost, .mark], among uriDigit 535, byteDo 58 514 [.saveHost],
  byteDo 63 456 [.saveHost, .mark, .savePath]], /- 535 -/ [among noDotDigit 523,
  byteDo 35 453 [.saveHost, .mark, .savePath], byte 37 258, byte 46 527,
  byteDo 47 513 [.saveHost, .mark], among uriDigit 526, byteDo 58 514 [.saveHost],
  byteDo 63 456 [.saveHost, .mark, .savePath]], /- 536 -/ [among noDotDigit 523,
  byteDo 35 453 [.saveHost, .mark, .savePath], byte 37 258, byte 46 527,
  byteDo 47 513 [.saveHost, .mark], among [(48, 52), (54, 57)] 526, byte 53 537,
  byteDo 58 514 [.saveHost], byteDo 63 456 [.saveHost, .mark, .savePath]],
  /- 537 -/ [among noDotTo5 523, byteDo 35 453 [.saveHost, .mark, .savePath], byte 37 258,
  byte 46 527, byteDo 47 513 [.saveHost, .mark], among [(48, 53)] 526, byteDo 58 514 [.saveHost],
  byteDo 63 456 [.saveHost, .mark, .savePath]], /- 538 -/ [among noDotDigit 523,
  byteDo 35 453 [.saveHost, .mark, .savePath], byte 37 258, byte 46 525,
  byteDo 47 513 [.saveHost, .mark], among uriDigit 539, byteDo 58 514 [.saveHost],
  byteDo 63 456 [.saveHost, .mark, .savePath]], /- 539 -/ [among noDotDigit 523,
  byteDo 35 453 [.saveHost, .mark, .savePath], byte 37 258, byte 46 525,
  byteDo 47 513 [.saveHost, .mark], among uriDigit 524, byteDo 58 514 [.saveHost],
  byteDo 63 456 [.saveHost, .mark, .savePath]]
]

private def uriStates540To559 : List (List UriEdge) := [
  /- 540 -/ [among noDotDigit 523, byteDo 35 453 [.saveHost, .mark, .savePath], byte 37 258,
  byte 46 525, byteDo 47 513 [.saveHost, .mark], among [(48, 52), (54, 57)] 524, byte 53 541,
  byteDo 58 514 [.saveHost], byteDo 63 456 [.saveHost, .mark, .savePath]],
  /- 541 -/ [among noDotTo5 523, byteDo 35 453 [.saveHost, .mark, .savePath], byte 37 258,
  byte 46 525, byteDo 47 513 [.saveHost, .mark], among [(48, 53)] 524, byteDo 58 514 [.saveHost],
  byteDo 63 456 [.saveHost, .mark, .savePath]], /- 542 -/ [among userinfoNoDigit 255,
  byteDo 35 453 [.savePort, .mark, .savePath], byte 37 256, byteDo 47 513 [.savePort, .mark],
  among uriDigit 542, byteDo 63 456 [.savePort, .mark, .savePath], byteDo 64 522 [.saveUserinfo]],
  /- 543 -/ [among noDot 520, byteDo 35 453 [.saveHost, .mark, .savePath], byte 37 253,
  byte 46 544, byteDo 47 513 [.saveHost, .mark], byteDo 58 521 [.saveHost],
  byteDo 63 456 [.saveHost, .mark, .savePath], byteDo 64 522 [.saveUserinfo]],
  /- 544 -/ [byte 2 233, among noDigit 520, byteDo 35 453 [.saveHost, .mark, .savePath],
  byte 37 253, byteDo 47 513 [.saveHost, .mark], byte 48 545, byte 49 553, byte 50 555,
  among [(51, 57)] 554, byteDo 58 521 [.saveHost], byteDo 63 456 [.saveHost, .mark, .savePath],
  byteDo 64 522 [.saveUserinfo]], /- 545 -/ [among noDot 520,
  byteDo 35 453 [.saveHost, .mark, .savePath], byte 37 253, byte 46 546,
  byteDo 47 513 [.saveHost, .mark], byteDo 58 521 [.saveHost],
  byteDo 63 456 [.saveHost, .mark, .savePath], byteDo 64 522 [.saveUserinfo]],
  /- 546 -/ [byte 2 237, among noDigit 520, byteDo 35 453 [.saveHost, .mark, .savePath],
  byte 37 253, byteDo 47 513 [.saveHost, .mark], byte 48 547, byte 49 549, byte 50 551,
  among [(51, 57)] 550, byteDo 58 521 [.saveHost], byteDo 63 456 [.saveHost, .mark, .savePath],
  byteDo 64 522 [.saveUserinfo]], /- 547 -/ [among noDot 520,
  byteDo 35 453 [.saveHost, .mark, .savePath], byte 37 253, byte 46 548,
  byteDo 47 513 [.saveHost, .mark], byteDo 58 521 [.saveHost],
  byteDo 63 456 [.saveHost, .mark, .savePath], byteDo 64 522 [.saveUserinfo]],
  /- 548 -/ [byte 2 241, among uriRegName 520, byteDo 35 453 [.saveHost, .mark, .savePath],
  byte 37 253, byteDo 47 513 [.saveHost, .mark], byteDo 58 521 [.saveHost],
  byteDo 63 456 [.saveHost, .mark, .savePath], byteDo 64 522 [.saveUserinfo]],
  /- 549 -/ [among noDotDigit 520, byteDo 35 453 [.saveHost, .mark, .savePath], byte 37 253,
  byte 46 548, byteDo 47 513 [.saveHost, .mark], among uriDigit 550, byteDo 58 521 [.saveHost],
  byteDo 63 456 [.saveHost, .mark, .savePath], byteDo 64 522 [.saveUserinfo]],
  /- 550 -/ [among noDotDigit 520, byteDo 35 453 [.saveHost, .mark, .savePath], byte 37 253,
  byte 46 548, byteDo 47 513 [.saveHost, .mark], among uriDigit 547, byteDo 58 521 [.saveHost],
  byteDo 63 456 [.saveHost, .mark, .savePath], byteDo 64 522 [.saveUserinfo]],
  /- 551 -/ [among noDotDigit 520, byteDo 35 453 [.saveHost, .mark, .savePath], byte 37 253,
  byte 46 548, byteDo 47 513 [.saveHost, .mark], among [(48, 52), (54, 57)] 547, byte 53 552,
  byteDo 58 521 [.saveHost], byteDo 63 456 [.saveHost, .mark, .savePath],
  byteDo 64 522 [.saveUserinfo]], /- 552 -/ [among noDotTo5 520,
  byteDo 35 453 [.saveHost, .mark, .savePath], byte 37 253, byte 46 548,
  byteDo 47 513 [.saveHost, .mark], among [(48, 53)] 547, byteDo 58 521 [.saveHost],
  byteDo 63 456 [.saveHost, .mark, .savePath], byteDo 64 522 [.saveUserinfo]],
  /- 553 -/ [among noDotDigit 520, byteDo 35 453 [.saveHost, .mark, .savePath], byte 37 253,
  byte 46 546, byteDo 47 513 [.saveHost, .mark], among uriDigit 554, byteDo 58 521 [.saveHost],
  byteDo 63 456 [.saveHost, .mark, .savePath], byteDo 64 522 [.saveUserinfo]],
  /- 554 -/ [among noDotDigit 520, byteDo 35 453 [.saveHost, .mark, .savePath], byte 37 253,
  byte 46 546, byteDo 47 513 [.saveHost, .mark], among uriDigit 545, byteDo 58 521 [.saveHost],
  byteDo 63 456 [.saveHost, .mark, .savePath], byteDo 64 522 [.saveUserinfo]],
  /- 555 -/ [among noDotDigit 520, byteDo 35 453 [.saveHost, .mark, .savePath], byte 37 253,
  byte 46 546, byteDo 47 513 [.saveHost, .mark], among [(48, 52), (54, 57)] 545, byte 53 556,
  byteDo 58 521 [.saveHost], byteDo 63 456 [.saveHost, .mark, .savePath],
  byteDo 64 522 [.saveUserinfo]], /- 556 -/ [among noDotTo5 520,
  byteDo 35 453 [.saveHost, .mark, .savePath], byte 37 253, byte 46 546,
  byteDo 47 513 [.saveHost, .mark], among [(48, 53)] 545, byteDo 58 521 [.saveHost],
  byteDo 63 456 [.saveHost, .mark, .savePath], byteDo 64 522 [.saveUserinfo]],
  /- 557 -/ [among noDotDigit 520, byteDo 35 453 [.saveHost, .mark, .savePath], byte 37 253,
  byte 46 544, byteDo 47 513 [.saveHost, .mark], among uriDigit 558, byteDo 58 521 [.saveHost],
  byteDo 63 456 [.saveHost, .mark, .savePath], byteDo 64 522 [.saveUserinfo]],
  /- 558 -/ [among noDotDigit 520, byteDo 35 453 [.saveHost, .mark, .savePath], byte 37 253,
  byte 46 544, byteDo 47 513 [.saveHost, .mark], among uriDigit 543, byteDo 58 521 [.saveHost],
  byteDo 63 456 [.saveHost, .mark, .savePath], byteDo 64 522 [.saveUserinfo]],
  /- 559 -/ [among noDotDigit 520, byteDo 35 453 [.saveHost, .mark, .savePath], byte 37 253,
  byte 46 544, byteDo 47 513 [.saveHost, .mark], among [(48, 52), (54, 57)] 543, byte 53 560,
  byteDo 58 521 [.saveHost], byteDo 63 456 [.saveHost, .mark, .savePath],
  byteDo 64 522 [.saveUserinfo]]
]

private def uriStates560To560 : List (List UriEdge) := [
  /- 560 -/ [among noDotTo5 520, byteDo 35 453 [.saveHost, .mark, .savePath], byte 37 253,
  byte 46 544, byteDo 47 513 [.saveHost, .mark], among [(48, 53)] 543, byteDo 58 521 [.saveHost],
  byteDo 63 456 [.saveHost, .mark, .savePath], byteDo 64 522 [.saveUserinfo]]
]

/-- The edges of the states from 0 on, twenty states together. -/
def uriStates : List (List (List UriEdge)) :=
  [uriStates0To19, uriStates20To39, uriStates40To59, uriStates60To79, uriStates80To99,
    uriStates100To119, uriStates120To139, uriStates140To159, uriStates160To179, uriStates180To199,
    uriStates200To219, uriStates220To239, uriStates240To259, uriStates260To279, uriStates280To299,
    uriStates300To319, uriStates320To339, uriStates340To359, uriStates360To379, uriStates380To399,
    uriStates400To419, uriStates420To439, uriStates440To459, uriStates460To479, uriStates480To499,
    uriStates500To519, uriStates520To539, uriStates540To559, uriStates560To560]

/-- The actions at the end of the text, by the states they are taken in. -/
def uriEofActions : List (List (Nat × Nat) × List UriAct) :=
  [([(462, 462), (489, 489)], [.savePort]),
    ([(460, 460), (463, 467), (470, 488), (490, 507)], [.saveHost]),
    ([(513, 513)], [.savePath]),
    ([(457, 457)], [.saveQuery]),
    ([(454, 454)], [.saveFragment]),
    ([(456, 456)], [.mark, .saveQuery]),
    ([(453, 453)], [.mark, .saveFragment]),
    ([(461, 461), (468, 468)], [.mark, .savePort]),
    ([(459, 459), (469, 469)], [.mark, .saveHost]),
    ([(514, 514), (521, 521)], [.mark, .savePort, .savePath]),
    ([(511, 511), (522, 522)], [.mark, .saveHost, .savePath]),
    ([(515, 515), (542, 542)], [.savePort, .mark, .savePath]),
    ([(512, 512), (516, 520), (523, 541), (543, 560)], [.saveHost, .mark, .savePath])]

/-- `uri_parser_start`, `uri_parser_first_final` and `uri_parser_error`. -/
def uriParserStart : Nat := 451

def uriParserFirstFinal : Nat := 451

def uriParserError : Nat := 0

def uriRow (cs : Nat) : List UriEdge := (uriStates.getD (cs / 20) []).getD (cs % 20) []

/-- Where state `cs` goes on byte `b`, and what it does; `none` leads to the error state. -/
def uriTransition (cs : Nat) (b : UInt8) : Option (Nat × List UriAct) :=
  ((uriRow cs).find? (·.accepts b)).map fun e => (e.target, e.acts)

def uriEofActs (cs : Nat) : List UriAct :=
  match uriEofActions.find? (·.1.any fun range => range.1 ≤ cs && cs ≤ range.2) with
  | some (_, acts) => acts
  | none => []

end ServerFrame.Http
