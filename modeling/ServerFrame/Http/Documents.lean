import ServerFrame.Http.Segmentation
import ServerFrame.Http.Servlet
import ServerFrame.Http.Response
import ServerFrame.Lib.EState
import Mathlib.Data.List.TakeWhile

/-!
# Static files

`HttpServer::SendDocument` looks for a file under the name that it gets by putting the path of
the request behind the root. A path that does not begin with a slash continues the last name
of the root.
-/
namespace ServerFrame.Http

open EState

/-! ## The file system -/

/-- `struct stat`, as far as it is looked at. -/
structure Stat where
  mode : Nat
  size : Int
  deriving DecidableEq, Repr

/-- An open file: where it ends, and what `fread` gets of it. -/
structure OpenedFile where
  size : Int
  bytes : List UInt8
  deriving DecidableEq, Repr

/-- What the calls find under a path; `opendir` finds what `readdir` then lists. -/
structure FileSystem where
  stat : List UInt8 → Option Stat
  opendir : List UInt8 → Option (List (List UInt8))
  fopen : List UInt8 → Option OpenedFile

inductive Access where
  | stat (path : List UInt8)
  | opendir (path : List UInt8)
  | openFile (path : List UInt8)
  deriving DecidableEq, Repr

def Access.path : Access → List UInt8
  | stat path | opendir path | openFile path => path

/-- What ends the call: `std::length_error`. -/
inductive DocumentFault where
  | lengthError
  deriving DecidableEq, Repr

/-- Calls that leave a trace. -/
abbrev DocumentM := EStateM DocumentFault (List Access)

section Calls

variable (fs : FileSystem)

def statCall (path : List UInt8) : DocumentM (Option Stat) := do
  modify (· ++ [.stat (cStr path)])
  return fs.stat (cStr path)

def opendirCall (path : List UInt8) : DocumentM (Option (List (List UInt8))) := do
  modify (· ++ [.opendir (cStr path)])
  return fs.opendir (cStr path)

/-- `FSUtil::OpenFile`. -/
def openFile (path : List UInt8) : DocumentM (Option OpenedFile) := do
  modify (· ++ [.openFile (cStr path)])
  return fs.fopen (cStr path)

end Calls

/-! ## What is sent -/

/-- `strstr(haystack, needle) != nullptr`. -/
def strstr (haystack needle : List UInt8) : Bool :=
  (cStr haystack).tails.any fun tail => needle.isPrefixOf tail

def contentTypeTable : List (String × String) :=
  [("txt", "text/plain"), ("c", "text/plain"), ("h", "text/plain"), ("html", "text/html"),
    ("htm", "text/htm"), ("css", "text/css"), ("gif", "image/gif"), ("jpg", "image/jpeg"),
    ("jpeg", "image/jpeg"), ("png", "image/png"), ("pdf", "application/pdf"),
    ("ps", "application/postscript")]

/-- `StringUtil::GuessContentType`. -/
def guessContentType (path : List UInt8) : String :=
  let extension := ((cStr path).reverse.takeWhile (· != 46)).reverse
  if 46 ∉ cStr path ∨ 47 ∈ extension then "application/misc"
  else
    ((contentTypeTable.find? fun ent => strcasecmp (ascii ent.1) extension == .eq).map
      (·.2)).getD "application/misc"

/-- `StringUtil::Format`: `vasprintf` fails on what is longer than an `int` can say. -/
def formatted (text : List UInt8) : List UInt8 := if text.length < 2 ^ 31 then text else []

/-- The page that lists a directory. -/
def listing (path : List UInt8) (names : List (List UInt8)) : List UInt8 :=
  let path := cStr path
  let trailingSlash := if path.getLast? = some 47 then [] else ascii "/"
  formatted (ascii "<!DOCTYPE html>\n<html>\n <head>\n  <meta charset='utf-8'>\n  <title>" ++ path ++
      ascii "</title>\n  <base href='" ++ path ++ trailingSlash ++
      ascii "'>\n </head>\n <body>\n  <h1>" ++ path ++ ascii "</h1>\n  <ul>\n") ++
    names.flatMap (fun name => formatted (ascii "    <li><a href=\"" ++ name ++ ascii "\">" ++ name ++
      ascii "</a>\n")) ++
    ascii "</ul></body></html>\n"

def HttpResponse.setHeader (r : HttpResponse) (key val : List UInt8) : HttpResponse :=
  { r with headers := r.headers.set key val }

def isFile (st : Stat) : Bool := 0x8000 = 0x8000 &&& st.mode

def isDir (st : Stat) : Bool := 0x4000 = 0x4000 &&& st.mode

section SendDocument

variable (fs : FileSystem)

/-- The branch of `SendDocument` for a directory. -/
def sendDirectory (path objPath : List UInt8) (response : HttpResponse) :
    DocumentM (Bool × HttpResponse) := do
  match ← opendirCall fs objPath with
  | none => return (false, response)
  | some names =>
    let response := response.setHeader (ascii "Content-Type") (ascii "text/html")
    return (true, { response with body := listing path names })

/-- The branch of `SendDocument` for a file. A file that cannot be opened has the size -1, and
the body is given that size. It is read in pieces. -/
def sendFile (objPath : List UInt8) (st : Stat) (response : HttpResponse) :
    DocumentM (Bool × HttpResponse) := do
  if st.size > 256 * 1024 * 1024 then return (false, response)
  else
    match ← openFile fs objPath with
    | none => throw .lengthError
    | some file =>
      let size := asInt file.size
      if size < 0 then throw .lengthError
      else if file.bytes.length < size.toNat then return (false, response)
      else
        let response := { response with body := file.bytes.take size.toNat }
        return (true, response.setHeader (ascii "Content-Type") (ascii (guessContentType objPath)))

/-- `SendDocument` behind the first `stat`. -/
def sendObject (path objPath : List UInt8) (st : Stat) (response : HttpResponse) :
    DocumentM (Bool × HttpResponse) := do
  if isDir st then
    let indexPath := objPath ++ ascii "/index.html"
    match ← statCall fs indexPath with
    | some index =>
      if isFile index then sendFile fs indexPath index response
      else sendDirectory fs path objPath response
    | none => sendDirectory fs path objPath response
  else if isFile st then sendFile fs objPath st response
  else return (false, response)

/-- `SendDocument`; `rootPath` is `root_path_`. -/
def sendDocument (rootPath : List UInt8) (request : HttpRequest) (response : HttpResponse) :
    DocumentM (Bool × HttpResponse) := do
  let objPath := rootPath ++ request.path
  if strstr objPath (ascii "..") then return (false, response)
  else
    match ← statCall fs objPath with
    | none => return (false, response)
    | some st => sendObject fs request.path objPath st response

end SendDocument

def traceOf {α : Type} : EStateM.Result DocumentFault (List Access) α → List Access
  | .ok _ trace => trace
  | .error _ trace => trace

/-- The calls that `SendDocument` makes on the file system. -/
def accesses (fs : FileSystem) (rootPath : List UInt8) (request : HttpRequest)
    (response : HttpResponse) : List Access :=
  traceOf (sendDocument fs rootPath request response [])

/-! ## Names of files -/

/-- The names between the slashes. -/
def names (path : List UInt8) : List (List UInt8) := (path.splitOn 47).filter (· ≠ [])

/-- The components of a path, with the slash at its front as one of them. -/
def components (path : List UInt8) : List (List UInt8) :=
  (if path.head? = some 47 then [[47]] else []) ++ names path

/-- The root is a prefix of the path, component by component. -/
def Under (rootPath path : List UInt8) : Prop := components (cStr rootPath) <+: components path

instance (rootPath path : List UInt8) : Decidable (Under rootPath path) :=
  inferInstanceAs (Decidable (_ <+: _))

section Names

theorem names_append_slash (front back : List UInt8) :
    names (front ++ 47 :: back) = names front ++ names back := by
  rw [names, List.splitOn_append_cons_self, List.filter_append]
  rfl

theorem names_of_no_slash {name : List UInt8} (no_slash : 47 ∉ name) (named : name ≠ []) :
    names name = [name] := by
  rw [names, List.splitOn_eq_singleton no_slash]
  exact List.filter_cons_of_pos (by simpa using named)

theorem names_append_of_last {front back : List UInt8}
    (border : front = [] ∨ front.getLast? = some 47) : names (front ++ back) = names front ++ names back := by
  rcases border with rfl | last
  · rfl
  · obtain ⟨dir, rfl⟩ := List.getLast?_eq_some_iff.mp last
    rw [List.append_assoc, List.singleton_append, names_append_slash, names_append_slash]
    have nothing : names [] = [] := rfl
    rw [nothing, List.append_nil]

theorem names_append_of_first {front back : List UInt8}
    (border : back = [] ∨ back.head? = some 47) : names (front ++ back) = names front ++ names back := by
  have nothing : names [] = [] := rfl
  rcases border with rfl | first
  · rw [List.append_nil, nothing, List.append_nil]
  · obtain ⟨rest, rfl⟩ : ∃ rest, back = 47 :: rest := by
      cases back with
      | nil => cases first
      | cons b rest => exact ⟨rest, by rw [Option.some.inj first]⟩
    have alone := names_append_slash [] rest
    rw [nothing, List.nil_append, List.nil_append] at alone
    rw [names_append_slash, alone]

/-- The first name of what stands behind a directory. -/
theorem first_name {path : List UInt8} (nonempty : path ≠ []) (open_front : path.head? ≠ some 47) :
    ∃ name rest, path = name ++ rest ∧ (rest = [] ∨ rest.head? = some 47) ∧ name ≠ [] ∧ 47 ∉ name := by
  refine ⟨path.takeWhile (· != 47), path.dropWhile (· != 47), List.takeWhile_append_dropWhile.symm, ?_,
    ?_, fun inside => ?_⟩
  · have stopped := List.head?_dropWhile_not (· != 47) path
    cases behind : path.dropWhile (· != 47) with
    | nil => exact .inl rfl
    | cons b rest =>
      rw [behind] at stopped
      exact .inr (congrArg some (by simpa using stopped))
  · cases path with
    | nil => exact absurd rfl nonempty
    | cons b path =>
      have other : b ≠ 47 := fun slash => open_front (congrArg some slash)
      simp [other]
  · simpa using List.mem_takeWhile_imp inside

/-- The last name of a path that does not end with a slash. -/
theorem last_name {path : List UInt8} (nonempty : path ≠ []) (open_end : path.getLast? ≠ some 47) :
    ∃ dir name, path = dir ++ name ∧ (dir = [] ∨ dir.getLast? = some 47) ∧ name ≠ [] ∧ 47 ∉ name := by
  rw [← List.head?_reverse] at open_end
  obtain ⟨name, rest, split, border, named, no_slash⟩ :=
    first_name (List.reverse_ne_nil_iff.mpr nonempty) open_end
  refine ⟨rest.reverse, name.reverse, ?_, ?_, List.reverse_ne_nil_iff.mpr named, ?_⟩
  · rw [← List.reverse_append, ← split, List.reverse_reverse]
  · rwa [List.getLast?_reverse, List.reverse_eq_nil_iff]
  · rwa [List.mem_reverse]

/-- What continues the last name of the root is not under the root. -/
theorem not_prefix_of_continued {root path : List UInt8} (some_root : root ≠ [])
    (open_end : root.getLast? ≠ some 47) (some_path : path ≠ []) (open_front : path.head? ≠ some 47) :
    ¬ names root <+: names (root ++ path) := by
  obtain ⟨dir, last, rfl, border, named, no_slash⟩ := last_name some_root open_end
  obtain ⟨first, rest, rfl, border', named', no_slash'⟩ := first_name some_path open_front
  have joined : dir ++ last ++ (first ++ rest) = dir ++ ((last ++ first) ++ rest) := by
    simp only [List.append_assoc]
  have one_name : names (last ++ first) = [last ++ first] :=
    names_of_no_slash (fun inside => (List.mem_append.mp inside).elim no_slash no_slash')
      (by simp [named])
  rw [joined, names_append_of_last border, names_append_of_last border,
    names_append_of_first border', one_name, names_of_no_slash no_slash named]
  intro under
  have names_eq := List.prefix_append_right_inj _ |>.mp under
  have same := (List.cons_prefix_cons.mp names_eq).1
  exact named' (List.append_right_eq_self.mp same.symm)

/-- What is put behind the root stays under it unless it continues its last name. -/
theorem components_append_iff (root path : List UInt8) :
    components root <+: components (root ++ path) ↔
      root = [] ∨ root.getLast? = some 47 ∨ path = [] ∨ path.head? = some 47 := by
  by_cases some_root : root = []
  · subst some_root
    exact iff_of_true (List.nil_prefix) (.inl rfl)
  · have same_front : (root ++ path).head? = root.head? := by
      cases root with
      | nil => exact absurd rfl some_root
      | cons b root => rfl
    rw [components, components, same_front, List.prefix_append_right_inj]
    constructor
    · intro under
      by_contra none_of
      simp only [not_or] at none_of
      obtain ⟨-, open_end, some_path, open_front⟩ := none_of
      exact not_prefix_of_continued some_root open_end some_path open_front under
    · rintro (empty | last | border)
      · exact absurd empty some_root
      · exact ⟨names path, (names_append_of_last (.inr last)).symm⟩
      · exact ⟨names path, (names_append_of_first border).symm⟩

theorem cStr_of_no_zero {s : List UInt8} (no_zero : 0 ∉ s) : cStr s = s := by
  rw [cStr, List.takeWhile_eq_self_iff]
  intro b member
  exact bne_iff_ne.mpr fun zero => no_zero (zero ▸ member)

theorem head?_cStr {s : List UInt8} : (cStr s).head? = some 47 ↔ s.head? = some 47 := by
  cases s with
  | nil => rfl
  | cons b s =>
    by_cases zero : b = 0
    · subst zero
      simp [cStr]
    · simp [cStr, zero]

theorem cStr_append (front back : List UInt8) :
    cStr (front ++ back) = if 0 ∈ front then cStr front else front ++ cStr back := by
  induction front with
  | nil => rfl
  | cons b front ih =>
    by_cases zero : b = 0
    · subst zero
      simp [cStr]
    · have other : 0 ≠ b := fun same => zero same.symm
      have here : ∀ s, cStr (b :: s) = b :: cStr s := fun s => List.takeWhile_cons_of_pos (by simpa using zero)
      rw [List.cons_append, here, here, ih]
      simp only [List.mem_cons, other, false_or]
      split <;> rfl

end Names

/-! ## The trace -/

section Trace

variable {fs : FileSystem} {P : List UInt8 → Prop}

/-- The trace has grown, by calls on paths with the property. -/
def Grown (P : List UInt8 → Prop) (start trace : List Access) : Prop :=
  ∃ added, trace = start ++ added ∧ ∀ a ∈ added, P a.path

def Calls {α : Type} (P : List UInt8 → Prop) (x : DocumentM α) : Prop :=
  ∀ start, Triple (Grown P start) x (fun _ => Grown P start) (fun _ => Grown P start)

theorem Grown.append {start trace : List Access} {a : Access} (grown : Grown P start trace)
    (is : P a.path) : Grown P start (trace ++ [a]) := by
  obtain ⟨added, rfl, all⟩ := grown
  refine ⟨added ++ [a], List.append_assoc .., fun b member => ?_⟩
  rcases List.mem_append.mp member with member | member
  · exact all b member
  · rwa [List.mem_singleton.mp member]

theorem calls_pure {α : Type} (a : α) : Calls P (pure a) := fun _ => Triple.pure fun _ grown => grown

theorem calls_throw {α : Type} (fault : DocumentFault) : Calls P (throw fault : DocumentM α) :=
  fun _ => Triple.throw fun _ grown => grown

theorem Calls.grown {α : Type} {x : DocumentM α} (calls : Calls P x) (start : List Access) :
    Grown P start (traceOf (x start)) := by
  have grown := calls start start ⟨[], (List.append_nil _).symm, fun _ member => by cases member⟩
  cases ran : x start with
  | ok a trace =>
    rw [ran] at grown
    exact grown
  | error fault trace =>
    rw [ran] at grown
    exact grown

theorem Calls.bind {α β : Type} {x : DocumentM α} {f : α → DocumentM β} (first : Calls P x)
    (second : ∀ a, Calls P (f a)) : Calls P (x >>= f) :=
  fun start => (first start).bind fun a => second a start

theorem calls_sendDirectory {path objPath : List UInt8} (is : P (cStr objPath))
    (response : HttpResponse) : Calls P (sendDirectory fs path objPath response) := by
  have opens : Calls P (opendirCall fs objPath) := fun _ _ grown => grown.append is
  refine opens.bind fun found => ?_
  cases found with
  | none => exact calls_pure _
  | some names => exact calls_pure _

theorem calls_sendFile {objPath : List UInt8} (is : P (cStr objPath)) (st : Stat)
    (response : HttpResponse) : Calls P (sendFile fs objPath st response) := by
  have opens : Calls P (openFile fs objPath) := fun _ _ grown => grown.append is
  unfold sendFile
  split
  next => exact calls_pure _
  next =>
    refine opens.bind fun found => ?_
    cases found with
    | none => exact calls_throw _
    | some file =>
      dsimp only
      split
      next => exact calls_throw _
      next =>
        split
        next => exact calls_pure _
        next => exact calls_pure _

theorem calls_sendObject {path objPath : List UInt8} (is : P (cStr objPath))
    (is_index : P (cStr (objPath ++ ascii "/index.html"))) (st : Stat) (response : HttpResponse) :
    Calls P (sendObject fs path objPath st response) := by
  have stats : Calls P (statCall fs (objPath ++ ascii "/index.html")) :=
    fun _ _ grown => grown.append is_index
  unfold sendObject
  split
  next =>
    refine stats.bind fun found => ?_
    cases found with
    | none => exact calls_sendDirectory is response
    | some index =>
      dsimp only
      split
      next => exact calls_sendFile is_index index response
      next => exact calls_sendDirectory is response
  next =>
    split
    next => exact calls_sendFile is st response
    next => exact calls_pure _

/-- The first call is on the root and the path put together; the others are on it or on the
index in it. -/
theorem accesses_iff (rootPath : List UInt8) (request : HttpRequest) (response : HttpResponse)
    (is_index : P (cStr (rootPath ++ request.path)) →
      P (cStr (rootPath ++ request.path ++ ascii "/index.html"))) :
    (∀ a ∈ accesses fs rootPath request response, P a.path) ↔
      strstr (rootPath ++ request.path) (ascii "..") = true ∨ P (cStr (rootPath ++ request.path)) := by
  cases dots : strstr (rootPath ++ request.path) (ascii "..") with
  | true =>
    have nothing : accesses fs rootPath request response = [] := by
      rw [accesses, sendDocument, if_pos dots]
      rfl
    rw [nothing]
    simp
  | false =>
    -- everything behind the first call, whatever it finds
    obtain ⟨rest, traced, calls⟩ : ∃ rest : DocumentM (Bool × HttpResponse),
        accesses fs rootPath request response =
          traceOf (rest [.stat (cStr (rootPath ++ request.path))]) ∧
        ∀ Q : List UInt8 → Prop, Q (cStr (rootPath ++ request.path)) →
          Q (cStr (rootPath ++ request.path ++ ascii "/index.html")) → Calls Q rest := by
      have stats : statCall fs (rootPath ++ request.path) [] =
          .ok (fs.stat (cStr (rootPath ++ request.path))) [.stat (cStr (rootPath ++ request.path))] :=
        rfl
      rw [accesses, sendDocument, if_neg (Bool.eq_false_iff.mp dots), run_bind_ok stats]
      cases fs.stat (cStr (rootPath ++ request.path)) with
      | none => exact ⟨_, rfl, fun _ _ _ => calls_pure _⟩
      | some st => exact ⟨_, rfl, fun _ is is_index => calls_sendObject is is_index st response⟩
    rw [traced]
    constructor
    · intro all
      obtain ⟨added, grown, -⟩ := (calls (fun _ => True) trivial trivial).grown
        [.stat (cStr (rootPath ++ request.path))]
      rw [grown] at all
      exact .inr (all _ (List.mem_cons_self ..))
    · rintro (impossible | is)
      · cases impossible
      · obtain ⟨added, grown, all⟩ := (calls P is (is_index is)).grown
          [.stat (cStr (rootPath ++ request.path))]
        rw [grown]
        intro a member
        rcases List.mem_cons.mp member with rfl | member
        · exact is
        · exact all a member

end Trace

/-- `SendDocument` stays under the root exactly when it looks at nothing, when nothing is put
behind the root, or when there is a slash between the root and what is put behind it. -/
theorem sendDocument_under_iff (fs : FileSystem) (rootPath : List UInt8) (request : HttpRequest)
    (response : HttpResponse) :
    (∀ a ∈ accesses fs rootPath request response, Under rootPath a.path) ↔
      strstr (rootPath ++ request.path) (ascii "..") = true ∨
      cStr (rootPath ++ request.path) = cStr rootPath ∨ rootPath = [] ∨
      rootPath.getLast? = some 47 ∨ request.path.head? = some 47 := by
  have index_under : Under rootPath (cStr (rootPath ++ request.path)) →
      Under rootPath (cStr (rootPath ++ request.path ++ ascii "/index.html")) := by
    intro under
    rw [cStr_append]
    split
    next => exact under
    next no_zero =>
      rw [cStr_of_no_zero no_zero] at under
      exact under.trans ((components_append_iff _ _).mpr (.inr (.inr (.inr (by decide)))))
  rw [accesses_iff rootPath request response index_under, Under]
  apply or_congr_right
  by_cases zero : 0 ∈ rootPath
  · have same : cStr (rootPath ++ request.path) = cStr rootPath := by rw [cStr_append, if_pos zero]
    rw [same]
    exact iff_of_true (List.prefix_refl _) (.inl rfl)
  · rw [cStr_append, if_neg zero, cStr_of_no_zero zero, components_append_iff, head?_cStr,
      List.append_right_eq_self]
    tauto

/-- A server with a file beside the root. -/
def beside : FileSystem where
  stat path := if path = ascii "/srv/www-secret" then some ⟨0x8000, 3⟩ else none
  opendir _ := none
  fopen path := if path = ascii "/srv/www-secret" then some ⟨3, ascii "key"⟩ else none

/-- A path without a slash in front leads to the file beside the root. -/
theorem served_beside_root :
    (recvRequest session ⟨false, 0⟩ [ascii "GET -secret HTTP/1.1\r\n\r\n"]).map
      (fun received => received.map fun r => r.1.path) = .ok (some (ascii "-secret")) ∧
    let request := { HttpRequest.new with path := ascii "-secret" }
    (∃ response, sendDocument beside (ascii "/srv/www") request .new [] =
      .ok (true, response) [.stat (ascii "/srv/www-secret"), .openFile (ascii "/srv/www-secret")] ∧
      response.body = ascii "key") ∧
    ¬ ∀ a ∈ accesses beside (ascii "/srv/www") request .new, Under (ascii "/srv/www") a.path := by
  refine ⟨by decide, ⟨_, rfl, by decide⟩, by decide⟩

end ServerFrame.Http
