import ServerFrame.Http.Headers
import ServerFrame.Http.Servlet
import ServerFrame.Util.StringUtil

/-!
# Parameters and cookies

They are made from the query, the body and the header `cookie` when they are asked for. The
loop looks for the equals sign before it looks for the separator, so that a piece without an
equals sign becomes a part of the next name.
-/
namespace ServerFrame.Http

open StringUtil

/-! ## Maps -/

/-- `m.insert`: an entry that is there already stays as it is. -/
def MapType.insert (key val : List UInt8) : MapType → MapType
  | [] => [(key, val)]
  | (k, v) :: m =>
    match strcasecmp key k with
    | .lt => (key, val) :: (k, v) :: m
    | .eq => (k, v) :: m
    | .gt => (k, v) :: MapType.insert key val m

/-- `m.erase`. -/
def MapType.erase (key : List UInt8) (m : MapType) : MapType :=
  m.filter fun e => strcasecmp e.1 key != .eq

namespace MapType

variable {m : MapType} {key val : List UInt8}

theorem mem_insert {e : List UInt8 × List UInt8} (member : e ∈ m.insert key val) :
    e = (key, val) ∨ e ∈ m := by
  induction m with
  | nil => exact .inl (List.mem_singleton.mp member)
  | cons f m ih =>
    rw [insert] at member
    split at member
    next => exact List.mem_cons.mp member
    next => exact .inr member
    next =>
      rcases List.mem_cons.mp member with rfl | member
      · exact .inr (List.mem_cons_self ..)
      · exact (ih member).imp id (List.mem_cons_of_mem _)

theorem mem_insert_of_mem {e : List UInt8 × List UInt8} (member : e ∈ m) : e ∈ m.insert key val := by
  induction m with
  | nil => cases member
  | cons f m ih =>
    rw [insert]
    split
    next => exact List.mem_cons_of_mem _ member
    next => exact member
    next =>
      rcases List.mem_cons.mp member with rfl | member
      · exact List.mem_cons_self ..
      · exact List.mem_cons_of_mem _ (ih member)

theorem sorted_insert (sorted : Sorted m) : Sorted (m.insert key val) := by
  induction m with
  | nil => exact List.pairwise_singleton ..
  | cons f m ih =>
    obtain ⟨k, v⟩ := f
    obtain ⟨first, rest⟩ := List.pairwise_cons.mp sorted
    rw [insert]
    split
    next less =>
      have less := strcasecmp_lt_iff.mp less
      refine List.pairwise_cons.mpr ⟨fun e member => ?_, sorted⟩
      rcases List.mem_cons.mp member with rfl | member
      · exact less
      · exact less.trans (first e member)
    next => exact sorted
    next greater =>
      refine List.pairwise_cons.mpr ⟨fun e member => ?_, ih rest⟩
      rcases mem_insert member with rfl | member
      · exact strcasecmp_gt_iff.mp greater
      · exact first e member

/-- Names before the first one are not there. -/
theorem find_of_first {name : List UInt8} (first : ∀ e ∈ m, folded name < folded e.1) :
    m.find name = none := by
  induction m with
  | nil => rfl
  | cons f m ih =>
    have less := first f (List.mem_cons_self ..)
    rw [find_cons, if_neg less.ne', ih fun e member => first e (List.mem_cons_of_mem _ member)]

/-- An entry that is there already hides the new one. -/
theorem find_insert (sorted : Sorted m) (name : List UInt8) :
    (m.insert key val).find name =
      (m.find name).or (if folded key = folded name then some val else none) := by
  induction m with
  | nil => exact find_cons ..
  | cons f m ih =>
    obtain ⟨k, v⟩ := f
    obtain ⟨first, rest⟩ := List.pairwise_cons.mp sorted
    rw [insert]
    split
    next less =>
      have less := strcasecmp_lt_iff.mp less
      rw [find_cons]
      split
      next same =>
        have before : ∀ e ∈ (k, v) :: m, folded name < folded e.1 := by
          intro e member
          rw [← same]
          rcases List.mem_cons.mp member with rfl | member
          · exact less
          · exact less.trans (first e member)
        rw [find_of_first before, Option.none_or]
      next => rw [Option.or_none]
    next same =>
      have same := strcasecmp_eq_iff.mp same
      rw [find_cons, same]
      split
      next => rfl
      next => rw [Option.or_none]
    next =>
      rw [find_cons, find_cons, ih rest]
      split <;> rfl

theorem find_eq_none_iff {name : List UInt8} : m.find name = none ↔ ∀ e ∈ m, folded e.1 ≠ folded name := by
  simp only [find, Option.map_eq_none_iff, List.find?_eq_none, beq_iff_eq, strcasecmp_eq_iff, ne_eq]

/-- A name that is there is not inserted again. -/
theorem insert_of_find {found : List UInt8} (there : m.find key = some found) (sorted : Sorted m) :
    m.insert key val = m := by
  induction m with
  | nil => cases there
  | cons f m ih =>
    obtain ⟨k, v⟩ := f
    obtain ⟨first, rest⟩ := List.pairwise_cons.mp sorted
    rw [insert]
    split
    next less =>
      have less := strcasecmp_lt_iff.mp less
      have absent : MapType.find ((k, v) :: m) key = none := by
        refine find_of_first fun e member => ?_
        rcases List.mem_cons.mp member with rfl | member
        · exact less
        · exact less.trans (first e member)
      rw [absent] at there
      cases there
    next => rfl
    next greater =>
      rw [find_cons, if_neg (strcasecmp_gt_iff.mp greater).ne] at there
      rw [ih there rest]

/-- A new name is inserted as it is spelled. -/
theorem mem_insert_self (absent : m.find key = none) : (key, val) ∈ m.insert key val := by
  induction m with
  | nil => exact List.mem_singleton.mpr rfl
  | cons f m ih =>
    obtain ⟨k, v⟩ := f
    rw [find_eq_none_iff] at absent
    rw [insert]
    split
    next => exact List.mem_cons_self ..
    next same => exact absurd (strcasecmp_eq_iff.mp same).symm (absent (k, v) (List.mem_cons_self ..))
    next =>
      refine List.mem_cons_of_mem _ (ih (find_eq_none_iff.mpr fun e member => ?_))
      exact absent e (List.mem_cons_of_mem _ member)

theorem sorted_erase (sorted : Sorted m) : Sorted (m.erase key) := sorted.filter _

theorem find_erase (name : List UInt8) :
    (m.erase key).find name = if folded key = folded name then none else m.find name := by
  induction m with
  | nil => simp [erase, find]
  | cons f m ih =>
    obtain ⟨k, v⟩ := f
    by_cases gone : folded k = folded key
    · have erased : MapType.erase key ((k, v) :: m) = MapType.erase key m :=
        List.filter_cons_of_neg (by simp [strcasecmp_eq_iff.mpr gone])
      rw [erased, ih, find_cons, gone]
      split <;> rfl
    · have stays : MapType.erase key ((k, v) :: m) = (k, v) :: MapType.erase key m :=
        List.filter_cons_of_pos (by simpa [strcasecmp_eq_iff] using gone)
      rw [stays, find_cons, find_cons, ih]
      by_cases same : folded key = folded name
      · rw [if_neg (fun here => gone (here.trans same.symm)), if_pos same, if_pos same]
      · rw [if_neg same, if_neg same]

/-- Entries inserted one after the other. -/
def insertAll (entries : List (List UInt8 × List UInt8)) (m : MapType) : MapType :=
  entries.foldl (fun m e => m.insert e.1 e.2) m

theorem sorted_insertAll (entries : List (List UInt8 × List UInt8)) (sorted : Sorted m) :
    Sorted (insertAll entries m) := by
  induction entries generalizing m with
  | nil => exact sorted
  | cons e entries ih => exact ih (sorted_insert sorted)

/-- What was there stays, and of the new entries the first of a name counts. -/
theorem find_insertAll (entries : List (List UInt8 × List UInt8)) (sorted : Sorted m)
    (name : List UInt8) :
    (insertAll entries m).find name =
      (m.find name).or ((entries.find? fun e => folded e.1 = folded name).map Prod.snd) := by
  induction entries generalizing m with
  | nil => rw [List.find?_nil, Option.map_none, Option.or_none, insertAll, List.foldl_nil]
  | cons e entries ih =>
    have step : insertAll (e :: entries) m = insertAll entries (m.insert e.1 e.2) := rfl
    rw [step, ih (sorted_insert sorted), find_insert sorted, List.find?_cons, Option.or_assoc]
    by_cases same : folded e.1 = folded name
    · simp [same]
    · simp [same]

end MapType

/-! ## The request -/

/-- `HttpRequest` with what is filled in on demand. -/
structure Request extends HttpRequest where
  params : MapType
  cookies : MapType
  parserParamFlag : UInt8
  deriving DecidableEq, Repr

/-- A request as the parser or a caller leaves it: nothing is filled in yet. -/
def HttpRequest.received (r : HttpRequest) : Request := ⟨r, [], [], 0⟩

/-- `PARSE_PARAM`, where `str` is left behind `pos`. Every turn takes at least one byte. -/
def parseParam (flag : UInt8) (trim : List UInt8 → List UInt8) :
    Nat → List UInt8 → MapType → MapType
  | 0, _, m => m
  | fuel + 1, str, m =>
    match str.dropWhile (· != 61) with
    -- there is no equals sign
    | [] => m
    | _ :: behind =>
      let m := m.insert (trim (str.takeWhile (· != 61)))
        (urlDecode true (behind.takeWhile (· != flag)))
      match behind.dropWhile (· != flag) with
      | [] => m
      | _ :: str => parseParam flag trim fuel str m

namespace Request

/-- `InitQueryParam`. -/
def initQueryParam (r : Request) : Request :=
  if r.parserParamFlag &&& 0x1 ≠ 0 then r
  else
    { r with
      params := parseParam 38 id (r.query.length + 1) r.query r.params
      parserParamFlag := r.parserParamFlag ||| 0x1 }

/-- `strcasestr(haystack, needle) != nullptr`. -/
def strcasestr (haystack needle : List UInt8) : Bool :=
  (cStr haystack).tails.any fun tail => (needle.map tolower).isPrefixOf (tail.map tolower)

/-- `InitBodyParam`. -/
def initBodyParam (r : Request) : Request :=
  if r.parserParamFlag &&& 0x2 ≠ 0 then r
  else if !strcasestr (r.getHeader (ascii "content-type")) (ascii "application/x-www-form-urlencoded") then
    { r with parserParamFlag := r.parserParamFlag ||| 0x2 }
  else
    { r with
      params := parseParam 38 id (r.body.length + 1) r.body r.params
      parserParamFlag := r.parserParamFlag ||| 0x2 }

/-- `InitCookies`. -/
def initCookies (r : Request) : Request :=
  if r.parserParamFlag &&& 0x4 ≠ 0 then r
  else
    let cookie := r.getHeader (ascii "cookie")
    if cookie = [] then { r with parserParamFlag := r.parserParamFlag ||| 0x4 }
    else
      { r with
        cookies := parseParam 59 (trim blanks) (cookie.length + 1) cookie r.cookies
        parserParamFlag := r.parserParamFlag ||| 0x4 }

/-- `InitParam`. -/
def initParam (r : Request) : Request := r.initQueryParam.initBodyParam.initCookies

/-- `GetParam`. -/
def getParam (r : Request) (key default : List UInt8) : List UInt8 × Request :=
  let r := r.initQueryParam.initBodyParam
  ((r.params.find key).getD default, r)

/-- `HasParam`, with what it stores behind `val`. -/
def hasParam (r : Request) (key : List UInt8) : Option (List UInt8) × Request :=
  let r := r.initQueryParam.initBodyParam
  (r.params.find key, r)

def setParam (r : Request) (key val : List UInt8) : Request := { r with params := r.params.set key val }

def delParam (r : Request) (key : List UInt8) : Request := { r with params := r.params.erase key }

/-- `GetCookie`. -/
def getCookie (r : Request) (key default : List UInt8) : List UInt8 × Request :=
  let r := r.initCookies
  ((r.cookies.find key).getD default, r)

/-- `HasCookie`, with what it stores behind `val`. -/
def hasCookie (r : Request) (key : List UInt8) : Option (List UInt8) × Request :=
  let r := r.initCookies
  (r.cookies.find key, r)

def setCookie (r : Request) (key val : List UInt8) : Request :=
  { r with cookies := r.cookies.set key val }

def delCookie (r : Request) (key : List UInt8) : Request := { r with cookies := r.cookies.erase key }

end Request

end ServerFrame.Http
