import ServerFrame.Http.ParamPieces
import ServerFrame.Lib.LazyStore

/-!
# Parameters on demand

The accessors fill in the parameters or the cookies when they look something up. Setting and
deleting do not, so that what was deleted before the first look is brought back by it.
-/
namespace ServerFrame.Http

open StringUtil LazyStore

inductive ParamKind where
  | param
  | cookie
  deriving DecidableEq, Repr

/-- The calls on the parameters and the cookies of a request. -/
inductive ParamCall where
  | getParam (key default : List UInt8)
  | hasParam (key : List UInt8)
  | setParam (key val : List UInt8)
  | delParam (key : List UInt8)
  | getCookie (key default : List UInt8)
  | hasCookie (key : List UInt8)
  | setCookie (key val : List UInt8)
  | delCookie (key : List UInt8)
  deriving DecidableEq, Repr

/-- What `Get` and what `Has` returns, the latter with what it stores behind `val`. -/
inductive ParamAnswer where
  | value (val : List UInt8)
  | found (val : Option (List UInt8))
  deriving DecidableEq, Repr

namespace Request

def perform (r : Request) : ParamCall → Option ParamAnswer × Request
  | .getParam key default => (r.getParam key default).map (some ∘ .value) id
  | .hasParam key => (r.hasParam key).map (some ∘ .found) id
  | .setParam key val => (none, r.setParam key val)
  | .delParam key => (none, r.delParam key)
  | .getCookie key default => (r.getCookie key default).map (some ∘ .value) id
  | .hasCookie key => (r.hasCookie key).map (some ∘ .found) id
  | .setCookie key val => (none, r.setCookie key val)
  | .delCookie key => (none, r.delCookie key)

/-- The answers to calls made one after the other. -/
def answers (r : Request) (calls : List ParamCall) : List (Option ParamAnswer) :=
  LazyStore.answers perform r calls

def kept (r : Request) : ParamKind → MapType
  | .param => r.params
  | .cookie => r.cookies

/-- The function that fills in one kind. -/
def init (r : Request) : ParamKind → Request
  | .param => r.initQueryParam.initBodyParam
  | .cookie => r.initCookies

end Request

/-- A call as an operation on two sides; names that compare equal are one key. -/
def ParamCall.op : ParamCall → Op (ParamKind × List Nat) (List UInt8) ParamAnswer
  | .getParam key default => .read (.param, folded key) fun val => .value (val.getD default)
  | .hasParam key => .read (.param, folded key) .found
  | .setParam key val => .put (.param, folded key) val
  | .delParam key => .delete (.param, folded key)
  | .getCookie key default => .read (.cookie, folded key) fun val => .value (val.getD default)
  | .hasCookie key => .read (.cookie, folded key) .found
  | .setCookie key val => .put (.cookie, folded key) val
  | .delCookie key => .delete (.cookie, folded key)

/-- The names and values that a text is read as. -/
def textEntries (flag : UInt8) (trim : List UInt8 → List UInt8) (text : List UInt8) :
    List (List UInt8 × List UInt8) :=
  (readPieces flag [] (text.splitOn flag)).map (stored trim)

namespace HttpRequest

/-- The names and values that come with a request. -/
def pairs (r : HttpRequest) : ParamKind → List (List UInt8 × List UInt8)
  | .param => textEntries 38 id r.query ++ if r.isForm then textEntries 38 id r.body else []
  | .cookie => textEntries 59 (trim blanks) (r.getHeader (ascii "cookie"))

/-- The value that comes with a request under a name: the first one. -/
def carried (r : HttpRequest) (key : ParamKind × List Nat) : Option (List UInt8) :=
  ((r.pairs key.1).find? fun e => folded e.1 = key.2).map Prod.snd

end HttpRequest

/-! ## Filling in -/

theorem parseParam_entries {flag : UInt8} {trim : List UInt8 → List UInt8} (differ : flag ≠ 61)
    (text : List UInt8) (m : MapType) :
    parseParam flag trim (text.length + 1) text m = MapType.insertAll (textEntries flag trim text) m :=
  parseParam_eq differ text m

theorem insertAll_append (front back : List (List UInt8 × List UInt8)) (m : MapType) :
    MapType.insertAll (front ++ back) m = MapType.insertAll back (MapType.insertAll front m) :=
  List.foldl_append

section Init

variable {r : Request}

theorem initQueryParam_of_unset (unset : r.parserParamFlag &&& 0x1 = 0) :
    r.initQueryParam =
      { r with
        params := MapType.insertAll (textEntries 38 id r.query) r.params
        parserParamFlag := r.parserParamFlag ||| 0x1 } := by
  rw [Request.initQueryParam, if_neg (not_not_intro unset), parseParam_entries (by decide)]

theorem initBodyParam_of_unset (unset : r.parserParamFlag &&& 0x2 = 0) :
    r.initBodyParam =
      { r with
        params := MapType.insertAll (if r.isForm then textEntries 38 id r.body else []) r.params
        parserParamFlag := r.parserParamFlag ||| 0x2 } := by
  rw [Request.initBodyParam, if_neg (not_not_intro unset), parseParam_entries (by decide)]
  cases form : r.isForm with
  | false =>
    rw [HttpRequest.isForm] at form
    rw [form]
    rfl
  | true =>
    rw [HttpRequest.isForm] at form
    rw [form]
    rfl

theorem textEntries_nil (flag : UInt8) (trim : List UInt8 → List UInt8) :
    textEntries flag trim [] = [] := rfl

theorem initCookies_of_unset (unset : r.parserParamFlag &&& 0x4 = 0) :
    r.initCookies =
      { r with
        cookies := MapType.insertAll (r.toHttpRequest.pairs .cookie) r.cookies
        parserParamFlag := r.parserParamFlag ||| 0x4 } := by
  rw [Request.initCookies, if_neg (not_not_intro unset)]
  by_cases empty : r.getHeader (ascii "cookie") = []
  · rw [if_pos empty, HttpRequest.pairs, empty, textEntries_nil]
    rfl
  · rw [if_neg empty, parseParam_entries (by decide)]
    rfl

end Init

/-! ## The store a request stands for -/

/-- The flag bits of the kinds that are filled in. -/
def flagBits (filled : ParamKind → Bool) : UInt8 :=
  (if filled .param then 3 else 0) ||| (if filled .cookie then 4 else 0)

structure Stands (base : HttpRequest) (r : Request)
    (st : Store (ParamKind × List Nat) ParamKind (List UInt8)) : Prop where
  rest : r.toHttpRequest = base
  flag : r.parserParamFlag = flagBits st.filled
  sorted : ∀ kind, (r.kept kind).Sorted
  find : ∀ kind name, (r.kept kind).find name = st.content (kind, folded name)

section Stands

variable {base : HttpRequest} {r : Request}
  {st : Store (ParamKind × List Nat) ParamKind (List UInt8)}

theorem init_of_filled (stands : Stands base r st) {kind : ParamKind}
    (filled : st.filled kind = true) : r.init kind = r := by
  have flag := stands.flag
  cases kind with
  | param =>
    rw [flagBits, filled] at flag
    have first : r.parserParamFlag &&& 0x1 ≠ 0 := by
      rw [flag]
      cases st.filled .cookie <;> decide
    have second : r.parserParamFlag &&& 0x2 ≠ 0 := by
      rw [flag]
      cases st.filled .cookie <;> decide
    rw [Request.init, Request.initQueryParam, if_pos first, Request.initBodyParam, if_pos second]
  | cookie =>
    rw [flagBits, filled] at flag
    have third : r.parserParamFlag &&& 0x4 ≠ 0 := by
      rw [flag]
      cases st.filled .param <;> decide
    rw [Request.init, Request.initCookies, if_pos third]

/-- Filling in one kind adds what comes with the request to what was put there before. -/
theorem init_of_unfilled (stands : Stands base r st) {kind : ParamKind}
    (unfilled : st.filled kind = false) :
    (r.init kind).toHttpRequest = base ∧
      (r.init kind).parserParamFlag = flagBits (Function.update st.filled kind true) ∧
      ∀ kind', (r.init kind).kept kind' =
        if kind' = kind then MapType.insertAll (base.pairs kind) (r.kept kind)
        else r.kept kind' := by
  obtain ⟨rfl, flag, -, -⟩ := stands
  cases kind with
  | param =>
    rw [flagBits, unfilled] at flag
    have first : r.parserParamFlag &&& 0x1 = 0 := by
      rw [flag]
      cases st.filled .cookie <;> decide
    have second : (r.parserParamFlag ||| 0x1) &&& 0x2 = 0 := by
      rw [flag]
      cases st.filled .cookie <;> decide
    rw [Request.init, initQueryParam_of_unset first, initBodyParam_of_unset second]
    refine ⟨rfl, ?_, fun kind' => ?_⟩
    · simp only [flag, flagBits, Function.update_self, ne_eq, reduceCtorEq, not_false_eq_true,
        Function.update_of_ne]
      cases st.filled .cookie <;> decide
    · cases kind' with
      | param => exact (insertAll_append ..).symm
      | cookie => rfl
  | cookie =>
    rw [flagBits, unfilled] at flag
    have third : r.parserParamFlag &&& 0x4 = 0 := by
      rw [flag]
      cases st.filled .param <;> decide
    rw [Request.init, initCookies_of_unset third]
    refine ⟨rfl, ?_, fun kind' => ?_⟩
    · simp only [flag, flagBits, Function.update_self, ne_eq, reduceCtorEq, not_false_eq_true,
        Function.update_of_ne]
      cases st.filled .param <;> decide
    · cases kind' <;> rfl

theorem Stands.init (stands : Stands base r st) (kind : ParamKind) :
    Stands base (r.init kind) (st.fill Prod.fst base.carried kind) := by
  cases filled : st.filled kind with
  | true => rwa [init_of_filled stands filled, Store.fill, if_pos filled]
  | false =>
    obtain ⟨rest, flag, kept⟩ := init_of_unfilled stands filled
    rw [Store.fill, if_neg (Bool.eq_false_iff.mp filled)]
    refine ⟨rest, flag, fun kind' => ?_, fun kind' name => ?_⟩
    · rw [kept]
      split
      next => exact MapType.sorted_insertAll _ (stands.sorted kind)
      next => exact stands.sorted kind'
    · rw [kept]
      by_cases same : kind' = kind
      · subst same
        simp only [if_true]
        rw [MapType.find_insertAll _ (stands.sorted kind'), stands.find]
        rfl
      · simp only [same, if_false]
        exact stands.find kind' name

theorem Stands.update (stands : Stands base r st) {kind : ParamKind} {key : List UInt8}
    {v : Option (List UInt8)} {r' : Request} (rest : r'.toHttpRequest = r.toHttpRequest)
    (flag : r'.parserParamFlag = r.parserParamFlag)
    (others : ∀ kind', kind' ≠ kind → r'.kept kind' = r.kept kind')
    (sorted : (r'.kept kind).Sorted)
    (find : ∀ name, (r'.kept kind).find name =
      if folded key = folded name then v else (r.kept kind).find name) :
    Stands base r' (st.update (kind, folded key) v) := by
  refine ⟨rest.trans stands.rest, flag.trans stands.flag, fun kind' => ?_, fun kind' name => ?_⟩
  · by_cases same : kind' = kind
    · rwa [same]
    · rw [others kind' same]
      exact stands.sorted kind'
  · rw [Store.content_update]
    by_cases same : kind' = kind
    · subst same
      rw [find, stands.find]
      simp only [Prod.mk.injEq, true_and, eq_comm]
    · rw [others kind' same, stands.find, if_neg fun here => same (Prod.mk.inj here).1]

/-- The calls do to a request what the operations do to the store. -/
theorem Stands.step (stands : Stands base r st) (call : ParamCall) :
    (r.perform call).1 = (st.step Prod.fst base.carried call.op).1 ∧
      Stands base (r.perform call).2 (st.step Prod.fst base.carried call.op).2 := by
  cases call with
  | getParam key default =>
    have filled := stands.init .param
    refine ⟨?_, filled⟩
    exact congrArg (fun val : Option (List UInt8) => some (ParamAnswer.value (val.getD default)))
      (filled.find .param key)
  | hasParam key =>
    have filled := stands.init .param
    exact ⟨congrArg (some ∘ ParamAnswer.found) (filled.find .param key), filled⟩
  | getCookie key default =>
    have filled := stands.init .cookie
    refine ⟨?_, filled⟩
    exact congrArg (fun val : Option (List UInt8) => some (ParamAnswer.value (val.getD default)))
      (filled.find .cookie key)
  | hasCookie key =>
    have filled := stands.init .cookie
    exact ⟨congrArg (some ∘ ParamAnswer.found) (filled.find .cookie key), filled⟩
  | setParam key val =>
    refine ⟨rfl, stands.update rfl rfl (fun kind' other => ?_) ?_ fun name => MapType.find_set name⟩
    · cases kind' with
      | param => exact absurd rfl other
      | cookie => rfl
    · exact MapType.sorted_set (stands.sorted .param)
  | delParam key =>
    refine ⟨rfl, stands.update rfl rfl (fun kind' other => ?_) ?_ fun name => MapType.find_erase name⟩
    · cases kind' with
      | param => exact absurd rfl other
      | cookie => rfl
    · exact MapType.sorted_erase (stands.sorted .param)
  | setCookie key val =>
    refine ⟨rfl, stands.update rfl rfl (fun kind' other => ?_) ?_ fun name => MapType.find_set name⟩
    · cases kind' with
      | param => rfl
      | cookie => exact absurd rfl other
    · exact MapType.sorted_set (stands.sorted .cookie)
  | delCookie key =>
    refine ⟨rfl, stands.update rfl rfl (fun kind' other => ?_) ?_ fun name => MapType.find_erase name⟩
    · cases kind' with
      | param => rfl
      | cookie => exact absurd rfl other
    · exact MapType.sorted_erase (stands.sorted .cookie)

end Stands

theorem stands_received (r : HttpRequest) : Stands r r.received .empty where
  rest := rfl
  flag := rfl
  sorted kind := by cases kind <;> exact .nil
  find kind name := by cases kind <;> rfl

theorem stands_initParam (r : HttpRequest) :
    Stands r r.received.initParam (.eager r.carried) := by
  have both := ((stands_received r).init .param).init .cookie
  have full : (Store.empty.fill Prod.fst r.carried .param).fill Prod.fst r.carried .cookie =
      Store.eager r.carried := by
    refine Store.ext (funext fun key => ?_) (funext fun kind => ?_)
    · obtain ⟨kind, name⟩ := key
      cases kind <;> rfl
    · cases kind <;> rfl
  rwa [full] at both

theorem Stands.answers {base : HttpRequest} {r : Request}
    {st : Store (ParamKind × List Nat) ParamKind (List UInt8)} (stands : Stands base r st)
    (calls : List ParamCall) :
    r.answers calls =
      LazyStore.answers (Store.step Prod.fst base.carried) st (calls.map ParamCall.op) :=
  answers_of_simulation _ (fun _ _ call stands => stands.step call) stands calls

/-- Lazy and eager filling in answer alike exactly when nobody asks, in a way that makes a
difference, for a name that was deleted before its kind was filled in and not put back. -/
theorem answers_initParam_iff (r : HttpRequest) (calls : List ParamCall) :
    r.received.answers calls = r.received.initParam.answers calls ↔
      ∀ before key answer rest, calls.map ParamCall.op = before ++ .read key answer :: rest →
        Early Prod.fst before key → answer (r.carried key) = answer none := by
  rw [(stands_received r).answers, (stands_initParam r).answers]
  exact answers_lazy_iff (calls.map ParamCall.op)

/-- A deleted parameter is back when it is looked for. -/
theorem deleted_comes_back :
    let r := { HttpRequest.new with query := ascii "a=1" }
    let calls := [ParamCall.delParam (ascii "a"), .hasParam (ascii "a")]
    r.received.answers calls = [none, some (.found (some (ascii "1")))] ∧
      r.received.initParam.answers calls = [none, some (.found none)] := by
  decide

end ServerFrame.Http
