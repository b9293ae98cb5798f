import Mathlib.Data.List.Induction
import Xupeng.Models.Http.Interpretation.Segments

/-!
# Lazy parsing and edits

The first `getParam` inserts what is parsed from the query and the body, also under a name that
was deleted before. `initCookies` does not set its bit after it has parsed, so every `getCookies`
inserts the cookies of the header again. A name that was assigned keeps its value.
-/

namespace Xupeng.Http

/-- What a call does under a name. -/
inductive Edit
  | set (val : List Char)
  | del
  deriving DecidableEq

/-- The value that an edit leaves. -/
def Edit.value : Edit → Option (List Char)
  | .set val => some val
  | .del => none

/-- An edit of the name `key`, as one of the name `k`. -/
def Edit.under (e : Edit) (key k : List Char) : Option Edit :=
  if caseKey key = caseKey k then some e else none

namespace ParamCall

/-- The call as an edit of a parameter. -/
def paramEdit (k : List Char) : ParamCall → Option Edit
  | .setParam key val => (Edit.set val).under key k
  | .delParam key => Edit.del.under key k
  | _ => none

/-- The call as an edit of a cookie. -/
def cookieEdit (k : List Char) : ParamCall → Option Edit
  | .setCookie key val => (Edit.set val).under key k
  | .delCookie key => Edit.del.under key k
  | _ => none

/-- Whether the call parses the query and the body. -/
def isGetParam : ParamCall → Bool
  | .getParam _ _ => true
  | _ => false

end ParamCall

/-- The last edit of a sequence of calls. -/
def lastEdit (edit : ParamCall → Option Edit) (calls : List ParamCall) : Option Edit :=
  (calls.filterMap edit).getLast?

/-- The calls from the first `getParam` on. -/
def sinceParsed (calls : List ParamCall) : List ParamCall := calls.dropWhile (!·.isGetParam)

/-- The entries of the query, and of the body if it is a form. -/
def formEntries (u : StringUtil) (r : HttpRequest) : List (List Char × List Char) :=
  (scannedPairs '&' r.query ++
    if strcasestr (getHeader r.headers "content-type".toList [])
        "application/x-www-form-urlencoded".toList then scannedPairs '&' r.body
    else []).map fun p => (p.1, u.urlDecode p.2)

/-- The entries of the cookie header. -/
def cookieEntries (u : StringUtil) (r : HttpRequest) : List (List Char × List Char) :=
  (scannedPairs ';' (getHeader r.headers "cookie".toList [])).map fun p =>
    (u.trim p.1, u.urlDecode p.2)

/-- The value of a name in entries, the first of several. -/
def parsed (entries : List (List Char × List Char)) (k : List Char) : Option (List Char) :=
  ((Dictionary.empty : MapType).insertAll entries).value k

/-- What a getter should return: the value of the last assignment, the default after a deletion,
and what is parsed where there is no edit. -/
def expected (last : Option Edit) (parsed : Option (List Char)) (default : List Char) :
    List Char :=
  (match last with
  | some e => e.value
  | none => parsed).getD default

variable {u : StringUtil} {r r₀ : HttpRequest} {calls : List ParamCall} {k : List Char}

theorem lastEdit_append (edit : ParamCall → Option Edit) (calls : List ParamCall)
    (c : ParamCall) : lastEdit edit (calls ++ [c]) = (edit c).or (lastEdit edit calls) := by
  have hlast : lastEdit edit [c] = edit c := by
    rw [lastEdit]
    cases h : edit c with
    | none => rw [List.filterMap_cons_none h]; rfl
    | some e => rw [List.filterMap_cons_some h]; rfl
  rw [← hlast, lastEdit, List.filterMap_append, List.getLast?_append]
  rfl

/-- Without an edit there is none from the first `getParam` on. -/
theorem lastEdit_sinceParsed {edit : ParamCall → Option Edit}
    (h : lastEdit edit calls = none) : lastEdit edit (sinceParsed calls) = none := by
  rw [lastEdit, List.getLast?_eq_none_iff, List.filterMap_eq_nil_iff] at h ⊢
  exact fun c hc => h c ((List.dropWhile_sublist _).subset hc)

/-! ## One name -/

/-- What the parameters hold under a name with the parsed value `p`. -/
def heldParam (p : Option (List Char)) (k : List Char) (calls : List ParamCall) :
    Option (List Char) :=
  ((lastEdit (·.paramEdit k) calls).bind Edit.value).or
    (if sinceParsed calls ≠ [] ∧ lastEdit (·.paramEdit k) (sinceParsed calls) = none then p
    else none)

/-- What `getParam` finds there. -/
def readParam (p : Option (List Char)) (k : List Char) (calls : List ParamCall) :
    Option (List Char) :=
  ((lastEdit (·.paramEdit k) calls).bind Edit.value).or
    (if lastEdit (·.paramEdit k) (sinceParsed calls) = none then p else none)

theorem sinceParsed_append_get {c : ParamCall} (hc : c.isGetParam = true)
    (calls : List ParamCall) : sinceParsed (calls ++ [c]) = sinceParsed calls ++ [c] := by
  rw [sinceParsed, sinceParsed, List.dropWhile_append]
  split
  · rename_i h
    rw [List.isEmpty_iff.mp h]
    simp [hc]
  · rfl

theorem sinceParsed_append_other {c : ParamCall} (hc : c.isGetParam = false)
    (calls : List ParamCall) : sinceParsed (calls ++ [c]) =
      if sinceParsed calls = [] then [] else sinceParsed calls ++ [c] := by
  rw [sinceParsed, sinceParsed, List.dropWhile_append]
  simp only [List.isEmpty_iff]
  split
  · simp [hc]
  · rfl

theorem sinceParsed_append_eq_nil_iff {c : ParamCall} (hc : c.isGetParam = false)
    (calls : List ParamCall) : sinceParsed (calls ++ [c]) = [] ↔ sinceParsed calls = [] := by
  rw [sinceParsed_append_other hc]
  split
  · rename_i h
    simp [h]
  · rename_i h
    simp [h]

/-- A call that is not a `getParam` changes the value by its edit, if it has one. -/
theorem heldParam_append (p : Option (List Char)) (k : List Char) (calls : List ParamCall)
    {c : ParamCall} (hc : c.isGetParam = false) : heldParam p k (calls ++ [c]) =
      (c.paramEdit k).elim (heldParam p k calls) Edit.value := by
  rw [heldParam, heldParam, lastEdit_append, sinceParsed_append_other hc]
  by_cases hnil : sinceParsed calls = []
  · cases c.paramEdit k <;> simp [hnil]
  · rw [if_neg hnil, lastEdit_append]
    cases c.paramEdit k <;> simp [hnil]

/-- A `getParam` keeps what it finds. -/
theorem heldParam_append_get (p : Option (List Char)) (k : List Char) (calls : List ParamCall)
    {c : ParamCall} (hc : c.isGetParam = true) :
    heldParam p k (calls ++ [c]) = readParam p k calls := by
  have hnone : c.paramEdit k = none := by
    cases c <;> first | rfl | cases hc
  rw [heldParam, readParam, lastEdit_append, sinceParsed_append_get hc, lastEdit_append, hnone,
    Option.none_or, Option.none_or]
  simp

/-- The first `getParam` adds what is parsed. -/
theorem readParam_eq (p : Option (List Char)) (k : List Char) (calls : List ParamCall) :
    readParam p k calls =
      if sinceParsed calls = [] then (heldParam p k calls).or p else heldParam p k calls := by
  rw [readParam, heldParam]
  by_cases hnil : sinceParsed calls = []
  · simp [hnil, lastEdit]
  · simp [hnil]

/-! ## Parsing -/

theorem or_and_self (f : BitVec 8) {a : BitVec 8} (ha : a ≠ 0) : (f ||| a) &&& a ≠ 0 := by
  have habsorb : (f ||| a) &&& a = a := by
    ext i
    simp only [BitVec.getElem_and, BitVec.getElem_or]
    cases f[i] <;> cases a[i] <;> rfl
  rwa [habsorb]

/-- Another flag does not change. -/
theorem or_and_of_disjoint (f : BitVec 8) {a b : BitVec 8} (h : a &&& b = 0#8) :
    (f ||| a) &&& b = f &&& b := by
  rw [BitVec.and_or_distrib_right, h, BitVec.or_zero]

/-- The first `getParam` inserts the entries of the query and of the body. -/
theorem initParams_of_unparsed (h1 : r.parserParamFlag &&& 0x1 = 0)
    (h2 : r.parserParamFlag &&& 0x2 = 0) :
    (r.initQueryParam u).initBodyParam u =
      { r with
        params := r.params.insertAll (formEntries u r)
        parserParamFlag := r.parserParamFlag ||| 0x1 ||| 0x2 } := by
  have h2' : (r.parserParamFlag ||| 0x1) &&& 0x2 = 0 :=
    (or_and_of_disjoint _ (by decide)).trans h2
  rw [HttpRequest.initQueryParam, if_neg fun hne => hne h1, HttpRequest.initBodyParam,
    if_neg fun hne => hne h2']
  simp only [parseParam_eq u (show '&' ≠ '=' by decide), List.drop_zero, formEntries, id]
  cases strcasestr (getHeader r.headers "content-type".toList [])
      "application/x-www-form-urlencoded".toList with
  | false => simp
  | true => simp [Dictionary.insertAll_append]

theorem initParams_of_parsed (h1 : r.parserParamFlag &&& 0x1 ≠ 0)
    (h2 : r.parserParamFlag &&& 0x2 ≠ 0) : (r.initQueryParam u).initBodyParam u = r := by
  rw [HttpRequest.initQueryParam, if_pos h1, HttpRequest.initBodyParam, if_pos h2]

/-- `getCookies` inserts the cookies of the header every time: the bit is set only if there is no
header. -/
theorem initCookies_spec (h : r.parserParamFlag &&& 0x4 ≠ 0 →
      getHeader r.headers "cookie".toList [] = []) :
    ∃ flag : BitVec 8, r.initCookies u =
        { r with
          cookies := r.cookies.insertAll (cookieEntries u r)
          parserParamFlag := flag } ∧
      flag &&& 0x1 = r.parserParamFlag &&& 0x1 ∧ flag &&& 0x2 = r.parserParamFlag &&& 0x2 ∧
      (flag &&& 0x4 ≠ 0 → getHeader r.headers "cookie".toList [] = []) := by
  have hempty (hnone : getHeader r.headers "cookie".toList [] = []) :
      r.cookies.insertAll (cookieEntries u r) = r.cookies := by
    rw [cookieEntries, hnone, scannedPairs_of_notMem List.not_mem_nil]
    rfl
  rw [HttpRequest.initCookies]
  split
  · rename_i hbit
    exact ⟨r.parserParamFlag, by rw [hempty (h hbit)], rfl, rfl, h⟩
  · dsimp only
    split
    · rename_i hnone
      refine ⟨r.parserParamFlag ||| 0x4, by rw [hempty hnone],
        or_and_of_disjoint _ (by decide), or_and_of_disjoint _ (by decide), fun _ => hnone⟩
    · refine ⟨r.parserParamFlag, ?_, rfl, rfl, h⟩
      rw [parseParam_eq u (by decide), List.drop_zero]
      rfl

/-! ## Every sequence of calls -/

/-- A value that is set is found under its name, in any case. -/
theorem value_assign (m : MapType) (key val k : List Char) : (m.assign key val).value k =
    ((Edit.set val).under key k).elim (m.value k) Edit.value := by
  rw [Dictionary.value_assign, Edit.under]
  by_cases hk : caseKey key = caseKey k
  · rw [if_pos hk, if_pos hk]
    rfl
  · rw [if_neg hk, if_neg hk]
    rfl

/-- A value that is deleted is not found under its name, in any case. -/
theorem value_erase (m : MapType) (key k : List Char) : (m.erase key).value k =
    (Edit.del.under key k).elim (m.value k) Edit.value := by
  rw [Dictionary.value_erase, Edit.under]
  by_cases hk : caseKey key = caseKey k
  · rw [if_pos hk, if_pos hk]
    rfl
  · rw [if_neg hk, if_neg hk]
    rfl

/-- A request after calls on the request `r₀`, name by name. -/
structure Tracks (u : StringUtil) (r₀ : HttpRequest) (calls : List ParamCall) (r : HttpRequest) :
    Prop where
  query : r.query = r₀.query
  body : r.body = r₀.body
  headers : r.headers = r₀.headers
  queryBit : r.parserParamFlag &&& 0x1 = 0 ↔ sinceParsed calls = []
  bodyBit : r.parserParamFlag &&& 0x2 = 0 ↔ sinceParsed calls = []
  cookieBit : r.parserParamFlag &&& 0x4 ≠ 0 → getHeader r.headers "cookie".toList [] = []
  params : ∀ k, r.params.value k = heldParam (parsed (formEntries u r₀) k) k calls
  cookies : ∀ k, (r.cookies.value k).or (parsed (cookieEntries u r₀) k) =
    ((lastEdit (·.cookieEdit k) calls).bind Edit.value).or (parsed (cookieEntries u r₀) k)

namespace Tracks

/-- No call changes what is to be parsed. -/
theorem formEntries_eq (h : Tracks u r₀ calls r) : formEntries u r = formEntries u r₀ := by
  rw [formEntries, formEntries, h.query, h.body, h.headers]

/-- Nor the cookies that are to be parsed. -/
theorem cookieEntries_eq (h : Tracks u r₀ calls r) : cookieEntries u r = cookieEntries u r₀ := by
  rw [cookieEntries, cookieEntries, h.headers]

/-- A call that does not parse and keeps the flag. -/
theorem edit (h : Tracks u r₀ calls r) {c : ParamCall} (hc : c.isGetParam = false)
    {params cookies : MapType}
    (hparams : ∀ k, params.value k = (c.paramEdit k).elim (r.params.value k) Edit.value)
    (hcookies : ∀ k, cookies.value k = (c.cookieEdit k).elim (r.cookies.value k) Edit.value) :
    Tracks u r₀ (calls ++ [c]) { r with params := params, cookies := cookies } where
  query := h.query
  body := h.body
  headers := h.headers
  queryBit := h.queryBit.trans (sinceParsed_append_eq_nil_iff hc calls).symm
  bodyBit := h.bodyBit.trans (sinceParsed_append_eq_nil_iff hc calls).symm
  cookieBit := h.cookieBit
  params k := by rw [heldParam_append _ _ _ hc, hparams, h.params]
  cookies k := by
    rw [lastEdit_append, hcookies]
    cases c.cookieEdit k with
    | none => exact h.cookies k
    | some e => rfl

/-- `getParam` parses if nothing has been parsed. -/
theorem getParam (h : Tracks u r₀ calls r) (key default : List Char) :
    Tracks u r₀ (calls ++ [.getParam key default]) (r.getParam u key default).2 := by
  have hnone (k : List Char) : ParamCall.cookieEdit k (.getParam key default) = none := rfl
  have hparsed : sinceParsed (calls ++ [.getParam key default]) ≠ [] := by
    rw [sinceParsed_append_get rfl]
    exact List.append_ne_nil_of_right_ne_nil _ (List.cons_ne_nil _ _)
  have hcookies (k : List Char) : (r.cookies.value k).or (parsed (cookieEntries u r₀) k) =
      ((lastEdit (·.cookieEdit k) (calls ++ [.getParam key default])).bind Edit.value).or
        (parsed (cookieEntries u r₀) k) := by
    rw [lastEdit_append, hnone, Option.none_or, h.cookies]
  rw [HttpRequest.getParam]
  by_cases hnil : sinceParsed calls = []
  · rw [initParams_of_unparsed (h.queryBit.mpr hnil) (h.bodyBit.mpr hnil)]
    refine ⟨h.query, h.body, h.headers, iff_of_false ?_ hparsed, iff_of_false ?_ hparsed,
      fun hbit => h.cookieBit ?_, fun k => ?_, hcookies⟩
    · rw [or_and_of_disjoint _ (by decide)]
      exact or_and_self _ (by decide)
    · exact or_and_self _ (by decide)
    · rwa [or_and_of_disjoint _ (by decide), or_and_of_disjoint _ (by decide)] at hbit
    · rw [heldParam_append_get _ _ _ rfl, readParam_eq, if_pos hnil, ← h.params,
        Dictionary.value_insertAll, h.formEntries_eq, parsed]
  · rw [initParams_of_parsed (fun hbit => hnil (h.queryBit.mp hbit))
      fun hbit => hnil (h.bodyBit.mp hbit)]
    refine ⟨h.query, h.body, h.headers, h.queryBit.trans (iff_of_false hnil hparsed),
      h.bodyBit.trans (iff_of_false hnil hparsed), h.cookieBit, fun k => ?_, hcookies⟩
    rw [heldParam_append_get _ _ _ rfl, readParam_eq, if_neg hnil, ← h.params]

/-- `getCookies` adds the cookies of the header. -/
theorem getCookies (h : Tracks u r₀ calls r) (key default : List Char) :
    Tracks u r₀ (calls ++ [.getCookies key default]) (r.getCookies u key default).2 := by
  obtain ⟨flag, hinit, hquery, hbody, hcookie⟩ := initCookies_spec (u := u) h.cookieBit
  rw [HttpRequest.getCookies, hinit]
  refine ⟨h.query, h.body, h.headers, ?_, ?_, hcookie, fun k => ?_, fun k => ?_⟩
  · rw [hquery, h.queryBit, sinceParsed_append_eq_nil_iff rfl]
  · rw [hbody, h.bodyBit, sinceParsed_append_eq_nil_iff rfl]
  · rw [heldParam_append _ _ _ rfl]
    exact h.params k
  · have hnone : ParamCall.cookieEdit k (.getCookies key default) = none := rfl
    rw [lastEdit_append, hnone, Option.none_or, ← h.cookies, Dictionary.value_insertAll,
      h.cookieEntries_eq, Option.or_assoc]
    congr 1
    exact Option.or_self

theorem getParam_fst (h : Tracks u r₀ calls r) (key default : List Char) :
    (r.getParam u key default).1 =
      (readParam (parsed (formEntries u r₀) key) key calls).getD default := by
  have hafter := (h.getParam key default).params key
  rw [heldParam_append_get _ _ _ rfl] at hafter
  rw [← hafter]
  rfl

theorem getCookies_fst (h : Tracks u r₀ calls r) (key default : List Char) :
    (r.getCookies u key default).1 = (((lastEdit (·.cookieEdit key) calls).bind Edit.value).or
      (parsed (cookieEntries u r₀) key)).getD default := by
  obtain ⟨flag, hinit, -⟩ := initCookies_spec (u := u) h.cookieBit
  rw [HttpRequest.getCookies, hinit, ← h.cookies, Dictionary.value_insertAll, h.cookieEntries_eq,
    ← parsed]

/-- Every call. -/
theorem call (h : Tracks u r₀ calls r) (c : ParamCall) :
    Tracks u r₀ (calls ++ [c]) (r.call u c) := by
  cases c with
  | getParam key default => exact h.getParam key default
  | getCookies key default => exact h.getCookies key default
  | setParam key val => exact h.edit rfl (value_assign r.params key val) fun _ => rfl
  | setCookie key val => exact h.edit rfl (fun _ => rfl) (value_assign r.cookies key val)
  | delParam key => exact h.edit rfl (value_erase r.params key) fun _ => rfl
  | delCookie key => exact h.edit rfl (fun _ => rfl) (value_erase r.cookies key)

end Tracks

/-- A request whose query, body and headers are assigned and nothing else. -/
def HttpRequest.fresh (version : UInt8) (close : Bool) (query body : List Char)
    (headers : MapType) : HttpRequest :=
  { HttpRequest.new version close with query := query, body := body, headers := headers }

/-- The record agrees with the request after any calls. -/
theorem tracks_after (u : StringUtil) (version : UInt8) (close : Bool) (query body : List Char)
    (headers : MapType) (calls : List ParamCall) :
    Tracks u (.fresh version close query body headers) calls
      ((HttpRequest.fresh version close query body headers).after u calls) := by
  induction calls using List.reverseRecOn with
  | nil =>
    exact ⟨rfl, rfl, rfl, iff_of_true BitVec.zero_and rfl, iff_of_true BitVec.zero_and rfl,
      fun hbit => absurd BitVec.zero_and hbit, fun _ => rfl, fun _ => rfl⟩
  | append_singleton calls c ih =>
    rw [HttpRequest.after, List.foldl_append, ← HttpRequest.after]
    exact ih.call c

/-- After any calls `getParam` returns what it should unless the last edit of the name is a
deletion in front of the first `getParam` and another value is parsed for the name. `getCookies`
returns what it should unless the last edit is a deletion and another value is parsed. -/
theorem lazy_getters_iff (u : StringUtil) (version : UInt8) (close : Bool)
    (query body : List Char) (headers : MapType) (calls : List ParamCall)
    (key default : List Char) :
    let r := HttpRequest.fresh version close query body headers
    let param := parsed (formEntries u r) key
    let cookie := parsed (cookieEntries u r) key
    (((r.after u calls).getParam u key default).1 =
        expected (lastEdit (·.paramEdit key) calls) param default ↔
      (lastEdit (·.paramEdit key) calls = some .del →
        lastEdit (·.paramEdit key) (sinceParsed calls) = none → param.getD default = default)) ∧
      (((r.after u calls).getCookies u key default).1 =
          expected (lastEdit (·.cookieEdit key) calls) cookie default ↔
        (lastEdit (·.cookieEdit key) calls = some .del → cookie.getD default = default)) := by
  intro r param cookie
  have h : Tracks u r calls (r.after u calls) := tracks_after u _ _ _ _ _ calls
  constructor
  · rw [h.getParam_fst, readParam]
    cases hlast : lastEdit (·.paramEdit key) calls with
    | none =>
      rw [lastEdit_sinceParsed hlast]
      exact iff_of_true rfl fun hdel => nomatch hdel
    | some e =>
      cases e with
      | set val => exact iff_of_true rfl fun hdel => nomatch hdel
      | del =>
        by_cases hsince : lastEdit (·.paramEdit key) (sinceParsed calls) = none
        · rw [if_pos hsince]
          exact ⟨fun heq _ _ => heq, fun heq => heq rfl hsince⟩
        · rw [if_neg hsince]
          exact iff_of_true rfl fun _ hnone => absurd hnone hsince
  · rw [h.getCookies_fst]
    cases lastEdit (·.cookieEdit key) calls with
    | none => exact iff_of_true rfl fun hdel => nomatch hdel
    | some e =>
      cases e with
      | set val => exact iff_of_true rfl fun hdel => nomatch hdel
      | del => exact ⟨fun heq _ => heq, fun heq => heq rfl⟩

/-- A parameter that is deleted before the first `getParam` comes back, and a cookie of the header
whenever it is deleted. -/
theorem deleted_names_return :
    let u : StringUtil := ⟨id, id⟩
    let r := HttpRequest.fresh 0x11 true "a=1".toList []
      (Dictionary.empty.assign "cookie".toList "c=2".toList)
    ((r.after u [.delParam "a".toList]).getParam u "a".toList []).1 = "1".toList ∧
      ((r.after u [.getCookies "c".toList [], .delCookie "c".toList]).getCookies u
        "c".toList []).1 = "2".toList := by
  intro u r
  have h (calls : List ParamCall) : Tracks u r calls (r.after u calls) :=
    tracks_after u _ _ _ _ _ calls
  rw [(h _).getParam_fst, (h _).getCookies_fst]
  exact ⟨by decide, by decide⟩

end Xupeng.Http
