import Mathlib.Data.List.Infix
import Xupeng.Models.Http.Native.Message

/-!
# Parameters and cookies

`PARSE_PARAM` runs over a text with one position: from it to the next `=` is a key, and from
there to the next separator is a value. The getters parse first, under the bits of
`m_parserParamFlag`, and then look up.

`StringUtil` is a parameter.
-/

namespace Xupeng.Http

/-- The functions of `StringUtil` that the parser calls. -/
structure StringUtil where
  urlDecode : List Char → List Char
  trim : List Char → List Char

/-- `std::string::find` -/
def find (str : List Char) (c : Char) (pos : Nat) : Option Nat :=
  (memchr c (str.drop pos)).map (pos + ·)

/-- `std::string::substr` -/
def substr (str : List Char) (pos n : Nat) : List Char := (str.drop pos).take n

/-- What is found is behind the position and in the text. -/
theorem find_bounds {str : List Char} {c : Char} {pos i : Nat} (h : find str c pos = some i) :
    pos ≤ i ∧ i < str.length := by
  obtain ⟨j, hj, rfl⟩ := Option.map_eq_some_iff.mp h
  have hlt := (List.findIdx?_eq_some_iff_findIdx_eq.mp hj).1
  rw [List.length_drop] at hlt
  omega

/-- `PARSE_PARAM`, from the position `pos` -/
def parseParam (u : StringUtil) (flag : Char) (trim : List Char → List Char) (str : List Char)
    (pos : Nat) (m : MapType) : MapType :=
  match _hkey : find str '=' pos with
  | none => m
  | some key =>
    match hpos : find str flag key with
    -- the length that is computed from npos reaches to the end
    | none => m.insert (trim (substr str pos (key - pos)), u.urlDecode (str.drop (key + 1)))
    | some next =>
      parseParam u flag trim str (next + 1)
        (m.insert (trim (substr str pos (key - pos)),
          u.urlDecode (substr str (key + 1) (next - key - 1))))
  termination_by str.length - pos
  decreasing_by
    have := find_bounds _hkey
    have := find_bounds hpos
    omega

/-- `strcasestr(…) != nullptr` -/
def strcasestr (haystack needle : List Char) : Bool := caseKey needle <:+: caseKey haystack

namespace HttpRequest

variable (u : StringUtil)

/-- `HttpRequest::initQueryParam` -/
def initQueryParam (r : HttpRequest) : HttpRequest :=
  if r.parserParamFlag &&& 0x1 ≠ 0 then r
  else
    { r with
      params := parseParam u '&' id r.query 0 r.params
      parserParamFlag := r.parserParamFlag ||| 0x1 }

/-- `HttpRequest::initBodyParam` -/
def initBodyParam (r : HttpRequest) : HttpRequest :=
  if r.parserParamFlag &&& 0x2 ≠ 0 then r
  else
    let content_type := getHeader r.headers "content-type".toList []
    if strcasestr content_type "application/x-www-form-urlencoded".toList = false then
      { r with parserParamFlag := r.parserParamFlag ||| 0x2 }
    else
      { r with
        params := parseParam u '&' id r.body 0 r.params
        parserParamFlag := r.parserParamFlag ||| 0x2 }

/-- `HttpRequest::initCookies` -/
def initCookies (r : HttpRequest) : HttpRequest :=
  if r.parserParamFlag &&& 0x4 ≠ 0 then r
  else
    let cookie := getHeader r.headers "cookie".toList []
    if cookie = [] then { r with parserParamFlag := r.parserParamFlag ||| 0x4 }
    else { r with cookies := parseParam u ';' u.trim cookie 0 r.cookies }

/-- `HttpRequest::getParam` -/
def getParam (r : HttpRequest) (key default : List Char) : List Char × HttpRequest :=
  let r := (r.initQueryParam u).initBodyParam u
  ((r.params.value key).getD default, r)

/-- `HttpRequest::getCookies` -/
def getCookies (r : HttpRequest) (key default : List Char) : List Char × HttpRequest :=
  let r := r.initCookies u
  ((r.cookies.value key).getD default, r)

/-- `HttpRequest::setParam` -/
def setParam (r : HttpRequest) (key val : List Char) : HttpRequest :=
  { r with params := r.params.assign key val }

/-- `HttpRequest::setCookie` -/
def setCookie (r : HttpRequest) (key val : List Char) : HttpRequest :=
  { r with cookies := r.cookies.assign key val }

/-- `HttpRequest::delParam` -/
def delParam (r : HttpRequest) (key : List Char) : HttpRequest :=
  { r with params := r.params.erase key }

/-- `HttpRequest::delCookie` -/
def delCookie (r : HttpRequest) (key : List Char) : HttpRequest :=
  { r with cookies := r.cookies.erase key }

end HttpRequest

/-- The calls that read and change parameters and cookies. -/
inductive ParamCall
  | getParam (key default : List Char)
  | getCookies (key default : List Char)
  | setParam (key val : List Char)
  | setCookie (key val : List Char)
  | delParam (key : List Char)
  | delCookie (key : List Char)

/-- What a call does to a request. -/
def HttpRequest.call (u : StringUtil) (r : HttpRequest) : ParamCall → HttpRequest
  | .getParam key default => (r.getParam u key default).2
  | .getCookies key default => (r.getCookies u key default).2
  | .setParam key val => r.setParam key val
  | .setCookie key val => r.setCookie key val
  | .delParam key => r.delParam key
  | .delCookie key => r.delCookie key

/-- A request after a sequence of calls. -/
def HttpRequest.after (u : StringUtil) (r : HttpRequest) (calls : List ParamCall) : HttpRequest :=
  calls.foldl (HttpRequest.call u) r

end Xupeng.Http
