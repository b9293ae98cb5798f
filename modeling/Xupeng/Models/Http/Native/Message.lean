import Xupeng.Core.Lines
import Xupeng.Core.Numeral
import Xupeng.Core.Run
import Xupeng.Models.Http.Native.Define

/-!
# Requests and responses

`dump` writes a message to a stream. The parts that both writers share are definitions of their
own: the connection field, the loop over the headers, and the end with the body. The separators
differ.

`setBody` of a response assigns `m_reason`, and nothing assigns its `m_body`. `setHeader` of a
response is declared to return a string and ends without a return statement, so that the process
aborts in it, and in `setRedirect`, which calls it.
-/

namespace Xupeng.Http

/-- `HttpRequest` -/
structure HttpRequest where
  method : HttpMethod
  version : UInt8
  close : Bool
  websocket : Bool
  /-- `m_parserParamFlag` -/
  parserParamFlag : BitVec 8
  path : List Char
  query : List Char
  fragment : List Char
  body : List Char
  headers : MapType
  params : MapType
  cookies : MapType

/-- The constructor of `HttpRequest`. -/
def HttpRequest.new (version : UInt8 := 0x11) (close : Bool := true) : HttpRequest where
  method := .get
  version := version
  close := close
  websocket := false
  parserParamFlag := 0
  path := "/".toList
  query := []
  fragment := []
  body := []
  headers := .empty
  params := .empty
  cookies := .empty

/-- `HttpResponse` -/
structure HttpResponse where
  status : HttpStatus
  version : UInt8
  close : Bool
  websocket : Bool
  body : List Char
  reason : List Char
  headers : MapType
  cookies : List (List Char)

/-- The constructor of `HttpResponse`. -/
def HttpResponse.new (version : UInt8 := 0x11) (close : Bool := true) : HttpResponse where
  status := .ok
  version := version
  close := close
  websocket := false
  body := []
  reason := []
  headers := .empty
  cookies := []

/-- `getHeader` -/
def getHeader (headers : MapType) (key : List Char) (default : List Char) : List Char :=
  (headers.value key).getD default

/-! ## Writing -/

/-- The version as both start lines have it. -/
def dumpVersion (version : UInt8) (os : List Char) : List Char :=
  os ++ "HTTP/".toList ++ decimal (version >>> 4).toNat ++ ".".toList ++
    decimal (version &&& 0x0F).toNat

/-- The connection field. -/
def dumpConnection (websocket close : Bool) (os : List Char) : List Char :=
  if websocket then os
  else os ++ "connection: ".toList ++ (if close then "close" else "keep-alive").toList ++ crlf

/-- Whether the loop over the headers leaves out a name: `strcasecmp(…, "connection") == 0` -/
def skips (websocket : Bool) (name : List Char) : Bool :=
  !websocket && decide (caseKey name = "connection".toList)

/-- The loop over the headers. -/
def dumpHeaders (separator : List Char) (websocket : Bool) (os : List Char)
    (headers : List (List Char × List Char)) : List Char :=
  headers.foldl (fun os i =>
    if skips websocket i.1 then os else os ++ i.1 ++ separator ++ i.2 ++ crlf) os

/-- The length and the body. -/
def dumpBody (body : List Char) (os : List Char) : List Char :=
  if body ≠ [] then
    os ++ "content-length: ".toList ++ decimal body.length ++ crlf ++ crlf ++ body
  else os ++ crlf

/-- `HttpRequest::dump` -/
def HttpRequest.dump (r : HttpRequest) (os : List Char) : List Char :=
  let os := os ++ (httpMethodToString r.method).toList ++ " ".toList ++ r.path ++
    (if r.query = [] then " " else "?").toList ++ r.query ++
    (if r.fragment = [] then "" else "#").toList ++ r.fragment ++ " ".toList
  let os := dumpVersion r.version os ++ crlf
  let os := dumpConnection r.websocket r.close os
  let os := dumpHeaders ": ".toList r.websocket os r.headers.entries
  dumpBody r.body os

/-- `HttpRequest::toString` -/
def HttpRequest.toString (r : HttpRequest) : List Char := r.dump []

/-- `HttpResponse::dump` -/
def HttpResponse.dump (r : HttpResponse) (os : List Char) : List Char :=
  let os := dumpVersion r.version os ++ " ".toList ++ decimal r.status.row.1 ++ " ".toList ++
    (if r.reason = [] then (httpStatusToString r.status).toList else r.reason) ++ crlf
  let os := dumpHeaders " : ".toList r.websocket os r.headers.entries
  let os := r.cookies.foldl (fun os i => os ++ "Set-Cookie: ".toList ++ i ++ crlf) os
  let os := dumpConnection r.websocket r.close os
  dumpBody r.body os

/-- `HttpResponse::toString` -/
def HttpResponse.toString (r : HttpResponse) : List Char := r.dump []

/-! ## The setters of a response -/

/-- The calls that change a response. -/
inductive ResponseCall
  | setStatus (v : HttpStatus)
  | setVersion (v : UInt8)
  | setBody (v : List Char)
  | setReason (v : List Char)
  | setHeaders (v : MapType)
  | setClose (v : Bool)
  | setWebsocket (v : Bool)
  | setHeader (key val : List Char)
  | delHeader (key : List Char)
  | setRedirect (uri : List Char)
  | setCookiie (key val : List Char) (expired : Int) (path domain : List Char) (secure : Bool)

/-- The text that `setCookiie` keeps. -/
def cookieText (time2Str : Int → String → List Char) (key val : List Char) (expired : Int)
    (path domain : List Char) (secure : Bool) : List Char :=
  let ss := key ++ " = ".toList ++ val
  let ss := if expired > 0 then
      ss ++ ";expired = ".toList ++ time2Str expired "%a, %d %b %Y %H:%M:%S" ++ " GMT".toList
    else ss
  let ss := if domain ≠ [] then ss ++ ";domain = ".toList ++ domain else ss
  let ss := if path ≠ [] then ss ++ ";path = ".toList ++ path else ss
  if secure then ss ++ ";secure".toList else ss

/-- What a call does to a response; `none` if the process aborts. -/
def HttpResponse.call (time2Str : Int → String → List Char) (r : HttpResponse) :
    ResponseCall → Option HttpResponse
  | .setStatus v => some { r with status := v }
  | .setVersion v => some { r with version := v }
  | .setBody v => some { r with reason := v }
  | .setReason v => some { r with reason := v }
  | .setHeaders v => some { r with headers := v }
  | .setClose v => some { r with close := v }
  | .setWebsocket v => some { r with websocket := v }
  -- the end of `setHeader` is reached after the assignment
  | .setHeader _ _ => none
  | .delHeader key => some { r with headers := r.headers.erase key }
  | .setRedirect _ => none
  | .setCookiie key val expired path domain secure =>
    some { r with
      cookies := r.cookies ++ [cookieText time2Str key val expired path domain secure] }

/-- A response after a sequence of calls. -/
def HttpResponse.built (time2Str : Int → String → List Char) (version : UInt8) (close : Bool)
    (calls : List ResponseCall) : Option HttpResponse :=
  run (HttpResponse.call time2Str) (HttpResponse.new version close) calls

end Xupeng.Http
