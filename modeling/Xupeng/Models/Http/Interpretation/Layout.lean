import Xupeng.Models.Http.Native.Message

/-!
# Messages as lines

What `dump` writes is a start line, the lines of the fields and the body. The fields are those
that the writer adds itself and the headers that its loop does not skip.
-/

namespace Xupeng.Http

/-- A name and a value. -/
abbrev Field : Type := List Char × List Char

/-- The line of a field. -/
def fieldLine (separator : List Char) (f : Field) : List Char := f.1 ++ separator ++ f.2

/-- The headers that the loop does not skip. -/
def written (websocket : Bool) (headers : List Field) : List Field :=
  headers.filter fun i => !skips websocket i.1

/-- The value of the connection field. -/
def connectionValue (close : Bool) : List Char := (if close then "close" else "keep-alive").toList

/-- The connection field of the writer. -/
def connectionField (websocket close : Bool) : List Field :=
  if websocket then [] else [("connection".toList, connectionValue close)]

/-- The length field of the writer. -/
def lengthField (body : List Char) : List Field :=
  if body = [] then [] else [("content-length".toList, decimal body.length)]

/-- There is none with websocket. -/
theorem mem_connectionField {websocket close : Bool} {f : Field} :
    f ∈ connectionField websocket close ↔
      websocket = false ∧ f = ("connection".toList, connectionValue close) := by
  cases websocket <;> simp [connectionField]

theorem mem_lengthField {body : List Char} {f : Field} : f ∈ lengthField body ↔
    body ≠ [] ∧ f = ("content-length".toList, decimal body.length) := by
  by_cases h : body = [] <;> simp [lengthField, h]

/-- Lines with their ends. -/
def terminated (lines : List (List Char)) : List Char := lines.flatMap (· ++ crlf)

theorem terminated_append (l l' : List (List Char)) :
    terminated (l ++ l') = terminated l ++ terminated l' :=
  List.flatMap_append

/-- The connection is written as a line of its own. -/
theorem dumpConnection_eq (websocket close : Bool) (os : List Char) :
    dumpConnection websocket close os =
      os ++ terminated ((connectionField websocket close).map (fieldLine ": ".toList)) := by
  cases websocket with
  | true => simp [dumpConnection, connectionField, terminated]
  | false => simp [dumpConnection, connectionField, terminated, fieldLine, connectionValue]

/-- Every header that is not skipped is a line. -/
theorem dumpHeaders_eq (separator : List Char) (websocket : Bool) (os : List Char)
    (headers : List Field) : dumpHeaders separator websocket os headers =
      os ++ terminated ((written websocket headers).map (fieldLine separator)) := by
  induction headers generalizing os with
  | nil => exact (List.append_nil os).symm
  | cons i headers ih =>
    rw [dumpHeaders, List.foldl_cons, ← dumpHeaders, ih, written, written, List.filter_cons]
    cases skips websocket i.1 with
    | true => rfl
    | false => simp [terminated, fieldLine]

/-- The length, the empty line and the body. -/
theorem dumpBody_eq (body os : List Char) : dumpBody body os =
    os ++ (terminated ((lengthField body).map (fieldLine ": ".toList)) ++ crlf ++ body) := by
  by_cases h : body = []
  · simp [dumpBody, lengthField, terminated, h]
  · simp [dumpBody, lengthField, terminated, fieldLine, h]

/-! ## Requests -/

/-- The part of a request line between the blanks. -/
def HttpRequest.target (r : HttpRequest) : List Char :=
  r.path ++ (if r.query = [] then " " else "?").toList ++ r.query ++
    (if r.fragment = [] then "" else "#").toList ++ r.fragment

/-- The first line of a request. -/
def HttpRequest.startLine (r : HttpRequest) : List Char :=
  (httpMethodToString r.method).toList ++ ' ' :: (r.target ++ ' ' :: dumpVersion r.version [])

/-- The fields of a request. -/
def HttpRequest.fields (r : HttpRequest) : List Field :=
  connectionField r.websocket r.close ++ written r.websocket r.headers.entries ++
    lengthField r.body

/-- Where the fields of a request come from. -/
theorem HttpRequest.mem_fields {r : HttpRequest} {f : Field} : f ∈ r.fields ↔
    f ∈ connectionField r.websocket r.close ∨ f ∈ written r.websocket r.headers.entries ∨
      f ∈ lengthField r.body := by
  rw [HttpRequest.fields, List.mem_append, List.mem_append, or_assoc]

/-- The version is appended to what has been written. -/
theorem dumpVersion_eq (version : UInt8) (os : List Char) :
    dumpVersion version os = os ++ dumpVersion version [] := by
  simp [dumpVersion]

/-- A request is a block of lines with a body. -/
theorem HttpRequest.toString_eq (r : HttpRequest) : r.toString =
    block (r.startLine :: r.fields.map (fieldLine ": ".toList)) r.body := by
  rw [HttpRequest.toString, HttpRequest.dump, dumpVersion_eq]
  simp only [dumpConnection_eq, dumpHeaders_eq, dumpBody_eq]
  rw [block, ← terminated, ← List.singleton_append, terminated_append, HttpRequest.fields,
    List.map_append, List.map_append, terminated_append, terminated_append]
  simp [terminated, HttpRequest.startLine, HttpRequest.target]

/-! ## Responses -/

/-- The first line of a response. -/
def HttpResponse.startLine (r : HttpResponse) : List Char :=
  dumpVersion r.version [] ++ ' ' :: (decimal r.status.row.1 ++
    ' ' :: (if r.reason = [] then (httpStatusToString r.status).toList else r.reason))

/-- The fields that the writer of responses adds. -/
def HttpResponse.added (r : HttpResponse) : List Field :=
  r.cookies.map (fun i => ("Set-Cookie".toList, i)) ++ connectionField r.websocket r.close ++
    lengthField r.body

/-- Where the fields that a response adds come from. -/
theorem HttpResponse.mem_added {s : HttpResponse} {f : Field} : f ∈ s.added ↔
    (∃ i ∈ s.cookies, ("Set-Cookie".toList, i) = f) ∨
      f ∈ connectionField s.websocket s.close ∨ f ∈ lengthField s.body := by
  rw [HttpResponse.added, List.mem_append, List.mem_append, List.mem_map, or_assoc]

/-- The lines of a response behind the first. -/
def HttpResponse.lines (r : HttpResponse) : List (List Char) :=
  (written r.websocket r.headers.entries).map (fieldLine " : ".toList) ++
    r.added.map (fieldLine ": ".toList)

/-- Every cookie is a field of its own. -/
theorem dumpCookies_eq (cookies : List (List Char)) (os : List Char) :
    cookies.foldl (fun os i => os ++ "Set-Cookie: ".toList ++ i ++ crlf) os =
      os ++ terminated ((cookies.map fun i => ("Set-Cookie".toList, i)).map
        (fieldLine ": ".toList)) := by
  induction cookies generalizing os with
  | nil => simp [terminated]
  | cons i cookies ih =>
    rw [List.foldl_cons, ih]
    simp [terminated, fieldLine]

/-- A response is a block of lines with a body. -/
theorem HttpResponse.toString_eq (r : HttpResponse) :
    r.toString = block (r.startLine :: r.lines) r.body := by
  rw [HttpResponse.toString, HttpResponse.dump]
  simp only [dumpCookies_eq, dumpConnection_eq, dumpHeaders_eq, dumpBody_eq]
  rw [block, ← terminated, ← List.singleton_append, terminated_append, HttpResponse.lines,
    HttpResponse.added, terminated_append, List.map_append, List.map_append, terminated_append,
    terminated_append]
  simp [terminated, HttpResponse.startLine]

end Xupeng.Http
