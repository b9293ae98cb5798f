import Xupeng.Models.Http.Correctness.Serialisation

/-!
# Framing of messages

A reader finds the fields behind the start line by their names, in any case and without the
blanks around them. The loops leave out a header named connection, but none named content-length,
and a cookie can have further lines in it. So the framing is unambiguous exactly if neither the
headers nor the cookies have a connection or a length of their own, or tell that there is no body
where there is none.
-/

namespace Xupeng.Http

/-- The field of a line, for a reader that drops blanks. -/
def fieldOf (line : List Char) : Field :=
  (trimBlanks (cutAt ':' line).1, trimBlanks (cutAt ':' line).2)

/-- A field without the blanks around its parts. -/
def bare (f : Field) : Field := (trimBlanks f.1, trimBlanks f.2)

/-- What follows the start line. -/
def HttpRequest.behindStart (r : HttpRequest) : List Char :=
  r.toString.drop (r.startLine ++ crlf).length

/-- What follows the start line. -/
def HttpResponse.behindStart (s : HttpResponse) : List Char :=
  s.toString.drop (s.startLine ++ crlf).length

/-- There is one connection field, which tells whether the connection is closed, and at most one
length field, which tells the length of the body. -/
def Unambiguous (close : Bool) (text : List Char) : Prop :=
  ∃ lines body, readLines [] text = some (lines, body) ∧
    (named "connection".toList (lines.map fieldOf)).map Prod.snd = [connectionValue close] ∧
    (named "content-length".toList (lines.map fieldOf)).length ≤ 1 ∧
    ∀ f ∈ named "content-length".toList (lines.map fieldOf), readNumeral 10 f.2 = some body.length

/-- The fields that the caller has written have no connection field. They have no length field
beside a body, and without one at most one, which is zero. -/
def OwnFraming (own : List Field) (body : List Char) : Prop :=
  named "connection".toList own = [] ∧
    (body ≠ [] → named "content-length".toList own = []) ∧
    (body = [] → (named "content-length".toList own).length ≤ 1 ∧
      ∀ f ∈ named "content-length".toList own, readNumeral 10 f.2 = some 0)

instance (own : List Field) (body : List Char) : Decidable (OwnFraming own body) :=
  inferInstanceAs (Decidable (_ ∧ _))

/-- The fields of the headers that are written. -/
def HttpRequest.own (r : HttpRequest) : List Field := (written false r.headers.entries).map bare

/-- The fields of the headers that are written, and of the lines in the cookies behind the first. -/
def HttpResponse.own (s : HttpResponse) : List Field :=
  (written false s.headers.entries).map bare ++
    s.cookies.flatMap fun i => (cutLines [] i).tail.map fieldOf

/-- Names without CR, LF and colons, and values without CR and LF. -/
def Printable (m : MapType) : Prop :=
  ∀ e ∈ m.entries, (∀ c ∈ "\r\n:".toList, c ∉ e.1) ∧ ∀ c ∈ "\r\n".toList, c ∉ e.2

instance (m : MapType) : Decidable (Printable m) :=
  inferInstanceAs (Decidable (∀ e ∈ m.entries, _))

variable {f : Field} {fields headers own : List Field}

/-! ## Lines -/

theorem trimBlanks_append_blank (l : List Char) : trimBlanks (l ++ [' ']) = trimBlanks l := by
  rw [trimBlanks, trimBlanks, List.dropWhile_append]
  split
  · rename_i h
    rw [List.isEmpty_iff.mp h]
    rfl
  · rw [List.rdropWhile_concat_pos _ _ _ (by decide)]

/-- The name of a field is up to the first colon. -/
theorem fieldOf_fieldLine (h : ':' ∉ f.1) : fieldOf (fieldLine ": ".toList f) = bare f := by
  rw [fieldOf, cutAt_fieldLine h, trimBlanks_cons_blank, bare]

/-- The blank in front of the colon is dropped. -/
theorem fieldOf_fieldLine_spaced (h : ':' ∉ f.1) :
    fieldOf (fieldLine " : ".toList f) = bare f := by
  rw [fieldOf, cutAt_fieldLine_spaced h, trimBlanks_cons_blank, trimBlanks_append_blank, bare]

/-- A plain field has no blanks around. -/
theorem bare_of_plain (h : Plain f) : bare f = f := by
  have hname : trimBlanks f.1 = f.1 :=
    trimBlanks_of_notMem (notMem_of_isToken h.1 (by decide)) (notMem_of_isToken h.1 (by decide))
  rw [bare, hname, h.2.2.2]

theorem map_bare_of_plain (h : ∀ f ∈ fields, Plain f) : fields.map bare = fields :=
  (List.map_congr_left fun f hf => bare_of_plain (h f hf)).trans (List.map_id fields)

theorem named_append (name : List Char) (l l' : List Field) :
    named name (l ++ l') = named name l ++ named name l' :=
  List.filter_append l l'

/-- The writer's own connection field. -/
theorem named_connectionField (close : Bool) :
    named "connection".toList (connectionField false close) =
      [("connection".toList, connectionValue close)] ∧
    named "content-length".toList (connectionField false close) = [] := by
  cases close <;> exact ⟨rfl, rfl⟩

/-- The writer's own length field. -/
theorem named_lengthField (body : List Char) :
    named "connection".toList (lengthField body) = [] ∧
      named "content-length".toList (lengthField body) = lengthField body := by
  rw [lengthField]
  split <;> exact ⟨rfl, rfl⟩

/-- The name stands in front of the first line of a cookie. -/
theorem exists_cutLines_cookie (i : List Char) : ∃ first lines, cutLines [] i = first :: lines ∧
    cutLines [] (fieldLine ": ".toList ("Set-Cookie".toList, i)) =
      fieldLine ": ".toList ("Set-Cookie".toList, first) :: lines := by
  obtain ⟨first, lines, hlines⟩ := exists_cutLines i
  have hline (l : List Char) :
      fieldLine ": ".toList ("Set-Cookie".toList, l) = "Set-Cookie: ".toList ++ l := rfl
  refine ⟨first, lines, hlines [], ?_⟩
  rw [hline, hline, cutLines_append (by decide), List.nil_append, hlines]

/-- The first line of a cookie is a field of its own name. -/
theorem named_cookie (i : List Char) {name : List Char} (h : foldCase "Set-Cookie".toList ≠ name) :
    named name ((cutLines [] (fieldLine ": ".toList ("Set-Cookie".toList, i))).map fieldOf) =
      named name ((cutLines [] i).tail.map fieldOf) := by
  obtain ⟨first, lines, hlines, hcookie⟩ := exists_cutLines_cookie i
  have hcolon : ':' ∉ "Set-Cookie".toList := by decide
  have hname : ¬ decide (foldCase (bare ("Set-Cookie".toList, first)).1 = name) = true :=
    fun heq => h (of_decide_eq_true heq)
  rw [hcookie, hlines, List.map_cons, fieldOf_fieldLine hcolon, List.tail_cons, named,
    List.filter_cons, if_neg hname, ← named]

/-! ## Both writers -/

/-- What the fields of the writer and those of the caller make together. -/
theorem ownFraming_iff {close : Bool} {body : List Char}
    (hconnection : (named "connection".toList fields).map Prod.snd = [connectionValue close] ↔
      named "connection".toList own = [])
    (hlength : named "content-length".toList fields =
      named "content-length".toList own ++ lengthField body) :
    ((named "connection".toList fields).map Prod.snd = [connectionValue close] ∧
      (named "content-length".toList fields).length ≤ 1 ∧
      ∀ f ∈ named "content-length".toList fields, readNumeral 10 f.2 = some body.length) ↔
    OwnFraming own body := by
  rw [hconnection, hlength, OwnFraming, and_congr_right_iff]
  intro _
  rw [lengthField]
  by_cases hbody : body = []
  · simp [hbody]
  · rw [if_neg hbody]
    generalize named "content-length".toList own = own
    constructor
    · rintro ⟨hle, -⟩
      refine ⟨fun _ => ?_, fun hnil => absurd hnil hbody⟩
      rw [List.length_append, List.length_singleton] at hle
      exact List.eq_nil_of_length_eq_zero (by omega)
    · rintro ⟨hown, -⟩
      rw [hown hbody, List.nil_append]
      refine ⟨Nat.le_refl 1, fun f hf => ?_⟩
      cases List.mem_singleton.mp hf
      exact readNumeral_decimal _

/-- The lines in front of the first empty one decide. -/
theorem unambiguous_iff {close : Bool} {text body : List Char} {lines : List (List Char)}
    (h : readLines [] text = some (lines, body)) : Unambiguous close text ↔
      (named "connection".toList (lines.map fieldOf)).map Prod.snd = [connectionValue close] ∧
      (named "content-length".toList (lines.map fieldOf)).length ≤ 1 ∧
      ∀ f ∈ named "content-length".toList (lines.map fieldOf),
        readNumeral 10 f.2 = some body.length := by
  rw [Unambiguous, h]
  constructor
  · rintro ⟨lines', body', hread, hand⟩
    cases hread
    exact hand
  · exact fun hand => ⟨lines, body, rfl, hand⟩

theorem drop_block (start : List Char) (lines : List (List Char)) (body : List Char) :
    (block (start :: lines) body).drop (start ++ crlf).length = block lines body := by
  have hblock : block (start :: lines) body = (start ++ crlf) ++ block lines body := by
    simp [block]
  rw [hblock, List.drop_left]

/-- What is written is one of the headers. -/
theorem mem_of_mem_written {websocket : Bool} {e : Field} (h : e ∈ written websocket headers) :
    e ∈ headers :=
  (List.mem_filter.mp h).1

/-- The headers that are written take one line each. -/
theorem Printable.written {m : MapType} (h : Printable m) (websocket : Bool) :
    ∀ e ∈ written websocket m.entries, ':' ∉ e.1 ∧ '\r' ∉ e.1 ∧ OneLine e.2 := by
  intro e he
  obtain ⟨hname, hvalue⟩ := h e (mem_of_mem_written he)
  exact ⟨hname ':' (by decide), hname '\r' (by decide), .of_notMem (hvalue '\r' (by decide))⟩

theorem Plain.printed (h : Plain f) : ':' ∉ f.1 ∧ '\r' ∉ f.1 ∧ OneLine f.2 :=
  ⟨notMem_of_isToken h.1 (by decide), notMem_of_isToken h.1 (by decide), .of_notMem h.2.1⟩

/-- Only the headers of the caller can add to the framing of a request. -/
theorem request_unambiguous_iff {r : HttpRequest} (hws : r.websocket = false)
    (hheaders : Printable r.headers) :
    Unambiguous r.close r.behindStart ↔ OwnFraming r.own r.body := by
  have hmap : r.fields.map bare = connectionField false r.close ++ r.own ++ lengthField r.body := by
    rw [HttpRequest.fields, hws, List.map_append, List.map_append,
      map_bare_of_plain fun f hf => plain_connectionField hf,
      map_bare_of_plain fun f hf => plain_lengthField hf, HttpRequest.own]
  have hnames : ∀ f ∈ r.fields, ':' ∉ f.1 ∧ '\r' ∉ f.1 ∧ OneLine f.2 := by
    intro f hf
    rcases HttpRequest.mem_fields.mp hf with hf | hf | hf
    · exact (plain_connectionField hf).printed
    · exact hheaders.written _ f hf
    · exact (plain_lengthField hf).printed
  have hlines : ∀ l ∈ r.fields.map (fieldLine ": ".toList), l ≠ [] ∧ OneLine l :=
    lines_of_fields (by decide) (by decide) fun f hf => (hnames f hf).2
  have hread := readLines_block_of_oneLine hlines r.body
  have hfields : (r.fields.map (fieldLine ": ".toList)).map fieldOf = r.fields.map bare := by
    rw [List.map_map]
    exact List.map_congr_left fun f hf => fieldOf_fieldLine (hnames f hf).1
  rw [HttpRequest.behindStart, r.toString_eq, drop_block, unambiguous_iff hread, hfields, hmap]
  apply ownFraming_iff
  · rw [named_append, named_append, (named_connectionField r.close).1, (named_lengthField _).1]
    simp
  · rw [named_append, named_append, (named_connectionField r.close).2, (named_lengthField _).2,
      List.nil_append]

/-- The lines of a response behind the first, with those in its cookies. -/
theorem cut_lines_response {s : HttpResponse} (hws : s.websocket = false)
    (hheaders : Printable s.headers) : s.lines.flatMap (cutLines []) =
      (written false s.headers.entries).map (fieldLine " : ".toList) ++
        (s.cookies.flatMap (fun i =>
          cutLines [] (fieldLine ": ".toList ("Set-Cookie".toList, i))) ++
        ((connectionField false s.close).map (fieldLine ": ".toList) ++
          (lengthField s.body).map (fieldLine ": ".toList))) := by
  have hone {separator : List Char} {fields : List Field} (hne : separator ≠ [])
      (hsep : '\r' ∉ separator) (h : ∀ f ∈ fields, ':' ∉ f.1 ∧ '\r' ∉ f.1 ∧ OneLine f.2) :
      (fields.map (fieldLine separator)).flatMap (cutLines []) =
        fields.map (fieldLine separator) := by
    rw [List.flatMap_congr fun l hl =>
      (lines_of_fields hne hsep (fun f hf => (h f hf).2) l hl).2, List.flatMap_singleton']
  rw [HttpResponse.lines, HttpResponse.added, hws, List.map_append, List.map_append,
    List.flatMap_append, List.flatMap_append, List.flatMap_append,
    hone (by decide) (by decide) (hheaders.written false),
    hone (by decide) (by decide) fun f hf => (plain_connectionField hf).printed,
    hone (by decide) (by decide) fun f hf => (plain_lengthField hf).printed, List.append_assoc,
    List.map_map, List.flatMap_map]
  rfl

/-- Only a cookie can have an empty line in it. -/
theorem nil_notMem_cut_lines {s : HttpResponse} (hws : s.websocket = false)
    (hheaders : Printable s.headers) (hcookies : ∀ i ∈ s.cookies, [] ∉ (cutLines [] i).tail) :
    [] ∉ s.lines.flatMap (cutLines []) := by
  have hfields {separator : List Char} {fields : List Field} (hne : separator ≠ []) :
      [] ∉ fields.map (fieldLine separator) := by
    simp [fieldLine, hne]
  rw [cut_lines_response hws hheaders]
  simp only [List.mem_append, not_or]
  refine ⟨hfields (by decide), fun hmem => ?_, hfields (by decide), hfields (by decide)⟩
  obtain ⟨i, hi, hmem⟩ := List.mem_flatMap.mp hmem
  obtain ⟨first, lines, hlines, hcookie⟩ := exists_cutLines_cookie i
  rw [hcookie] at hmem
  have htail := hcookies i hi
  rw [hlines, List.tail_cons] at htail
  rcases List.mem_cons.mp hmem with hmem | hmem
  · cases hmem
  · exact htail hmem

/-- Only the headers and the lines in cookies can add to that of a response. -/
theorem response_unambiguous_iff {s : HttpResponse} (hws : s.websocket = false)
    (hheaders : Printable s.headers) (hcookies : ∀ i ∈ s.cookies, [] ∉ (cutLines [] i).tail) :
    Unambiguous s.close s.behindStart ↔ OwnFraming s.own s.body := by
  have hnil : ∀ l ∈ s.lines, [] ∉ cutLines [] l := fun l hl hmem =>
    nil_notMem_cut_lines hws hheaders hcookies (List.mem_flatMap.mpr ⟨l, hl, hmem⟩)
  have hread := readLines_block hnil s.body
  rw [cut_lines_response hws hheaders] at hread
  rw [HttpResponse.behindStart, s.toString_eq, drop_block, unambiguous_iff hread]
  -- the fields of one name, without the first lines of the cookies
  have hnamed {name : List Char} (hname : foldCase "Set-Cookie".toList ≠ name) :
      named name (s.cookies.flatMap (fun i =>
        cutLines [] (fieldLine ": ".toList ("Set-Cookie".toList, i))) |>.map fieldOf) =
      named name (s.cookies.flatMap fun i => (cutLines [] i).tail.map fieldOf) := by
    rw [List.map_flatMap, named, List.filter_flatMap, named, List.filter_flatMap]
    exact List.flatMap_congr fun i _ => named_cookie i hname
  have hheader : ((written false s.headers.entries).map (fieldLine " : ".toList)).map fieldOf =
      (written false s.headers.entries).map bare := by
    rw [List.map_map]
    exact List.map_congr_left fun f hf => fieldOf_fieldLine_spaced (hheaders.written false f hf).1
  have hadded {fields : List Field} (h : ∀ f ∈ fields, Plain f) :
      (fields.map (fieldLine ": ".toList)).map fieldOf = fields := by
    rw [List.map_map]
    refine (List.map_congr_left fun f hf => ?_).trans (List.map_id fields)
    exact (fieldOf_fieldLine (h f hf).printed.1).trans (bare_of_plain (h f hf))
  rw [List.map_append, List.map_append, List.map_append, hheader,
    hadded fun f hf => plain_connectionField hf, hadded fun f hf => plain_lengthField hf]
  apply ownFraming_iff
  · rw [named_append, named_append, named_append, hnamed (by decide),
      (named_connectionField s.close).1, (named_lengthField _).1, HttpResponse.own, named_append,
      List.append_nil, ← List.append_assoc]
    generalize named _ _ ++ named _ _ = own
    simp
  · rw [named_append, named_append, named_append, hnamed (by decide),
      (named_connectionField s.close).2, (named_lengthField _).2, HttpResponse.own, named_append,
      List.nil_append, List.append_assoc]

/-- Without websocket the framing of a message is unambiguous exactly if the caller does not add to
it: no second connection field in disguise, no length field beside a body, and otherwise at most
one that tells that there is none. The caller writes the headers, and lines in the cookies. -/
theorem framing_iff (r : HttpRequest) (s : HttpResponse) :
    (r.websocket = false → Printable r.headers →
      (Unambiguous r.close r.behindStart ↔ OwnFraming r.own r.body)) ∧
    (s.websocket = false → Printable s.headers →
      (∀ i ∈ s.cookies, [] ∉ (cutLines [] i).tail) →
      (Unambiguous s.close s.behindStart ↔ OwnFraming s.own s.body)) :=
  ⟨request_unambiguous_iff, response_unambiguous_iff⟩

/-- A request with a body and a path of two lines, whose connection header is skipped, and a
response whose length header tells that there is no body and whose cookie has two lines. -/
theorem framing_of_headers :
    let r : HttpRequest := { HttpRequest.new with
      path := "/a\r\nb".toList
      headers := (Dictionary.empty.assign "Connection".toList "x".toList).assign
        "Host".toList "h".toList
      body := "hi".toList }
    let s : HttpResponse := { HttpResponse.new with
      headers := Dictionary.empty.assign "Content-Length".toList "0".toList
      cookies := ["k = v\r\nX: y".toList] }
    Unambiguous true r.behindStart ∧ Unambiguous true s.behindStart := by
  intro r s
  obtain ⟨hrequest, hresponse⟩ := framing_iff r s
  constructor
  · refine (hrequest rfl ?_).mpr ?_
    · decide
    · decide
  · refine (hresponse rfl ?_ ?_).mpr ?_
    · decide
    · decide
    · decide

/-- A length header is written beside the length of the body. A cookie that ends with the end of a
line ends the header section before the connection field. -/
theorem framing_two_lengths :
    (let r : HttpRequest := { HttpRequest.new with
      query := "q".toList
      headers := Dictionary.empty.assign "Content-Length".toList "5".toList
      body := "hi".toList }
    r.toString = "GET /?q HTTP/1.1\r\nconnection: close\r\n".toList ++
        "Content-Length: 5\r\ncontent-length: 2\r\n\r\nhi".toList ∧
      ¬ Unambiguous r.close r.behindStart) ∧
    (let s : HttpResponse := { HttpResponse.new with cookies := ["k = v\r\n".toList] }
    s.toString = "HTTP/1.1 200 OK\r\nSet-Cookie: k = v\r\n\r\nconnection: close\r\n\r\n".toList ∧
      ¬ Unambiguous s.close s.behindStart) := by
  refine ⟨⟨by decide, fun h => ?_⟩, ⟨by decide, fun h => ?_⟩⟩
  · rw [request_unambiguous_iff ?_ ?_] at h
    · exact absurd (h.2.1 (by decide)) (by decide)
    · rfl
    · decide
  · obtain ⟨lines, body, hread, hconnection, -⟩ := h
    cases hread
    cases hconnection

end Xupeng.Http
