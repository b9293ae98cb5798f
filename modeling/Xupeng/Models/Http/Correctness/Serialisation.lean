import Xupeng.Models.Http.Interpretation.Fields

/-!
# Messages read back

A request is read back if it has a query, its method is a token, its version has two digits, and a
length header of its own tells the truth: without a query two blanks are written in front of the
version. Of responses only those are read back that write no header and were given no body.
-/

namespace Xupeng.Http

/-- The name of a method. -/
def HttpMethod.token : HttpMethod → List Char
  | .msearch => "M-SEARCH".toList
  | m => (httpMethodToString m).toList

/-- The request is made of parts that can be told apart in its text. -/
structure Serialisable (r : HttpRequest) : Prop where
  method : r.method ≠ .invalidMethod
  path_head : r.path.head? = some '/'
  path : ∀ c ∈ " \r\n?#".toList, c ∉ r.path
  query : ∀ c ∈ " \r\n?#".toList, c ∉ r.query
  fragment : ∀ c ∈ " \r\n?#".toList, c ∉ r.fragment
  headers : ∀ e ∈ r.headers.entries, isGenerated e.1 = false → Plain e

/-- A request that is read has the parts of the request that was written. -/
structure HttpRequest.GivenBack (r : HttpRequest) (p : RequestText) : Prop where
  method : p.method = r.method.token
  path : p.path = r.path
  query : p.query = r.query
  fragment : p.fragment = r.fragment
  version : p.version = versionPair r.version
  fields : others p.fields = others r.headers.entries
  body : p.body = r.body

variable {r : HttpRequest}

/-! ## Request lines -/

/-- All other methods are written as tokens. -/
theorem isToken_httpMethodToString {m : HttpMethod} (h : m ≠ .invalidMethod)
    (h' : m ≠ .msearch) : isToken (httpMethodToString m).toList := by
  have hliteral {l : List Char} (hl : isToken l) : isToken (String.ofList l).toList := by
    rwa [String.toList_ofList]
  cases m <;> first | exact absurd rfl h | exact absurd rfl h' | exact hliteral (by decide)

theorem token_eq {m : HttpMethod} (h : m ≠ .msearch) :
    m.token = (httpMethodToString m).toList := by
  cases m <;> first | exact absurd rfl h | rfl

theorem cr_notMem_httpMethodToString (m : HttpMethod) :
    '\r' ∉ (httpMethodToString m).toList := by
  cases m <;> exact notMem_toList_ofList (by decide)

/-- The parts of the request line between its blanks. -/
theorem splitOn_startLine (r : HttpRequest) : r.startLine.splitOn ' ' =
    (httpMethodToString r.method).toList.splitOn ' ' ++
      (r.target.splitOn ' ' ++ [dumpVersion r.version []]) := by
  have hversion : (dumpVersion r.version []).splitOn ' ' = [dumpVersion r.version []] :=
    List.splitOn_eq_singleton (notMem_dumpVersion (by decide) (by decide) _)
  rw [HttpRequest.startLine, List.splitOn_append_cons_self, List.splitOn_append_cons_self,
    hversion]

/-- With a query the target is written without blanks. -/
theorem target_of_query (hq : r.query ≠ []) : r.target =
    r.path ++ '?' :: r.query ++ (if r.fragment = [] then [] else '#' :: r.fragment) := by
  rw [HttpRequest.target, if_neg hq]
  split
  · rename_i hf
    simp [hf]
  · simp

/-- The target is one part of the line exactly if there is a query. -/
theorem splitOn_target (h : Serialisable r) :
    r.target.splitOn ' ' = if r.query = [] then
      [r.path, (if r.fragment = [] then "" else "#").toList ++ r.fragment] else [r.target] := by
  have hpath : ' ' ∉ r.path := h.path ' ' (by decide)
  have hquery : ' ' ∉ r.query := h.query ' ' (by decide)
  have hfragment : ' ' ∉ r.fragment := h.fragment ' ' (by decide)
  split
  · rename_i hq
    have htarget : r.target = r.path ++
        ' ' :: ((if r.fragment = [] then "" else "#").toList ++ r.fragment) := by
      simp [HttpRequest.target, hq]
    rw [htarget, List.splitOn_append_cons_self_of_not_mem hpath]
    congr 1
    refine List.splitOn_eq_singleton fun hmem => ?_
    split at hmem <;> simp_all
  · rename_i hq
    refine List.splitOn_eq_singleton fun hmem => ?_
    rw [target_of_query hq] at hmem
    split at hmem <;> simp_all

/-- When the request line is read, and what it gives. -/
theorem readRequestLine_startLine (h : Serialisable r) {l : List Char × List Char × (Nat × Nat)} :
    readRequestLine r.startLine = some l ↔ r.query ≠ [] ∧ r.method ≠ .msearch ∧
      HasDigits r.version ∧ l = (r.method.token, r.target, versionPair r.version) := by
  have hsplit := splitOn_startLine r
  rw [splitOn_target h] at hsplit
  by_cases hq : r.query = []
  · -- there are two parts for the target
    rw [if_pos hq] at hsplit
    have hlength : (r.startLine.splitOn ' ').length ≠ 3 := by
      have hpos := List.length_pos_of_ne_nil
        (List.splitOn_ne_nil ' ' (httpMethodToString r.method).toList)
      rw [hsplit]
      simp only [List.length_append, List.length_cons, List.length_nil]
      omega
    rw [readRequestLine_of_length hlength]
    exact iff_of_false (Option.some_ne_none l).symm fun hand => hand.1 hq
  · rw [if_neg hq] at hsplit
    by_cases hm : r.method = .msearch
    · have hlength : (r.startLine.splitOn ' ').length ≠ 3 := by
        have hthree : ((httpMethodToString .msearch).toList.splitOn ' ').length = 3 := by decide
        rw [hsplit, hm, List.length_append, hthree]
        simp
      rw [readRequestLine_of_length hlength]
      exact iff_of_false (Option.some_ne_none l).symm fun hand => hand.2.1 hm
    · have htoken := isToken_httpMethodToString h.method hm
      have hmethod : (httpMethodToString r.method).toList.splitOn ' ' =
          [(httpMethodToString r.method).toList] :=
        List.splitOn_eq_singleton (notMem_of_isToken htoken (by decide))
      rw [hmethod] at hsplit
      rw [readRequestLine, hsplit]
      simp only [List.singleton_append, htoken, if_true, Option.map_eq_some_iff,
        readVersion_dumpVersion_eq_some_iff, token_eq hm]
      constructor
      · rintro ⟨v, ⟨hdigits, rfl⟩, rfl⟩
        exact ⟨hq, hm, hdigits, rfl⟩
      · rintro ⟨-, -, hdigits, rfl⟩
        exact ⟨_, ⟨hdigits, rfl⟩, rfl⟩

/-- A target with a query is cut back into its parts. -/
theorem cut_target (h : Serialisable r) (hq : r.query ≠ []) :
    cutAt '#' r.target = (r.path ++ '?' :: r.query, r.fragment) ∧
      cutAt '?' (r.path ++ '?' :: r.query) = (r.path, r.query) := by
  have hpath : '#' ∉ r.path := h.path '#' (by decide)
  have hquery : '#' ∉ r.query := h.query '#' (by decide)
  have hfront : '#' ∉ r.path ++ '?' :: r.query := by simp [hpath, hquery]
  refine ⟨?_, cutAt_append (h.path '?' (by decide)) r.query⟩
  rw [target_of_query hq]
  split
  · rename_i hf
    rw [List.append_nil, cutAt_of_notMem hfront, hf]
  · exact cutAt_append hfront r.fragment

theorem cr_notMem_startLine (hpath : '\r' ∉ r.path) (hquery : '\r' ∉ r.query)
    (hfragment : '\r' ∉ r.fragment) : '\r' ∉ r.startLine := by
  have hmethod := cr_notMem_httpMethodToString r.method
  have hversion := notMem_dumpVersion (show '\r' ∉ "HTTP/.".toList by decide) (by decide) r.version
  have htarget : '\r' ∉ r.target := by
    rw [HttpRequest.target]
    split <;> split <;> simp_all
  simp [HttpRequest.startLine, hmethod, hversion, htarget]

/-- A request is read back exactly if it has a query, its method is a token, its version has two
digits and no length header contradicts the body. -/
theorem request_givenBack_iff (h : Serialisable r)
    (hown : ∀ e ∈ written r.websocket r.headers.entries, Plain e) :
    (∃ p, readRequest r.toString = some p ∧ r.GivenBack p) ↔
      r.query ≠ [] ∧ r.method ≠ .msearch ∧ HasDigits r.version ∧
        ∀ e ∈ written r.websocket r.headers.entries, foldCase e.1 = "content-length".toList →
          readNumeral 10 e.2 = some r.body.length := by
  have hplain := plain_fields hown
  have hcr : '\r' ∉ r.startLine := cr_notMem_startLine (h.path '\r' (by decide))
    (h.query '\r' (by decide)) (h.fragment '\r' (by decide))
  have hne : r.startLine ≠ [] := by simp [HttpRequest.startLine]
  have hmessage : readMessage r.toString =
      if bodyLength r.fields = some r.body.length then some ⟨r.startLine, r.fields, r.body⟩
      else none := by
    rw [r.toString_eq, readMessage_block hne (.of_notMem hcr)
      fun f hf => ⟨(hplain f hf).1, .of_notMem (hplain f hf).2.1⟩, map_trimmed_of_plain hplain]
  rw [← bodyLength_fields]
  constructor
  · rintro ⟨p, hp, -⟩
    obtain ⟨m, hm, hp⟩ := Option.bind_eq_some_iff.mp hp
    obtain ⟨l, hl, -⟩ := Option.map_eq_some_iff.mp hp
    rw [hmessage, Option.ite_none_right_eq_some, Option.some_inj] at hm
    obtain ⟨hlength, rfl⟩ := hm
    obtain ⟨hq, hmethod, hdigits, -⟩ := (readRequestLine_startLine h).mp hl
    exact ⟨hq, hmethod, hdigits, hlength⟩
  · rintro ⟨hq, hmethod, hdigits, hlength⟩
    have hline := (readRequestLine_startLine h).mpr ⟨hq, hmethod, hdigits, rfl⟩
    obtain ⟨hfragment, hpath⟩ := cut_target h hq
    refine ⟨⟨r.method.token, r.path, r.query, r.fragment, versionPair r.version, r.fields, r.body⟩,
      ?_, rfl, rfl, rfl, rfl, rfl, ?_, rfl⟩
    · rw [readRequest, hmessage, if_pos hlength, Option.bind_some, hline, Option.map_some]
      simp only [hfragment, hpath]
    · rw [HttpRequest.fields, others_append, others_append, others_connectionField,
        others_lengthField, others_written _ h.headers, List.nil_append, List.append_nil]

/-! ## Responses -/

/-- A response that is read has the parts of the response that was written, and the body that was
assigned. -/
structure HttpResponse.GivenBack (s : HttpResponse) (body : List Char) (p : ResponseText) :
    Prop where
  version : p.version = versionPair s.version
  status : p.status = s.status.row.1
  fields : others p.fields = others s.headers.entries ++
    s.cookies.map fun i => trimmed ("Set-Cookie".toList, i)
  body : p.body = body

/-- The response is made of parts that can be told apart in its text. -/
structure HttpResponse.Serialisable (s : HttpResponse) : Prop where
  cookies : ∀ i ∈ s.cookies, OneLine i
  headers : ∀ e ∈ s.headers.entries, isGenerated e.1 = false → Plain e

/-- Whether the process aborts in a call. -/
def ResponseCall.aborts : ResponseCall → Bool
  | .setHeader .. | .setRedirect .. => true
  | _ => false

/-- The body that has been given after a call. -/
def ResponseCall.given (body : List Char) : ResponseCall → List Char
  | .setBody v => v
  | _ => body

/-- The body that the calls give. -/
def lastBody (calls : List ResponseCall) : List Char := calls.foldl ResponseCall.given []

variable {s : HttpResponse}

section Calls

variable {time2Str : Int → String → List Char} {version : UInt8} {close : Bool}
  {calls : List ResponseCall}

/-- Only the two setters without a return abort. -/
theorem run_call_eq_none_iff (s : HttpResponse) : run (HttpResponse.call time2Str) s calls = none ↔
    ∃ c ∈ calls, c.aborts := by
  induction calls generalizing s with
  | nil => simp [run]
  | cons c calls ih =>
    rw [run, List.exists_mem_cons_iff]
    cases c with
    | setHeader | setRedirect => exact iff_of_true rfl (Or.inl rfl)
    | _ => exact (ih _).trans (or_iff_right Bool.false_ne_true).symm

/-- No setter assigns the body, and the reason is a line or the body that was given. -/
theorem call_spec {c : ResponseCall} {t : HttpResponse} {body : List Char}
    (hcall : s.call time2Str c = some t) (hc : ∀ v, c = .setReason v → OneLine v)
    (h : s.body = [] ∧ (OneLine s.reason ∨ s.reason = body)) :
    t.body = [] ∧ (OneLine t.reason ∨ t.reason = c.given body) := by
  cases c with
  | setHeader | setRedirect => cases hcall
  | setBody v =>
    cases hcall
    exact ⟨h.1, Or.inr rfl⟩
  | setReason v =>
    cases hcall
    exact ⟨h.1, Or.inl (hc v rfl)⟩
  | _ =>
    cases hcall
    exact h

/-- No setter gives a body, and the reason is in one line or that body. -/
theorem run_call_spec {t : HttpResponse} {body : List Char}
    (hrun : run (HttpResponse.call time2Str) s calls = some t)
    (hcalls : ∀ v, .setReason v ∈ calls → OneLine v)
    (h : s.body = [] ∧ (OneLine s.reason ∨ s.reason = body)) :
    t.body = [] ∧ (OneLine t.reason ∨ t.reason = calls.foldl ResponseCall.given body) := by
  induction calls generalizing s body with
  | nil =>
    cases hrun
    exact h
  | cons c calls ih =>
    obtain ⟨u, hu, hrun⟩ := run_cons_eq_some.mp hrun
    have hc (v : List Char) (heq : c = .setReason v) : OneLine v :=
      hcalls v (heq ▸ List.mem_cons_self)
    exact ih hrun (fun v hv => hcalls v (List.mem_cons_of_mem _ hv)) (call_spec hu hc h)

end Calls

/-- A name with a blank is no token. -/
theorem readField_spaced {f : Field} (h : isToken f.1) :
    readField (fieldLine " : ".toList f) = none := by
  have htoken : ¬ isToken (f.1 ++ [' ']) := fun htoken =>
    notMem_of_isToken htoken (show isTokenChar ' ' = false by decide) (by simp)
  rw [readField, cutAt_fieldLine_spaced (notMem_of_isToken h (by decide))]
  exact if_neg fun hand => htoken hand.2

/-- When the status line is read, and what it gives. -/
theorem readStatusLine_startLine {l : (Nat × Nat) × Nat} :
    readStatusLine s.startLine = some l ↔
      HasDigits s.version ∧ l = (versionPair s.version, s.status.row.1) := by
  have hversion : ' ' ∉ dumpVersion s.version [] := notMem_dumpVersion (by decide) (by decide) _
  have hstatus : ' ' ∉ decimal s.status.row.1 := notMem_decimal (by decide) _
  have hthree : (decimal s.status.row.1).length = 3 := by
    cases s.status <;> decide
  obtain ⟨reason, rest, hreason⟩ := List.exists_cons_of_ne_nil (List.splitOn_ne_nil ' '
    (if s.reason = [] then (httpStatusToString s.status).toList else s.reason))
  rw [readStatusLine, HttpResponse.startLine, List.splitOn_append_cons_self_of_not_mem hversion,
    List.splitOn_append_cons_self_of_not_mem hstatus, hreason]
  simp only [hthree, if_true, readNumeral_decimal, Option.map_some, Option.bind_eq_some_iff,
    readVersion_dumpVersion_eq_some_iff, Option.some_inj]
  constructor
  · rintro ⟨v, ⟨hdigits, rfl⟩, rfl⟩
    exact ⟨hdigits, rfl⟩
  · rintro ⟨hdigits, rfl⟩
    exact ⟨_, ⟨hdigits, rfl⟩, rfl⟩

theorem cr_notMem_httpStatusToString (status : HttpStatus) :
    '\r' ∉ (httpStatusToString status).toList := by
  cases status <;> exact notMem_toList_ofList (by decide)

/-- The status line up to its reason. -/
theorem startLine_eq (s : HttpResponse) : ∃ head, '\r' ∉ head ∧ s.startLine =
    head ++ (if s.reason = [] then (httpStatusToString s.status).toList else s.reason) := by
  have hversion := notMem_dumpVersion (show '\r' ∉ "HTTP/.".toList by decide) (by decide) s.version
  have hstatus : '\r' ∉ decimal s.status.row.1 := notMem_decimal (by decide) _
  refine ⟨dumpVersion s.version [] ++ ' ' :: (decimal s.status.row.1 ++ [' ']), ?_, ?_⟩
  · simp [hversion, hstatus]
  · simp [HttpResponse.startLine]

/-- The status line is one line if the reason is. -/
theorem oneLine_startLine (h : OneLine s.reason) : OneLine s.startLine := by
  obtain ⟨head, hcr, hstart⟩ := startLine_eq s
  rw [hstart]
  apply OneLine.append hcr
  split
  · exact .of_notMem (cr_notMem_httpStatusToString s.status)
  · exact h

/-- The fields that the writer adds are tokens and one line each. -/
theorem added_spec (h : ∀ i ∈ s.cookies, OneLine i) :
    ∀ f ∈ s.added, isToken f.1 ∧ OneLine f.2 := by
  intro f hf
  rcases HttpResponse.mem_added.mp hf with ⟨i, hi, rfl⟩ | hf | hf
  · have htoken : isToken "Set-Cookie".toList := by decide
    exact ⟨htoken, h i hi⟩
  · exact ⟨(plain_connectionField hf).1, .of_notMem (plain_connectionField hf).2.1⟩
  · exact ⟨(plain_lengthField hf).1, .of_notMem (plain_lengthField hf).2.1⟩

/-- No line of a response is empty. -/
theorem lines_response (hcookies : ∀ i ∈ s.cookies, OneLine i)
    (hwritten : ∀ e ∈ written s.websocket s.headers.entries, Plain e) :
    ∀ l ∈ s.lines, l ≠ [] ∧ OneLine l := by
  intro l hl
  rcases List.mem_append.mp hl with hl | hl
  · refine lines_of_fields (by decide) (by decide) (fun f hf => ?_) l hl
    exact ⟨notMem_of_isToken (hwritten f hf).1 (by decide), .of_notMem (hwritten f hf).2.1⟩
  · refine lines_of_fields (by decide) (by decide) (fun f hf => ?_) l hl
    obtain ⟨htoken, hvalue⟩ := added_spec hcookies f hf
    exact ⟨notMem_of_isToken htoken (by decide), hvalue⟩

/-- Without a body the writer adds no length. -/
theorem foldCase_added (hbody : s.body = []) {g : Field} (hg : g ∈ s.added) :
    foldCase g.1 ≠ "content-length".toList := by
  have hcookie : foldCase "Set-Cookie".toList ≠ "content-length".toList := by decide
  rcases HttpResponse.mem_added.mp hg with ⟨i, -, rfl⟩ | hg | hg
  · exact hcookie
  · exact foldCase_connectionField hg
  · exact absurd hbody (mem_lengthField.mp hg).1

/-- So fields that the writer has added have no length among them. -/
theorem named_length_eq_nil (hbody : s.body = []) {fields : List Field}
    (h : ∀ f ∈ fields, ∃ g ∈ s.added, f = trimmed g) :
    named "content-length".toList fields = [] := by
  refine List.filter_eq_nil_iff.mpr fun f hf => ?_
  obtain ⟨g, hg, rfl⟩ := h f hf
  exact fun heq => foldCase_added hbody hg (of_decide_eq_true heq)

/-- The fields that the writer adds to a response without a body are read. -/
theorem readMessage_response (h : s.Serialisable) (hreason : OneLine s.reason) (hbody : s.body = [])
    (hnone : written s.websocket s.headers.entries = []) :
    readMessage s.toString = some ⟨s.startLine, s.added.map trimmed, []⟩ := by
  have hlines : s.lines = s.added.map (fieldLine ": ".toList) := by
    rw [HttpResponse.lines, hnone, List.map_nil, List.nil_append]
  have hnamed : named "content-length".toList (s.added.map trimmed) = [] := by
    refine named_length_eq_nil hbody fun f hf => ?_
    obtain ⟨g, hg, rfl⟩ := List.mem_map.mp hf
    exact ⟨g, hg, rfl⟩
  have hlength : bodyLength (s.added.map trimmed) = some s.body.length := by
    rw [bodyLength_eq_some_iff, hnamed, hbody]
    exact ⟨fun f hf => (List.not_mem_nil hf).elim, fun _ => rfl⟩
  rw [s.toString_eq, hlines, readMessage_block (by simp [HttpResponse.startLine])
    (oneLine_startLine hreason) (added_spec h.cookies), if_pos hlength, hbody]

/-- A header line is none of the grammar. -/
theorem readMessage_response_eq_none (h : s.Serialisable) (hreason : OneLine s.reason)
    (hown : ∀ e ∈ written s.websocket s.headers.entries, Plain e)
    (hsome : written s.websocket s.headers.entries ≠ []) : readMessage s.toString = none := by
  obtain ⟨e, rest, hwritten⟩ := List.exists_cons_of_ne_nil hsome
  have hmem : e ∈ written s.websocket s.headers.entries := hwritten ▸ List.mem_cons_self
  have hlines : ∀ l ∈ s.startLine :: s.lines, l ≠ [] ∧ OneLine l :=
    List.forall_mem_cons.mpr ⟨⟨by simp [HttpResponse.startLine], oneLine_startLine hreason⟩,
      lines_response h.cookies hown⟩
  have hline : fieldLine " : ".toList e ∈ s.lines :=
    List.mem_append_left _ (List.mem_map_of_mem hmem)
  rw [s.toString_eq, readMessage, readLines_block_of_oneLine hlines]
  simp only [mapM_eq_none_of_mem hline (readField_spaced (hown e hmem).1)]

/-- A line that is read as a field is one that the writer adds. -/
theorem exists_added_of_readField (hown : ∀ e ∈ written s.websocket s.headers.entries, Plain e)
    (hcookies : ∀ i ∈ s.cookies, OneLine i) {l : List Char} {f : Field} (hl : l ∈ s.lines)
    (hf : readField l = some f) : ∃ g ∈ s.added, f = trimmed g := by
  rcases List.mem_append.mp hl with hl | hl
  · obtain ⟨e, he, rfl⟩ := List.mem_map.mp hl
    rw [readField_spaced (hown e he).1] at hf
    cases hf
  · obtain ⟨g, hg, rfl⟩ := List.mem_map.mp hl
    rw [readField_fieldLine (added_spec hcookies g hg).1] at hf
    exact ⟨g, hg, (Option.some.inj hf).symm⟩

/-- The lines behind the first one of a message that ends with the text of its first line. -/
theorem mem_lines_of_body_eq_reason (h : s.Serialisable) (hbody : s.body = [])
    (hown : ∀ e ∈ written s.websocket s.headers.entries, Plain e) (hne : s.reason ≠ [])
    {start : List Char} {lines : List (List Char)}
    (hread : readLines [] s.toString = some (start :: lines, s.reason)) :
    ∀ l ∈ lines, l ∈ s.lines := by
  obtain ⟨head, hcr, hstart⟩ := startLine_eq s
  obtain ⟨first, more, hmore⟩ := exists_cutLines s.reason
  obtain ⟨hcut, hnil⟩ := cutLines_of_readLines hread
  have hrest : cutLines [] (block s.lines []) = s.lines ++ [[], []] :=
    (cutLines_of_readLines
      (readLines_block_of_oneLine (lines_response h.cookies hown) [])).1
  have htext : s.toString = head ++ s.reason ++ (crlf ++ block s.lines []) := by
    rw [s.toString_eq, hbody, ← if_neg hne (e := s.reason), ← hstart]
    simp [block]
  rw [htext, cutLines_crlf, cutLines_append hcr, hmore, hmore, hrest, List.nil_append] at hcut
  simp only [List.cons_append, List.cons.injEq] at hcut
  -- both sides have the lines of the reason in common
  have hperm : (s.lines ++ [[], []]).Perm (lines ++ [[], first]) := by
    have hswap : ((lines ++ [[], first]) ++ more).Perm (more ++ (lines ++ [[], first])) :=
      List.perm_append_comm
    rw [← List.perm_append_left_iff more, hcut.2]
    simpa using hswap
  intro l hl
  have hmem := hperm.mem_iff.mpr (List.mem_append_left _ hl)
  rcases List.mem_append.mp hmem with hmem | hmem
  · exact hmem
  · have hempty : l = [] := by simpa using hmem
    exact absurd (List.mem_cons_of_mem _ (hempty ▸ hl)) hnil

/-- A body that is written as the reason is not read, whatever lines it has in it. -/
theorem body_ne_reason (h : s.Serialisable) (hbody : s.body = [])
    (hown : ∀ e ∈ written s.websocket s.headers.entries, Plain e) (hne : s.reason ≠ [])
    {m : Message} (hm : readMessage s.toString = some m) : m.body ≠ s.reason := by
  intro heq
  obtain ⟨lines, hread, hfields, hlength⟩ := readMessage_eq_some hm
  rw [heq] at hread hlength
  have hlines := mem_lines_of_body_eq_reason h hbody hown hne hread
  have hnamed : named "content-length".toList m.fields = [] := by
    refine named_length_eq_nil hbody fun f hf => ?_
    obtain ⟨l, hl, hlf⟩ := exists_of_mem_mapM hfields hf
    exact exists_added_of_readField hown h.cookies (hlines l hl) hlf
  have hzero := (bodyLength_eq_some_iff.mp hlength).2 hnamed
  exact hne (List.eq_nil_of_length_eq_zero hzero)

theorem others_added (s : HttpResponse) : others (s.added.map trimmed) =
    s.cookies.map fun i => trimmed ("Set-Cookie".toList, i) := by
  have hcookies : others ((s.cookies.map fun i => ("Set-Cookie".toList, i)).map trimmed) =
      s.cookies.map fun i => trimmed ("Set-Cookie".toList, i) := by
    rw [List.map_map]
    refine List.filter_eq_self.mpr fun f hf => ?_
    obtain ⟨i, -, rfl⟩ := List.mem_map.mp hf
    rfl
  rw [HttpResponse.added, List.map_append, List.map_append, others_append, others_append, hcookies,
    map_trimmed_of_plain fun f hf => plain_connectionField hf,
    map_trimmed_of_plain fun f hf => plain_lengthField hf, others_connectionField,
    others_lengthField, List.append_nil, List.append_nil]

/-- A response is read back exactly if its version has two digits, it writes no header and it was
given no body. -/
theorem response_givenBack_iff (h : s.Serialisable) (hbody : s.body = [])
    (hown : ∀ e ∈ written s.websocket s.headers.entries, Plain e) {body : List Char}
    (hreason : OneLine s.reason ∨ s.reason = body) :
    (∃ p, readResponse s.toString = some p ∧ s.GivenBack body p) ↔
      HasDigits s.version ∧ written s.websocket s.headers.entries = [] ∧ body = [] := by
  by_cases hline : OneLine s.reason
  swap
  · -- the reason is the body that was given
    obtain rfl := hreason.resolve_left hline
    have hne : s.reason ≠ [] := fun hnil => hline (hnil ▸ rfl)
    refine iff_of_false (fun ⟨p, hp, hgiven⟩ => ?_) fun hand => hne hand.2.2
    obtain ⟨m, hm, hp⟩ := Option.bind_eq_some_iff.mp hp
    obtain ⟨l, -, rfl⟩ := Option.map_eq_some_iff.mp hp
    exact body_ne_reason h hbody hown hne hm hgiven.body
  by_cases hnone : written s.websocket s.headers.entries = []
  · have hothers : others s.headers.entries = [] := by
      rw [← others_written s.websocket h.headers, hnone]
      rfl
    rw [readResponse, readMessage_response h hline hbody hnone, Option.bind_some]
    constructor
    · rintro ⟨p, hp, hgiven⟩
      obtain ⟨l, hl, rfl⟩ := Option.map_eq_some_iff.mp hp
      exact ⟨(readStatusLine_startLine.mp hl).1, hnone, hgiven.body.symm⟩
    · rintro ⟨hdigits, -, rfl⟩
      rw [readStatusLine_startLine.mpr ⟨hdigits, rfl⟩, Option.map_some]
      refine ⟨_, rfl, rfl, rfl, ?_, rfl⟩
      rw [others_added, hothers, List.nil_append]
  · rw [readResponse, readMessage_response_eq_none h hline hown hnone]
    exact iff_of_false (fun ⟨_, hp, _⟩ => nomatch hp) fun hand => hnone hand.2.1

/-- A request is read back exactly if it has a query, its method is a token, its version has two
digits and no length header contradicts the body. A response can be built without `setHeader` and
`setRedirect` only. It is read back exactly if its version has two digits, it writes no header and
it was given no body. -/
theorem serialisation_iff (r : HttpRequest) (time2Str : Int → String → List Char)
    (version : UInt8) (close : Bool) (calls : List ResponseCall) :
    (Serialisable r → (∀ e ∈ written r.websocket r.headers.entries, Plain e) →
      ((∃ p, readRequest r.toString = some p ∧ r.GivenBack p) ↔
        r.query ≠ [] ∧ r.method ≠ .msearch ∧ HasDigits r.version ∧
          ∀ e ∈ written r.websocket r.headers.entries, foldCase e.1 = "content-length".toList →
            readNumeral 10 e.2 = some r.body.length)) ∧
      (HttpResponse.built time2Str version close calls = none ↔ ∃ c ∈ calls, c.aborts) ∧
      ∀ s, HttpResponse.built time2Str version close calls = some s →
        (∀ v, .setReason v ∈ calls → OneLine v) → s.Serialisable →
        (∀ e ∈ written s.websocket s.headers.entries, Plain e) →
        ((∃ p, readResponse s.toString = some p ∧ s.GivenBack (lastBody calls) p) ↔
          HasDigits s.version ∧ written s.websocket s.headers.entries = [] ∧
            lastBody calls = []) := by
  refine ⟨request_givenBack_iff, run_call_eq_none_iff _, fun s hs hcalls h hown => ?_⟩
  obtain ⟨hbody, hreason⟩ := run_call_spec hs hcalls ⟨rfl, Or.inl rfl⟩
  exact response_givenBack_iff h hbody hown hreason

/-- A request with a query, a header and a body and a response with a reason, a cookie and a
connection header, which is skipped, are read back. -/
theorem serialisation_read :
    let r : HttpRequest := { HttpRequest.new with
      query := "q".toList
      headers := Dictionary.empty.assign "Server".toList "x".toList
      body := "hi".toList }
    let calls : List ResponseCall := [.setStatus .notFound, .setReason "gone\nby".toList,
      .setHeaders (Dictionary.empty.assign "Connection".toList "close".toList),
      .setCookiie "k".toList "v".toList 0 [] [] false]
    (∃ p, readRequest r.toString = some p ∧ r.GivenBack p) ∧
      ∃ s, HttpResponse.built (fun _ _ => []) 0x11 true calls = some s ∧
        ∃ p, readResponse s.toString = some p ∧ s.GivenBack [] p := by
  intro r calls
  obtain ⟨hrequest, -, hresponse⟩ := serialisation_iff r (fun _ _ => []) 0x11 true calls
  have hdigits : HasDigits 0x11 := ⟨by decide, by decide⟩
  constructor
  · have hserialisable : Serialisable r :=
      ⟨HttpMethod.noConfusion, rfl, by decide, by decide, by decide, by decide⟩
    refine (hrequest hserialisable (by decide)).mpr ⟨List.cons_ne_nil _ _, by decide, hdigits, ?_⟩
    decide
  · refine ⟨_, rfl, (hresponse _ rfl ?_ ⟨?_, ?_⟩ ?_).mpr ⟨hdigits, rfl, rfl⟩⟩
    · intro v hv
      have hv : v = "gone\nby".toList := by simpa [calls] using hv
      rw [hv]
      decide
    · decide
    · decide
    · decide

/-- A new request has two blanks in front of its version. The body of a response is written as its
reason, and a header of a response with a blank in front of the colon; `setHeader` aborts. -/
theorem serialisation_unread :
    (HttpRequest.new.toString = "GET /  HTTP/1.1\r\nconnection: close\r\n\r\n".toList ∧
        ¬ ∃ p, readRequest HttpRequest.new.toString = some p ∧ HttpRequest.new.GivenBack p) ∧
      (∃ s, HttpResponse.built (fun _ _ => []) 0x11 true [.setBody "hi".toList] = some s ∧
        s.toString = "HTTP/1.1 200 hi\r\nconnection: close\r\n\r\n".toList ∧
        ¬ ∃ p, readResponse s.toString = some p ∧ s.GivenBack "hi".toList p) ∧
      (∃ s, HttpResponse.built (fun _ _ => []) 0x11 true
          [.setHeaders (Dictionary.empty.assign "Server".toList "x".toList)] = some s ∧
        s.toString = "HTTP/1.1 200 OK\r\nServer : x\r\nconnection: close\r\n\r\n".toList ∧
        ¬ ∃ p, readResponse s.toString = some p ∧ s.GivenBack [] p) ∧
      HttpResponse.built (fun _ _ => []) 0x11 true [.setHeader "Server".toList "x".toList] =
        none := by
  refine ⟨⟨by decide, fun hread => ?_⟩, ⟨_, rfl, by decide, fun hread => ?_⟩,
    ⟨_, rfl, by decide, fun hread => ?_⟩, rfl⟩
  · have hserialisable : Serialisable HttpRequest.new :=
      ⟨HttpMethod.noConfusion, rfl, by decide, by decide, by decide, by decide⟩
    exact ((request_givenBack_iff hserialisable (by decide)).mp hread).1 rfl
  · rw [response_givenBack_iff ⟨?_, ?_⟩ ?_ ?_ (Or.inr ?_)] at hread
    · exact List.cons_ne_nil _ _ hread.2.2
    · decide
    · decide
    · rfl
    · decide
    · rfl
  · rw [response_givenBack_iff ⟨?_, ?_⟩ ?_ ?_ (Or.inl ?_)] at hread
    · exact List.cons_ne_nil _ _ hread.2.1
    · decide
    · decide
    · rfl
    · decide
    · rfl

end Xupeng.Http
