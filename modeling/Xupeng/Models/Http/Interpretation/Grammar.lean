import Mathlib.Data.List.DropRight
import Xupeng.Core.Pointwise
import Xupeng.Models.Http.Interpretation.Layout

/-!
# The grammar of messages

A message is a start line, lines with a field each, an empty line and a body. A field is a token,
a colon and a value with blanks around it. The body has the length that the length fields
give, and without one there is none.
-/

namespace Xupeng.Http

/-- A blank or a tab. -/
def isBlank (c : Char) : Bool := c = ' ' || c = '\t'

/-- The text without the blanks around it. -/
def trimBlanks (l : List Char) : List Char := (l.dropWhile isBlank).rdropWhile isBlank

/-- The characters of tokens. -/
def isTokenChar (c : Char) : Bool := c.isAlphanum || "!#$%&'*+-.^_`|~".toList.contains c

/-- Whether a text is a token. -/
def isToken (l : List Char) : Bool := !l.isEmpty && l.all isTokenChar

/-- The field of a line. -/
def readField (line : List Char) : Option Field :=
  let (name, value) := cutAt ':' line
  if ':' ∈ line ∧ isToken name then some (name, trimBlanks value) else none

/-- The fields with a name, which is given in lower case. -/
def named (name : List Char) (fields : List Field) : List Field :=
  fields.filter fun f => foldCase f.1 = name

/-- The length of the body. All length fields have to agree. -/
def bodyLength (fields : List Field) : Option Nat :=
  match (named "content-length".toList fields).map fun f => readNumeral 10 f.2 with
  | [] => some 0
  | n :: ns => if ∀ m ∈ ns, m = n then n else none

/-- A message that is read. -/
structure Message where
  start : List Char
  fields : List Field
  body : List Char

/-- The message of a text. -/
def readMessage (text : List Char) : Option Message :=
  match readLines [] text with
  | some (start :: lines, body) =>
    match lines.mapM readField with
    | some fields =>
      if bodyLength fields = some body.length then some ⟨start, fields, body⟩ else none
    | none => none
  | _ => none

/-- A version with a digit on either side. -/
def readVersion : List Char → Option (Nat × Nat)
  | ['H', 'T', 'T', 'P', '/', major, '.', minor] =>
    if digitValue major < 10 ∧ digitValue minor < 10 then
      some (digitValue major, digitValue minor)
    else none
  | _ => none

/-- The method, the target and the version of a request line. -/
def readRequestLine (line : List Char) : Option (List Char × List Char × (Nat × Nat)) :=
  match line.splitOn ' ' with
  | [method, target, version] =>
    if isToken method then (readVersion version).map fun v => (method, target, v) else none
  | _ => none

/-- A request that is read. -/
structure RequestText where
  method : List Char
  path : List Char
  query : List Char
  fragment : List Char
  version : Nat × Nat
  fields : List Field
  body : List Char

/-- The request of a text. The target is cut at the first `#`, and what is in front of it at the
first `?`. -/
def readRequest (text : List Char) : Option RequestText :=
  (readMessage text).bind fun m =>
    (readRequestLine m.start).map fun (method, target, version) =>
      let (front, fragment) := cutAt '#' target
      let (path, query) := cutAt '?' front
      ⟨method, path, query, fragment, version, m.fields, m.body⟩

/-- The version and the status of a status line. -/
def readStatusLine (line : List Char) : Option ((Nat × Nat) × Nat) :=
  match line.splitOn ' ' with
  | version :: status :: _ :: _ =>
    if status.length = 3 then
      (readVersion version).bind fun v => (readNumeral 10 status).map fun n => (v, n)
    else none
  | _ => none

/-- A response that is read. -/
structure ResponseText where
  version : Nat × Nat
  status : Nat
  fields : List Field
  body : List Char

/-- The response of a text. -/
def readResponse (text : List Char) : Option ResponseText :=
  (readMessage text).bind fun m =>
    (readStatusLine m.start).map fun (version, status) => ⟨version, status, m.fields, m.body⟩

/-- A header that is written and read back as it is. -/
def Plain (f : Field) : Prop :=
  isToken f.1 ∧ '\r' ∉ f.2 ∧ '\n' ∉ f.2 ∧ trimBlanks f.2 = f.2

instance (f : Field) : Decidable (Plain f) := inferInstanceAs (Decidable (_ ∧ _))

variable {l : List Char} {f : Field} {fields : List Field}

theorem trimBlanks_cons_blank (l : List Char) : trimBlanks (' ' :: l) = trimBlanks l := by
  rw [trimBlanks, List.dropWhile_cons_of_pos (by decide), ← trimBlanks]

/-- A token has only characters of tokens. -/
theorem notMem_of_isToken (h : isToken l) {c : Char} (hc : isTokenChar c = false) : c ∉ l := by
  rw [isToken, Bool.and_eq_true, List.all_eq_true] at h
  intro hmem
  rw [h.2 c hmem] at hc
  cases hc

/-- A field is written with a colon and a blank. -/
theorem fieldLine_eq (f : Field) : fieldLine ": ".toList f = f.1 ++ ':' :: ' ' :: f.2 := by
  simp [fieldLine]

/-- The colon behind the name is the first one. -/
theorem cutAt_fieldLine (h : ':' ∉ f.1) :
    cutAt ':' (fieldLine ": ".toList f) = (f.1, ' ' :: f.2) := by
  rw [fieldLine_eq, cutAt_append h]

/-- A blank in front of the colon belongs to the name. -/
theorem cutAt_fieldLine_spaced (h : ':' ∉ f.1) :
    cutAt ':' (fieldLine " : ".toList f) = (f.1 ++ [' '], ' ' :: f.2) := by
  have hcolon : ':' ∉ f.1 ++ [' '] := by simp [h]
  have hline : fieldLine " : ".toList f = (f.1 ++ [' ']) ++ ':' :: (' ' :: f.2) := by
    simp [fieldLine]
  rw [hline, cutAt_append hcolon]

/-- A field as it is read. -/
def trimmed (f : Field) : Field := (f.1, trimBlanks f.2)

/-- A field whose name is a token is read back, without blanks around its value. -/
theorem readField_fieldLine (h : isToken f.1) :
    readField (fieldLine ": ".toList f) = some (trimmed f) := by
  have hcolon : ':' ∈ fieldLine ": ".toList f := by
    rw [fieldLine_eq]
    exact List.mem_append_right _ List.mem_cons_self
  rw [readField, cutAt_fieldLine (notMem_of_isToken h (by decide))]
  simp only [h, hcolon, and_true, if_true, trimBlanks_cons_blank]
  rfl

/-- The lines of fields without ends of lines can be told apart. -/
theorem lines_of_fields {separator : List Char} (hne : separator ≠ []) (hsep : '\r' ∉ separator)
    (h : ∀ f ∈ fields, '\r' ∉ f.1 ∧ OneLine f.2) :
    ∀ l ∈ fields.map (fieldLine separator), l ≠ [] ∧ OneLine l := by
  intro l hl
  obtain ⟨f, hf, rfl⟩ := List.mem_map.mp hl
  obtain ⟨hname, hvalue⟩ := h f hf
  refine ⟨by simp [fieldLine, hne], OneLine.append ?_ hvalue⟩
  simp [hsep, hname]

/-- A block of fields with tokens as names is a message if the lengths agree. -/
theorem readMessage_block {start : List Char} (hne : start ≠ []) (hstart : OneLine start)
    (hfields : ∀ f ∈ fields, isToken f.1 ∧ OneLine f.2) (body : List Char) :
    readMessage (block (start :: fields.map (fieldLine ": ".toList)) body) =
      if bodyLength (fields.map trimmed) = some body.length then
        some ⟨start, fields.map trimmed, body⟩ else none := by
  have hlines : ∀ l ∈ start :: fields.map (fieldLine ": ".toList), l ≠ [] ∧ OneLine l := by
    refine List.forall_mem_cons.mpr ⟨⟨hne, hstart⟩, lines_of_fields (by decide) (by decide) ?_⟩
    exact fun f hf => ⟨notMem_of_isToken (hfields f hf).1 (by decide), (hfields f hf).2⟩
  have hread : (fields.map (fieldLine ": ".toList)).mapM readField =
      some (fields.map trimmed) := by
    apply mapM_eq_some_of_forall₂
    rw [List.forall₂_map_left_iff, List.forall₂_map_right_iff, List.forall₂_same]
    exact fun f hf => readField_fieldLine (hfields f hf).1
  simp only [readMessage, readLines_block_of_oneLine hlines, hread]

/-- What a message that is read consists of. -/
theorem readMessage_eq_some {text : List Char} {m : Message} (h : readMessage text = some m) :
    ∃ lines, readLines [] text = some (m.start :: lines, m.body) ∧
      lines.mapM readField = some m.fields ∧ bodyLength m.fields = some m.body.length := by
  unfold readMessage at h
  split at h
  · rename_i hread
    split at h
    · rename_i hfields
      split at h
      · cases h
        exact ⟨_, hread, hfields, ‹_›⟩
      · cases h
    · cases h
  · cases h

/-- Plain fields are not changed by trimming. -/
theorem map_trimmed_of_plain (h : ∀ f ∈ fields, Plain f) : fields.map trimmed = fields := by
  refine (List.map_congr_left fun f hf => ?_).trans (List.map_id fields)
  rw [trimmed, (h f hf).2.2.2]
  rfl

/-- The length that is read is that of every length field. -/
theorem bodyLength_eq_some_iff {n : Nat} : bodyLength fields = some n ↔
    (∀ f ∈ named "content-length".toList fields, readNumeral 10 f.2 = some n) ∧
      (named "content-length".toList fields = [] → n = 0) := by
  rw [bodyLength]
  cases named "content-length".toList fields with
  | nil => simp [eq_comm]
  | cons f fs =>
    simp only [List.map_cons, List.mem_map, forall_exists_index, and_imp,
      forall_apply_eq_imp_iff₂, List.forall_mem_cons, reduceCtorEq, false_implies, and_true]
    constructor
    · intro h
      split at h
      · rename_i hall
        exact ⟨h, fun g hg => (hall g hg).trans h⟩
      · cases h
    · rintro ⟨hf, hfs⟩
      rw [if_pos fun g hg => (hfs g hg).trans hf.symm, hf]

/-! ## Start lines -/

/-- A version has one digit in each half. -/
theorem readVersion_eq : ∀ a < 16, ∀ b < 16,
    readVersion ("HTTP/".toList ++ decimal a ++ ".".toList ++ decimal b) =
      if a < 10 ∧ b < 10 then some (a, b) else none := by
  decide

/-- The two numbers of a version. -/
def versionPair (version : UInt8) : Nat × Nat := ((version >>> 4).toNat, (version &&& 0x0F).toNat)

/-- Both numbers of a version have one digit. -/
def HasDigits (version : UInt8) : Prop :=
  (versionPair version).1 < 10 ∧ (versionPair version).2 < 10

/-- When a version is read back. -/
theorem readVersion_dumpVersion_eq_some_iff {version : UInt8} {v : Nat × Nat} :
    readVersion (dumpVersion version []) = some v ↔
      HasDigits version ∧ v = versionPair version := by
  have hmajor : (version >>> 4).toNat < 16 := by
    have hlt := version.toNat_lt
    rw [UInt8.toNat_shiftRight, Nat.shiftRight_eq_div_pow]
    exact Nat.div_lt_of_lt_mul hlt
  have hminor : (version &&& 0x0F).toNat < 16 := by
    rw [UInt8.toNat_and]
    exact Nat.lt_succ_of_le Nat.and_le_right
  have hread : readVersion (dumpVersion version []) =
      if (versionPair version).1 < 10 ∧ (versionPair version).2 < 10 then
        some (versionPair version) else none :=
    readVersion_eq _ hmajor _ hminor
  rw [hread, Option.ite_none_right_eq_some, Option.some_inj, eq_comm, HasDigits]

/-- A version has only its letters and digits. -/
theorem notMem_dumpVersion {c : Char} (hc : c ∉ "HTTP/.".toList) (hdigit : 10 ≤ digitValue c)
    (version : UInt8) : c ∉ dumpVersion version [] := by
  simp only [dumpVersion, List.mem_append, not_or]
  refine ⟨⟨⟨⟨List.not_mem_nil, fun hmem => hc ?_⟩, notMem_decimal hdigit _⟩, fun hmem => hc ?_⟩,
    notMem_decimal hdigit _⟩
  · exact List.mem_append_left ".".toList hmem
  · exact List.mem_append_right "HTTP/".toList hmem

/-- A request line has three parts. -/
theorem readRequestLine_of_length {line : List Char} (h : (line.splitOn ' ').length ≠ 3) :
    readRequestLine line = none := by
  rw [readRequestLine]
  split
  · rename_i heq
    rw [heq] at h
    exact absurd rfl h
  · rfl

end Xupeng.Http
