import Xupeng.Models.Http.Interpretation.Grammar

/-!
# The fields of a message

The fields that the writers add are read back as they are. The others are the headers that the
loops do not skip, and the length that is read is that of the body if no header contradicts it.
-/

namespace Xupeng.Http

/-- Whether the writers add a field with this name. -/
def isGenerated (name : List Char) : Bool :=
  foldCase name = "connection".toList || foldCase name = "content-length".toList

/-- The fields that the writers do not add. -/
def others (fields : List Field) : List Field := fields.filter fun f => !isGenerated f.1

variable {r : HttpRequest}

theorem trimBlanks_of_notMem {l : List Char} (hblank : ' ' ∉ l) (htab : '\t' ∉ l) :
    trimBlanks l = l := by
  have h : ∀ c ∈ l, isBlank c = false := by
    intro c hc
    rw [isBlank, Bool.or_eq_false_iff, decide_eq_false_iff_not, decide_eq_false_iff_not]
    exact ⟨fun heq => hblank (heq ▸ hc), fun heq => htab (heq ▸ hc)⟩
  have hdrop : l.dropWhile isBlank = l := by
    cases l with
    | nil => rfl
    | cons c l => rw [List.dropWhile_cons_of_neg (by simp [h c List.mem_cons_self])]
  rw [trimBlanks, hdrop, List.rdropWhile_eq_self_iff]
  exact fun hne => by simp [h _ (List.getLast_mem hne)]

theorem plain_connectionField {websocket close : Bool} {f : Field}
    (hf : f ∈ connectionField websocket close) : Plain f := by
  obtain ⟨-, rfl⟩ := mem_connectionField.mp hf
  cases close <;> exact ⟨by decide, by decide, by decide, by decide⟩

theorem plain_lengthField {body : List Char} {f : Field} (hf : f ∈ lengthField body) :
    Plain f := by
  obtain ⟨-, rfl⟩ := mem_lengthField.mp hf
  have htoken : isToken "content-length".toList := by decide
  have hdecimal {c : Char} (hc : 10 ≤ digitValue c) : c ∉ decimal body.length :=
    notMem_decimal hc _
  exact ⟨htoken, hdecimal (by decide), hdecimal (by decide),
    trimBlanks_of_notMem (hdecimal (by decide)) (hdecimal (by decide))⟩

theorem plain_fields (hown : ∀ e ∈ written r.websocket r.headers.entries, Plain e) :
    ∀ f ∈ r.fields, Plain f := by
  intro f hf
  rcases HttpRequest.mem_fields.mp hf with hf | hf | hf
  · exact plain_connectionField hf
  · exact hown f hf
  · exact plain_lengthField hf

theorem others_append (l l' : List Field) : others (l ++ l') = others l ++ others l' :=
  List.filter_append l l'

theorem others_connectionField (websocket close : Bool) :
    others (connectionField websocket close) = [] := by
  cases websocket <;> cases close <;> rfl

theorem others_lengthField (body : List Char) : others (lengthField body) = [] := by
  rw [lengthField]
  split <;> rfl

/-- The loop skips no header that is not named connection. -/
theorem others_written (websocket : Bool) {entries : List Field}
    (h : ∀ e ∈ entries, isGenerated e.1 = false → Plain e) :
    others (written websocket entries) = others entries := by
  rw [others, written, List.filter_filter]
  refine List.filter_congr fun e he => ?_
  cases hgen : isGenerated e.1 with
  | true => rfl
  | false =>
    have hnul : '\x00' ∉ e.1 := notMem_of_isToken (h e he hgen).1 (by decide)
    rw [isGenerated, Bool.or_eq_false_iff, decide_eq_false_iff_not] at hgen
    rw [skips, caseKey_of_notMem hnul, decide_eq_false hgen.1, Bool.and_false]
    rfl

/-- The connection field does not say how long the body is. -/
theorem foldCase_connectionField {websocket close : Bool} {f : Field}
    (hf : f ∈ connectionField websocket close) : foldCase f.1 ≠ "content-length".toList := by
  obtain ⟨-, rfl⟩ := mem_connectionField.mp hf
  change foldCase "connection".toList ≠ "content-length".toList
  decide

/-- The lengths agree if those among the headers are right. -/
theorem bodyLength_fields : bodyLength r.fields = some r.body.length ↔
    ∀ e ∈ written r.websocket r.headers.entries, foldCase e.1 = "content-length".toList →
      readNumeral 10 e.2 = some r.body.length := by
  rw [bodyLength_eq_some_iff]
  constructor
  · rintro ⟨hall, -⟩ e he hname
    refine hall e (List.mem_filter.mpr ⟨?_, decide_eq_true hname⟩)
    exact HttpRequest.mem_fields.mpr (.inr (.inl he))
  · intro h
    constructor
    · intro f hf
      obtain ⟨hf, hname⟩ := List.mem_filter.mp hf
      rw [decide_eq_true_iff] at hname
      rcases HttpRequest.mem_fields.mp hf with hf | hf | hf
      · exact absurd hname (foldCase_connectionField hf)
      · exact h f hf hname
      · obtain ⟨-, rfl⟩ := mem_lengthField.mp hf
        exact readNumeral_decimal _
    · intro hnone
      by_contra hne
      have hbody : r.body ≠ [] := fun hnil => hne (by rw [hnil]; rfl)
      have hfield := mem_lengthField.mpr ⟨hbody, rfl⟩
      have hmem : ("content-length".toList, decimal r.body.length) ∈
          named "content-length".toList r.fields :=
        List.mem_filter.mpr ⟨HttpRequest.mem_fields.mpr (.inr (.inr hfield)), rfl⟩
      rw [hnone] at hmem
      cases hmem

end Xupeng.Http
