import Xupeng.Models.Log.Native.Formatter

/-!
# How patterns are scanned

What the scanner of a directive finds, and the loop of `init` as a recursion over what is
left of the pattern: a character of text, a doubled `%`, a directive, or one whose brace is
not closed.
-/

namespace Xupeng.Log

variable {c : Char} {str format rest after : List Char} {used : Nat} {p : Parsing}

/-- A directive without braces ends here. -/
def Stops (rest : List Char) : Prop := ∀ c ∈ rest.head?, ¬ c.isAlpha ∧ c ≠ '{' ∧ c ≠ '}'

/-! ## Directives -/

theorem scanFormat_append (str acc : List Char) (h : '}' ∉ format) (after : List Char) :
    scanFormat str acc (format ++ '}' :: after) =
      some (str, acc ++ format, str.length + (acc ++ format).length + 2) := by
  induction format generalizing acc with
  | nil => simp [scanFormat]
  | cons c format ih =>
    rw [List.mem_cons, not_or] at h
    rw [List.cons_append, scanFormat, if_neg (Ne.symm h.1), ih _ h.2, List.append_assoc]
    rfl

/-- A format that is found has ended. -/
theorem scanFormat_eq_some {acc found body : List Char}
    (h : scanFormat str acc rest = some (found, body, used)) :
    ∃ format after, rest = format ++ '}' :: after ∧ '}' ∉ format ∧ found = str ∧
      body = acc ++ format ∧ used = str.length + body.length + 2 := by
  induction rest generalizing acc with
  | nil => cases h
  | cons c rest ih =>
    unfold scanFormat at h
    split at h
    · rename_i hc
      cases h
      exact ⟨[], rest, by rw [hc]; rfl, nofun, rfl, (List.append_nil _).symm, rfl⟩
    · rename_i hc
      obtain ⟨format, after, hrest, hnot, hfound, hbody, hused⟩ := ih h
      refine ⟨c :: format, after, by rw [hrest]; rfl, ?_, hfound, ?_, hused⟩
      · rw [List.mem_cons, not_or]
        exact ⟨Ne.symm hc, hnot⟩
      · rw [hbody, List.append_assoc]
        rfl

/-- A name ends in front of what is no letter. -/
theorem scanName_of_stops (str : List Char) (h : Stops rest) :
    scanName str rest = some (str, [], str.length) := by
  cases rest with
  | nil => rfl
  | cons c rest =>
    obtain ⟨halpha, hopen, hclose⟩ := h c rfl
    rw [scanName, if_neg hopen, if_neg (not_or.mpr ⟨halpha, hclose⟩)]

theorem scanName_letter (str : List Char) (hc : c.isAlpha) (rest : List Char) :
    scanName str (c :: rest) = scanName (str ++ [c]) rest := by
  have hopen : c ≠ '{' := by
    rintro rfl
    exact absurd hc (by decide)
  rw [scanName, if_neg hopen, if_pos (.inl hc)]

/-- What stands behind a `%`, with the name read so far: the rest of the name and then either no
brace, or a brace with the next closing one. -/
theorem scanName_eq_some {acc : List Char} (h : scanName acc rest = some (str, format, used)) :
    ∃ name after, str = acc ++ name ∧ (∀ c ∈ name, c ≠ '%') ∧
      (rest = name ++ after ∧ format = [] ∧ used = str.length ∧ Stops after ∨
        rest = name ++ '{' :: (format ++ '}' :: after) ∧ '}' ∉ format ∧
          used = str.length + format.length + 2) := by
  induction rest generalizing acc with
  | nil =>
    cases h
    exact ⟨[], [], (List.append_nil _).symm, nofun, .inl ⟨rfl, rfl, rfl, nofun⟩⟩
  | cons c rest ih =>
    unfold scanName at h
    split at h
    · rename_i hc
      obtain ⟨body, after, hrest, hnot, rfl, hbody, hused⟩ := scanFormat_eq_some h
      cases hbody
      refine ⟨[], after, (List.append_nil _).symm, nofun, .inr ⟨?_, hnot, hused⟩⟩
      rw [hc, hrest]
      rfl
    · rename_i hopen
      split at h
      · rename_i hname
        obtain ⟨name, after, hstr, hpercent, hcase⟩ := ih h
        refine ⟨c :: name, after, ?_, ?_, ?_⟩
        · rw [hstr, List.append_assoc]
          rfl
        · refine List.forall_mem_cons.mpr ⟨?_, hpercent⟩
          rintro rfl
          exact absurd hname (by decide)
        · rcases hcase with ⟨hrest, hcase⟩ | ⟨hrest, hcase⟩
          · exact .inl ⟨by rw [hrest]; rfl, hcase⟩
          · exact .inr ⟨by rw [hrest]; rfl, hcase⟩
      · rename_i hname
        cases h
        rw [not_or] at hname
        refine ⟨[], c :: rest, (List.append_nil _).symm, nofun, .inl ⟨rfl, rfl, rfl, ?_⟩⟩
        intro c' hc'
        cases hc'
        exact ⟨hname.1, hopen, hname.2⟩

/-- The directive behind a `%`, and what is left of the pattern behind it. -/
theorem scanned_cases (h : scanName [] rest = some (str, format, used)) :
    (∀ c ∈ str, c ≠ '%') ∧
      (rest = str ++ rest.drop used ∧ format = [] ∧ Stops (rest.drop used) ∨
        rest = str ++ '{' :: (format ++ '}' :: rest.drop used) ∧ '}' ∉ format) := by
  obtain ⟨name, after, hstr, hpercent, ⟨hrest, hformat, hused, hstops⟩ | ⟨hrest, hnot, hused⟩⟩ :=
    scanName_eq_some h
  · rw [List.nil_append] at hstr
    subst hstr
    have hdrop : rest.drop used = after := by
      rw [hrest, hused, List.drop_left]
    rw [hdrop]
    exact ⟨hpercent, .inl ⟨hrest, hformat, hstops⟩⟩
  · rw [List.nil_append] at hstr
    subst hstr
    have hdrop : rest.drop used = after := by
      have hlength : used = (str ++ '{' :: (format ++ ['}'])).length := by
        simp only [List.length_append, List.length_cons, List.length_nil]
        omega
      have happend : rest = (str ++ '{' :: (format ++ ['}'])) ++ after := by
        rw [hrest]
        simp
      rw [happend, hlength, List.drop_left]
    rw [hdrop]
    exact ⟨hpercent, .inr ⟨hrest, hnot⟩⟩

/-! ## The loop -/

/-- Characters that are skipped do not count. -/
theorem parse_drop (l : List Char) (n : Nat) (p : Parsing) :
    parse l n p = parse (l.drop n) 0 p := by
  induction n generalizing l with
  | zero => rfl
  | succ n ih =>
    cases l with
    | nil => rfl
    | cons c l => exact ih l

/-- A character that is no percent sign is text. -/
theorem parse_literal (hc : c ≠ '%') (rest : List Char) (p : Parsing) :
    parse (c :: rest) 0 p = parse rest 0 { p with nstr := p.nstr ++ [c] } := by
  rw [parse, if_pos hc]

/-- The state after a directive. -/
def Parsing.directive (str format : List Char) (p : Parsing) : Parsing :=
  { p with
    nstr := []
    vec := p.flush ++ [.directive (String.ofList str) (String.ofList format)] }

/-- A percent sign in front of a name is a directive. -/
theorem parse_directive (hnext : rest.head? ≠ some '%')
    (hscan : scanName [] rest = some (str, format, used)) (p : Parsing) :
    parse ('%' :: rest) 0 p = parse (rest.drop used) 0 (p.directive str format) := by
  rw [parse, if_neg (by decide), if_neg hnext, hscan, ← parse_drop]
  rfl

/-- The loop ends in error once a brace was not closed. -/
theorem parse_error (l : List Char) (n : Nat) (h : p.error = true) :
    (parse l n p).error = true := by
  induction l generalizing n p with
  | nil => exact h
  | cons c rest ih =>
    cases n with
    | succ n => exact ih n h
    | zero =>
      unfold parse
      split
      · exact ih 0 h
      · split
        · exact ih 0 h
        · split
          · exact ih _ h
          · exact ih 0 rfl

/-- The loop without an error, as a recursion over what is left of the pattern. -/
theorem parse_rec {motive : List Char → Parsing → Prop} (nil : ∀ p, motive [] p)
    (literal : ∀ c rest p, c ≠ '%' → motive rest { p with nstr := p.nstr ++ [c] } →
      motive (c :: rest) p)
    (double : ∀ rest p, motive ('%' :: rest) { p with nstr := p.nstr ++ ['%'] } →
      motive ('%' :: '%' :: rest) p)
    (directive : ∀ rest str format used p, rest.head? ≠ some '%' →
      scanName [] rest = some (str, format, used) →
        motive (rest.drop used) (p.directive str format) → motive ('%' :: rest) p)
    (l : List Char) (p : Parsing) (herror : (parse l 0 p).error = false) : motive l p := by
  induction hlength : l.length using Nat.strongRecOn generalizing l p with
  | _ n ih =>
    subst hlength
    cases l with
    | nil => exact nil p
    | cons c rest =>
      by_cases hc : c = '%'
      · subst hc
        by_cases hnext : rest.head? = some '%'
        · obtain ⟨after, rfl⟩ := List.head?_eq_some_iff.mp hnext
          rw [parse, if_neg (by decide), if_pos hnext] at herror
          exact double after p (ih _ (Nat.lt_succ_self _) _ _ herror rfl)
        · cases hscan : scanName [] rest with
          | none =>
            rw [parse, if_neg (by decide), if_neg hnext, hscan, parse_error _ _ rfl] at herror
            cases herror
          | some found =>
            obtain ⟨str, format, used⟩ := found
            rw [parse_directive hnext hscan] at herror
            refine directive rest str format used p hnext hscan (ih _ ?_ _ _ herror rfl)
            rw [List.length_drop, List.length_cons]
            omega
      · rw [parse_literal hc] at herror
        exact literal c rest p hc (ih _ (Nat.lt_succ_self _) _ _ herror rfl)

end Xupeng.Log
