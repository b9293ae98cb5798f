import Xupeng.Models.Log.Native.Concurrent

/-!
# What the loggers' locks protect

The threads agree on the following. A logger's lock protects its list of appenders and its
formatter, an appender's lock its formatter and its file, and the manager's lock the map of the
loggers. Besides, no thread ever takes the formatter of an appender or a logger away, removes a
logger, or puts an appender without a formatter into a logger; and a file that is open with an
error stays so.
-/

namespace Xupeng.Log.Concurrent

open Code Objects

namespace Shared

/-- An appender has a formatter, be it its own or that of its logger. -/
def Formats (s : Shared) (a : Nat) : Prop := (s.appenders a).formatter.isSome

/-- What is in a logger's list can format, the loggers have formatters, what the manager finds was
made, and what it has given to a thread it still finds. -/
structure Sound (s : Shared) : Prop where
  formats : ∀ l, ∀ a ∈ s.appendersOf l, s.Formats a
  formatters : ∀ l < s.loggers.length, (s.formatterOf l).isSome
  made : ∀ name l, s.m_loggers.value name = some l → l < s.loggers.length
  given : ∀ e ∈ s.given, s.m_loggers.value e.1 = some e.2

namespace Sound

variable {s : Shared} {l : Nat} {x : Objects.Logger}

/-- An appender of a logger can format. -/
theorem formats_of (hs : s.Sound) (hx : s.loggers[l]? = some x) {a : Nat} (ha : a ∈ x.appenders) :
    s.Formats a :=
  hs.formats l a (by rw [appendersOf, hx]; exact ha)

theorem formatter_of (hs : s.Sound) (hx : s.loggers[l]? = some x) : x.formatter.isSome := by
  have hformatter := hs.formatters l (List.getElem?_eq_some_iff.mp hx).1
  rwa [formatterOf, hx] at hformatter

end Sound

/-- The file of the appender is open, and its stream is in error. -/
def Lost (s : Shared) (a : Nat) : Prop :=
  (∃ filename, s.kinds a = .file filename) ∧ (s.streams a).isOpen ∧ (s.streams a).good = false

/-- The lines that an appender has written. -/
def linesOf (s : Shared) (a : Nat) : List (Nat × Nat) := s.lines.filter (·.1 = a)

/-- What every action keeps. -/
structure Keeps (s t : Shared) : Prop where
  sound : s.Sound → t.Sound
  formats : ∀ a, s.Formats a → t.Formats a
  loggers : s.loggers.length ≤ t.loggers.length
  found : ∀ name l, s.m_loggers.value name = some l → t.m_loggers.value name = some l
  lost : ∀ a, s.Lost a → t.Lost a ∧ t.linesOf a = s.linesOf a

/-- What a lock protects is the same. -/
def Same : Lock → Shared → Shared → Prop
  | .manager, s, t => t.m_loggers = s.m_loggers
  | .logger l, s, t => t.appendersOf l = s.appendersOf l ∧
      (l < s.loggers.length → l < t.loggers.length ∧ t.formatterOf l = s.formatterOf l)
  | .appender a, s, t => (t.appenders a).formatter = (s.appenders a).formatter ∧
      (t.appenders a).hasFormatter = (s.appenders a).hasFormatter ∧ t.streams a = s.streams a

end Shared

/-- The agreement of the threads. -/
def agreement : Agreement Shared Lock where
  always := Shared.Keeps
  under := Shared.Same
  always_refl s := ⟨id, fun _ h => h, Nat.le_refl _, fun _ _ h => h, fun _ h => ⟨h, rfl⟩⟩
  always_trans h h' :=
    { sound := fun hs => h'.sound (h.sound hs)
      formats := fun a ha => h'.formats a (h.formats a ha)
      loggers := h.loggers.trans h'.loggers
      found := fun name l hl => h'.found name l (h.found name l hl)
      lost := fun a ha =>
        ⟨(h'.lost a (h.lost a ha).1).1, (h'.lost a (h.lost a ha).1).2.trans (h.lost a ha).2⟩ }
  under_refl l s := by
    cases l with
    | manager => rfl
    | logger l => exact ⟨rfl, fun hl => ⟨hl, rfl⟩⟩
    | appender a => exact ⟨rfl, rfl, rfl⟩
  under_trans {l s t u} h h' := by
    cases l with
    | manager => exact Eq.trans h' h
    | logger l =>
      refine ⟨h'.1.trans h.1, fun hl => ?_⟩
      obtain ⟨hlt, hst⟩ := h.2 hl
      obtain ⟨hlu, htu⟩ := h'.2 hlt
      exact ⟨hlu, htu.trans hst⟩
    | appender a => exact ⟨h'.1.trans h.1, h'.2.1.trans h.2.1, h'.2.2.trans h.2.2⟩

variable {held : List Lock} {s : Shared} {a l : Nat}

/-! ## Actions -/

theorem appenders_onAppender {f : Appender → Appender} :
    (s.onAppender a f).appenders = Function.update s.appenders a (f (s.appenders a)) := rfl

/-- An action on an appender, under its lock or on none of what that protects. -/
theorem allowed_onAppender {f : Appender → Appender}
    (ha : Lock.appender a ∈ held ∨ ∀ ap, (f ap).formatter = ap.formatter ∧
      (f ap).hasFormatter = ap.hasFormatter)
    (hf : s.Formats a → (f (s.appenders a)).formatter.isSome) :
    agreement.Allowed held s (s.onAppender a f) := by
  have hformats (b : Nat) (hb : s.Formats b) : (s.onAppender a f).Formats b := by
    unfold Shared.Formats at hb ⊢
    rw [appenders_onAppender, Function.update_apply]
    split
    · next hba => exact hf (hba ▸ hb)
    · exact hb
  have hsound (hs : s.Sound) : (s.onAppender a f).Sound :=
    { hs with formats := fun l b hb => hformats b (hs.formats l b hb) }
  refine ⟨⟨hsound, hformats, Nat.le_refl _, fun _ _ h => h, fun _ h => ⟨h, rfl⟩⟩, fun x hx => ?_⟩
  cases x with
  | manager => rfl
  | logger l => exact ⟨rfl, fun hl => ⟨hl, rfl⟩⟩
  | appender b =>
    by_cases hba : b = a
    · subst hba
      obtain hmem | hsame := ha
      · exact absurd hmem hx
      · simp [agreement, Shared.Same, Shared.onAppender, hsame (s.appenders b)]
    · simp [agreement, Shared.Same, Shared.onAppender, Function.update_of_ne hba]

/-- A change of one logger is not seen in another. -/
theorem getElem?_onLogger {f : Objects.Logger → Objects.Logger} {m : Nat} :
    (s.onLogger l f).loggers[m]? =
      if l = m then s.loggers[m]?.map f else s.loggers[m]? := by
  rw [Shared.onLogger, List.getElem?_modify]
  split
  · rfl
  · simp

/-- An action on a logger, under its lock or on none of what that protects. -/
theorem allowed_onLogger {f : Objects.Logger → Objects.Logger}
    (hl : Lock.logger l ∈ held ∨ ∀ x, (f x).appenders = x.appenders ∧
      (f x).formatter = x.formatter)
    (hf : s.Sound → ∀ x ∈ s.loggers[l]?, (f x).formatter.isSome ∧
      ∀ a ∈ (f x).appenders, s.Formats a) :
    agreement.Allowed held s (s.onLogger l f) := by
  have hlength : (s.onLogger l f).loggers.length = s.loggers.length :=
    List.length_modify f s.loggers l
  have hother (m : Nat) (hm : l ≠ m) : (s.onLogger l f).loggers[m]? = s.loggers[m]? := by
    rw [getElem?_onLogger, if_neg hm]
  refine ⟨⟨fun hs => ⟨fun m b hb => ?_, fun m hm => ?_, fun name m h => hlength ▸ hs.made name m h,
    hs.given⟩, fun _ h => h, hlength.ge, fun _ _ h => h, fun _ h => ⟨h, rfl⟩⟩, fun x hx => ?_⟩
  · by_cases hm : l = m
    · subst hm
      rw [Shared.appendersOf, getElem?_onLogger, if_pos rfl] at hb
      cases hx : s.loggers[l]? with
      | none => rw [hx] at hb; cases hb
      | some x =>
        rw [hx] at hb
        exact (hf hs x hx).2 b hb
    · rw [Shared.appendersOf, hother m hm] at hb
      exact hs.formats m b hb
  · rw [hlength] at hm
    by_cases hlm : l = m
    · subst hlm
      rw [Shared.formatterOf, getElem?_onLogger, if_pos rfl, List.getElem?_eq_getElem hm]
      exact (hf hs _ (List.getElem?_eq_getElem hm)).1
    · rw [Shared.formatterOf, hother m hlm]
      exact hs.formatters m hm
  · cases x with
    | manager => rfl
    | logger m =>
      by_cases hm : l = m
      · subst hm
        obtain hmem | hsame := hl
        · exact absurd hmem hx
        · simp only [agreement, Shared.Same, Shared.appendersOf, Shared.formatterOf,
            getElem?_onLogger, if_true, hlength]
          cases s.loggers[l]? with
          | none => exact ⟨rfl, fun h => ⟨h, rfl⟩⟩
          | some x => exact ⟨(hsame x).1, fun h => ⟨h, (hsame x).2⟩⟩
      · simp [agreement, Shared.Same, Shared.appendersOf, Shared.formatterOf, hother m hm, hlength]
    | appender b => exact ⟨rfl, rfl, rfl⟩

/-- An action on files, each under the lock of its appender, that leaves lost files alone. -/
theorem allowed_of_files {t : Shared} (happenders : t.appenders = s.appenders)
    (hloggers : t.loggers = s.loggers) (hfound : t.m_loggers = s.m_loggers)
    (hgiven : t.given = s.given)
    (hstreams : ∀ b, Lock.appender b ∉ held → t.streams b = s.streams b)
    (hlost : ∀ b, s.Lost b → t.Lost b ∧ t.linesOf b = s.linesOf b) :
    agreement.Allowed held s t := by
  have hformats (b : Nat) : t.Formats b ↔ s.Formats b := by
    rw [Shared.Formats, Shared.Formats, happenders]
  have hlist (m : Nat) : t.appendersOf m = s.appendersOf m := by
    rw [Shared.appendersOf, Shared.appendersOf, hloggers]
  have hformatter (m : Nat) : t.formatterOf m = s.formatterOf m := by
    rw [Shared.formatterOf, Shared.formatterOf, hloggers]
  refine ⟨⟨fun hs => ⟨fun m b hb => ?_, fun m hm => ?_, fun name m h => ?_, fun e he => ?_⟩,
    fun b => (hformats b).mpr, hloggers ▸ Nat.le_refl _, fun name m h => hfound ▸ h, hlost⟩,
    fun x hx => ?_⟩
  · exact (hformats b).mpr (hs.formats m b (hlist m ▸ hb))
  · rw [hformatter]
    exact hs.formatters m (hloggers ▸ hm)
  · rw [hloggers]
    exact hs.made name m (hfound ▸ h)
  · rw [hfound]
    exact hs.given e (hgiven ▸ he)
  · cases x with
    | manager => exact hfound
    | logger m =>
      exact ⟨hlist m, fun hm => ⟨hloggers ▸ hm, hformatter m⟩⟩
    | appender b => exact ⟨by rw [happenders], by rw [happenders], hstreams b hx⟩

/-- A new logger has no appenders. -/
theorem allowed_newLogger (name : String) : agreement.Allowed held s (s.newLogger name).2 := by
  have hloggers : (s.newLogger name).2.loggers =
      s.loggers ++ [{ formatter := some s.formatters.length }] := rfl
  have hold {m : Nat} (hm : m < s.loggers.length) :
      (s.newLogger name).2.loggers[m]? = s.loggers[m]? := by
    rw [hloggers, List.getElem?_append_left hm]
  have hlist (m : Nat) : (s.newLogger name).2.appendersOf m = s.appendersOf m := by
    unfold Shared.appendersOf
    by_cases hm : m < s.loggers.length
    · rw [hold hm]
    · rw [hloggers, List.getElem?_append_right (Nat.le_of_not_lt hm),
        List.getElem?_eq_none (Nat.le_of_not_lt hm)]
      cases m - s.loggers.length with
      | zero => rfl
      | succ n => rfl
  have hlength : s.loggers.length ≤ (s.newLogger name).2.loggers.length := by simp [hloggers]
  refine ⟨⟨fun hs => ⟨fun m b hb => ?_, fun m hm => ?_,
    fun name m h => (hs.made name m h).trans_le hlength, hs.given⟩,
    fun _ h => h, hlength, fun _ _ h => h, fun _ h => ⟨h, rfl⟩⟩, fun x hx => ?_⟩
  · exact hs.formats m b (hlist m ▸ hb)
  · by_cases hlt : m < s.loggers.length
    · rw [Shared.formatterOf, hold hlt]
      exact hs.formatters m hlt
    · rw [hloggers, List.length_append, List.length_singleton] at hm
      obtain rfl : m = s.loggers.length := by omega
      rw [Shared.formatterOf, hloggers, List.getElem?_concat_length]
      rfl
  · cases x with
    | manager => rfl
    | logger m =>
      refine ⟨hlist m, fun hm => ⟨hm.trans_le hlength, ?_⟩⟩
      rw [Shared.formatterOf, Shared.formatterOf, hold hm]
    | appender b => exact ⟨rfl, rfl, rfl⟩

/-- A logger is entered under a name that nobody has. -/
theorem allowed_assign {name : String} (hlock : Lock.manager ∈ held)
    (hnone : s.m_loggers.value name = none) (hl : l < s.loggers.length) :
    agreement.Allowed held s { s with m_loggers := s.m_loggers.assign name l } := by
  have hfound (other : String) (m : Nat) (h : s.m_loggers.value other = some m) :
      (s.m_loggers.assign name l).value other = some m := by
    rw [Dictionary.value_assign]
    split
    · next heq =>
      cases heq
      rw [hnone] at h
      cases h
    · exact h
  refine ⟨⟨fun hs => ⟨hs.formats, hs.formatters, fun other m h => ?_,
    fun e he => hfound _ _ (hs.given e he)⟩, fun _ h => h, Nat.le_refl _, hfound,
    fun _ h => ⟨h, rfl⟩⟩, fun x hx => ?_⟩
  · rw [Dictionary.value_assign] at h
    split at h
    · cases h
      exact hl
    · exact hs.made other m h
  · cases x with
    | manager => exact absurd hlock hx
    | logger m => exact ⟨rfl, fun hm => ⟨hm, rfl⟩⟩
    | appender b => exact ⟨rfl, rfl, rfl⟩

/-- A thread is given a logger that is found. -/
theorem allowed_given {name : String} (hl : s.m_loggers.value name = some l) :
    agreement.Allowed held s { s with given := s.given ++ [(name, l)] } := by
  have hsound (hs : s.Sound) : Shared.Sound { s with given := s.given ++ [(name, l)] } :=
    { hs with
      given := List.forall_mem_append.mpr ⟨hs.given, List.forall_mem_singleton.mpr hl⟩ }
  refine ⟨⟨hsound, fun _ h => h, Nat.le_refl _, fun _ _ h => h, fun _ h => ⟨h, rfl⟩⟩,
    fun x _ => ?_⟩
  cases x with
  | manager => rfl
  | logger m => exact ⟨rfl, fun hm => ⟨hm, rfl⟩⟩
  | appender b => exact ⟨rfl, rfl, rfl⟩

/-- A file that is open with an error is not closed, and so it cannot be opened. -/
theorem reopen_lost {st : Stream} (hopen : st.isOpen) (hgood : st.good = false)
    (closed opened : Bool) : st.reopen closed opened = st := by
  obtain ⟨isOpen, good⟩ := st
  cases hopen
  cases hgood
  rfl

/-- A file may be reopened under the lock of its appender. -/
theorem allowed_reopen (ha : Lock.appender a ∈ held) : agreement.Allowed held s (s.reopen a) := by
  have hstreams (b : Nat) : (s.reopen a).streams b =
      if b = a then (s.streams a).reopen (s.disk s.operations) (s.disk (s.operations + 1))
      else s.streams b := Function.update_apply _ _ _ _
  refine allowed_of_files rfl rfl rfl rfl (fun b hb => ?_) fun b hb => ⟨⟨hb.1, ?_⟩, rfl⟩
  · rw [hstreams, if_neg]
    rintro rfl
    exact hb ha
  · rw [hstreams]
    split
    · next hba =>
      subst hba
      rw [reopen_lost hb.2.1 hb.2.2]
      exact hb.2
    · exact hb.2

/-- A line may be written under that lock. -/
theorem allowed_formatFile (ha : Lock.appender a ∈ held) (f : Nat) :
    agreement.Allowed held s (s.formatFile a f) := by
  unfold Shared.formatFile
  split
  · next hgood =>
    have hne {b : Nat} (hb : s.Lost b) : a ≠ b := by
      rintro rfl
      rw [hb.2.2] at hgood
      cases hgood
    split
    · refine allowed_of_files rfl rfl rfl rfl (fun _ _ => rfl) fun b hb => ⟨hb, ?_⟩
      simp [Shared.linesOf, List.filter_append, hne hb]
    · have hstreams (b : Nat) (hb : b ≠ a) :
          (s.onStream a fun st => { st with good := false }).streams b = s.streams b :=
        Function.update_of_ne hb _ _
      refine allowed_of_files rfl rfl rfl rfl (fun b hb => hstreams b ?_)
        fun b hb => ⟨⟨hb.1, ?_⟩, rfl⟩
      · rintro rfl
        exact hb ha
      · rw [hstreams b (hne hb).symm]
        exact hb.2
  · exact agreement.allowed_refl

theorem allowed_format (ha : Lock.appender a ∈ held) (f : Nat) :
    agreement.Allowed held s (s.format a f) := by
  unfold Shared.format
  split
  · next hkind =>
    refine allowed_of_files rfl rfl rfl rfl (fun _ _ => rfl) fun b hb => ⟨hb, ?_⟩
    obtain ⟨filename, hfile⟩ := hb.1
    have hba : a ≠ b := by
      rintro rfl
      rw [hkind] at hfile
      cases hfile
    simp [Shared.linesOf, List.filter_append, hba]
  · exact allowed_formatFile ha f

/-- Formatting changes no object other than the file. -/
theorem format_objects (s : Shared) (a f : Nat) :
    (s.format a f).toState = s.toState ∧ (s.format a f).m_loggers = s.m_loggers := by
  unfold Shared.format Shared.formatFile
  split
  · exact ⟨rfl, rfl⟩
  · split
    · split
      · exact ⟨rfl, rfl⟩
      · exact ⟨rfl, rfl⟩
    · exact ⟨rfl, rfl⟩

end Xupeng.Log.Concurrent
