import Xupeng.Core.Entries
import Xupeng.Core.History
import Xupeng.Core.Pointwise
import Xupeng.Models.Log.Native.Objects

/-!
# The formatter that an appender uses

An appender should use its own formatter, if it was given one, and otherwise that of its
logger. Two calls can break this. An appender that has taken a copy from one logger keeps it
when it is added to another one, and an appender that gives up its own formatter while it
belongs to a logger is left with none. A logger that is given a null formatter passes it on.
-/

namespace Xupeng.Log.Objects

/-- The formatters that the appenders were given last. -/
abbrev Own := Nat → Option Nat

variable {s t : State} {own : Own} {call : Call}

/-- The formatter that an appender is given, or that it gives up. -/
def record (_ : State) (call : Call) (_ : State) (own : Own) : Own :=
  match call with
  | .setAppenderFormatter a val => Function.update own a val
  | _ => own

/-- Every appender of a logger holds its own formatter, or that of the logger. -/
def Effective (s : State) (own : Own) : Prop :=
  ∀ logger ∈ s.loggers, ∀ a ∈ logger.appenders,
    (s.appenders a).formatter =
      if (s.appenders a).hasFormatter then own a else logger.formatter

/-- No logger uses a null pointer. -/
def Logs (s : State) : Prop := ∀ level l, (s.log level l).isSome

/-- The calls that keep this: an appender that is added without a formatter of its own has none
at all, or that of the logger, which is not null; a null formatter is given only to a logger whose
appenders have their own; and no appender of a logger gives up its formatter. -/
def Harmless (s : State) : Call → Prop
  | .addAppender l a =>
    ∀ logger, s.loggers[l]? = some logger →
      (s.appenders a).hasFormatter = true ∨ logger.formatter.isSome ∧
        ((s.appenders a).formatter = none ∨ (s.appenders a).formatter = logger.formatter)
  | .setFormatter l none =>
    ∀ logger, s.loggers[l]? = some logger → ∀ a ∈ logger.appenders,
      (s.appenders a).hasFormatter = true
  | .setAppenderFormatter a none => ∀ logger ∈ s.loggers, a ∉ logger.appenders
  | _ => True

/-- Both together: an appender of a logger holds a formatter, and it is the right one. -/
def Inherits (s : State) (own : Own) : Prop :=
  ∀ logger ∈ s.loggers, ∀ a ∈ logger.appenders, ∃ f, (s.appenders a).formatter = some f ∧
    (if (s.appenders a).hasFormatter then own a else logger.formatter) = some f

/-- What holds of all states: an appender with a formatter of its own holds it, and no two loggers
have the same appender. -/
structure Coherent (s : State) (own : Own) : Prop where
  flag : ∀ a, (s.appenders a).hasFormatter = (own a).isSome
  held : ∀ a, (own a).isSome → (s.appenders a).formatter = own a
  apart : s.loggers.Pairwise fun logger other => List.Disjoint logger.appenders other.appenders

/-! ## One logger or one appender changes -/

/-- A call on a logger changes that logger. -/
theorem onLogger_eq_some {l : Nat} {f : Logger → Logger} :
    s.onLogger l f = some t ↔
      ∃ logger, s.loggers[l]? = some logger ∧
        { s with loggers := s.loggers.set l (f logger) } = t :=
  Option.map_eq_some_iff

/-- A logger that keeps its formatter may lose appenders. -/
theorem Inherits.set (h : Inherits s own) {l : Nat} {logger logger' : Logger}
    (hl : s.loggers[l]? = some logger) (hsub : logger'.appenders ⊆ logger.appenders)
    (hf : logger'.formatter = logger.formatter) :
    Inherits { s with loggers := s.loggers.set l logger' } own := by
  refine forall_mem_set h fun a ha => ?_
  rw [hf]
  exact h logger (List.mem_of_getElem? hl) a (hsub ha)

theorem Coherent.set (h : Coherent s own) {l : Nat} {logger : Logger}
    (hl : s.loggers[l]? = some logger) (logger' : Logger)
    (hsub : logger'.appenders ⊆ logger.appenders) :
    Coherent { s with loggers := s.loggers.set l logger' } own := by
  refine ⟨h.flag, h.held, pairwise_set (fun _ _ => List.Disjoint.symm) h.apart fun other ho => ?_⟩
  have hapart := pairwise_eraseIdx (fun _ _ => List.Disjoint.symm) h.apart hl other ho
  exact List.disjoint_of_subset_left hsub hapart

/-- A call on an appender changes that appender. -/
theorem appenders_onAppender (s : State) (a b : Nat) (f : Appender → Appender) :
    (s.onAppender a f).appenders b = if b = a then f (s.appenders a) else s.appenders b := by
  simp only [State.onAppender, Function.update_apply]

/-- The loop of `setFormatter` reaches the appenders of the logger, and no others. -/
theorem appenders_follow (s : State) (val : Option Nat) (l : List Nat) (a : Nat) :
    (l.foldl (fun s a => s.onAppender a (.follow val)) s).appenders a =
      if a ∈ l then (s.appenders a).follow val else s.appenders a := by
  induction l generalizing s with
  | nil => rfl
  | cons b l ih =>
    rw [List.foldl_cons, ih, appenders_onAppender]
    by_cases hab : a = b
    · subst hab
      have htwice : ((s.appenders a).follow val).follow val = (s.appenders a).follow val := by
        unfold Appender.follow
        split <;> simp_all
      simp [htwice]
    · simp [hab]

/-- Passing a formatter on changes no logger. -/
theorem loggers_follow (s : State) (val : Option Nat) (l : List Nat) :
    (l.foldl (fun s a => s.onAppender a (.follow val)) s).loggers = s.loggers := by
  induction l generalizing s with
  | nil => rfl
  | cons b l ih => exact ih _

/-! ## An appender is added -/

/-- What adding an appender does. -/
theorem addAppender_eq_some {l a : Nat} (h : s.addAppender l a = some t) :
    ∃ logger, s.loggers[l]? = some logger ∧
      (∀ other ∈ s.loggers.eraseIdx l, a ∉ other.appenders) ∧
      t.loggers = s.loggers.set l { logger with appenders := logger.appenders ++ [a] } ∧
      ∀ b, t.appenders b =
        if b = a then (s.appenders a).join logger.formatter else s.appenders b := by
  unfold State.addAppender at h
  split at h
  · cases h
  · rename_i helse
    obtain ⟨logger, hl, h⟩ := Option.bind_eq_some_iff.mp h
    obtain ⟨logger', hl', rfl⟩ := onLogger_eq_some.mp h
    cases hl.symm.trans hl'
    refine ⟨logger, hl, fun other ho ha => helse ?_, rfl, fun b => appenders_onAppender ..⟩
    exact List.any_eq_true.mpr ⟨other, ho, decide_eq_true ha⟩

/-- Joining a logger is not a formatter of its own. -/
theorem hasFormatter_join (formatter : Option Nat) (ap : Appender) :
    (ap.join formatter).hasFormatter = ap.hasFormatter := by
  unfold Appender.join
  split <;> rfl

/-- An appender that holds a formatter keeps it. -/
theorem join_of_some {formatter : Option Nat} {f : Nat} {ap : Appender}
    (h : ap.formatter = some f) : ap.join formatter = ap := by
  simp [Appender.join, h]

/-- Adding an appender keeps the states coherent. -/
theorem Coherent.add (h : Coherent s own) {l a : Nat} (hstep : s.addAppender l a = some t) :
    Coherent t own := by
  obtain ⟨logger, hl, helse, hloggers, happenders⟩ := addAppender_eq_some hstep
  refine ⟨fun b => ?_, fun b hb => ?_, ?_⟩
  · rw [happenders b, ← h.flag b]
    split
    · rename_i heq
      rw [hasFormatter_join, heq]
    · rfl
  · obtain ⟨f, hf⟩ := Option.isSome_iff_exists.mp hb
    have hheld := h.held b hb
    rw [happenders b]
    split
    · rename_i heq
      subst heq
      rw [join_of_some (hheld.trans hf), hheld]
    · exact hheld
  · rw [hloggers]
    refine pairwise_set (fun _ _ => List.Disjoint.symm) h.apart fun other ho b hb hmem => ?_
    rcases List.mem_append.mp hb with hold | hnew
    · exact pairwise_eraseIdx (fun _ _ => List.Disjoint.symm) h.apart hl other ho hold hmem
    · cases List.mem_singleton.mp hnew
      exact helse other ho hmem

/-- The appender that is added decides. -/
theorem inherits_add_iff (h : Coherent s own) (he : Inherits s own) {l a : Nat}
    (hstep : s.addAppender l a = some t) :
    Inherits t own ↔ Harmless s (.addAppender l a) := by
  obtain ⟨logger, hl, helse, hloggers, happenders⟩ := addAppender_eq_some hstep
  have hjoined : (t.appenders a) = (s.appenders a).join logger.formatter := by
    rw [happenders, if_pos rfl]
  have hother {b : Nat} (hb : b ≠ a) : t.appenders b = s.appenders b := by
    rw [happenders, if_neg hb]
  constructor
  · intro ht logger' hl'
    cases hl.symm.trans hl'
    have hmem : { logger with appenders := logger.appenders ++ [a] } ∈ t.loggers := by
      rw [hloggers]
      exact mem_set_self _ hl
    obtain ⟨f, hheld, hright⟩ := ht _ hmem a (List.mem_append_right _ List.mem_cons_self)
    rw [hjoined] at hheld
    rw [hjoined, hasFormatter_join] at hright
    cases hflag : (s.appenders a).hasFormatter with
    | true => exact Or.inl rfl
    | false =>
      have hlogger : logger.formatter = some f := by rwa [hflag] at hright
      refine Or.inr ⟨by rw [hlogger]; rfl, ?_⟩
      cases hf : (s.appenders a).formatter with
      | none => exact Or.inl rfl
      | some g =>
        rw [join_of_some hf, hf] at hheld
        exact Or.inr (hheld.trans hlogger.symm)
  · intro hg
    unfold Inherits
    rw [hloggers]
    refine forall_mem_set_of_eraseIdx (fun other ho b hb => ?_) fun b hb => ?_
    · have hne : b ≠ a := fun heq => helse other ho (heq ▸ hb)
      rw [hother hne]
      exact he other (List.mem_of_mem_eraseIdx ho) b hb
    · by_cases hba : b = a
      · subst hba
        rw [hjoined, hasFormatter_join]
        cases hflag : (s.appenders b).hasFormatter with
        | true =>
          have hown : (own b).isSome := by rw [← h.flag b, hflag]
          obtain ⟨f, hf⟩ := Option.isSome_iff_exists.mp hown
          have hheld := (h.held b hown).trans hf
          exact ⟨f, by rw [join_of_some hheld, hheld], hf⟩
        | false =>
          rcases hg logger hl with htrue | ⟨hsome, hsame⟩
          · exact absurd (hflag.symm.trans htrue) Bool.false_ne_true
          · obtain ⟨f, hf⟩ := Option.isSome_iff_exists.mp hsome
            refine ⟨f, ?_, hf⟩
            rcases hsame with hnone | hsame
            · simp [Appender.join, hnone, hf]
            · rw [join_of_some (hsame.trans hf), hsame, hf]
      · rw [hother hba]
        have hold : b ∈ logger.appenders := by
          rcases List.mem_append.mp hb with hold | hnew
          · exact hold
          · exact absurd (List.mem_singleton.mp hnew) hba
        exact he logger (List.mem_of_getElem? hl) b hold

/-! ## A logger changes its formatter -/

/-- What setting the formatter of a logger does. -/
theorem setFormatter_eq_some {l : Nat} {val : Option Nat} (h : s.setFormatter l val = some t) :
    ∃ logger, s.loggers[l]? = some logger ∧
      t.loggers = s.loggers.set l { logger with formatter := val } ∧
      ∀ a, t.appenders a =
        if a ∈ logger.appenders then (s.appenders a).follow val else s.appenders a := by
  obtain ⟨logger, hl, h⟩ := Option.bind_eq_some_iff.mp h
  obtain ⟨logger', hl', rfl⟩ := onLogger_eq_some.mp h
  rw [loggers_follow] at hl'
  cases hl.symm.trans hl'
  refine ⟨logger, hl, ?_, appenders_follow s val logger.appenders⟩
  rw [loggers_follow]

theorem hasFormatter_follow (val : Option Nat) (ap : Appender) :
    (ap.follow val).hasFormatter = ap.hasFormatter := by
  unfold Appender.follow
  split <;> rfl

/-- Setting the formatter of a logger keeps them coherent. -/
theorem Coherent.follow (h : Coherent s own) {l : Nat} {val : Option Nat}
    (hstep : s.setFormatter l val = some t) : Coherent t own := by
  obtain ⟨logger, hl, hloggers, happenders⟩ := setFormatter_eq_some hstep
  refine ⟨fun a => ?_, fun a ha => ?_, ?_⟩
  · rw [happenders a, ← h.flag a]
    split
    · exact hasFormatter_follow val _
    · rfl
  · have hflag : (s.appenders a).hasFormatter = true := by rw [h.flag a, ha]
    rw [happenders a]
    split
    · rw [Appender.follow, if_pos hflag]
      exact h.held a ha
    · exact h.held a ha
  · rw [hloggers]
    exact (h.set hl { logger with formatter := val } (List.Subset.refl _)).apart

/-- A formatter that is not null is passed on to the appenders that follow the logger. -/
theorem inherits_follow_iff (h : Coherent s own) (he : Inherits s own) {l : Nat}
    {val : Option Nat} (hstep : s.setFormatter l val = some t) :
    Inherits t own ↔ Harmless s (.setFormatter l val) := by
  obtain ⟨logger, hl, hloggers, happenders⟩ := setFormatter_eq_some hstep
  have hfollowed {a : Nat} (ha : a ∈ logger.appenders) :
      t.appenders a = (s.appenders a).follow val := by
    rw [happenders a, if_pos ha]
  have hkeeps (hg : ∀ a ∈ logger.appenders, (s.appenders a).hasFormatter = true ∨ val.isSome) :
      Inherits t own := by
    unfold Inherits
    rw [hloggers]
    refine forall_mem_set_of_eraseIdx (fun other ho a ha => ?_) fun a ha => ?_
    · have hout : a ∉ logger.appenders := fun hmem =>
        pairwise_eraseIdx (fun _ _ => List.Disjoint.symm) h.apart hl other ho hmem ha
      rw [happenders a, if_neg hout]
      exact he other (List.mem_of_mem_eraseIdx ho) a ha
    · have hin : a ∈ logger.appenders := ha
      obtain ⟨f, hheld, hright⟩ := he logger (List.mem_of_getElem? hl) a hin
      rw [hfollowed hin, hasFormatter_follow]
      cases hflag : (s.appenders a).hasFormatter with
      | true =>
        rw [hflag] at hright
        exact ⟨f, by rw [Appender.follow, if_pos hflag, hheld], hright⟩
      | false =>
        have hsome := (hg a hin).resolve_left (by rw [hflag]; exact Bool.false_ne_true)
        obtain ⟨g, hval⟩ := Option.isSome_iff_exists.mp hsome
        exact ⟨g, by rw [Appender.follow, hflag, hval]; rfl, hval⟩
  cases val with
  | some g => exact iff_of_true (hkeeps fun _ _ => Or.inr rfl) trivial
  | none =>
    constructor
    · intro ht logger' hl' a ha
      cases hl.symm.trans hl'
      have hmem : { logger with formatter := none } ∈ t.loggers := by
        rw [hloggers]
        exact mem_set_self _ hl
      obtain ⟨f, -, hright⟩ := ht _ hmem a ha
      rw [hfollowed ha, hasFormatter_follow] at hright
      cases hflag : (s.appenders a).hasFormatter with
      | true => rfl
      | false =>
        rw [hflag] at hright
        cases hright
    · exact fun hg => hkeeps fun a ha => Or.inl (hg logger hl a ha)

/-! ## An appender is given a formatter, or gives it up -/

/-- So does setting that of an appender. -/
theorem Coherent.give (h : Coherent s own) (a : Nat) (val : Option Nat) :
    Coherent (s.onAppender a (.setFormatter val)) (Function.update own a val) := by
  refine ⟨fun b => ?_, fun b hb => ?_, h.apart⟩
  · rw [appenders_onAppender, Function.update_apply]
    split
    · rfl
    · exact h.flag b
  · rw [appenders_onAppender]
    rw [Function.update_apply] at hb ⊢
    split
    · rfl
    · rename_i hne
      rw [if_neg hne] at hb
      exact h.held b hb

/-- An appender of a logger must not lose its formatter. -/
theorem inherits_give_iff (he : Inherits s own) (a : Nat) (val : Option Nat) :
    Inherits (s.onAppender a (.setFormatter val)) (Function.update own a val) ↔
      Harmless s (.setAppenderFormatter a val) := by
  cases val with
  | none =>
    constructor
    · intro ht logger hmem ha
      obtain ⟨f, hnull, -⟩ := ht logger hmem a ha
      rw [appenders_onAppender, if_pos rfl] at hnull
      cases hnull
    · intro hg logger hmem b hb
      have hne : b ≠ a := fun heq => hg logger hmem (heq ▸ hb)
      rw [appenders_onAppender, if_neg hne, Function.update_of_ne hne]
      exact he logger hmem b hb
  | some f =>
    refine iff_of_true (fun logger hmem b hb => ?_) trivial
    by_cases hba : b = a
    · subst hba
      rw [appenders_onAppender, if_pos rfl, Function.update_self]
      exact ⟨f, rfl, rfl⟩
    · rw [appenders_onAppender, if_neg hba, Function.update_of_ne hba]
      exact he logger hmem b hb

/-! ## Steps -/

/-- The formatters do not matter, and neither does anything of an appender but its formatter. -/
theorem Coherent.congr (h : Coherent s own) (hl : t.loggers = s.loggers)
    (ha : ∀ a, (t.appenders a).hasFormatter = (s.appenders a).hasFormatter ∧
      (t.appenders a).formatter = (s.appenders a).formatter) : Coherent t own := by
  refine ⟨fun a => ?_, fun a hown => ?_, hl ▸ h.apart⟩
  · rw [(ha a).1, h.flag]
  · rw [(ha a).2, h.held a hown]

theorem Inherits.congr (h : Inherits s own) (hl : t.loggers = s.loggers)
    (ha : ∀ a, (t.appenders a).hasFormatter = (s.appenders a).hasFormatter ∧
      (t.appenders a).formatter = (s.appenders a).formatter) : Inherits t own := by
  intro logger hmem a hattached
  rw [(ha a).1, (ha a).2]
  exact h logger (hl ▸ hmem) a hattached

/-- The level of an appender is beside its formatter. -/
theorem formatter_onAppender_level (s : State) (a : Nat) (val : Level) (b : Nat) :
    ((s.onAppender a fun ap => { ap with level := val }).appenders b).hasFormatter =
        (s.appenders b).hasFormatter ∧
      ((s.onAppender a fun ap => { ap with level := val }).appenders b).formatter =
        (s.appenders b).formatter := by
  rw [appenders_onAppender]
  split
  · rename_i heq
    subst heq
    exact ⟨rfl, rfl⟩
  · exact ⟨rfl, rfl⟩

/-- A pattern is dropped, or becomes the formatter of the logger. -/
theorem setPattern_cases {l : Nat} {val : String} (h : s.setPattern l val = some t) :
    t = s ∨ ∃ formatters,
      { s with formatters }.setFormatter l (some s.formatters.length) = some t := by
  simp only [State.setPattern] at h
  split at h
  · obtain ⟨_, -, rfl⟩ := Option.map_eq_some_iff.mp h
    exact Or.inl rfl
  · exact Or.inr ⟨_, h⟩

/-- What holds of all states is kept by every call, and the formatters stay right exactly if the
call is harmless. -/
theorem step_spec (h : Coherent s own) (he : Inherits s own) (hstep : s.step call = some t) :
    Coherent t (record s call t own) ∧
      (Inherits t (record s call t own) ↔ Harmless s call) := by
  cases call with
  | newFormatter pattern =>
    cases hstep
    exact ⟨h.congr rfl fun _ => ⟨rfl, rfl⟩,
      iff_of_true (he.congr rfl fun _ => ⟨rfl, rfl⟩) trivial⟩
  | newLogger root =>
    obtain ⟨-, ht⟩ := Option.ite_none_right_eq_some.mp hstep
    cases ht
    refine ⟨⟨h.flag, h.held, List.pairwise_append.mpr ⟨h.apart, List.pairwise_singleton _ _,
      fun logger _ other ho => ?_⟩⟩, iff_of_true (fun logger hmem a ha => ?_) trivial⟩
    · cases List.mem_singleton.mp ho
      exact List.disjoint_nil_right _
    · rcases List.mem_append.mp hmem with hold | hnew
      · exact he logger hold a ha
      · cases List.mem_singleton.mp hnew
        cases ha
  | setLevel l val =>
    obtain ⟨logger, hl, rfl⟩ := onLogger_eq_some.mp hstep
    have hsub := List.Subset.refl logger.appenders
    exact ⟨h.set hl _ hsub, iff_of_true (he.set hl hsub rfl) trivial⟩
  | addAppender l a => exact ⟨h.add hstep, inherits_add_iff h he hstep⟩
  | delAppender l a =>
    obtain ⟨logger, hl, rfl⟩ := onLogger_eq_some.mp hstep
    have hsub : logger.appenders.erase a ⊆ logger.appenders := List.erase_subset
    exact ⟨h.set hl _ hsub, iff_of_true (he.set hl hsub rfl) trivial⟩
  | clearAppender l =>
    obtain ⟨logger, hl, rfl⟩ := onLogger_eq_some.mp hstep
    have hsub := List.nil_subset logger.appenders
    exact ⟨h.set hl _ hsub, iff_of_true (he.set hl hsub rfl) trivial⟩
  | setFormatter l val =>
    obtain ⟨-, ht⟩ := Option.ite_none_right_eq_some.mp hstep
    exact ⟨h.follow ht, inherits_follow_iff h he ht⟩
  | setPattern l val =>
    obtain rfl | ⟨formatters, ht⟩ := setPattern_cases hstep
    · exact ⟨h, iff_of_true he trivial⟩
    · have hsame : Coherent { s with formatters } own := h.congr rfl fun _ => ⟨rfl, rfl⟩
      exact ⟨hsame.follow ht, inherits_follow_iff hsame he ht⟩
  | setAppenderLevel a val =>
    cases hstep
    have hlevel := formatter_onAppender_level s a val
    exact ⟨h.congr rfl hlevel, iff_of_true (he.congr rfl hlevel) trivial⟩
  | setAppenderFormatter a val =>
    obtain ⟨-, ht⟩ := Option.ite_none_right_eq_some.mp hstep
    cases ht
    exact ⟨h.give a val, inherits_give_iff he a val⟩

/-! ## Logging -/

/-- No event meets a null formatter. -/
theorem Inherits.logs (he : Inherits s own) : Logs s := by
  intro level l
  induction l using Nat.strongRecOn with
  | ind l ih =>
    unfold State.log
    split
    · rfl
    · rename_i logger hl
      have hwritten : (logger.appenders.mapM fun a => (s.appenders a).log level).isSome := by
        have hall : ∀ a ∈ logger.appenders, ∃ fs, (s.appenders a).log level = some fs ∧ True := by
          intro a ha
          obtain ⟨f, hf, -⟩ := he logger (List.mem_of_getElem? hl) a ha
          unfold Appender.log
          rw [hf]
          split
          · exact ⟨_, rfl, trivial⟩
          · exact ⟨_, rfl, trivial⟩
        obtain ⟨fss, hfss, -⟩ := exists_mapM_of_forall hall
        rw [hfss]
        rfl
      split
      · split
        · rw [Option.isSome_map]
          exact hwritten
        · split
          · rfl
          · split
            · rename_i hlt
              exact ih _ hlt
            · rfl
      · rfl

/-- A fatal event is written by all appenders of its logger. -/
theorem Logs.isSome (h : Logs s) {logger : Logger} (hmem : logger ∈ s.loggers) {a : Nat}
    (ha : a ∈ logger.appenders) : (s.appenders a).formatter.isSome := by
  have hfatal (level : Level) : level.value ≤ Level.fatal.value := by cases level <;> decide
  obtain ⟨l, hl⟩ := List.getElem?_of_mem hmem
  have hlog := h .fatal l
  unfold State.log at hlog
  rw [hl] at hlog
  simp only [if_pos (hfatal _), if_pos (List.ne_nil_of_mem ha), Option.isSome_map] at hlog
  by_contra hnone
  have hnull : (s.appenders a).log .fatal = none := by
    rw [Appender.log, if_pos (hfatal _), Option.not_isSome_iff_eq_none.mp hnone]
    rfl
  rw [mapM_eq_none_of_mem (f := fun a => (s.appenders a).log .fatal) ha hnull] at hlog
  cases hlog

/-- The two halves of the property are one. -/
theorem inherits_iff : Inherits s own ↔ Effective s own ∧ Logs s := by
  constructor
  · intro h
    refine ⟨fun logger hmem a ha => ?_, h.logs⟩
    obtain ⟨f, hheld, hright⟩ := h logger hmem a ha
    exact hheld.trans hright.symm
  · rintro ⟨heffective, hlogs⟩ logger hmem a ha
    obtain ⟨f, hf⟩ := Option.isSome_iff_exists.mp (hlogs.isSome hmem ha)
    exact ⟨f, hf, (heffective logger hmem a ha).symm.trans hf⟩

/-- For every sequence of calls in which no two loggers have the same appender at a time: in every
state that is reached, each appender of a logger holds its own formatter or else that of the
logger, and no null pointer is used for logging, exactly if no call adds an appender with a copy
of another formatter or of a null one, no call gives a null formatter to a logger that passes it
on, and no call takes the own formatter from an appender of a logger. -/
theorem effective_formatter_iff (calls : List Call)
    (hrun : (run (recorded State.step record) ({}, fun _ => none) calls).isSome) :
    Along (recorded State.step record) (fun x => Effective x.1 x.2 ∧ Logs x.1)
        ({}, fun _ => none) calls ↔
      Guarded (recorded State.step record) (fun x call => Harmless x.1 call)
        ({}, fun _ => none) calls := by
  have hcoherent : Coherent {} fun _ => none := ⟨fun _ => rfl, nofun, List.Pairwise.nil⟩
  have hinherits : Inherits {} fun _ => none := nofun
  refine along_iff_guarded (I := fun x => Coherent x.1 x.2) ?_ ?_ hcoherent
    (inherits_iff.mp hinherits) hrun
  · intro x call y hx hp _ hstep
    exact of_recorded hstep fun t ht => (step_spec hx (inherits_iff.mpr hp) ht).1
  · intro x call y hx hp hstep
    refine of_recorded hstep fun t ht => ?_
    rw [← inherits_iff]
    exact (step_spec hx (inherits_iff.mpr hp) ht).2

/-- A logger with an appender of its formatter, which the logger then changes. -/
def plainCalls : List Call := [.newLogger none, .addAppender 0 0, .setPattern 0 "%m%n"]

/-- Calls that all keep the property. -/
theorem effective_formatter_plain :
    Along (recorded State.step record) (fun x => Effective x.1 x.2 ∧ Logs x.1)
      ({}, fun _ => none) plainCalls := by
  refine (effective_formatter_iff plainCalls rfl).mpr ⟨trivial, fun x hx => ⟨?_, fun y hy => ?_⟩⟩
  · cases hx
    intro logger hlogger
    cases hlogger
    exact Or.inr ⟨rfl, Or.inl rfl⟩
  · exact ⟨trivial, fun _ _ => trivial⟩

/-- An appender moves to another logger, and another one gives up its formatter. -/
def staleCalls : List Call :=
  [.newLogger none, .newLogger none, .addAppender 0 0, .delAppender 0 0, .addAppender 1 0,
    .addAppender 1 1, .setAppenderFormatter 1 (some 0), .setAppenderFormatter 1 none]

/-- The second logger has the formatter 1. Its first appender still holds the formatter 0 of the
first logger, and its other one holds none: logging uses a null pointer. -/
theorem effective_formatter_stale :
    ∃ t, run State.step {} staleCalls = some t ∧
      t.loggers[1]?.map (fun logger => (logger.appenders, logger.formatter)) =
        some ([0, 1], some 1) ∧
      t.appenders 0 = { hasFormatter := false, formatter := some 0 } ∧
      t.appenders 1 = { hasFormatter := false, formatter := none } ∧
      t.log .info 1 = none := by
  refine ⟨_, rfl, rfl, rfl, rfl, ?_⟩
  rw [State.log]
  rfl

end Xupeng.Log.Objects
