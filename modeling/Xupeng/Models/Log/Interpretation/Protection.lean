import Xupeng.Models.Log.Interpretation.Agreement

/-!
# The code of the loggers keeps to the agreement

For each member function: started in a sound state, it keeps what the locks of the other
threads protect, and it ends with what its caller needs.
-/

namespace Xupeng.Log.Concurrent

open Code Objects

variable {held : List Lock} {s : Shared} {a l : Nat}

/-! ## Appenders -/

/-- A condition that no action on an appender makes false, whatever locks the thread has. -/
structure Indifferent (held : List Lock) (I : Shared → Prop) : Prop where
  stable : agreement.Stable held I
  own : ∀ s t, I s → s.Keeps t → t.loggers = s.loggers → t.m_loggers = s.m_loggers → I t
  sound : ∀ s, I s → s.Sound

variable {I : Shared → Prop}

/-- With more locks less can happen. -/
theorem Indifferent.cons (hI : Indifferent held I) (x : Lock) : Indifferent (x :: held) I :=
  ⟨hI.stable.mono (List.subset_cons_self x held), hI.own, hI.sound⟩

/-- What every action keeps is indifferent. -/
theorem Indifferent.of_stable (hI : agreement.Stable [] I) (hsound : ∀ s, I s → s.Sound) :
    Indifferent held I :=
  ⟨hI.mono (List.nil_subset held), fun _ _ hs hst _ _ => hI.of_always hs hst, hsound⟩

/-- An action on an appender or on none of the objects. -/
theorem Indifferent.does_modify (hI : Indifferent held I) {f : Shared → Shared}
    (hf : ∀ s, I s → agreement.Allowed held s (f s)) (hloggers : ∀ s, (f s).loggers = s.loggers)
    (hfound : ∀ s, (f s).m_loggers = s.m_loggers) :
    Does agreement held I (modify f) fun _ => I := by
  refine Code.does_modify hI.stable hI.stable fun s hs => ?_
  exact ⟨hf s hs, hI.own s _ hs (hf s hs).1 (hloggers s) (hfound s)⟩

/-- A block under a lock keeps what its body keeps. -/
theorem Indifferent.does_locked {α : Type} (hI : Indifferent held I) {x : Lock} {p : Proc α}
    (h : Does agreement (x :: held) I p fun _ => I) :
    Does agreement held I (locked x p) fun _ => I :=
  Code.does_locked hI.stable (fun _ => hI.stable) h

theorem Indifferent.does_get (hI : Indifferent held I) :
    Does agreement held I (get : Proc Shared) fun _ => I :=
  Code.does_get hI.stable fun s t hs hst => hI.stable s t hs hst

theorem Indifferent.does_pure {α : Type} (hI : Indifferent held I) (a : α) :
    Does agreement held I (Pure.pure a : Proc α) fun _ => I :=
  Code.does_pure hI.stable fun _ hs => hs

/-- The blocks of an appender keep what does not depend on its lock. -/
theorem writtenLevel_does (hI : Indifferent held I) (level : Shared → Level) :
    Does agreement held I (writtenLevel level) fun _ => I := by
  refine hI.does_get.bind fun s => does_ite (fun _ => ?_) fun _ => hI.does_pure _
  exact hI.does_get.bind fun _ => hI.does_pure _

namespace LogAppender

theorem format_does (hI : Indifferent held I) (ha : ∀ s, I s → s.Formats a) :
    Does agreement held I (format a) fun _ => I := by
  refine hI.does_locked ?_
  have hI' := hI.cons (.appender a)
  refine does_attempt hI'.stable hI'.stable fun s hs => ?_
  obtain ⟨f, hf⟩ := Option.isSome_iff_exists.mp (ha s hs)
  have hallowed : agreement.Allowed (.appender a :: held) s (s.format a f) :=
    allowed_format List.mem_cons_self f
  refine ⟨s.format a f, by rw [hf]; rfl, hallowed, hI.own s _ hs hallowed.1 ?_ ?_⟩
  · rw [(format_objects s a f).1]
  · exact (format_objects s a f).2

theorem reopen_does (hI : Indifferent held I) : Does agreement held I (reopen a) fun _ => I := by
  refine hI.does_locked ((hI.cons _).does_modify (fun s _ => ?_) (fun _ => rfl) fun _ => rfl)
  exact allowed_reopen List.mem_cons_self

theorem logFile_does (hI : Indifferent held I) (ha : ∀ s, I s → s.Formats a) (now : UInt64) :
    Does agreement held I (logFile a now) fun _ => I := by
  refine hI.does_get.bind fun s => ?_
  have hformat := format_does hI ha
  split
  · refine (reopen_does hI).bind fun _ => Does.bind ?_ fun _ => hformat
    refine hI.does_modify (fun s _ => ?_) (fun _ => rfl) fun _ => rfl
    exact allowed_of_files rfl rfl rfl rfl (fun _ _ => rfl) fun _ h => ⟨h, rfl⟩
  · exact hformat

theorem log_does (hI : Indifferent held I) (ha : ∀ s, I s → s.Formats a) (level : Level)
    (now : UInt64) : Does agreement held I (log a level now) fun _ => I := by
  refine hI.does_get.bind fun s => does_ite (fun _ => ?_) fun _ => hI.does_pure _
  split
  · exact format_does hI ha
  · exact logFile_does hI ha now

theorem toYamlString_does {Text : Type} (L : Yaml.Library Text) (hI : Indifferent held I) :
    Does agreement held I (toYamlString L a) fun _ => I := by
  have hI' := hI.cons (.appender a)
  refine hI.does_locked ((writtenLevel_does hI' _).bind fun level => ?_)
  exact hI'.does_get.bind fun _ => hI'.does_pure _

end LogAppender

/-! ## Loggers -/

/-- Soundness is what all threads keep. -/
theorem sound_stable : agreement.Stable [] Shared.Sound := fun _ _ hs hst => hst.1.sound hs

/-- It does not depend on locks. -/
theorem sound_indifferent : Indifferent held Shared.Sound := .of_stable sound_stable fun _ => id

/-- An appender that can format stays so. -/
theorem formats_stable (a : Nat) : agreement.Stable [] (Shared.Formats · a) :=
  fun _ _ hs hst => hst.1.formats a hs

/-- The logger was made. -/
def Stands (l : Nat) (s : Shared) : Prop := s.Sound ∧ l < s.loggers.length

theorem stands_stable (l : Nat) : agreement.Stable [] (Stands l) :=
  fun _ _ hs hst => ⟨hst.1.sound hs.1, hs.2.trans_le hst.1.loggers⟩

namespace Logger

/-- While the list of a logger is walked through, its lock keeps it as it is. -/
theorem forAppenders_does {α : Type} {body : Nat → Proc α} (hl : Lock.logger l ∈ held)
    (hI : Indifferent held I)
    (hbody : ∀ a (J : Shared → Prop), Indifferent held J → (∀ s, J s → s.Formats a) →
      Does agreement held J (body a) fun _ => J) :
    Does agreement held I (forAppenders l body) fun _ => I := by
  refine Does.bind (R := fun s t => I s ∧ agreement.Seen held s t)
    (Code.does_get hI.stable fun s t hs hst => ⟨hs, hst⟩) fun s => ?_
  -- what holds at every pass of the loop
  let J (t : Shared) : Prop :=
    I t ∧ t.appendersOf l = s.appendersOf l ∧ ∀ a ∈ s.appendersOf l, t.Formats a
  have hJ : Indifferent held J := by
    refine ⟨fun t u ht htu => ?_, fun t u ht htu hloggers hfound => ?_, fun t ht => hI.sound t ht.1⟩
    · refine ⟨hI.stable t u ht.1 htu, ((htu.2 _ hl).1).trans ht.2.1, fun a ha => ?_⟩
      exact htu.1.formats a (ht.2.2 a ha)
    · refine ⟨hI.own t u ht.1 htu hloggers hfound, ?_, fun a ha => htu.formats a (ht.2.2 a ha)⟩
      rw [Shared.appendersOf, hloggers]
      exact ht.2.1
  have hunchanged : Does agreement held J (attempt fun t =>
      if t.appendersOf l = s.appendersOf l then some t else none) fun _ => J := by
    refine does_attempt hJ.stable hJ.stable fun t ht => ?_
    exact ⟨t, if_pos ht.2.1, agreement.allowed_refl, ht⟩
  have hloop := does_mapEach_of_invariant (s.appendersOf l) hJ.stable fun a ha =>
    hunchanged.bind fun _ => hbody a J hJ fun t ht => ht.2.2 a ha
  refine Does.imp (hloop.bind fun values => hunchanged.bind fun _ => ?_) fun t ht => ?_
  · exact does_pure hI.stable fun t ht => ht.1
  · refine ⟨hI.stable s t ht.1 ht.2, (ht.2.2 _ hl).1, fun a ha => ?_⟩
    exact ht.2.1.formats a ((hI.sound s ht.1).formats l a ha)

/-- The event is passed on to the root with the lock held. -/
theorem logAbove_does (level : Level) (now : UInt64) (n l : Nat) (held : List Lock) :
    Does agreement held Shared.Sound (logAbove level now n l) fun _ => Shared.Sound := by
  have hI {held : List Lock} : Indifferent held Shared.Sound := sound_indifferent
  induction n generalizing l held with
  | zero => exact hI.does_pure _
  | succ n ih =>
    refine hI.does_get.bind fun s => does_ite (fun _ => ?_) fun _ => hI.does_pure _
    refine hI.does_locked (hI.does_get.bind fun s => does_ite (fun _ => ?_) fun _ => ?_)
    · refine Does.bind (forAppenders_does List.mem_cons_self hI fun a J hJ ha => ?_) fun _ =>
        hI.does_pure _
      exact LogAppender.log_does hJ ha level now
    · split
      · exact hI.does_pure _
      · next r _ => exact does_ite (fun _ => ih r _) fun _ => hI.does_pure _

/-- The appender can format before it is put into the list. -/
theorem addAppender_does (l a : Nat) :
    Does agreement held (Stands l) (addAppender l a) fun _ => Stands l := by
  have hI {held : List Lock} : agreement.Stable held (Stands l) :=
    (stands_stable l).mono (List.nil_subset held)
  have hready : agreement.Stable [] fun s => Stands l s ∧ s.Formats a :=
    (stands_stable l).and (formats_stable a)
  have hasked (fmt : Option Nat) :
      agreement.Stable [] fun s => Stands l s ∧ (fmt.isSome → s.Formats a) :=
    (stands_stable l).and fun s t hs hst hsome => hst.1.formats a (hs hsome)
  refine does_locked hI (fun _ => hI) ?_
  have hget : Does agreement (.logger l :: held) (Stands l) (LogAppender.getFormatter a)
      fun fmt s => Stands l s ∧ (fmt.isSome → s.Formats a) := by
    refine does_locked hI (fun fmt => (hasked fmt).mono (List.nil_subset _)) ?_
    refine Does.bind (R := fun s t => Stands l t ∧ (s.Formats a → t.Formats a))
      (does_get hI fun s t hs hst => ⟨hI s t hs hst, hst.1.formats a⟩) fun s => ?_
    exact does_pure ((hasked _).mono (List.nil_subset _)) fun t ht => ht
  have hset : Does agreement (.logger l :: held) (Stands l) (locked (.appender a) (modify fun s =>
      s.onAppender a fun ap => { ap with formatter := s.formatterOf l }))
      fun _ s => Stands l s ∧ s.Formats a := by
    refine does_locked hI (fun _ => hready.mono (List.nil_subset _)) ?_
    refine does_modify hI (hready.mono (List.nil_subset _)) fun s hs => ?_
    have hformatter : (s.formatterOf l).isSome := hs.1.formatters l hs.2
    have hallowed : agreement.Allowed (.appender a :: .logger l :: held) s
        (s.onAppender a fun ap => { ap with formatter := s.formatterOf l }) :=
      allowed_onAppender (Or.inl List.mem_cons_self) fun _ => hformatter
    refine ⟨hallowed, (stands_stable l).of_always hs hallowed.1, ?_⟩
    rw [Shared.Formats, appenders_onAppender, Function.update_self]
    exact hformatter
  have hpush : Does agreement (.logger l :: held) (fun s => Stands l s ∧ s.Formats a)
      (modify (Shared.onLogger l fun logger =>
        { logger with appenders := logger.appenders ++ [a] })) fun _ => Stands l := by
    refine Does.weaken (does_modify_of_allowed hready fun s hs => ?_) fun _ s hs => hs.1
    refine allowed_onLogger (Or.inl List.mem_cons_self) fun hsound x hx =>
      ⟨hsound.formatter_of (x := x) hx, fun b hb => ?_⟩
    obtain hb | hb := List.mem_append.mp hb
    · exact hsound.formats_of hx hb
    · rw [List.mem_singleton.mp hb]
      exact hs.2
  refine hget.bind fun fmt => ?_
  split
  · exact (hset.imp fun s hs => hs.1).bind fun _ => hpush
  · next hsome =>
    refine hpush.imp fun s hs => ⟨hs.1, hs.2 ?_⟩
    exact Option.isSome_iff_ne_none.mpr fun hnone => hsome (by rw [hnone]; rfl)

/-- A change of the list that adds nothing to it, or of the formatter that keeps one. -/
theorem onLogger_does {f : Objects.Logger → Objects.Logger}
    (hf : ∀ x, (f x).appenders ⊆ x.appenders)
    (hformatter : ∀ x, x.formatter.isSome → (f x).formatter.isSome) :
    Does agreement (.logger l :: held) Shared.Sound (modify (Shared.onLogger l f))
      fun _ => Shared.Sound := by
  refine does_modify_of_allowed sound_stable fun s _ => ?_
  refine allowed_onLogger (Or.inl List.mem_cons_self) fun hsound x hx => ?_
  exact ⟨hformatter x (hsound.formatter_of hx), fun b hb => hsound.formats_of hx (hf x hb)⟩

/-- A formatter that is not null is passed on. -/
theorem setFormatter_does (l : Nat) {val : Option Nat} (hval : val.isSome) :
    Does agreement held Shared.Sound (setFormatter l val) fun _ => Shared.Sound := by
  refine sound_indifferent.does_locked ?_
  refine Does.bind (onLogger_does (fun x => List.Subset.refl _) fun _ _ => hval) fun _ => ?_
  refine Does.bind (forAppenders_does List.mem_cons_self sound_indifferent fun a J hJ ha => ?_)
    fun _ => sound_indifferent.does_pure _
  refine hJ.does_locked ((hJ.cons _).does_modify (fun s hs => ?_) (fun _ => rfl) fun _ => rfl)
  refine allowed_onAppender (Or.inl List.mem_cons_self) fun hformats => ?_
  unfold Appender.follow
  split
  · exact hformats
  · exact hval

theorem newFormatter_does (pattern : String) :
    Does agreement held Shared.Sound (modifyGet (Shared.newFormatter pattern))
      fun _ => Shared.Sound := by
  have hI : Indifferent held Shared.Sound := sound_indifferent
  refine does_modifyGet hI.stable (fun _ => hI.stable) fun s hs => ?_
  have hallowed : agreement.Allowed held s (s.newFormatter pattern).2 :=
    allowed_of_files rfl rfl rfl rfl (fun _ _ => rfl) fun _ h => ⟨h, rfl⟩
  exact ⟨hallowed, hallowed.1.sound hs⟩

theorem setPattern_does (l : Nat) (val : String) :
    Does agreement held Shared.Sound (setPattern l val) fun _ => Shared.Sound := by
  refine does_ite (fun _ => sound_indifferent.does_pure _) fun _ => ?_
  exact (newFormatter_does val).bind fun _ => setFormatter_does l rfl

theorem toYamlString_does {Text : Type} (L : Yaml.Library Text) (l : Nat)
    (hI : Indifferent held I) : Does agreement held I (toYamlString L l) fun _ => I := by
  have hI' := hI.cons (.logger l)
  refine hI.does_locked ((writtenLevel_does hI' _).bind fun level => hI'.does_get.bind fun s => ?_)
  refine Does.bind (forAppenders_does List.mem_cons_self hI' fun a J hJ _ => ?_)
    fun _ => hI'.does_pure _
  exact LogAppender.toYamlString_does L hJ

end Logger

/-! ## The manager -/

namespace LoggerManager

/-- What is known of the name is kept, with the lock if it is that there is none. -/
theorem value_stable {name : String} (l : Nat) :
    agreement.Stable [] fun s => s.Sound ∧ s.m_loggers.value name = some l :=
  sound_stable.and fun _ _ hs hst => hst.1.found name l hs

/-- Under the lock of the manager a name stays free. -/
theorem value_none_stable {name : String} (hlock : Lock.manager ∈ held) :
    agreement.Stable held fun s => s.m_loggers.value name = none := by
  intro s t hs hst
  have hsame : t.m_loggers = s.m_loggers := hst.2 .manager hlock
  rw [hsame]
  exact hs

/-- Under the lock, a logger is made for a name that is not found. -/
theorem newLogger_does {name : String} (hlock : Lock.manager ∈ held) :
    Does agreement held (fun s => s.Sound ∧ s.m_loggers.value name = none) (newLogger name)
      fun l s => s.Sound ∧ s.m_loggers.value name = some l := by
  have hI : agreement.Stable held fun s => s.Sound ∧ s.m_loggers.value name = none :=
    (sound_stable.mono (List.nil_subset held)).and (value_none_stable hlock)
  have hmade (l : Nat) : agreement.Stable held fun s =>
      Stands l s ∧ s.m_loggers.value name = none :=
    ((stands_stable l).mono (List.nil_subset held)).and (value_none_stable hlock)
  have hR (l : Nat) : agreement.Stable held fun s =>
      s.Sound ∧ s.m_loggers.value name = some l := (value_stable l).mono (List.nil_subset held)
  have hnew : Does agreement held (fun s => s.Sound ∧ s.m_loggers.value name = none)
      (modifyGet (Shared.newLogger name))
      fun l s => Stands l s ∧ s.m_loggers.value name = none := by
    refine does_modifyGet hI hmade fun s hs => ?_
    have hallowed : agreement.Allowed held s (s.newLogger name).2 := allowed_newLogger name
    refine ⟨hallowed, ⟨hallowed.1.sound hs.1, ?_⟩, hs.2⟩
    simp [Shared.newLogger]
  have hroot (l : Nat) : Does agreement held (fun s => Stands l s ∧ s.m_loggers.value name = none)
      (modify (Shared.onLogger l fun logger => { logger with root := some 0 }))
      fun _ s => Stands l s ∧ s.m_loggers.value name = none := by
    refine does_modify (hmade l) (hmade l) fun s hs => ?_
    have hallowed : agreement.Allowed held s
        (s.onLogger l fun logger => { logger with root := some 0 }) :=
      allowed_onLogger (Or.inr fun x => ⟨rfl, rfl⟩) fun hsound x hx =>
        ⟨hsound.formatter_of (x := x) hx, fun _ => hsound.formats_of hx⟩
    exact ⟨hallowed, (stands_stable l).of_always hs.1 hallowed.1, hs.2⟩
  have hassign (l : Nat) :
      Does agreement held (fun s => Stands l s ∧ s.m_loggers.value name = none)
        (modify fun s => { s with m_loggers := s.m_loggers.assign name l })
        fun _ s => s.Sound ∧ s.m_loggers.value name = some l := by
    refine does_modify (hmade l) (hR l) fun s hs => ?_
    have hallowed := allowed_assign hlock hs.2 hs.1.2
    refine ⟨hallowed, hallowed.1.sound hs.1.1, ?_⟩
    rw [Dictionary.value_assign, if_pos rfl]
  refine hnew.bind fun l => (hroot l).bind fun _ => (hassign l).bind fun _ => ?_
  exact does_pure (hR l) fun s hs => hs

/-- The logger that is returned is the one that is found from then on. -/
theorem getLogger_does (name : String) :
    Does agreement held Shared.Sound (getLogger name)
      fun l s => s.Sound ∧ s.m_loggers.value name = some l := by
  have hI {held : List Lock} := sound_stable.mono (List.nil_subset held)
  refine does_locked hI (fun l => (value_stable l).mono (List.nil_subset held)) ?_
  refine Does.bind (R := fun s t => s.Sound ∧ agreement.Seen (.manager :: held) s t)
    (does_get hI fun s t hs hst => ⟨hs, hst⟩) fun s => ?_
  split
  · next l hl =>
    refine does_pure ((value_stable l).mono (List.nil_subset _)) fun t ht => ?_
    exact ⟨ht.2.1.sound ht.1, ht.2.1.found name l hl⟩
  · next hnone =>
    refine (newLogger_does List.mem_cons_self).imp fun t ht => ?_
    exact ⟨ht.2.1.sound ht.1, value_none_stable List.mem_cons_self s t hnone ht.2⟩

/-- While the loggers are walked through, the manager's lock keeps the map as it is. -/
theorem toYamlString_does {Text : Type} (L : Yaml.Library Text) :
    Does agreement held Shared.Sound (toYamlString L) fun _ => Shared.Sound := by
  have hI {held : List Lock} := sound_stable.mono (List.nil_subset held)
  refine does_locked hI (fun _ => hI) ?_
  refine Does.bind (R := fun s t => s.Sound ∧ agreement.Seen (.manager :: held) s t)
    (does_get hI fun s t hs hst => ⟨hs, hst⟩) fun s => ?_
  let J (t : Shared) : Prop := t.Sound ∧ t.m_loggers = s.m_loggers
  have hJ : Indifferent (.manager :: held) J := by
    refine ⟨fun t u ht htu => ?_, fun t u ht htu _ hfound => ?_, fun t ht => ht.1⟩
    · have hsame : u.m_loggers = t.m_loggers := htu.2 .manager List.mem_cons_self
      exact ⟨htu.1.sound ht.1, hsame.trans ht.2⟩
    · exact ⟨htu.sound ht.1, hfound.trans ht.2⟩
  have hunchanged : Does agreement (.manager :: held) J (attempt fun t =>
      if t.m_loggers.entries = s.m_loggers.entries then some t else none) fun _ => J := by
    refine does_attempt hJ.stable hJ.stable fun t ht => ?_
    exact ⟨t, if_pos (by rw [ht.2]), agreement.allowed_refl, ht⟩
  have hloop := does_mapEach_of_invariant s.m_loggers.entries hJ.stable fun e _ =>
    hunchanged.bind fun _ => Logger.toYamlString_does L e.2 hJ
  refine Does.imp (hloop.bind fun texts => hunchanged.bind fun _ => ?_) fun t ht => ?_
  · exact does_pure hI fun t ht => ht.1
  · have hsame : t.m_loggers = s.m_loggers := ht.2.2 .manager List.mem_cons_self
    exact ⟨ht.2.1.sound ht.1, hsame⟩

end LoggerManager

end Xupeng.Log.Concurrent
