import Xupeng.Models.IOManager.Correctness.Poll
import Xupeng.Models.IOManager.Correctness.Wakeups
import Xupeng.Models.IOManager.Interpretation.Alarms
import Xupeng.Models.Timer.Correctness.Wakeup

/-!
# No timer waits for a worker that sleeps longer

A worker reads the time to the next timer after it is counted as idle, so a timer that
is inserted in front while it sleeps is always announced, unlike a task in the queue.
`m_tickled` saves further announcements, and while it is set a wakeup is on its way or
some worker is awake. So whenever a worker sleeps, one of the workers that sleep comes
back in time for the earliest timer, or somebody is going to look at the timers before.
-/

namespace Xupeng.IOManager

open TimerManager (infinite)

variable {C : Type} {s t : Tickling C} {h : Readings} {a : Tickling.Step C}

/-! ## Waits that end in time -/

/-- However often it is interrupted, the wait is bounded, and ends before the timers are due if it
starts at the clock reading. -/
def Wait.InTime (wait : Wait) (timers : TimerManager C) : Prop :=
  ∀ rets, ∀ timeout ∈ (poll wait.next_timeout rets).1, ∀ p ∈ timers.timers,
    0 ≤ timeout.toInt ∧
      wait.now.toNat + timeout.toInt ≤ max wait.now.toNat (timers.deref p).next.toNat

/-- The time to wait is at most the time to each timer, and less than 25 days. -/
def Wait.Covers (wait : Wait) (timers : TimerManager C) : Prop :=
  ∀ p ∈ timers.timers, wait.next_timeout.toNat < 2 ^ 31 ∧
    wait.now.toNat + wait.next_timeout.toNat ≤ max wait.now.toNat (timers.deref p).next.toNat

/-- A wait that covers the timers ends in time. -/
theorem Wait.Covers.inTime {wait : Wait} {timers : TimerManager C} (hw : wait.Covers timers) :
    wait.InTime timers := by
  intro rets timeout htimeout p hp
  obtain ⟨hshort, hle⟩ := hw p hp
  rw [mem_poll_iff] at htimeout
  have hlow : wait.next_timeout.toNat % 2 ^ 32 < 2 ^ 31 := by omega
  obtain ⟨hnonneg, -, hbound⟩ := (within_limit_iff wait.next_timeout).mpr (Or.inr hlow)
  rw [htimeout]
  exact ⟨hnonneg, by omega⟩

/-- A worker that has found no timers covers none that there are now. -/
theorem Wait.Covers.timers_eq_nil {wait : Wait} {timers : TimerManager C}
    (hw : wait.Covers timers) (hinf : wait.next_timeout = infinite) : timers.timers = [] := by
  by_contra hne
  obtain ⟨p, hp⟩ := List.exists_mem_of_ne_nil _ hne
  have hshort := (hw p hp).1
  rw [hinf] at hshort
  exact absurd hshort (by decide)

/-! ## The timers -/

/-- Every pending timer has a period of less than 25 days. -/
def Short (timers : TimerManager C) : Prop :=
  ∀ p, (timers.deref p).cb.isSome → (timers.deref p).ms.toNat < 2 ^ 31

theorem Short.step {timers timers' : TimerManager C} {op : TimerManager.Op C}
    (hshort : Short timers) (hsound : timers.Sound []) (hop : ShortPeriod op)
    (hstep : timers.step op = some timers') : Short timers' := by
  intro p hp
  rw [hsound.deref_step hstep p] at hp ⊢
  have harmed := TimerManager.armed_outcome hp
  generalize timers.outcome p op = timer at harmed ⊢
  cases harmed with
  | kept hcb => exact hshort p hcb
  | made => exact hop
  | refreshed hcb => exact hshort p hcb
  | reset hcb => exact hop
  | fired hexp =>
    apply hshort p
    exact hsound.mem_iff.mp (TimerManager.mem_timers_of_mem_expired hexp)

/-- The time that `getNextTimer` returns covers the timers. -/
theorem covers_getNextTimer {timers : TimerManager C} {watch : TimerManager.Watch}
    (htimed : TimerManager.Timed (timers, watch)) (hshort : Short timers) {now : UInt64}
    (hnow : watch.clock ≤ now) : Wait.Covers ⟨now, (timers.getNextTimer now).2⟩ timers := by
  intro p hp
  obtain ⟨first, hfirst, hle⟩ := htimed.sound.head_next_le hp
  have hcb := htimed.sound.mem_iff.mp (List.mem_of_head? hfirst)
  have hms := hshort first hcb
  have hdeadline := htimed.deadline first hcb
  have hpast := UInt64.le_iff_toNat_le.mp (UInt64.le_trans (htimed.past first hcb) hnow)
  have htimeout : (timers.getNextTimer now).2 =
      if (timers.deref first).next ≤ now then 0 else (timers.deref first).next - now := by
    unfold TimerManager.getNextTimer
    dsimp only
    split
    · rename_i hnil
      rw [hnil] at hfirst
      cases hfirst
    · rename_i hcons
      rw [hcons] at hfirst
      cases hfirst
      rfl
  rw [UInt64.le_iff_toNat_le] at hle
  dsimp only at hdeadline hpast hle ⊢
  rw [htimeout]
  split
  · exact ⟨by decide, Nat.le_max_left ..⟩
  · rename_i hlate
    have hlt := UInt64.lt_iff_toNat_lt.mp (UInt64.not_le.mp hlate)
    rw [UInt64.toNat_sub_of_le _ _ (UInt64.le_of_lt (UInt64.not_le.mp hlate))]
    omega

/-! ## The invariant -/

/-- Some worker does not look at the timers before it waits. -/
def Tickling.Asleep (s : Tickling C) : Prop :=
  ∃ w ∈ s.workers, w.timerAttention = .asleep

/-- While a worker sleeps, a wakeup is on its way or some worker is awake, or one of the workers
that sleep comes back in time for the timers. -/
def Timely (x : Tickling C × Readings) : Prop :=
  x.1.Asleep → x.1.Alert Worker.timerAttention ∨
    ∃ i w, x.1.workers[i]? = some w ∧ w.timerAttention = .asleep ∧
      (x.2.waits i).InTime x.1.timers

/-- What holds after every step. -/
structure Vigilant (x : Tickling C × Readings) : Prop where
  counted : x.1.Counted
  timed : TimerManager.Timed (x.1.timers, x.2.watch)
  short : Short x.1.timers
  /-- Only a worker that has found no timers goes on with `stopping()`. -/
  waits : ∀ i w, x.1.workers[i]? = some w → w.timerAttention = .asleep → w.pc ≠ .idle .wait →
    (x.2.waits i).next_timeout = infinite
  /-- `m_tickled` is set only while a wakeup is on its way. -/
  tickled : x.1.timers.tickled = true → x.1.Asleep → x.1.Alert Worker.timerAttention
  attended : x.1.Asleep → x.1.Alert Worker.timerAttention ∨
    ∃ i w, x.1.workers[i]? = some w ∧ w.timerAttention = .asleep ∧
      (x.2.waits i).Covers x.1.timers

/-- With that some worker is in time. -/
theorem Vigilant.timely {x : Tickling C × Readings} (hx : Vigilant x) : Timely x := by
  intro hasleep
  rcases hx.attended hasleep with halert | ⟨i, w, hw, hsleeps, hcovers⟩
  · exact Or.inl halert
  · exact Or.inr ⟨i, w, hw, hsleeps, hcovers.inTime⟩

/-! ## What a step does to the timers -/

/-- The timers after a step; a notification is a call of `tickle`. -/
theorem step_timers (hr : Regular (s, h) a) (hst : s.step a = some t) :
    TimerStep s.timers (s.timerOp a) t.timers ∧
      ∀ op ∈ s.timerOp a, s.timers.notifies op = true → t.Alert Worker.timerAttention := by
  -- a step that leaves the timers alone
  have hnone (hop : s.timerOp a = none) (htimers : t.timers = s.timers) :
      TimerStep s.timers (s.timerOp a) t.timers ∧
        ∀ op ∈ s.timerOp a, s.timers.notifies op = true → t.Alert Worker.timerAttention := by
    rw [hop, htimers]
    exact ⟨.none, nofun⟩
  cases Tickling.step_stepped hst with
  | @manager b m step =>
    have hcalls (hn : 0 < s.toManager.tickles b) :
        s.pending ++ List.replicate (s.toManager.tickles b) b.thread ≠ [] := by
      apply List.append_ne_nil_of_right_ne_nil
      simp only [ne_eq, List.replicate_eq_nil_iff]
      exact Nat.ne_of_gt hn
    obtain ⟨i, mv, w, m, w', rfl, hw, hm, rfl⟩ | ⟨i, c, x, m, x', rfl, hx, hm, rfl⟩ |
      ⟨rfl, -, rfl⟩ | ⟨rfl, -, rfl⟩ := Manager.step_cases step
    · have hop : s.timerOp (.manager (.worker i mv)) = w.timerOp mv := by
        simp only [Tickling.timerOp, Manager.timerOp, hw, Option.bind_some]
      obtain ⟨hstep, hnot⟩ := move_timers s.workers.length hm fun c hc =>
        hr.1 c (by rw [hc]; rfl)
      rw [hop]
      refine ⟨hstep, fun op hmem hyes => Or.inl (hcalls ?_)⟩
      simpa only [Manager.tickles, hw] using hnot op hmem hyes
    · obtain ⟨hstep, hnot⟩ := act_timers hm (hr.1 c rfl)
      refine ⟨hstep, fun op hmem hyes => Or.inl (hcalls ?_)⟩
      simp only [Manager.tickles, hx, hnot op hmem hyes]
      exact Nat.one_pos
    · exact hnone rfl rfl
    · exact hnone rfl rfl
  | @wake i events m step =>
    refine hnone rfl ?_
    obtain ⟨j, mv, w, m, w', heq, hw, hm, rfl⟩ | ⟨_, _, _, _, _, heq, -⟩ | ⟨heq, -⟩ | ⟨heq, -⟩ :=
      Manager.step_cases step
    · cases heq
      cases Worker.moved hm with
      | loop pc step =>
        cases Worker.looped step
        rfl
    · cases heq
    · cases heq
    · cases heq
  | claim | drop | write | drain => exact hnone rfl rfl

/-- The guard on the operation of a step. -/
theorem Regular.timerOp (hr : Regular (s, h) a) {op : TimerManager.Op C}
    (hop : s.timerOp a = some op) :
    TimerManager.Forward (s.timers, h.watch) op ∧ TimerManager.NoWrap (s.timers, h.watch) op ∧
      ShortPeriod op := by
  cases a with
  | manager b => exact hr.2 op hop
  | _ => cases hop

/-- A step keeps the deadlines right and the periods short. -/
theorem Vigilant.step_timed (hx : Vigilant (s, h)) (hr : Regular (s, h) a)
    (hst : s.step a = some t) :
    TimerManager.Timed (t.timers, (Readings.record s a t h).watch) ∧ Short t.timers := by
  have hstep := (step_timers hr hst).1
  dsimp only [Readings.record]
  cases hop : s.timerOp a with
  | none =>
    rw [hop] at hstep
    generalize t.timers = timers at hstep ⊢
    cases hstep
    exact ⟨hx.timed, hx.short⟩
  | some op =>
    obtain ⟨hforward, hwrap, hperiod⟩ := hr.timerOp hop
    rw [hop] at hstep
    generalize t.timers = timers at hstep ⊢
    cases hstep with
    | some step =>
      exact ⟨hx.timed.step hforward hwrap step, hx.short.step hx.timed.sound hperiod step⟩

/-- Without a wakeup on its way, the flag stays clear and no timer comes before those that
were there. -/
theorem Vigilant.alert_or_covers (hx : Vigilant (s, h)) (hr : Regular (s, h) a)
    (hst : s.step a = some t) (hasleep : s.Asleep)
    (halert : s.Alert Worker.timerAttention → t.Alert Worker.timerAttention) :
    t.Alert Worker.timerAttention ∨
      t.timers.tickled = false ∧
        ∀ wait : Wait, wait.Covers s.timers → wait.Covers t.timers := by
  cases htick : s.timers.tickled with
  | true => exact Or.inl (halert (hx.tickled htick hasleep))
  | false =>
    obtain ⟨hstep, hnotify⟩ := step_timers hr hst
    cases hop : s.timerOp a with
    | none =>
      right
      rw [hop] at hstep
      generalize t.timers = timers at hstep ⊢
      cases hstep
      exact ⟨htick, fun _ => id⟩
    | some op =>
      obtain ⟨hforward, hwrap, -⟩ := hr.timerOp hop
      cases hnot : s.timers.notifies op with
      | true => exact Or.inl (hnotify op hop hnot)
      | false =>
        right
        rw [hop] at hstep
        generalize t.timers = timers at hstep ⊢
        cases hstep with
        | some step =>
          constructor
          · by_cases hget : ∃ now, op = .getNextTimer now
            · obtain ⟨now, rfl⟩ := hget
              cases step
              exact TimerManager.getNextTimer_tickled now s.timers
            · have hframe := (TimerManager.step_frame step).tickled fun now heq => hget ⟨now, heq⟩
              rw [hframe, htick, hnot]
              rfl
          · intro wait hcovers p hp
            have hcb := (hx.timed.sound.step step).mem_iff.mp hp
            obtain ⟨q, hq, hle⟩ := hx.timed.next_step hforward hwrap step htick hnot hcb
            obtain ⟨hshort, hbound⟩ := hcovers q hq
            rw [UInt64.le_iff_toNat_le] at hle
            dsimp only at hbound hle
            exact ⟨hshort, by omega⟩

/-! ## What a step does to the workers -/

/-- A step after which a wakeup is on its way. -/
theorem Vigilant.of_alert {x : Tickling C × Readings} (hcounted : x.1.Counted)
    (htimed : TimerManager.Timed (x.1.timers, x.2.watch) ∧ Short x.1.timers)
    (hwaits : ∀ i w, x.1.workers[i]? = some w → w.timerAttention = .asleep →
      w.pc ≠ .idle .wait → (x.2.waits i).next_timeout = infinite)
    (halert : x.1.Alert Worker.timerAttention) : Vigilant x :=
  ⟨hcounted, htimed.1, htimed.2, hwaits, fun _ _ => halert, fun _ => Or.inl halert⟩

/-- A step after which the same workers sleep, or one less. -/
theorem Vigilant.of_still (hx : Vigilant (s, h)) (hr : Regular (s, h) a)
    (hst : s.step a = some t)
    (hwaits : ∀ i w, t.workers[i]? = some w → w.timerAttention = .asleep →
      w.pc ≠ .idle .wait → ((Readings.record s a t h).waits i).next_timeout = infinite)
    (hkept : (Readings.record s a t h).waits = h.waits) (hasleep : t.Asleep → s.Asleep)
    (halert : s.Alert Worker.timerAttention → t.Alert Worker.timerAttention)
    (hstays : ∀ i w, s.workers[i]? = some w → w.timerAttention = .asleep →
      (∃ w', t.workers[i]? = some w' ∧ w'.timerAttention = .asleep) ∨
        (h.waits i).next_timeout = infinite) :
    Vigilant (t, Readings.record s a t h) := by
  obtain ⟨htimed, hshort⟩ := hx.step_timed hr hst
  have hcounted := Tickling.step_counted hx.counted hst
  refine ⟨hcounted, htimed, hshort, hwaits, fun htick hsleeps => ?_, fun hsleeps => ?_⟩
  · rcases hx.alert_or_covers hr hst (hasleep hsleeps) halert with ht | ⟨hclear, -⟩
    · exact ht
    · rw [show t.timers.tickled = true from htick] at hclear
      cases hclear
  · rcases hx.alert_or_covers hr hst (hasleep hsleeps) halert with ht | ⟨-, hcovers⟩
    · exact Or.inl ht
    rcases hx.attended (hasleep hsleeps) with hs | ⟨i, w, hw, hsleep, hcover⟩
    · exact Or.inl (halert hs)
    · right
      dsimp only
      rw [hkept]
      rcases hstays i w hw hsleep with ⟨w', hw', hsleep'⟩ | hinf
      · exact ⟨i, w', hw', hsleep', hcovers _ hcover⟩
      · -- the worker has found no timers, so any other worker that sleeps will do
        have hnil := hcover.timers_eq_nil hinf
        obtain ⟨v, hv, hsleep'⟩ := hsleeps
        obtain ⟨j, hj⟩ := List.mem_iff_getElem?.mp hv
        refine ⟨j, v, hj, hsleep', hcovers _ fun p hp => ?_⟩
        rw [hnil] at hp
        cases hp

/-- A worker that replaces one that is not awake leaves the others awake. -/
theorem exists_awake_set {ws : List (Worker C)} {i : Nat} {w : Worker C} (w' : Worker C)
    (hw : ws[i]? = some w) (hne : w.timerAttention ≠ .awake)
    (h : ∃ v ∈ ws, v.timerAttention = .awake) : ∃ v ∈ ws.set i w', v.timerAttention = .awake := by
  obtain ⟨v, hv, hawake⟩ := h
  refine ⟨v, mem_set_of_ne w' hv hw ?_, hawake⟩
  rintro rfl
  exact hne hawake

/-- The waits of the other workers are as they were. -/
theorem Vigilant.waits_set (hx : Vigilant (s, h)) {i : Nat} {w' : Worker C} {waits : Nat → Wait}
    (hkept : ∀ j, j ≠ i → waits j = h.waits j)
    (hnew : w'.timerAttention = .asleep → w'.pc ≠ .idle .wait →
      (waits i).next_timeout = infinite) (j : Nat) (v : Worker C)
    (hv : (s.workers.set i w')[j]? = some v) (hsleep : v.timerAttention = .asleep)
    (hpc : v.pc ≠ .idle .wait) : (waits j).next_timeout = infinite := by
  rw [List.getElem?_set] at hv
  split at hv
  · rename_i hij
    subst hij
    split at hv
    · cases hv
      exact hnew hsleep hpc
    · cases hv
  · rename_i hij
    rw [hkept j fun heq => hij heq.symm]
    exact hx.waits j v hv hsleep hpc

/-- A worker that is about to read the next timer. -/
theorem timerOp_probe {i : Nat} {w : Worker C} (now : UInt64) (hw : s.workers[i]? = some w)
    (hpc : w.pc = .idle (.probe .timer)) :
    s.timerOp (.manager (.worker i (.probe now))) = some (.getNextTimer now) := by
  simp only [Tickling.timerOp, Manager.timerOp, hw, Option.bind_some, Worker.timerOp, hpc]

/-- The timers after it has read the next one. -/
theorem timers_of_probe {i : Nat} {now : UInt64}
    (hr : Regular (s, h) (.manager (.worker i (.probe now))))
    (hst : s.step (.manager (.worker i (.probe now))) = some t)
    (hop : s.timerOp (.manager (.worker i (.probe now))) = some (.getNextTimer now)) :
    t.timers = (s.timers.getNextTimer now).1 := by
  have hstep := (step_timers hr hst).1
  rw [hop] at hstep
  generalize t.timers = timers at hstep ⊢
  cases hstep with
  | some step =>
    cases step
    rfl

/-- A step of a worker. -/
theorem Vigilant.worker (hx : Vigilant (s, h)) {i : Nat} {mv : Move C} {w w' : Worker C}
    {m : Members C} (hr : Regular (s, h) (.manager (.worker i mv)))
    (hst : s.step (.manager (.worker i mv)) = some t) (hw : s.workers[i]? = some w)
    (hm : w.move i s.toMembers mv = some (m, w')) (hworkers : t.workers = s.workers.set i w')
    {calls : List Thread} (hpending : t.pending = s.pending ++ calls)
    (hwriting : t.writing = s.writing) (hsignal : t.signalled = s.signalled) :
    Vigilant (t, Readings.record s (.manager (.worker i mv)) t h) := by
  have hself : t.workers[i]? = some w' := by
    rw [hworkers, List.getElem?_set_self (List.getElem?_eq_some_iff.mp hw).1]
  have hcounted := Tickling.step_counted hx.counted hst
  have htimed := hx.step_timed hr hst
  -- the worker that has moved is the only one whose wait may have changed
  have hwaits (hnew : w'.timerAttention = .asleep → w'.pc ≠ .idle .wait →
      ((Readings.record s (.manager (.worker i mv)) t h).waits i).next_timeout = infinite)
      (j : Nat) (v : Worker C) (hv : t.workers[j]? = some v) :=
    hx.waits_set (fun j => Readings.waits_of_ne) hnew j v (hworkers ▸ hv)
  cases move_watches hm with
  | awake attention =>
    refine .of_alert hcounted htimed (hwaits fun hsleep => ?_) ?_
    · rw [attention] at hsleep
      cases hsleep
    · exact Or.inr (Or.inr (Or.inr ⟨w', List.mem_of_getElem? hself, attention⟩))
  | same attention waits reads =>
    have hreads : s.reads (.manager (.worker i mv)) = none := Readings.reads_eq_none hw reads
    have hkept := Readings.waits_of_reads_none (t := t) (h := h) hreads
    have hset {x : Attention} : (∃ v ∈ t.workers, v.timerAttention = x) ↔
        ∃ v ∈ s.workers, v.timerAttention = x := by
      rw [hworkers]
      exact Tickling.exists_attention_set hw attention
    refine hx.of_still hr hst (hwaits ?_) hkept hset.mp ?_ ?_
    · intro hsleep _
      rw [hkept]
      exact hx.waits i w hw (attention ▸ hsleep) waits
    · exact fun halert => halert.of_same hpending hwriting hsignal hset.mpr
    · intro j v hv hsleep
      by_cases hij : i = j
      · subst hij
        rw [hw] at hv
        cases hv
        exact Or.inl ⟨w', hself, attention.trans hsleep⟩
      · refine Or.inl ⟨v, ?_, hsleep⟩
        rw [hworkers, List.getElem?_set_ne hij]
        exact hv
  | @reads now pc asleep none =>
    have hself' : (Readings.record s (.manager (.worker i (.probe now))) t h).waits i =
        ⟨now, (s.timers.getNextTimer now).2⟩ := Readings.waits_self hw pc
    have hop := timerOp_probe now hw pc
    have htimers := timers_of_probe hr hst hop
    have hclear : t.timers.tickled = false := by rw [htimers, TimerManager.getNextTimer_tickled]
    refine ⟨hcounted, htimed.1, htimed.2, hwaits fun _ hpc => ?_, fun htick => ?_, fun _ => ?_⟩
    · rw [hself']
      exact none hpc
    · rw [show t.timers.tickled = true from htick] at hclear
      cases hclear
    · refine Or.inr ⟨i, w', hself, asleep, ?_⟩
      dsimp only
      rw [hself', htimers]
      intro p hp
      rw [TimerManager.getNextTimer_timers] at hp
      rw [TimerManager.getNextTimer_deref]
      exact covers_getNextTimer hx.timed hx.short ((hr.timerOp hop).1 now rfl) p hp
  | @leaves now pc absent =>
    have hsleep : w.timerAttention = .asleep := by simp only [Worker.timerAttention, pc]
    have hreads : s.reads (.manager (.worker i (.probe now))) = none :=
      Readings.reads_eq_none hw (by simp [pc])
    have hkept := Readings.waits_of_reads_none (t := t) (h := h) hreads
    refine hx.of_still hr hst (hwaits ?_) hkept ?_ ?_ ?_
    · intro hsleep'
      rw [absent] at hsleep'
      cases hsleep'
    · exact fun _ => ⟨w, List.mem_of_getElem? hw, hsleep⟩
    · refine fun halert => halert.of_same hpending hwriting hsignal fun hawake => ?_
      rw [hworkers]
      exact exists_awake_set w' hw (by rw [hsleep]; exact Attention.noConfusion) hawake
    · intro j v hv hsleep'
      by_cases hij : i = j
      · subst hij
        rw [hw] at hv
        cases hv
        exact Or.inr (hx.waits i w hw hsleep (by simp [pc]))
      · refine Or.inl ⟨v, ?_, hsleep'⟩
        rw [hworkers, List.getElem?_set_ne hij]
        exact hv

/-- The call of `stop` changes no worker that sleeps. -/
theorem callStop_timerAttention (alone : Bool) (w : Worker C) :
    Worker.timerAttention (w.callStop alone) = w.timerAttention := by
  unfold Worker.callStop
  split
  · rename_i hpc
    simp only [Worker.timerAttention, hpc, Scheduler.Worker.goto]
  · rfl

/-- The call of `stop` wakes nobody up. -/
theorem callStop_eq_of_asleep {alone : Bool} {w : Worker C}
    (hsleep : Worker.timerAttention (w.callStop alone) = .asleep) : w.callStop alone = w := by
  unfold Worker.callStop at hsleep ⊢
  split at hsleep
  · cases hsleep
  · rfl

/-- A step of the manager. -/
theorem Vigilant.manager (hx : Vigilant (s, h)) {b : Manager.Step C} {m : Manager C}
    (hr : Regular (s, h) (.manager b)) (hst : s.step (.manager b) = some t)
    (step : s.toManager.step b = some m) (ht : t.toManager = m) {calls : List Thread}
    (hpending : t.pending = s.pending ++ calls) (hwriting : t.writing = s.writing)
    (hsignal : t.signalled = s.signalled) :
    Vigilant (t, Readings.record s (.manager b) t h) := by
  -- a step that replaces no worker that sleeps
  have hstill (hreads : s.reads (.manager b) = none)
      (hmem : ∀ {x : Attention}, (∃ w ∈ t.workers, w.timerAttention = x) ↔
        ∃ w ∈ s.workers, w.timerAttention = x)
      (hsame : ∀ (i : Nat) (w : Worker C), w.timerAttention = .asleep →
        (t.workers[i]? = some w ↔ s.workers[i]? = some w)) :
      Vigilant (t, Readings.record s (.manager b) t h) := by
    have hkept := Readings.waits_of_reads_none (t := t) (h := h) hreads
    refine hx.of_still hr hst ?_ hkept hmem.mp ?_ ?_
    · intro i w hw hsleep hpc
      rw [hkept]
      exact hx.waits i w ((hsame i w hsleep).mp hw) hsleep hpc
    · exact fun halert => halert.of_same hpending hwriting hsignal hmem.mpr
    · exact fun i w hw hsleep => Or.inl ⟨w, (hsame i w hsleep).mpr hw, hsleep⟩
  obtain ⟨i, mv, w, m, w', rfl, hw, hm, rfl⟩ | ⟨i, c, x, m, x', rfl, -, -, rfl⟩ | ⟨rfl, -, rfl⟩ |
    ⟨rfl, -, rfl⟩ := Manager.step_cases step
  · exact hx.worker hr hst hw hm (by rw [ht]) hpending hwriting hsignal
  · have hworkers : t.workers = s.workers := by rw [ht]
    exact hstill rfl (by rw [hworkers]) fun _ _ _ => by rw [hworkers]
  · have hworkers : t.workers = s.workers.map (Worker.callStop (s.workers.length = 1)) := by
      rw [ht]
    refine hstill rfl ?_ fun i w hsleep => ?_
    · simp only [hworkers, List.mem_map, exists_exists_and_eq_and, callStop_timerAttention,
        implies_true]
    · rw [hworkers, List.getElem?_map, Option.map_eq_some_iff]
      constructor
      · rintro ⟨v, hv, rfl⟩
        rw [callStop_eq_of_asleep hsleep]
        exact hv
      · intro hw
        refine ⟨w, hw, callStop_eq_of_asleep ?_⟩
        rw [callStop_timerAttention, hsleep]
  · have hworkers : t.workers = s.workers := by rw [ht]
    exact hstill rfl (by rw [hworkers]) fun _ _ _ => by rw [hworkers]

/-- Every step under the conditions on the clock keeps the timers attended to. -/
theorem Vigilant.step (hx : Vigilant (s, h)) (hr : Regular (s, h) a)
    (hst : s.step a = some t) : Vigilant (t, Readings.record s a t h) := by
  have hcounted := Tickling.step_counted hx.counted hst
  have htimed := hx.step_timed hr hst
  cases Tickling.step_stepped hst with
  | manager step => exact hx.manager hr hst step rfl rfl rfl rfl
  | claim idle =>
    exact .of_alert hcounted htimed hx.waits (Or.inr (Or.inl (List.cons_ne_nil _ _)))
  | drop none =>
    -- a worker that sleeps would have been counted
    have hnone : ¬ s.Asleep := by
      rintro ⟨w, hw, hsleep⟩
      have hcount := hx.counted.count
      have hpos : 0 < Tickling.idlers s.workers :=
        List.countP_pos_iff.mpr ⟨w, hw, Worker.idles_of_asleep hsleep⟩
      dsimp only at hcount
      omega
    exact ⟨hcounted, htimed.1, htimed.2, hx.waits, fun _ hsleep => absurd hsleep hnone,
      fun hsleep => absurd hsleep hnone⟩
  | write =>
    refine .of_alert hcounted htimed hx.waits (Or.inr (Or.inr (Or.inl ?_)))
    simp [Tickling.signalled]
  | @wake i events m step =>
    obtain ⟨j, mv, w, m, w', heq, hw, hm, rfl⟩ | ⟨_, _, _, _, _, heq, -⟩ | ⟨heq, -⟩ | ⟨heq, -⟩ :=
      Manager.step_cases step
    · cases heq
      have hawake : w'.timerAttention = .awake := by
        cases Worker.moved hm with
        | loop pc step =>
          cases Worker.looped step
          rfl
      refine .of_alert hcounted htimed ?_ ?_
      · refine hx.waits_set (fun _ _ => rfl) fun hsleep => ?_
        rw [hawake] at hsleep
        cases hsleep
      · exact Or.inr (Or.inr (Or.inr ⟨w', mem_set_self w' hw, hawake⟩))
    · cases heq
    · cases heq
    · cases heq
  | drain batch =>
    refine .of_alert hcounted htimed hx.waits (Or.inr (Or.inr (Or.inr ?_)))
    unfold Tickling.inBatch at batch
    split at batch
    · rename_i hw
      exact ⟨_, List.mem_of_getElem? hw, rfl⟩
    · cases batch

/-! ## Whole runs -/

theorem Vigilant.start {now : UInt64} {threads others : Nat} (use_caller : Bool)
    (hthreads : 0 < threads) :
    Vigilant ((Tickling.init now threads use_caller others : Tickling C), Readings.start now) := by
  have hnone : ¬ (Tickling.init now threads use_caller others : Tickling C).Asleep := by
    rintro ⟨w, hw, hsleep⟩
    obtain ⟨i, -, rfl⟩ := List.mem_map.mp hw
    split at hsleep <;> cases hsleep
  refine ⟨Tickling.init_counted hthreads, .start now, ?_, ?_, ?_, ?_⟩
  · intro p hp
    simp [Tickling.init, Manager.init, TimerManager.new, TimerManager.deref] at hp
  · exact fun i w hw hsleep => absurd ⟨w, List.mem_of_getElem? hw, hsleep⟩ hnone
  · exact fun _ hsleep => absurd hsleep hnone
  · exact fun hsleep => absurd hsleep hnone

/-- For any number of workers and of threads outside, and any order of their steps, under a clock
that does not go back and with periods of less than 25 days: while a worker sleeps, one of the
workers that sleep has passed `epoll_wait` a timeout that ends before every timer is due, or some
worker is going to look at the timers before it sleeps, or a wakeup is on its way. -/
theorem timers_attended {now : UInt64} {threads others : Nat} {use_caller : Bool}
    (hthreads : 0 < threads) {as : List (Tickling.Step C)}
    (hregular : Guarded (recorded Tickling.step Readings.record) Regular
      (Tickling.init now threads use_caller others, Readings.start now) as) :
    Along (recorded Tickling.step Readings.record) Timely
      (Tickling.init now threads use_caller others, Readings.start now) as := by
  refine along_of_guarded (I := Vigilant) ?_ ?_ (Vigilant.start use_caller hthreads) hregular
  · exact fun x b y hx hr hy => of_recorded hy fun t ht => hx.step hr ht
  · exact fun x hx => hx.timely

/-- The only worker waits for the first timer, and a thread outside adds one that is due before.
The worker gets the byte and waits again, until the new timer is due. -/
def earlierTimer : List (Tickling.Step Nat) :=
  [.manager (.outside 0 (.addTimer 16 5 1000 (some 1) false)), .check (.outside 0),
    .manager (.worker 0 .advance), .manager (.worker 0 .advance), .manager (.worker 0 (.probe 5)),
    .manager (.outside 0 (.addTimer 32 7 100 (some 2) false)), .check (.outside 0),
    .write (.outside 0), .wake 0 [], .manager (.worker 0 (.expire 48 8)),
    .manager (.worker 0 .push), .drain 0, .manager (.worker 0 .swapOut),
    .manager (.worker 0 .advance), .manager (.worker 0 .advance), .manager (.worker 0 .advance),
    .manager (.worker 0 (.probe 9))]

/-- A timer that is earlier than the one that is waited for. -/
theorem timers_attended_earlierTimer :
    (run (recorded Tickling.step Readings.record) (Tickling.init 1 1 false 1, Readings.start 1)
        earlierTimer).isSome ∧
      Along (recorded Tickling.step Readings.record) Timely
        (Tickling.init 1 1 false 1, Readings.start 1) earlierTimer :=
  ⟨by decide, timers_attended (by decide) (by decide)⟩

/-- A timer that is 25 days ahead is added before the only worker reads the timers. -/
def distantAlarm : List (Tickling.Step Nat) :=
  [.manager (.outside 0 (.addTimer 16 5 2147483648 (some 1) false)), .check (.outside 0),
    .manager (.worker 0 .advance), .manager (.worker 0 .advance), .manager (.worker 0 (.probe 5))]

/-- The worker waits without a bound, and nothing is going to wake it up. -/
theorem alarm_missed_distantAlarm :
    (run (recorded Tickling.step Readings.record) (Tickling.init 1 1 false 1, Readings.start 1)
        distantAlarm).isSome ∧
      ∀ x, run (recorded Tickling.step Readings.record)
          (Tickling.init 1 1 false 1, Readings.start 1) distantAlarm = some x →
        x.1.workers.map (·.pc) = [.idle .wait] ∧ x.1.timers.timers = [0] ∧
          ¬ x.1.Alert Worker.timerAttention ∧
          (poll (x.2.waits 0).next_timeout []).1 = [-2147483648] := by
  decide

end Xupeng.IOManager
