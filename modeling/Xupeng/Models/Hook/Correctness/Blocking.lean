import Xupeng.Models.Hook.Correctness.Stranding
import Xupeng.Models.Hook.Interpretation.Due

/-!
# A hooked call is a blocking call with a timeout

The loop of `do_io` calls the original function again and again, but only after an
answer that says that nothing has happened. So the hooked function transfers data at
most once, and then returns what the original function has returned.

The timers of one call share one `timer_info`, and a callback that has left its timer
can still run while the call waits for the next time. So the wait that a timeout ends
can be shorter than the timeout; the call as a whole is not.
-/

namespace Xupeng.Hook

variable {s t : System} {h : Transfers} {f : Nat} {act : Act} {a : Step}

/-! ## What a call returns -/

/-- What a call of the read and write families has returned, with the clock reading at its end. -/
inductive Transfer.Outcome (c : Transfer) : Ret → UInt64 → Prop
  /-- The original function has answered, and only its last answer is not to call again. -/
  | answered {failed : List Ret} {r : Ret} {now : UInt64} (answers : c.answers = failed ++ [r])
      (again : ∀ a ∈ failed, Again a) (last : ¬ Again r) : Outcome c r now
  /-- Nothing has been transferred, and the timeout has passed since the call began to wait. -/
  | timedOut {start now : UInt64} (again : ∀ a ∈ c.answers, Again a)
      (timeout : c.wait.timeout ≠ ~~~0) (began : c.began = some start)
      (late : start.toNat + c.wait.timeout.toNat ≤ now.toNat) : Outcome c (.error ETIMEDOUT) now
  /-- Nothing has been transferred, and `epoll_ctl` has failed in `addEvent`. -/
  | unregistered {now : UInt64} (again : ∀ a ∈ c.answers, Again a) (refused : c.refused = true) :
    Outcome c ⟨-1, none⟩ now

/-- What the call has done so far: nothing, until it returns. -/
def Transfer.Faithful (c : Transfer) : Prop :=
  match c.ended with
  | none => ∀ a ∈ c.answers, Again a
  | some (r, now) => c.Outcome r now

/-- All calls of the read and write families that have come to their loops. -/
def Transfers.Faithful (h : Transfers) : Prop :=
  ∀ f c, h.calls f = some c → c.wait.fn.isConnect = false → c.Faithful

/-- A call that goes on. -/
theorem Transfer.faithful_waiting {c : Transfer} {answers : List Ret} {refused : Bool}
    {reading : Option UInt64} {clock : UInt64} {w : Wait} {p : Point} (hended : c.ended = none)
    (hagain : ∀ r ∈ c.answers ++ answers, Again r) :
    (c.next answers refused reading clock (.waiting w p)).Faithful := by
  have hnext : (c.next answers refused reading clock (.waiting w p)).ended = none := hended
  rw [Transfer.Faithful, hnext]
  exact hagain

/-! ## The original function -/

/-- What follows from the answer of the original function. -/
theorem attempt_cases {fn : IoFun} {fd : Int} {answer : Answer} {p q : Process} {turn : Turn}
    (hturn : attempt fn fd answer p = .ok turn q) :
    (turn = .again ∨ turn = .wait) ∧ Again (p.kernel.call (.io fn fd) answer).2 ∨
      turn = .ret (p.kernel.call (.io fn fd) answer).2 ∧
        ¬ Again (p.kernel.call (.io fn fd) answer).2 := by
  unfold attempt at hturn
  rw [Program.bind_of_ok (original_eq _ _ _)] at hturn
  generalize (p.kernel.call (.io fn fd) answer).2 = n at hturn ⊢
  split at hturn
  · rename_i hintr
    cases hturn
    exact Or.inl ⟨Or.inl rfl, hintr.1, Or.inl hintr.2⟩
  · rename_i hintr
    split at hturn
    · rename_i hagain
      cases hturn
      exact Or.inl ⟨Or.inr rfl, hagain.1, Or.inr hagain.2⟩
    · rename_i hagain
      right
      refine ⟨?_, fun hn => ?_⟩
      · obtain ⟨-, u, -, hret⟩ := Program.of_bind_eq_ok hturn
        cases hret
        rfl
      · rcases hn.2 with hn' | hn'
        · exact hintr ⟨hn.1, hn'⟩
        · exact hagain ⟨hn.1, hn'⟩

/-- The step at `retry`. -/
theorem retry_cases {w : Wait} {answer : Answer}
    (hpc : s.fibers[f]? = some (.waiting w .retry))
    (hstep : s.step (.fiber f (.retry answer)) = some t) :
    ∃ fn pc, w.fn = .io fn ∧ t.fibers[f]? = some pc ∧
      ((∃ p, pc = .waiting w p) ∧ Again (s.process.kernel.call (.io fn w.fd) answer).2 ∨
        pc = .user (some (s.process.kernel.call (.io fn w.fd) answer).2) ∧
          ¬ Again (s.process.kernel.call (.io fn w.fd) answer).2) := by
  have hwait := System.step_waiting hpc hstep
  simp only [System.wait] at hwait
  split at hwait
  · rename_i fn hfn
    obtain ⟨turn, process, hturn, hnext⟩ := System.exec_eq_some hwait
    have hself (pc : Pc) : ({ s with process := process }.goto f pc).fibers[f]? = some pc :=
      System.goto_self hpc pc
    rcases attempt_cases hturn with ⟨rfl | rfl, hagain⟩ | ⟨rfl, hlast⟩
    · cases hnext
      exact ⟨fn, _, hfn, hself _, Or.inl ⟨⟨_, rfl⟩, hagain⟩⟩
    · cases hnext
      exact ⟨fn, _, hfn, hself _, Or.inl ⟨⟨_, rfl⟩, hagain⟩⟩
    · cases hnext
      exact ⟨fn, _, hfn, hself _, Or.inr ⟨rfl, hlast⟩⟩
  · cases hwait

/-! ## The invariant -/

/-- What holds after every step: the timeouts whose callbacks are on their way are due, and no call
in progress has transferred anything. -/
structure Traced (x : System × Transfers) : Prop where
  sound : x.1.timers.Sound []
  previous : x.1.timers.previouseTime ≤ x.2.clock
  numbered : Numbered x.1.fibers x.1.infos.length
  timers : ∀ p c, (x.1.timers.deref p).cb = some c → (x.1.timers.deref p).recurring = false ∧
    c.winfo < x.1.infos.length ∧ Due x c.winfo (x.1.timers.deref p).next.toNat
  flying : ∀ c, x.1.Flying c → c.winfo < x.1.infos.length ∧ Due x c.winfo x.2.clock.toNat
  cancelled : ∀ i, x.1.cancelled i ≠ 0 → x.1.cancelled i = ETIMEDOUT ∧ i < x.1.infos.length ∧
    Due x i x.2.clock.toNat
  /-- Only `connect` reads `SO_ERROR`. -/
  finish : ∀ (f : Nat) w, x.1.fibers[f]? = some (.waiting w .finish) → w.fn.isConnect = true
  refused : ∀ (f : Nat) w timer, x.1.fibers[f]? = some (.waiting w (.unregistered timer)) →
    ∃ c, x.2.calls f = some c ∧ c.refused = true
  calls : ∀ (f : Nat) w p, x.1.fibers[f]? = some (.waiting w p) → ∃ c, x.2.calls f = some c ∧
    c.wait = w ∧ c.ended = none ∧ ∀ start, c.began = some start → start ≤ x.2.clock
  faithful : x.2.Faithful

namespace Traced

theorem start (n : Nat) (now : UInt64) (k : Kernel) :
    Traced (System.init n now k, Transfers.start now) where
  sound := TimerManager.new_sound now
  previous := UInt64.le_refl now
  numbered := by
    refine ⟨fun f w p hf => ?_, fun f g w w' p p' hf => ?_⟩
    · exact absurd hf System.init_not_waiting
    · exact absurd hf System.init_not_waiting
  timers p c hp := by simp [System.init, TimerManager.new, TimerManager.deref] at hp
  flying c hc := by
    rcases hc with ⟨cbs, hcbs, -⟩ | hc | ⟨stage, hc⟩
    · cases hcbs
    · cases hc
    · cases hc
  cancelled i hi := absurd rfl hi
  finish f w hf := absurd hf System.init_not_waiting
  refused f w timer hf := absurd hf System.init_not_waiting
  calls f w p hf := absurd hf System.init_not_waiting
  faithful f c hc := by cases hc

/-- The calls in progress keep their `timer_info` objects apart. -/
theorem step_numbered (hx : Traced (s, h)) (hstep : s.step a = some t) :
    Numbered t.fibers t.infos.length ∧ s.infos.length ≤ t.infos.length := by
  -- a step that makes no `timer_info`
  have hsame {l : List Pc} (hl : SameCalls l s.fibers) :
      Numbered l s.infos.length ∧ s.infos.length ≤ s.infos.length :=
    ⟨hx.numbered.mono hl, Nat.le_refl _⟩
  obtain ⟨f, act, rfl, hm⟩ | hv := System.step_cases hstep
  · cases hm with
    | enter last fn fd timeout p process hpc hp =>
      dsimp only [System.enter, System.goto]
      rw [List.length_append]
      exact ⟨hx.numbered.enter rfl, Nat.le_add_right ..⟩
    | go pc pc' process ready hpc hgoes => exact hsame (.goes hpc hgoes)
    | arm w addr now timers hpc | found w timer p hpc | grow w timer p hpc
    | register w timer p rt r hpc => exact hsame (.within hpc _)
    | stop w p timer pc timers hpc htimer hcancel hgoes =>
      refine hsame (SameCalls.set ?_)
      rintro w' p' rfl
      cases hgoes
      exact ⟨p, hpc⟩
    | cancelAll fd =>
      refine hsame (SameCalls.set ?_)
      rintro w p' ⟨⟩
    | abort => exact hsame (SameCalls.refl _)
  · cases hv with
    | set i c hi =>
      dsimp only
      rw [List.length_set]
      exact hsame (SameCalls.refl _)
    | _ => exact hsame (SameCalls.refl _)

/-- Only `connect` has something to do after its wait. -/
theorem step_finish (hx : Traced (s, h)) (hstep : s.step a = some t) {w : Wait}
    (ht : t.fibers[f]? = some (.waiting w .finish)) : w.fn.isConnect = true := by
  by_cases ha : ∃ act, a = .fiber f act
  · obtain ⟨act, rfl⟩ := ha
    obtain ⟨pc, hpc, ⟨e, rfl, -⟩ | ⟨u, pc', rfl, hproceeds⟩⟩ := System.step_ended hstep
    · exact hx.finish f w ht
    · rw [System.proceeds_self hpc hproceeds, Option.some.injEq] at ht
      cases hproceeds with
      | register w timer p rt r hadd => split at ht <;> cases ht
      | skip w timer u hu hconnect | goOn w hzero hconnect =>
        cases ht
        exact hconnect
      | _ => cases ht
  · rw [System.step_fibers hstep fun act heq => ha ⟨act, heq⟩] at ht
    exact hx.finish f w ht

/-- A call under way has its record, which agrees with where the fiber is. -/
theorem step_calls (hx : Traced (s, h)) (hclock : Clocked (s, h) a) (hstep : s.step a = some t)
    {w : Wait} {p : Point} (ht : t.fibers[f]? = some (.waiting w p)) :
    ∃ c, (Transfers.record s a t h).calls f = some c ∧ c.wait = w ∧ c.ended = none ∧
      ∀ start, c.began = some start → start ≤ (Transfers.record s a t h).clock := by
  have hle := Transfers.clock_le (t := t) hclock
  rcases waiting_of_step (h := h) hstep ht with ⟨p, hs, hcalls⟩ | ⟨-, hnew⟩
  · obtain ⟨c, hc, hwait, hended, hbegan⟩ := hx.calls f w p hs
    rcases hcalls with heq | ⟨act, rfl, heq⟩
    · exact ⟨c, heq.trans hc, hwait, hended, fun start hs => UInt64.le_trans (hbegan start hs) hle⟩
    · rw [show h.calls f = some c from hc] at heq
      refine ⟨_, heq, hwait, hended, fun start hstart => ?_⟩
      rcases Option.or_eq_some_iff.mp hstart with hold | ⟨-, hread⟩
      · exact UInt64.le_trans (hbegan start hold) hle
      · dsimp only [Transfers.record]
        rw [hread]
        exact UInt64.le_refl _
  · exact ⟨_, hnew, rfl, rfl, fun start hstart => by cases hstart⟩

/-- `do_io` cancels its timer and gives up only after a failed `addEvent`. -/
theorem step_refused (hx : Traced (s, h)) (hstep : s.step a = some t) {w : Wait}
    {timer : Option Nat} (ht : t.fibers[f]? = some (.waiting w (.unregistered timer))) :
    ∃ c, (Transfers.record s a t h).calls f = some c ∧ c.refused = true := by
  by_cases ha : ∃ act, a = .fiber f act
  · obtain ⟨act, rfl⟩ := ha
    obtain ⟨pc, hpc, ⟨e, rfl, haborts⟩ | ⟨u, pc', rfl, hproceeds⟩⟩ := System.step_ended hstep
    · cases hpc.symm.trans ht
      cases haborts
    · have hself := System.proceeds_self hpc hproceeds
      have hpoint : pc' = .waiting w (.unregistered timer) :=
        Option.some.inj (hself.symm.trans ht)
      cases hproceeds with
      | register w' timer' p rt r hadd =>
        obtain ⟨c, hc, -⟩ := hx.calls f w' _ hpc
        have hcalls : (Transfers.record s (.fiber f (.addEvent rt)) _ h).calls f =
            (h.calls f).map _ := Transfers.calls_waiting hpc hself
        rw [show h.calls f = some c from hc] at hcalls
        refine ⟨_, hcalls, ?_⟩
        cases rt with
        | false => exact Bool.or_true _
        | true =>
          rw [addEvent_success hadd] at hpoint
          cases hpoint
      | _ => cases hpoint
  · have hne (act : Act) : a ≠ .fiber f act := fun heq => ha ⟨act, heq⟩
    rw [System.step_fibers hstep hne] at ht
    obtain ⟨c, hc, hrefused⟩ := hx.refused f w timer ht
    exact ⟨c, (Transfers.calls_of_ne hne).trans hc, hrefused⟩

/-- A timer that has just been armed is due when the timeout of its call has passed: the call began
to wait now or earlier. -/
theorem due_arm (hx : Traced (s, h)) {w : Wait} {addr : Nat} {now : UInt64}
    (hclock : Clocked (s, h) (.fiber f (.arm addr now)))
    (hstep : s.step (.fiber f (.arm addr now)) = some t)
    (hpc : s.fibers[f]? = some (.waiting w .arm)) (hinf : w.timeout ≠ ~~~0) :
    Due (t, Transfers.record s (.fiber f (.arm addr now)) t h) w.tinfo
      (now + w.timeout).toNat := by
  have harming : s.arming (.fiber f (.arm addr now)) = some (w, now) := by
    simp only [System.arming, hpc, if_neg hinf]
  have hread : s.reading (.fiber f (.arm addr now)) = some now := by
    simp only [System.reading, harming, Option.map_some]
  have hfits : now.toNat + w.timeout.toNat < 2 ^ 64 := hclock.2 _ harming
  have hpast (start : UInt64) (hle : start ≤ now) :
      start.toNat + w.timeout.toNat ≤ (now + w.timeout).toNat := by
    rw [UInt64.toNat_add, Nat.mod_eq_of_lt hfits]
    rw [UInt64.le_iff_toNat_le] at hle
    omega
  intro g v q hg hv
  -- the call that has armed the timer is the only one with its `timer_info`
  rcases waiting_of_step (h := h) hstep hg with ⟨q', hs, -⟩ | ⟨htinfo, -⟩
  · obtain rfl := hx.numbered.inj g f v w q' .arm hs hpc hv
    cases hs.symm.trans hpc
    obtain ⟨c, hc, -, -, hbegan⟩ := hx.calls g w .arm hpc
    have hcalls : (Transfers.record s (.fiber g (.arm addr now)) t h).calls g =
        (h.calls g).map _ := Transfers.calls_waiting hpc hg
    rw [show h.calls g = some c from hc] at hcalls
    cases hstart : c.began with
    | none =>
      refine ⟨hinf, _, now, hcalls, ?_, hpast now (UInt64.le_refl _)⟩
      simp only [Transfer.next, hstart, Option.none_or, hread]
    | some start =>
      refine ⟨hinf, _, start, hcalls, ?_, hpast start ?_⟩
      · simp only [Transfer.next, hstart, Option.some_or]
      · exact UInt64.le_trans (hbegan start hstart) (hclock.1 now hread)
  · have hlt : w.tinfo < s.infos.length := hx.numbered.lt f w .arm hpc
    have hwinfo : w.tinfo = s.infos.length := hv.symm.trans htinfo
    omega

/-- The last time at which the timers were listed is no later than the clock. -/
theorem step_previous (hx : Traced (s, h)) (hclock : Clocked (s, h) a)
    (hstep : s.step a = some t) :
    t.timers.previouseTime ≤ (Transfers.record s a t h).clock := by
  have hprevious : s.timers.previouseTime ≤ (Transfers.record s a t h).clock :=
    UInt64.le_trans hx.previous (Transfers.clock_le hclock)
  -- only `listExpiredCb` sets it
  have hkept {op : TimerManager.Op Callback} (hs : s.timers.step op = some t.timers)
      (hop : ∀ addr now, op ≠ .listExpiredCb addr now) :
      t.timers.previouseTime ≤ (Transfers.record s a t h).clock := by
    rcases (TimerManager.step_frame hs).previouseTime with heq | ⟨addr, now, heq, -⟩
    · rw [heq]
      exact hprevious
    · exact absurd heq (hop addr now)
  rcases timers_cases hstep with hsame | ⟨f, w, addr, now, rfl, -, -, hadd⟩ | ⟨timer, hcancel⟩ |
    ⟨addr, now, rfl, hexp⟩
  · rw [hsame]
    exact hprevious
  · exact hkept hadd fun _ _ heq => by cases heq
  · exact hkept hcancel fun _ _ heq => by cases heq
  · have hs : s.timers.step (.listExpiredCb addr now) = some t.timers := congrArg some hexp.symm
    rcases (TimerManager.step_frame hs).previouseTime with heq | ⟨_, _, heq, htime⟩
    · rw [heq]
      exact hprevious
    · cases heq
      rw [htime]
      exact UInt64.le_refl _

/-- The timers after a step. -/
theorem step_timers (hx : Traced (s, h)) (hclock : Clocked (s, h) a)
    (hstep : s.step a = some t) :
    t.timers.Sound [] ∧ ∀ p c, (t.timers.deref p).cb = some c →
      (t.timers.deref p).recurring = false ∧ c.winfo < t.infos.length ∧
        Due (t, Transfers.record s a t h) c.winfo (t.timers.deref p).next.toNat := by
  have hinfos := (hx.step_numbered hstep).2
  -- a timer that is as it was
  have hkept {p : Nat} {c : Callback} (hp : (s.timers.deref p).cb = some c) :
      (s.timers.deref p).recurring = false ∧ c.winfo < t.infos.length ∧
        Due (t, Transfers.record s a t h) c.winfo (s.timers.deref p).next.toNat := by
    obtain ⟨hrec, hlt, hdue⟩ := hx.timers p c hp
    exact ⟨hrec, Nat.lt_of_lt_of_le hlt hinfos, hdue.step hlt (Nat.le_refl _) hstep⟩
  rcases timers_cases hstep with hsame | ⟨f, w, addr, now, rfl, hpc, hinf, hadd⟩ |
    ⟨timer, hcancel⟩ | ⟨addr, now, rfl, hexp⟩
  · rw [hsame]
    exact ⟨hx.sound, fun p c => hkept⟩
  · refine ⟨hx.sound.step hadd, fun p c hp => ?_⟩
    rw [hx.sound.deref_step hadd p] at hp ⊢
    dsimp only [TimerManager.outcome] at hp ⊢
    split at hp
    · rename_i hnew
      rw [if_pos hnew]
      cases hp
      have hlt : w.tinfo < s.infos.length := hx.numbered.lt f w .arm hpc
      exact ⟨rfl, Nat.lt_of_lt_of_le hlt hinfos, hx.due_arm hclock hstep hpc hinf⟩
    · rename_i hold
      rw [if_neg hold]
      exact hkept hp
  · refine ⟨hx.sound.step hcancel, fun p c hp => ?_⟩
    rw [hx.sound.deref_step hcancel p] at hp ⊢
    dsimp only [TimerManager.outcome] at hp ⊢
    split at hp
    · cases hp
    · rename_i hne
      rw [if_neg hne]
      exact hkept hp
  · have hs : s.timers.step (.listExpiredCb addr now) = some t.timers := congrArg some hexp.symm
    refine ⟨hx.sound.step hs, fun p c hp => ?_⟩
    rw [hx.sound.deref_step hs p] at hp ⊢
    dsimp only [TimerManager.outcome] at hp ⊢
    split at hp
    · -- the timers are not recurring, so one that has expired has lost its callback
      unfold TimerManager.fired at hp
      split at hp
      · rename_i hrec
        rw [(hx.timers p c hp).1] at hrec
        cases hrec
      · cases hp
    · rename_i hne
      rw [if_neg hne]
      exact hkept hp

/-- The callbacks on their way after a step. -/
theorem step_flying (hx : Traced (s, h)) (hclock : Clocked (s, h) a) (hstep : s.step a = some t)
    {c : Callback} (hc : t.Flying c) :
    c.winfo < t.infos.length ∧
      Due (t, Transfers.record s a t h) c.winfo (Transfers.record s a t h).clock.toNat := by
  have hle := UInt64.le_iff_toNat_le.mp (Transfers.clock_le (t := t) hclock)
  have hinfos := (hx.step_numbered hstep).2
  have hold (hs : s.Flying c) : c.winfo < t.infos.length ∧
      Due (t, Transfers.record s a t h) c.winfo (Transfers.record s a t h).clock.toNat := by
    obtain ⟨hlt, hdue⟩ := hx.flying c hs
    exact ⟨Nat.lt_of_lt_of_le hlt hinfos, hdue.step hlt hle hstep⟩
  obtain ⟨f, act, rfl, hm⟩ | hv := System.step_cases hstep
  · obtain ⟨hbatches, hqueue, hrunning⟩ := moved_callbacks hm
    apply hold
    rw [Callbacks.Flying, hbatches, hqueue, hrunning] at hc
    exact hc
  · rcases served_flying hx.sound hv hc with hs | ⟨addr, now, p, rfl, hexp, hcb⟩
    · exact hold hs
    · obtain ⟨-, hlt, hdue⟩ := hx.timers p c hcb
      have hnow : h.clock ≤ now := hclock.1 now rfl
      have hnext : (s.timers.deref p).next ≤ now :=
        hx.sound.ordered.next_le_of_mem_expired hexp (UInt64.le_trans hx.previous hnow)
      refine ⟨Nat.lt_of_lt_of_le hlt hinfos, hdue.step hlt ?_ hstep⟩
      exact UInt64.le_iff_toNat_le.mp hnext

/-- The `timer_info` objects after a step. -/
theorem step_cancelled (hx : Traced (s, h)) (hclock : Clocked (s, h) a)
    (hstep : s.step a = some t) {i : Nat} (hi : t.cancelled i ≠ 0) :
    t.cancelled i = ETIMEDOUT ∧ i < t.infos.length ∧
      Due (t, Transfers.record s a t h) i (Transfers.record s a t h).clock.toNat := by
  have hle := UInt64.le_iff_toNat_le.mp (Transfers.clock_le (t := t) hclock)
  have hinfos := (hx.step_numbered hstep).2
  have hold (hs : t.cancelled i = s.cancelled i) : t.cancelled i = ETIMEDOUT ∧
      i < t.infos.length ∧
        Due (t, Transfers.record s a t h) i (Transfers.record s a t h).clock.toNat := by
    rw [hs] at hi ⊢
    obtain ⟨heq, hlt, hdue⟩ := hx.cancelled i hi
    exact ⟨heq, Nat.lt_of_lt_of_le hlt hinfos, hdue.step hlt hle hstep⟩
  obtain ⟨f, act, rfl, hm⟩ | hv := System.step_cases hstep
  · exact hold (by rw [System.moved_cancelled hm])
  · rcases cancelled_of_served hv hi with hs | ⟨heq, c, hc, rfl⟩
    · exact hold hs
    · obtain ⟨hlt, hdue⟩ := hx.flying c hc
      exact ⟨heq, Nat.lt_of_lt_of_le hlt hinfos, hdue.step hlt hle hstep⟩

/-- A call in progress has transferred nothing. -/
theorem again_of_calls (hx : Traced (s, h)) {c : Transfer} (hc : h.calls f = some c)
    (hended : c.ended = none) (hio : c.wait.fn.isConnect = false) : ∀ r ∈ c.answers, Again r := by
  have hfaithful := hx.faithful f c hc hio
  rw [Transfer.Faithful, hended] at hfaithful
  exact hfaithful

/-- A call after a step at `retry`. -/
theorem step_retry (hx : Traced (s, h)) {answer : Answer}
    (hstep : s.step (.fiber f (.retry answer)) = some t) {w : Wait} {p : Point} {pc : Pc}
    (hs : s.fibers[f]? = some (.waiting w p)) (ht : t.fibers[f]? = some pc) {c : Transfer}
    (hc : h.calls f = some c) (hwait : c.wait = w) (hended : c.ended = none)
    (hio : w.fn.isConnect = false) (refused : Bool) (reading : Option UInt64) (clock : UInt64) :
    (c.next (w.answered s.process.kernel (.retry answer)) refused reading clock pc).Faithful := by
  have hagain := hx.again_of_calls hc hended (hwait ▸ hio)
  obtain rfl : p = .retry := by
    have hnext := System.step_waiting hs hstep
    cases p with
    | retry => rfl
    | _ => cases hnext
  obtain ⟨fn, pc', hfn, ht', hcases⟩ := retry_cases hs hstep
  obtain rfl : pc = pc' := Option.some.inj (ht.symm.trans ht')
  have hanswered : w.answered s.process.kernel (.retry answer) =
      [(s.process.kernel.call (.io fn w.fd) answer).2] := by
    simp only [Wait.answered, hfn]
  rw [hanswered]
  rcases hcases with ⟨⟨q, rfl⟩, hr⟩ | ⟨rfl, hr⟩
  · apply Transfer.faithful_waiting hended
    exact List.forall_mem_append.mpr ⟨hagain, List.forall_mem_singleton.mpr hr⟩
  · exact Transfer.Outcome.answered rfl hagain hr

/-- A call after any step of its fiber. -/
theorem step_own (hx : Traced (s, h)) (hclock : Clocked (s, h) (.fiber f act))
    (hstep : s.step (.fiber f act) = some t) {w : Wait} {p : Point} {pc : Pc}
    (hs : s.fibers[f]? = some (.waiting w p)) (ht : t.fibers[f]? = some pc)
    {c : Transfer} (hc : h.calls f = some c) (hwait : c.wait = w) (hended : c.ended = none)
    (hio : w.fn.isConnect = false) :
    (c.next (w.answered s.process.kernel act) act.refused (s.reading (.fiber f act))
      (Transfers.record s (.fiber f act) t h).clock pc).Faithful := by
  by_cases hretry : ∃ answer, act = .retry answer
  · obtain ⟨answer, rfl⟩ := hretry
    exact hx.step_retry hstep hs ht hc hwait hended hio _ _ _
  -- the original function is called at `retry` only
  have hanswered : c.answers ++ w.answered s.process.kernel act = c.answers := by
    unfold Wait.answered
    split
    · exact absurd ⟨_, rfl⟩ hretry
    · exact List.append_nil _
  have hagain : ∀ r ∈ c.answers ++ w.answered s.process.kernel act, Again r := by
    rw [hanswered]
    exact hx.again_of_calls hc hended (hwait ▸ hio)
  have hle := UInt64.le_iff_toNat_le.mp (Transfers.clock_le (t := t) hclock)
  obtain ⟨pc₀, hpc₀, ⟨e, rfl, -⟩ | ⟨u, pc', rfl, hproceeds⟩⟩ := System.step_ended hstep
  · obtain rfl : pc = .waiting w p := Option.some.inj (ht.symm.trans hs)
    exact Transfer.faithful_waiting hended hagain
  · obtain rfl : pc₀ = .waiting w p := Option.some.inj (hpc₀.symm.trans hs)
    obtain rfl : pc = pc' :=
      Option.some.inj (ht.symm.trans (System.proceeds_self hs hproceeds))
    cases hproceeds with
    | again | wait | done => exact absurd ⟨_, rfl⟩ hretry
    | giveUp _ timer =>
      obtain ⟨c', hc', hrefused⟩ := hx.refused f w timer hs
      obtain rfl : c = c' := Option.some.inj (hc.symm.trans hc')
      exact Transfer.Outcome.unregistered hagain (Bool.or_eq_true_iff.mpr (Or.inl hrefused))
    | timedOut _ hcancelled =>
      obtain ⟨hvalue, -, hdue⟩ := hx.cancelled w.tinfo hcancelled
      obtain ⟨htimeout, c', start, hc', hstart, hpast⟩ := hdue f w .check hs rfl
      obtain rfl : c = c' := Option.some.inj (hc.symm.trans hc')
      rw [hvalue]
      refine Transfer.Outcome.timedOut hagain (hwait ▸ htimeout) (Option.or_eq_some_iff.mpr
        (Or.inl hstart)) ?_
      change start.toNat + c.wait.timeout.toNat ≤ _
      rw [hwait]
      exact hpast.trans hle
    | unknown | connected | refused =>
      rw [hx.finish f w hs] at hio
      cases hio
    | _ => exact Transfer.faithful_waiting hended hagain

/-- All calls after a step. -/
theorem step_faithful (hx : Traced (s, h)) (hclock : Clocked (s, h) a)
    (hstep : s.step a = some t) : (Transfers.record s a t h).Faithful := by
  intro f c hc hio
  by_cases ha : ∃ act, a = .fiber f act
  · obtain ⟨act, rfl⟩ := ha
    obtain ⟨pc, pc', hs, ht, hfrom⟩ := places_of_step hstep
    cases pc with
    | waiting w p =>
      obtain ⟨c', hc', hwait, hended, -⟩ := hx.calls f w p hs
      have hcalls : (Transfers.record s (.fiber f act) t h).calls f = (h.calls f).map _ :=
        Transfers.calls_waiting hs ht
      rw [show h.calls f = some c' from hc', Option.map_some] at hcalls
      obtain rfl := Option.some.inj (hcalls.symm.trans hc)
      exact hx.step_own hclock hstep hs ht hc' hwait hended (hwait ▸ hio)
    | user last =>
      cases pc' with
      | waiting w p =>
        obtain rfl := Option.some.inj ((Transfers.calls_entered hs ht).symm.trans hc)
        exact List.forall_mem_nil _
      | user | closing =>
        exact hx.faithful f c ((Transfers.calls_outside hs ht rfl rfl).symm.trans hc) hio
    | closing fd stage =>
      have htinfo : pc'.tinfo = none := by
        cases pc' with
        | waiting w p => rcases hfrom w p rfl with ⟨_, hw⟩ | ⟨_, hu⟩ <;> contradiction
        | user | closing => rfl
      exact hx.faithful f c ((Transfers.calls_outside hs ht rfl htinfo).symm.trans hc) hio
  · have hne (act : Act) : a ≠ .fiber f act := fun heq => ha ⟨act, heq⟩
    exact hx.faithful f c ((Transfers.calls_of_ne hne).symm.trans hc) hio

protected theorem step (hx : Traced (s, h)) (hclock : Clocked (s, h) a)
    (hstep : s.step a = some t) : Traced (t, Transfers.record s a t h) where
  sound := (hx.step_timers hclock hstep).1
  previous := hx.step_previous hclock hstep
  numbered := (hx.step_numbered hstep).1
  timers := (hx.step_timers hclock hstep).2
  flying _ := hx.step_flying hclock hstep
  cancelled _ := hx.step_cancelled hclock hstep
  finish _ _ := hx.step_finish hstep
  refused _ _ _ := hx.step_refused hstep
  calls _ _ _ := hx.step_calls hclock hstep
  faithful := hx.step_faithful hclock hstep

end Traced

/-- A hooked function of the read and write families is a blocking call with a timeout: whatever
the other fibers and the callbacks of the timers do, it returns the one answer of the original
function that is not to call again, or it has transferred nothing. It reports a timeout only
when the timeout of the call has passed since it began to wait, and fails without an answer only
when `epoll_ctl` has failed. -/
theorem io_calls_faithful (n : Nat) (now : UInt64) (k : Kernel) (as : List Step)
    (hg : Guarded (recorded System.step Transfers.record) Clocked
      (System.init n now k, Transfers.start now) as) :
    Along (recorded System.step Transfers.record) (fun x => x.2.Faithful)
      (System.init n now k, Transfers.start now) as := by
  apply along_of_guarded (I := Traced) ?_ ?_ (Traced.start n now k) hg
  · intro x a y hx hclock hr
    exact of_recorded hr fun t hs => hx.step hclock hs
  · intro x hx
    exact hx.faithful

/-- A `read` whose timeout expires while its fiber is suspended. -/
theorem io_calls_faithful_lateTimeout :
    Along (recorded System.step Transfers.record) (fun x => x.2.Faithful)
      (System.init 2 0 emptyKernel, Transfers.start 0) lateTimeout := by
  have hg : Guarded (recorded System.step Transfers.record) Clocked
      (System.init 2 0 emptyKernel, Transfers.start 0) lateTimeout := by decide +kernel
  exact io_calls_faithful 2 0 emptyKernel lateTimeout hg

end Xupeng.Hook
