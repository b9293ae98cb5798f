import Xupeng.Models.Hook.Interpretation.Managed
import Xupeng.Models.Hook.Interpretation.Transfers

/-!
# Timeouts that are due

A callback that has left its timer is on its way until it has run. The timeout that it
reports has passed since its call began to wait, and that stays so.
-/

namespace Xupeng.Hook

variable {s t : System} {h : Transfers} {f : Nat} {act : Act} {a : Step}

/-! ## Timeouts that are due -/

/-- If the call with this `timer_info` is still in progress, it has a timeout, and the timeout has
passed at `bound` since the call began to wait. -/
def Due (x : System × Transfers) (tinfo bound : Nat) : Prop :=
  ∀ (f : Nat) w p, x.1.fibers[f]? = some (.waiting w p) → w.tinfo = tinfo → w.timeout ≠ ~~~0 ∧
    ∃ c began, x.2.calls f = some c ∧ c.began = some began ∧
      began.toNat + w.timeout.toNat ≤ bound

/-- A fiber that is in a call after its step was in it before, or has begun it. -/
theorem proceeds_waiting {pc : Pc} {act : Act} {u : System} {w : Wait} {p' : Point}
    (hp : Proceeds s f pc act u (.waiting w p')) :
    (∃ p, pc = .waiting w p) ∨ (∃ last, pc = .user last) ∧ w.tinfo = s.infos.length := by
  cases hp with
  | enterIo last => exact Or.inr ⟨⟨last, rfl⟩, rfl⟩
  | enterConnect last => exact Or.inr ⟨⟨last, rfl⟩, rfl⟩
  | _ => exact Or.inl ⟨_, rfl⟩

/-- The places of a fiber around its step. -/
theorem places_of_step (hstep : s.step (.fiber f act) = some t) :
    ∃ pc pc', s.fibers[f]? = some pc ∧ t.fibers[f]? = some pc' ∧ ∀ w p', pc' = .waiting w p' →
      (∃ p, pc = .waiting w p) ∨ ∃ last, pc = .user last := by
  obtain ⟨pc, hpc, ⟨e, rfl, -⟩ | ⟨u, pc', rfl, hproceeds⟩⟩ := System.step_ended hstep
  · exact ⟨pc, pc, hpc, hpc, fun w p' heq => Or.inl ⟨p', heq⟩⟩
  · refine ⟨pc, pc', hpc, System.proceeds_self hpc hproceeds, ?_⟩
    rintro w p' rfl
    exact (proceeds_waiting hproceeds).imp id And.left

/-- The same for every step, with the call of the history. -/
theorem waiting_of_step (hstep : s.step a = some t) {w : Wait} {p' : Point}
    (ht : t.fibers[f]? = some (.waiting w p')) :
    (∃ p, s.fibers[f]? = some (.waiting w p) ∧
      ((Transfers.record s a t h).calls f = h.calls f ∨
        ∃ act, a = .fiber f act ∧ (Transfers.record s a t h).calls f =
          (h.calls f).map (Transfer.next (w.answered s.process.kernel act) act.refused
            (s.reading a) (Transfers.record s a t h).clock (.waiting w p')))) ∨
      w.tinfo = s.infos.length ∧
        (Transfers.record s a t h).calls f = some ⟨w, [], none, false, none⟩ := by
  by_cases ha : ∃ act, a = .fiber f act
  · obtain ⟨act, rfl⟩ := ha
    obtain ⟨pc, hpc, ⟨e, rfl, -⟩ | ⟨u, pc', rfl, hproceeds⟩⟩ := System.step_ended hstep
    · refine Or.inl ⟨p', ht, Or.inr ⟨act, rfl, ?_⟩⟩
      exact Transfers.calls_waiting (p := p') ht ht
    · obtain rfl : pc' = .waiting w p' := by
        rw [System.proceeds_self hpc hproceeds] at ht
        exact Option.some.inj ht
      rcases proceeds_waiting hproceeds with ⟨p, rfl⟩ | ⟨⟨last, rfl⟩, htinfo⟩
      · exact Or.inl ⟨p, hpc, Or.inr ⟨act, rfl, Transfers.calls_waiting hpc ht⟩⟩
      · exact Or.inr ⟨htinfo, Transfers.calls_entered hpc ht⟩
  · have hne (act : Act) : a ≠ .fiber f act := fun heq => ha ⟨act, heq⟩
    rw [System.step_fibers hstep hne] at ht
    exact Or.inl ⟨p', ht, Or.inl (Transfers.calls_of_ne hne)⟩

/-- A timeout that is due stays so: a call keeps the time at which it began, and a new call has a
new `timer_info`. -/
theorem Due.step {tinfo bound bound' : Nat} (hdue : Due (s, h) tinfo bound)
    (hlt : tinfo < s.infos.length) (hle : bound ≤ bound') (hstep : s.step a = some t) :
    Due (t, Transfers.record s a t h) tinfo bound' := by
  intro f w p ht htinfo
  rcases waiting_of_step (h := h) hstep ht with ⟨p, hs, hcalls⟩ | ⟨hnew, -⟩
  · obtain ⟨htimeout, c, began, hc, hbegan, hpast⟩ := hdue f w p hs htinfo
    refine ⟨htimeout, ?_⟩
    rcases hcalls with heq | ⟨act, rfl, heq⟩
    · exact ⟨c, began, heq.trans hc, hbegan, hpast.trans hle⟩
    · rw [show h.calls f = some c from hc] at heq
      refine ⟨_, began, heq, ?_, hpast.trans hle⟩
      simp only [Transfer.next, hbegan, Option.some_or]
  · omega

/-! ## Callbacks on their way -/

/-- The callback has left its timer and has not come to its end. -/
def Callbacks.Flying (s : Callbacks) (c : Callback) : Prop :=
  (∃ cbs ∈ s.batches, c ∈ cbs) ∨ c ∈ s.queue ∨ ∃ stage, (c, stage) ∈ s.running

/-- A step of a fiber moves no callback. -/
theorem moved_callbacks (hm : Moved f s t) :
    t.batches = s.batches ∧ t.queue = s.queue ∧ t.running = s.running := by
  cases hm <;> exact ⟨rfl, rfl, rfl⟩

/-- A callback that is on its way was so before, or has just expired. -/
theorem served_flying (hsound : s.timers.Sound []) (hv : Served s a t) {c : Callback}
    (hc : t.Flying c) :
    s.Flying c ∨ ∃ addr now p, a = .expire addr now ∧ p ∈ s.timers.expired addr now ∧
      (s.timers.deref p).cb = some c := by
  cases hv with
  | expire addr now =>
    rcases hc with ⟨cbs, hcbs, hc⟩ | hc
    · rcases List.mem_append.mp hcbs with hcbs | hcbs
      · exact Or.inl (Or.inl ⟨cbs, hcbs, hc⟩)
      · rw [List.mem_singleton.mp hcbs, hsound.ordered.listExpiredCb_cbs, List.mem_filterMap] at hc
        obtain ⟨cb, hcb, hsome⟩ := hc
        obtain ⟨p, hp, rfl⟩ := List.mem_map.mp hcb
        exact Or.inr ⟨addr, now, p, rfl, hp, hsome⟩
    · exact Or.inl (Or.inr hc)
  | push i cbs hi =>
    left
    rcases hc with ⟨cbs', hcbs, hc⟩ | hc | hc
    · exact Or.inl ⟨cbs', List.mem_of_mem_eraseIdx hcbs, hc⟩
    · rcases List.mem_append.mp hc with hc | hc
      · exact Or.inr (Or.inl hc)
      · exact Or.inl ⟨cbs, List.mem_of_getElem? hi, hc⟩
    · exact Or.inr (Or.inr hc)
  | take i c' hi =>
    left
    rcases hc with hc | hc | ⟨stage, hc⟩
    · exact Or.inl hc
    · exact Or.inr (Or.inl (List.mem_of_mem_eraseIdx hc))
    · rcases List.mem_append.mp hc with hc | hc
      · exact Or.inr (Or.inr ⟨stage, hc⟩)
      · cases List.mem_singleton.mp hc
        exact Or.inr (Or.inl (List.mem_of_getElem? hi))
  | test i c' hi | set i c' hi =>
    left
    rcases hc with hc | hc | ⟨stage, hc⟩
    · exact Or.inl hc
    · exact Or.inr (Or.inl hc)
    · rcases List.mem_or_eq_of_mem_set hc with hc | hc
      · exact Or.inr (Or.inr ⟨stage, hc⟩)
      · cases hc
        exact Or.inr (Or.inr ⟨_, List.mem_of_getElem? hi⟩)
  | drop i c' hi | cancel i rt c' p r hi | missed i rt c' hi =>
    left
    rcases hc with hc | hc | ⟨stage, hc⟩
    · exact Or.inl hc
    · exact Or.inr (Or.inl hc)
    · exact Or.inr (Or.inr ⟨stage, List.mem_of_mem_eraseIdx hc⟩)
  | release | absent | process | abort => exact Or.inl hc

/-- A `timer_info` that is cancelled was so before, or a callback has just cancelled it. -/
theorem cancelled_of_served (hv : Served s a t) {i : Nat} (hi : t.cancelled i ≠ 0) :
    t.cancelled i = s.cancelled i ∨ t.cancelled i = ETIMEDOUT ∧ ∃ c, s.Flying c ∧ c.winfo = i := by
  cases hv with
  | set j c hj =>
    simp only [Shared.cancelled, List.getD_eq_getElem?_getD, List.getElem?_set] at hi ⊢
    split at hi
    · rename_i hji
      split at hi
      · right
        rename_i hlt
        rw [if_pos hji, if_pos hlt]
        exact ⟨rfl, c, Or.inr (Or.inr ⟨_, List.mem_of_getElem? hj⟩), hji⟩
      · exact absurd rfl hi
    · rename_i hji
      rw [if_neg hji]
      exact Or.inl rfl
  | _ => exact Or.inl rfl

/-! ## The timers -/

/-- What a step does to the timers. -/
theorem timers_cases (hstep : s.step a = some t) :
    t.timers = s.timers ∨
      (∃ f w addr now, a = .fiber f (.arm addr now) ∧ s.fibers[f]? = some (.waiting w .arm) ∧
        w.timeout ≠ ~~~0 ∧ s.timers.step
          (.addTimer addr now w.timeout (w.callback s.timers.heap.length) false) = some t.timers) ∨
      (∃ timer, s.timers.step (.cancel timer) = some t.timers) ∨
      ∃ addr now, a = .expire addr now ∧ t.timers = (s.timers.listExpiredCb addr now).1 := by
  have hstop {u : System} {timer : Option Nat} (hu : s.stop timer = some u) :
      u.timers = s.timers ∨ ∃ timer, s.timers.step (.cancel timer) = some u.timers := by
    cases timer with
    | none =>
      cases hu
      exact Or.inl rfl
    | some p =>
      obtain ⟨timers, hcancel, rfl⟩ := Option.map_eq_some_iff.mp hu
      exact Or.inr ⟨p, hcancel⟩
  by_cases ha : ∃ f act, a = .fiber f act
  · obtain ⟨f, act, rfl⟩ := ha
    obtain ⟨pc, hpc, ⟨e, rfl, -⟩ | ⟨u, pc', rfl, hproceeds⟩⟩ := System.step_ended hstep
    · exact Or.inl rfl
    · cases hproceeds with
      | arm w addr now timers hadd =>
        refine Or.inr (Or.inl ⟨f, w, addr, now, rfl, hpc, fun hinf => ?_, hadd⟩)
        have hwait := System.step_waiting hpc hstep
        simp only [System.wait, if_pos hinf, Option.some.injEq] at hwait
        have hself := System.goto_self (s := s) hpc (.waiting w (.register none))
        rw [hwait, System.goto_self (s := { s with timers := timers }) hpc] at hself
        cases hself
      | giveUp w timer u hu | skip w timer u hu | stop w timer u hu =>
        rcases hstop hu with hsame | hcancel
        · exact Or.inl hsame
        · exact Or.inr (Or.inr (Or.inl hcancel))
      | _ => exact Or.inl rfl
  · obtain ⟨f, act, rfl, -⟩ | hv := System.step_cases hstep
    · exact absurd ⟨f, act, rfl⟩ ha
    · cases hv with
      | expire addr now => exact Or.inr (Or.inr (Or.inr ⟨addr, now, rfl, rfl⟩))
      | _ => exact Or.inl rfl

end Xupeng.Hook
