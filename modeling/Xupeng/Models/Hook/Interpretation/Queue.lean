import Xupeng.Models.Hook.Interpretation.Steps
import Xupeng.Models.IOManager.Interpretation.Slots

/-!
# Where a waiting fiber is

From `addEvent` until a worker takes it a fiber is held by one context of the event table,
or it is in the queue of the scheduler: never in both, and never twice. A fiber that does
not wait is in neither of them.
-/

namespace Xupeng.Hook

open IOManager (Empties FdContext Moves Result)

/-- The call that the fiber is suspended in, or about to be. -/
def Pc.asleepIn : Pc → Option Wait
  | .waiting w (.yield _) | .waiting w (.suspended _) => some w
  | _ => none

/-- The call that a fiber has registered its event for. -/
def System.asleepIn (s : System) (f : Nat) : Option Wait := s.fibers[f]?.bind Pc.asleepIn

/-- How often a context holds the fiber. -/
def Shared.held (s : Shared) (p : ContextPtr) (f : Nat) : Nat :=
  (s.contexts p).pending.count ((), .fiber f)

variable {s t u : System} {f : Nat}

/-! ## What a step does to the table and the queue -/

/-- Every step, by what it does to the event table, the queue, and the fibers that wait. -/
inductive Shifted (s t : System) : Prop
  | stays (hcontexts : t.contexts = s.contexts) (hready : t.ready = s.ready)
    (hasleep : t.asleepIn = s.asleepIn)
  | released (p : ContextPtr) (r : Result Unit Nat Empty)
    (hmoves : Moves (s.contexts p) r.ctx r.effects)
    (hempties : Empties (s.contexts p) r.ctx r.effects)
    (hcontexts : t.contexts = Function.update s.contexts p r.ctx)
    (hready : t.ready = s.ready ++ r.effects.filterMap scheduled)
    (hasleep : t.asleepIn = s.asleepIn)
  | registered (f : Nat) (w : Wait) (p : ContextPtr) (ctx : FdContext Unit Nat Empty)
    (hawake : s.asleepIn f = none) (hgood : ctx.Good)
    (hpending : ctx.pending = (s.contexts p).pending + {((), .fiber f)})
    (hcontexts : t.contexts = Function.update s.contexts p ctx)
    (hready : t.ready = s.ready) (hasleep : t.asleepIn = Function.update s.asleepIn f (some w))
  | resumed (f : Nat) (hqueued : f ∈ s.ready) (hcontexts : t.contexts = s.contexts)
    (hready : t.ready = s.ready.erase f)
    (hasleep : t.asleepIn = Function.update s.asleepIn f none)

/-- Where a fiber is decides whether it is asleep. -/
theorem System.asleepIn_of_pc {pc : Pc} (h : s.fibers[f]? = some pc) :
    s.asleepIn f = pc.asleepIn := by
  rw [System.asleepIn, h]
  rfl

/-- No other fiber falls asleep. -/
theorem System.asleepIn_goto {pc : Pc} (h : s.fibers[f]? = some pc) (pc' : Pc) :
    (s.goto f pc').asleepIn = Function.update s.asleepIn f pc'.asleepIn := by
  funext g
  by_cases hg : g = f
  · subst hg
    rw [Function.update_self, System.asleepIn_of_pc (System.goto_self h pc')]
  · rw [Function.update_of_ne hg, System.asleepIn, System.asleepIn, System.goto,
      List.getElem?_set_ne (Ne.symm hg)]

/-- A fiber that goes on outside of its wait, or within it. -/
theorem System.asleepIn_goto_same {pc pc' : Pc} (h : s.fibers[f]? = some pc)
    (hsame : pc'.asleepIn = pc.asleepIn) : (s.goto f pc').asleepIn = s.asleepIn := by
  rw [System.asleepIn_goto h, hsame, ← System.asleepIn_of_pc h, Function.update_eq_self]

/-- A fiber stops its timer and goes on. -/
theorem Shifted.stop {pc pc' : Pc} {timer : Option Nat} (h : s.fibers[f]? = some pc)
    (hsame : pc'.asleepIn = pc.asleepIn) (hstop : s.stop timer = some u) :
    Shifted s (u.goto f pc') := by
  cases timer with
  | none =>
    cases hstop
    exact .stays rfl rfl (System.asleepIn_goto_same h hsame)
  | some p =>
    obtain ⟨timers, -, rfl⟩ := Option.map_eq_some_iff.mp hstop
    exact .stays rfl rfl (System.asleepIn_goto_same h hsame)

/-- The sections of a `Release` empty slots. -/
theorem Release.empties {c : FdContext Unit Nat Empty} (hgood : c.Good) {fd : Nat} {rt : Bool}
    {r : Result Unit Nat Empty} (release : Release)
    (h : (release.toSection fd).exec rt c = .ok r) : Empties c r.ctx r.effects := by
  cases release with
  | cancelEvent event => exact (IOManager.cancelEvent_slots hgood h).1
  | cancelAll => exact IOManager.cancelAll_empties hgood h

/-- A section that empties slots hands their fibers over. -/
theorem Shifted.release (hgood : ∀ p, (s.contexts p).Good) {p : ContextPtr} {rt : Bool}
    (sec : IOManager.Section Unit Nat Empty) {r : Result Unit Nat Empty}
    (h : sec.exec rt (s.contexts p) = .ok r) (hempties : Empties (s.contexts p) r.ctx r.effects)
    (hcontexts : t.contexts = (s.after p r).contexts) (hready : t.ready = (s.after p r).ready)
    (hasleep : t.asleepIn = s.asleepIn) : Shifted s t :=
  .released p r (IOManager.Section.moves (hgood p) _ h) hempties hcontexts hready hasleep

/-- `addEvent` fails if `epoll_ctl` does. -/
theorem addEvent_success {c : FdContext Unit Nat Empty} {event : IOManager.Event} {fd : Nat}
    {rt : Bool} {r : Result Unit Nat Empty}
    (h : c.addEvent ⟨(), f, .EXEC⟩ fd event none rt = .ok r) : r.success = rt := by
  unfold FdContext.addEvent at h
  split at h
  · cases h
  · dsimp only at h
    cases rt with
    | false =>
      cases h
      rfl
    | true =>
      obtain ⟨ctx, -, h⟩ := IOManager.bind_eq_ok.mp h
      split at h
      · cases h
      · cases h
        rfl

/-- `addEvent` stores the fiber if `epoll_ctl` succeeds, and otherwise nothing happens. -/
theorem addEvent_pending {c : FdContext Unit Nat Empty} (hgood : c.Good) {event : IOManager.Event}
    {fd : Nat} {rt : Bool} {r : Result Unit Nat Empty}
    (h : c.addEvent ⟨(), f, .EXEC⟩ fd event none rt = .ok r) :
    r.effects.filterMap scheduled = [] ∧
      (rt = false ∧ r.ctx = c ∨ rt = true ∧ r.ctx.pending = c.pending + {((), .fiber f)}) := by
  have hledger := (IOManager.Section.moves hgood (.addEvent ⟨(), f, .EXEC⟩ fd event none) h).ledger
  unfold FdContext.addEvent at h
  split at h
  · cases h
  · dsimp only at h
    cases rt with
    | false =>
      cases h
      exact ⟨rfl, Or.inl ⟨rfl, rfl⟩⟩
    | true =>
      obtain ⟨ctx, -, h⟩ := IOManager.bind_eq_ok.mp h
      split at h
      · cases h
      · cases h
        refine ⟨rfl, Or.inr ⟨rfl, ?_⟩⟩
        simpa [IOManager.Effect.registered?, IOManager.Effect.scheduled?,
          IOManager.Effect.dropped?] using hledger.symm

/-- A fiber that registers its event. -/
theorem Shifted.register (hgood : ∀ p, (s.contexts p).Good) {w : Wait} {timer : Option Nat}
    {p : ContextPtr} {rt : Bool} {r : Result Unit Nat Empty}
    (hpc : s.fibers[f]? = some (.waiting w (.locked timer p)))
    (h : (s.contexts p).addEvent ⟨(), f, .EXEC⟩ w.fd.toNat w.fn.event none rt = .ok r) :
    Shifted s ((s.after p r).goto f
      (.waiting w (if r.success then .yield timer else .unregistered timer))) := by
  have hsuccess := addEvent_success h
  obtain ⟨hnone, hcases⟩ := addEvent_pending (hgood p) h
  have hready : (s.after p r).ready = s.ready := by
    rw [System.after, hnone, List.append_nil]
  obtain ⟨rfl, hctx⟩ | ⟨rfl, hpending⟩ := hcases
  · have hcontexts : (s.after p r).contexts = s.contexts := by
      rw [System.after, hctx, Function.update_eq_self]
    rw [hsuccess]
    exact .stays hcontexts hready (System.asleepIn_goto_same hpc rfl)
  · have hkept := IOManager.Section.good (hgood p)
      (.addEvent ⟨(), f, .EXEC⟩ w.fd.toNat w.fn.event none) h
    rw [hsuccess]
    exact .registered f w p r.ctx (System.asleepIn_of_pc hpc) hkept hpending rfl hready
      (System.asleepIn_goto hpc _)

/-- A statement of a fiber that touches the contexts or not. -/
theorem proceeds_shifted (hgood : ∀ p, (s.contexts p).Good) {pc pc' : Pc} {a : Act}
    (hpc : s.fibers[f]? = some pc) (h : Proceeds s f pc a u pc') : Shifted s (u.goto f pc') := by
  cases h with
  | register w timer p rt r hadd => exact .register hgood hpc hadd
  | giveUp w timer u hstop hio => exact .stop hpc rfl hstop
  | skip w timer u hstop hconnect => exact .stop hpc rfl hstop
  | stop w timer u hstop => exact .stop hpc rfl hstop
  | resume w timer hqueued => exact .resumed f hqueued rfl rfl (System.asleepIn_goto hpc _)
  | cancelAll fd p rt r hall =>
    exact .release hgood (.cancelAll fd.toNat) hall
      (IOManager.cancelAll_empties (hgood p) hall) rfl rfl (System.asleepIn_goto_same hpc rfl)
  | _ => exact .stays rfl rfl (System.asleepIn_goto_same hpc rfl)

/-- Every step, while the event table is in order. -/
theorem step_shifted (hgood : ∀ p, (s.contexts p).Good) {a : Step} (h : s.step a = some t) :
    Shifted s t := by
  obtain ⟨f, act, rfl, -⟩ | hserved := System.step_cases h
  · obtain ⟨pc, hpc, ⟨e, rfl, -⟩ | ⟨u, pc', rfl, hproceeds⟩⟩ := System.step_ended h
    · exact .stays rfl rfl rfl
    · exact proceeds_shifted hgood hpc hproceeds
  · cases hserved with
    | release fd rt release p r hr =>
      exact .release hgood (release.toSection fd) hr (release.empties (hgood p) hr) rfl rfl rfl
    | process p rt event r hr =>
      exact .release hgood (.process event) hr (IOManager.process_empties (hgood p) hr) rfl
        rfl rfl
    | cancel i rt c p r hi hp hr =>
      exact .release hgood (.cancelEvent c.fd.toNat c.event) hr
        (IOManager.cancelEvent_slots (hgood p) hr).1 rfl rfl rfl
    | _ => exact .stays rfl rfl rfl

/-! ## One place for every fiber that waits -/

/-- A fiber that waits is held by one context or queued, once; any other is neither. -/
structure Placed (s : System) : Prop where
  good : ∀ p, (s.contexts p).Good
  once : ∀ p f, s.held p f + s.ready.count f ≤ 1
  alone : ∀ p q f, s.held p f ≠ 0 → s.held q f ≠ 0 → p = q
  held : ∀ p f, s.held p f ≠ 0 → (s.asleepIn f).isSome
  queued : ∀ f ∈ s.ready, (s.asleepIn f).isSome

/-- The fibers that the effects of a section hand over. -/
theorem count_scheduled (es : List (IOManager.Effect Unit Nat Empty)) (f : Nat) :
    (es.filterMap scheduled).count f =
      (total IOManager.Effect.scheduled? es).count ((), .fiber f) := by
  induction es with
  | nil => rfl
  | cons e es ih =>
    rw [total_cons, Multiset.count_add, ← ih]
    cases e with
    | schedule s task =>
      cases task with
      | fiber g =>
        change (g :: es.filterMap scheduled).count f = _
        rw [List.count_cons, IOManager.Effect.scheduled?, Multiset.count_singleton, Nat.add_comm]
        congr 1
        by_cases hg : g = f
        · simp [hg]
        · simp [hg, Ne.symm hg]
      | cb c => cases c
    | _ => exact (Nat.zero_add _).symm

/-- What a section hands over it no longer holds. -/
theorem held_released {c : FdContext Unit Nat Empty} {r : Result Unit Nat Empty}
    (hmoves : Moves c r.ctx r.effects) (hempties : Empties c r.ctx r.effects) (f : Nat) :
    r.ctx.pending.count ((), .fiber f) + (r.effects.filterMap scheduled).count f ≤
      c.pending.count ((), .fiber f) := by
  have hledger := hmoves.ledger
  rw [hempties.registered, add_zero] at hledger
  rw [hledger, count_scheduled, Multiset.count_add, Multiset.count_add]
  exact Nat.le_add_right _ _

namespace Placed

theorem init (n : Nat) (now : UInt64) (k : Kernel) : Placed (.init n now k) where
  good p := FdContext.new_good p.1
  once _ _ := Nat.zero_le 1
  alone _ _ _ h := absurd rfl h
  held _ _ h := absurd rfl h
  queued _ h := nomatch h

/-- A fiber that is awake is in neither place. -/
theorem of_awake (h : Placed s) (hawake : s.asleepIn f = none) (p : ContextPtr) :
    s.held p f = 0 ∧ f ∉ s.ready := by
  refine ⟨?_, fun hf => ?_⟩
  · by_contra hheld
    have hsome := h.held p f hheld
    rw [hawake] at hsome
    cases hsome
  · have hsome := h.queued f hf
    rw [hawake] at hsome
    cases hsome

/-- Who is held depends on the contexts only. -/
theorem held_of_contexts (h : t.contexts = s.contexts) : t.held = s.held := by
  unfold Shared.held
  rw [h]

/-- Nothing moves. -/
theorem stays (h : Placed s) (hcontexts : t.contexts = s.contexts) (hready : t.ready = s.ready)
    (hasleep : t.asleepIn = s.asleepIn) : Placed t := by
  have hheld := held_of_contexts hcontexts
  refine ⟨?_, ?_, ?_, ?_, ?_⟩
  · rw [hcontexts]
    exact h.good
  · rw [hheld, hready]
    exact h.once
  · rw [hheld]
    exact h.alone
  · rw [hheld, hasleep]
    exact h.held
  · rw [hready, hasleep]
    exact h.queued

/-- A section hands fibers over. -/
theorem released (h : Placed s) {p : ContextPtr} {r : Result Unit Nat Empty}
    (hmoves : Moves (s.contexts p) r.ctx r.effects)
    (hempties : Empties (s.contexts p) r.ctx r.effects)
    (hcontexts : t.contexts = Function.update s.contexts p r.ctx)
    (hready : t.ready = s.ready ++ r.effects.filterMap scheduled)
    (hasleep : t.asleepIn = s.asleepIn) : Placed t := by
  have hown (g : Nat) : t.held p g + (r.effects.filterMap scheduled).count g ≤ s.held p g := by
    rw [Shared.held, hcontexts, Function.update_self]
    exact held_released hmoves hempties g
  have hother {q : ContextPtr} (hne : q ≠ p) (g : Nat) : t.held q g = s.held q g := by
    rw [Shared.held, hcontexts, Function.update_of_ne hne]
    rfl
  have hheld {q : ContextPtr} {g : Nat} (hg : t.held q g ≠ 0) : s.held q g ≠ 0 := by
    by_cases hqp : q = p
    · have := hown g
      rw [hqp] at hg ⊢
      omega
    · rw [← hother hqp]
      exact hg
  refine ⟨fun q => ?_, fun q g => ?_, fun q q' g hq hq' => h.alone q q' g (hheld hq) (hheld hq'),
    fun q g hg => ?_, fun g hg => ?_⟩
  · rw [hcontexts, Function.update_apply]
    split
    · exact hmoves.good
    · exact h.good q
  · have hg := hown g
    have honce' := h.once p g
    rw [hready, List.count_append]
    by_cases hqp : q = p
    · rw [hqp]
      omega
    · -- a fiber that is handed over was held by `p` alone
      have honce := h.once q g
      rw [hother hqp]
      by_cases hzero : s.held q g = 0
      · omega
      · have hnot : s.held p g = 0 := by
          by_contra hp
          exact hqp (h.alone q p g hzero hp)
        omega
  · rw [hasleep]
    exact h.held q g (hheld hg)
  · rw [hready, List.mem_append] at hg
    rw [hasleep]
    obtain hg | hg := hg
    · exact h.queued g hg
    · have hpos := List.count_pos_iff.mpr hg
      have := hown g
      exact h.held p g (by omega)

/-- A fiber that was awake registers its event. -/
theorem registered (h : Placed s) {w : Wait} {p : ContextPtr} {ctx : FdContext Unit Nat Empty}
    (hawake : s.asleepIn f = none) (hgood : ctx.Good)
    (hpending : ctx.pending = (s.contexts p).pending + {((), .fiber f)})
    (hcontexts : t.contexts = Function.update s.contexts p ctx) (hready : t.ready = s.ready)
    (hasleep : t.asleepIn = Function.update s.asleepIn f (some w)) : Placed t := by
  have hheld (q : ContextPtr) (g : Nat) :
      t.held q g = s.held q g + if q = p ∧ g = f then 1 else 0 := by
    rw [Shared.held, hcontexts, Function.update_apply]
    by_cases hq : q = p
    · rw [if_pos hq, hpending, Multiset.count_add, Multiset.count_singleton, hq]
      simp [Shared.held]
    · simp [hq, Shared.held]
  -- the fiber is held by its new context alone, and the others as before
  have hown {q : ContextPtr} (hq : t.held q f ≠ 0) : q = p := by
    by_contra hne
    rw [hheld, if_neg fun heq => hne heq.1, (h.of_awake hawake q).1] at hq
    exact hq rfl
  have hother {q : ContextPtr} {g : Nat} (hg : g ≠ f) : t.held q g = s.held q g := by
    rw [hheld, if_neg fun heq => hg heq.2]
    rfl
  refine ⟨fun q => ?_, fun q g => ?_, fun q q' g hq hq' => ?_, fun q g hq => ?_, fun g hg => ?_⟩
  · rw [hcontexts, Function.update_apply]
    split
    · exact hgood
    · exact h.good q
  · rw [hheld, hready]
    split
    · rename_i heq
      obtain ⟨hnone, hnot⟩ := h.of_awake hawake q
      rw [heq.2, hnone, List.count_eq_zero_of_not_mem hnot]
    · exact h.once q g
  · by_cases hg : g = f
    · subst hg
      rw [hown hq, hown hq']
    · rw [hother hg] at hq hq'
      exact h.alone q q' g hq hq'
  · rw [hasleep, Function.update_apply]
    split
    · rfl
    · rename_i hg
      rw [hother hg] at hq
      exact h.held q g hq
  · rw [hready] at hg
    rw [hasleep, Function.update_apply]
    split
    · rfl
    · exact h.queued g hg

/-- A worker takes a fiber from the queue. -/
theorem resumed (h : Placed s) (hqueued : f ∈ s.ready) (hcontexts : t.contexts = s.contexts)
    (hready : t.ready = s.ready.erase f)
    (hasleep : t.asleepIn = Function.update s.asleepIn f none) : Placed t := by
  have hheld := held_of_contexts hcontexts
  have hpos := List.count_pos_iff.mpr hqueued
  refine ⟨fun p => ?_, fun p g => ?_, ?_, fun p g hg => ?_, fun g hg => ?_⟩
  · rw [hcontexts]
    exact h.good p
  · have honce := h.once p g
    have hless : (s.ready.erase f).count g ≤ s.ready.count g := List.erase_sublist.count_le g
    rw [hheld, hready]
    omega
  · rw [hheld]
    exact h.alone
  · rw [hheld] at hg
    have hne : g ≠ f := by
      rintro rfl
      have honce := h.once p g
      omega
    rw [hasleep, Function.update_of_ne hne]
    exact h.held p g hg
  · have hne : g ≠ f := by
      rintro rfl
      have honce := h.once (0, 0) g
      rw [hready] at hg
      have hleft := List.count_pos_iff.mpr hg
      rw [List.count_erase_self] at hleft
      omega
    rw [hready] at hg
    rw [hasleep, Function.update_of_ne hne]
    exact h.queued g (List.mem_of_mem_erase hg)

/-- Every step keeps it so. -/
theorem step (h : Placed s) {a : Step} (hs : s.step a = some t) : Placed t := by
  cases step_shifted h.good hs with
  | stays hcontexts hready hasleep => exact h.stays hcontexts hready hasleep
  | released p r hmoves hempties hcontexts hready hasleep =>
    exact h.released hmoves hempties hcontexts hready hasleep
  | registered f w p ctx hawake hgood hpending hcontexts hready hasleep =>
    exact h.registered hawake hgood hpending hcontexts hready hasleep
  | resumed f hqueued hcontexts hready hasleep => exact h.resumed hqueued hcontexts hready hasleep

end Placed

end Xupeng.Hook
