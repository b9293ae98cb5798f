import Xupeng.Core.Sole
import Xupeng.Models.Scheduler.Interpretation.Holding
import Xupeng.Models.Scheduler.Interpretation.Life

/-!
# Callbacks' fibers and their wakeups

The history of a run has the fibers that workers made for callbacks, how often each
has yielded to `HOLD`, and how often `schedule` was called for it. If there is at
most one wakeup for each yield to `HOLD`, made at the earliest while the callback
that is about to yield is executing, then every callback's fiber is at one stage of
its life in every state of a run.
-/

namespace Xupeng.Scheduler

variable {C A I : Type} {s s' : Scheduler C} {w w' : Worker C A I} {thread f : Nat}

/-- The fiber that the worker is executing. -/
def Pc.running : Pc C A I → Option Nat
  | .exec f _ _ => some f
  | _ => none

/-- A fiber that runs is in that stage. -/
theorem stage_of_running (h : w.pc.running = some f) : w.stage f = some .runs := by
  refine Worker.stage_of_some ?_
  unfold Pc.running at h
  split at h
  · rename_i hpc
    rw [hpc, Pc.stage, if_pos (Option.some.inj h)]
  · cases h

/-- A worker has to do only with fibers that it points to. -/
theorem Worker.stage_eq_none (h : ¬ w.Refers f) : w.stage f = none := by
  have hpc : w.pc.stage f = none := by
    have hnot : ¬ w.pc.Mentions f := fun hm => h (Or.inl hm)
    cases hw : w.pc <;> simp_all [Pc.stage, Pc.Mentions]
  rw [Worker.stage_of_none hpc]
  exact Worker.keeping_of_ne fun hcb => h (Or.inr hcb)

section Loop

variable [Inhabited A] [Inhabited I]

/-- A worker gets another `cb_fiber` only by making it. -/
theorem Statement.cbFiber (h : Statement thread s w s' w') (hf : w'.cbFiber = some f) :
    w.cbFiber = some f ∨ f = s.fibers.length ∧ s'.fibers.length = s.fibers.length + 1 := by
  cases h with
  | makeFiber => exact Or.inr ⟨(Option.some.inj hf).symm, by simp [newFiber]⟩
  | @requeue _ own | @hold _ own =>
    cases own with
    | true => cases hf
    | false => exact Or.inl hf
  | _ => exact Or.inl hf

/-- The only statement that makes a fiber makes it for a callback, and the worker goes on to start
it. -/
theorem Statement.makes (h : Statement thread s w s' w')
    (hlen : s.fibers.length < s'.fibers.length) :
    ∃ cb, s' = s.newFiber cb ∧ w'.stage s.fibers.length = some .starts := by
  cases h with
  | makeFiber => exact ⟨_, rfl, Worker.stage_of_some (by simp [Pc.stage])⟩
  | _ => simp [setFiber, schedule, fail] at hlen

end Loop

namespace System

variable {s t : System C} {a : Step C}

/-- What happened to the fibers of callbacks. -/
structure Wakeups where
  /-- The fibers that workers have made for callbacks. -/
  callbacks : List Nat
  /-- How often a fiber has yielded to `HOLD`. -/
  held : Nat → Nat
  /-- How often `schedule` was called for a fiber. -/
  woken : Nat → Nat

namespace Wakeups

variable {h : Wakeups}

def empty : Wakeups := ⟨[], fun _ => 0, fun _ => 0⟩

/-- The fibers that a step makes for a callback. -/
def made (s : System C) (a : Step C) (t : System C) : List Nat :=
  match a with
  | .worker _ .advance =>
    List.range' s.scheduler.fibers.length
      (t.scheduler.fibers.length - s.scheduler.fibers.length)
  | _ => []

/-- The fiber that yields to `HOLD` by a step. -/
def yields (s : System C) : Step C → Option Nat
  | .worker i (.leave .YieldToHold) => s.workers[i]?.bind (·.pc.running)
  | _ => none

/-- The entries of the call of `schedule` that a step is. -/
def calls : Step C → List (FiberAndThread C)
  | .outside act | .worker _ (.act act) => act.entries
  | _ => []

/-- The history after a step from `s` to `t`. -/
def record (s : System C) (a : Step C) (t : System C) (h : Wakeups) : Wakeups where
  callbacks := h.callbacks ++ made s a t
  held f := h.held f + if yields s a = some f then 1 else 0
  woken f := h.woken f + (calls a).countP fun ft => ft.fiber = some f

/-- A yield of the fiber to `HOLD` waits for its wakeup, or the fiber is executing and has had a
wakeup for every yield. -/
def mayWake (s : System C) (h : Wakeups) (f : Nat) : Bool :=
  h.woken f < h.held f || (h.woken f = h.held f && s.workers.any (·.pc.running = some f))

end Wakeups

/-- The only calls of `schedule` for a callback's fiber are one wakeup for each yield to `HOLD`;
one that comes before the yield is followed by it. -/
def WokenOnce (x : System C × Wakeups) : Step C → Prop
  | .outside act | .worker _ (.act act) =>
    ∀ f ∈ x.2.callbacks,
      (act.entries.countP fun ft => ft.fiber = some f) ≤ (x.2.mayWake x.1 f).toNat
  | .worker i (.leave exit) =>
    ∀ f ∈ x.2.callbacks, x.1.workers[i]?.bind (·.pc.running) = some f →
      x.2.held f < x.2.woken f → exit = .YieldToHold
  | _ => True

instance (x : System C × Wakeups) (a : Step C) : Decidable (WokenOnce x a) :=
  match a with
  | .outside _ | .worker _ (.act _) | .worker _ (.leave _) =>
    inferInstanceAs (Decidable (∀ f ∈ x.2.callbacks, _))
  | .worker _ .advance | .worker _ .probe | .stop | .setStopping => isTrue trivial

/-- Every callback's fiber is at one stage of its life. -/
structure Lives (x : System C × Wakeups) : Prop where
  known : x.1.Known
  made : ∀ f ∈ x.2.callbacks, f < x.1.scheduler.fibers.length
  keeps : ∀ w ∈ x.1.workers, ∀ f ∈ w.cbFiber, f ∈ x.2.callbacks
  owns : ∀ w ∈ x.1.workers, w.Owns
  fresh : ∀ f, x.1.scheduler.fibers.length ≤ f → x.2.held f = x.2.woken f
  fits : ∀ f ∈ x.2.callbacks, ∃ o, Sole (Worker.stage f) x.1.workers o ∧
    (x.1.scheduler.life f (x.2.held f) (x.2.woken f)).Fits o

variable {h : Wakeups}

theorem init_lives (threads : Nat) (use_caller : Bool) :
    Lives ((init threads use_caller : System C), .empty) := by
  have hworker (w : Worker C Unit Unit) (hw : w ∈ (init threads use_caller : System C).workers) :
      w.cbFiber = none ∧ w.Owns := by
    obtain ⟨i, -, rfl⟩ := List.mem_map.mp hw
    refine ⟨rfl, ?_⟩
    split
    · rfl
    · trivial
  refine ⟨init_known threads use_caller, nofun, fun w hw f hf => ?_, fun w hw => (hworker w hw).2,
    fun _ _ => rfl, nofun⟩
  rw [(hworker w hw).1] at hf
  cases hf

/-! ## What a worker takes -/

theorem queued_pos {s : Scheduler C} {ft : FiberAndThread C} (hmem : ft ∈ s.queue)
    (hft : ft.fiber = some f) : 0 < s.queued f :=
  List.countP_pos_iff.mpr ⟨ft, hmem, by simpa using hft⟩

/-- A callback's fiber that a worker may take out of the queue is at no worker. -/
theorem Lives.sole_of_eligible (hl : Lives (s, h)) {ft : FiberAndThread C} {i : Nat}
    (hmem : ft ∈ s.scheduler.queue) (helig : s.scheduler.Eligible i ft) (hft : ft.fiber = some f)
    (hf : f ∈ h.callbacks) : Sole (Worker.stage f) s.workers none := by
  obtain ⟨o, hsole, hfits⟩ := hl.fits f hf
  obtain rfl := hfits.eq_none (queued_pos hmem hft) (helig.2 f hft)
  exact hsole

/-- A worker does not find its own `cb_fiber` in the queue. -/
theorem Lives.cbFiber_ne (hl : Lives (s, h)) {i : Nat} {w : Worker C Unit Unit}
    (hw : s.workers[i]? = some w) {k : Nat} {ft : FiberAndThread C} (hpc : w.pc = .search)
    (hfound : s.scheduler.search i 0 s.scheduler.queue = .entry k ft) :
    ∀ g ∈ ft.fiber, w.cbFiber ≠ some g := by
  intro g hg hcb
  obtain ⟨j, -, hj, helig, -⟩ := search_eq_entry hfound
  have hmem := List.mem_of_getElem? hw
  have hnone := (hl.sole_of_eligible (List.mem_of_getElem? hj) helig hg
    (hl.keeps w hmem g hcb)).eq_none hmem
  rw [Worker.stage_of_none (by rw [hpc]; rfl), Worker.keeping, if_pos hcb] at hnone
  cases hnone

/-! ## Steps -/

/-- A step that makes no fiber for a callback, lets no fiber yield to `HOLD` and calls no
`schedule`. -/
theorem record_eq (hmade : Wakeups.made s a t = []) (hyields : Wakeups.yields s a = none)
    (hcalls : Wakeups.calls a = []) : Wakeups.record s a t h = h := by
  simp [Wakeups.record, hmade, hyields, hcalls]

/-- A fiber that a worker makes for a callback starts its life. -/
theorem Lives.fits_made (hl : Lives (s, h)) {i : Nat} {w w' : Worker C Unit Unit}
    (hw : s.workers[i]? = some w) {cb : C} {f : Nat} (hf : f = s.scheduler.fibers.length)
    (hstarts : w'.stage f = some .starts) :
    Sole (Worker.stage f) (s.workers.set i w') (some .starts) ∧
      ((s.scheduler.newFiber cb).life f (h.held f) (h.woken f)).Fits (some .starts) := by
  have hnone (v : Worker C Unit Unit) (hv : v ∈ s.workers) : v.stage f = none :=
    Worker.stage_eq_none fun hr => Nat.lt_irrefl f (hf ▸ hl.known.workers v hv f hr)
  have hsole : Sole (Worker.stage f) s.workers (w.stage f) := by
    rw [hnone w (List.mem_of_getElem? hw)]
    exact .of_forall hnone
  refine ⟨hstarts ▸ hsole.set hw w', ?_, ?_, hl.fresh f (Nat.le_of_eq hf.symm)⟩
  · simp only [life]
    rw [fiber_newFiber, if_pos hf]
    rfl
  · refine List.countP_eq_zero.mpr fun ft hft hfib => ?_
    have hlt := hl.known.queue ft hft f (by simpa using hfib)
    exact Nat.lt_irrefl f (hf ▸ hlt)

theorem Lives.statement (hl : Lives (s, h)) {i : Nat} {w w' : Worker C Unit Unit}
    {s' : Scheduler C} (hw : s.workers[i]? = some w) (hst : Statement i s.scheduler w s' w')
    (hknown : Known { s with scheduler := s', workers := s.workers.set i w' }) :
    Lives ({ s with scheduler := s', workers := s.workers.set i w' },
      Wakeups.record s (.worker i .advance)
        { s with scheduler := s', workers := s.workers.set i w' } h) := by
  have hmem := List.mem_of_getElem? hw
  have hle := hst.length_fibers
  have hmade {f : Nat} (hlt : s.scheduler.fibers.length ≤ f) (hlt' : f < s'.fibers.length) :
      f ∈ h.callbacks ++ Wakeups.made s (.worker i .advance)
        { s with scheduler := s', workers := s.workers.set i w' } := by
    refine List.mem_append_right _ (List.mem_range'_1.mpr ⟨hlt, ?_⟩)
    dsimp only
    omega
  refine ⟨hknown, fun f hf => ?_, forall_mem_set (fun v hv f hf => ?_) fun f hf => ?_,
    forall_mem_set hl.owns ?_, fun f hf => ?_, fun f hf => ?_⟩
  · rcases List.mem_append.mp hf with hold | hnew
    · exact Nat.lt_of_lt_of_le (hl.made f hold) hle
    · have := List.mem_range'_1.mp hnew
      dsimp only at this ⊢
      omega
  · exact List.mem_append_left _ (hl.keeps v hv f hf)
  · rcases hst.cbFiber hf with hold | ⟨rfl, hnew⟩
    · exact List.mem_append_left _ (hl.keeps w hmem f hold)
    · exact hmade (Nat.le_refl _) (by omega)
  · exact hst.owns (hl.owns w hmem) fun k ft hpc hfound => hl.cbFiber_ne hw hpc hfound
  · exact hl.fresh f (Nat.le_trans hle hf)
  · rcases List.mem_append.mp hf with hold | hnew
    · obtain ⟨o, hsole, hfits⟩ := hl.fits f hold
      have ho := hsole.none_or_eq hw
      rcases hst.life_step (hl.owns w hmem) (hl.made f hold) hfits ho with
        ⟨hsame, hlife⟩ | ⟨rfl, hnext⟩
      · exact ⟨o, hsole.set_same hw hsame, hlife ▸ hfits⟩
      · exact ⟨_, hsole.set hw w', hnext⟩
    · obtain ⟨hge, hlt⟩ := List.mem_range'_1.mp hnew
      dsimp only at hlt
      obtain ⟨cb, rfl, hstarts⟩ := hst.makes (by omega)
      have hlen : (s.scheduler.newFiber cb).fibers.length = s.scheduler.fibers.length + 1 := by
        simp [newFiber]
      obtain rfl : f = s.scheduler.fibers.length := by omega
      exact ⟨_, hl.fits_made hw rfl hstarts⟩

/-- Only a yield to `HOLD` waits for a wakeup. -/
theorem yields_leave {i : Nat} {w : Worker C Unit Unit} (hw : s.workers[i]? = some w)
    (exit : Fiber.Exit) (f : Nat) :
    Wakeups.yields s (.worker i (.leave exit)) = some f ↔
      w.pc.running = some f ∧ exit = .YieldToHold := by
  cases exit <;> simp [Wakeups.yields, hw]

theorem Lives.leave (hl : Lives (s, h)) {i : Nat} {w w' : Worker C Unit Unit} {s' : Scheduler C}
    {exit : Fiber.Exit} (hw : s.workers[i]? = some w) (hleaves : Leaves exit s.scheduler w s' w')
    (honce : WokenOnce (s, h) (.worker i (.leave exit)))
    (hknown : Known { s with scheduler := s', workers := s.workers.set i w' }) :
    Lives ({ s with scheduler := s', workers := s.workers.set i w' },
      Wakeups.record s (.worker i (.leave exit))
        { s with scheduler := s', workers := s.workers.set i w' } h) := by
  have hmem := List.mem_of_getElem? hw
  have hold {f : Nat} (hf : f ∈ h.callbacks ++ []) : f ∈ h.callbacks := by simpa using hf
  have hlen : s'.fibers.length = s.scheduler.fibers.length := by
    cases hleaves <;> simp [setFiber, fail]
  have hcb : w'.cbFiber = w.cbFiber := by cases hleaves <;> rfl
  obtain ⟨g, hrun, hrefers, hstage⟩ : ∃ g, w.pc.running = some g ∧ w.Refers g ∧
      ∀ f, w.pc.stage f = if g = f then some .runs else none := by
    cases hleaves with
    | aborts pc | returns pc =>
      exact ⟨_, by rw [pc]; rfl, Or.inl (by rw [pc]; rfl), fun f => by rw [pc]; rfl⟩
  refine ⟨hknown, fun f hf => ?_, forall_mem_set (fun v hv f hf => ?_) fun f hf => ?_,
    forall_mem_set hl.owns (hleaves.owns (hl.owns w hmem)), fun f hf => ?_, fun f hf => ?_⟩
  · exact hlen ▸ hl.made f (hold hf)
  · exact List.mem_append_left _ (hl.keeps v hv f hf)
  · exact List.mem_append_left _ (hl.keeps w hmem f (hcb ▸ hf))
  · have hle : s.scheduler.fibers.length ≤ f := hlen ▸ hf
    have hne : g ≠ f := Nat.ne_of_lt (Nat.lt_of_lt_of_le (hl.known.workers w hmem g hrefers) hle)
    simpa [Wakeups.record, yields_leave hw, hrun, hne, Wakeups.calls] using hl.fresh f hle
  · obtain ⟨o, hsole, hfits⟩ := hl.fits f (hold hf)
    simp only [Wakeups.record, yields_leave hw, hrun, Option.some.injEq]
    by_cases hg : g = f
    · subst hg
      have hpc : w.pc.stage g = some .runs := by rw [hstage, if_pos rfl]
      have hruns := Worker.stage_of_some hpc
      obtain rfl : o = some .runs := by
        rcases hsole.none_or_eq hw with hnone | heq
        · exact absurd (hruns.symm.trans hnone) (Option.some_ne_none _)
        · exact heq.trans hruns
      refine ⟨_, (hruns ▸ hsole).set hw w', ?_⟩
      have hexit := honce g (hold hf) (by simp [hw, hrun])
      simpa [Wakeups.calls] using hleaves.fits (hl.made g (hold hf)) hpc hfits hexit
    · have helse : w'.stage f = w.stage f ∧ s'.life f (h.held f) (h.woken f) =
          s.scheduler.life f (h.held f) (h.woken f) :=
        hleaves.elsewhere ((hstage f).trans (if_neg hg))
      refine ⟨o, hsole.set_same hw helse.1, ?_⟩
      simpa [hg, Wakeups.calls, helse.2] using hfits

/-- A wakeup as the condition allows it fits the stage of the fiber. -/
theorem Lives.wake (hl : Lives (s, h)) {f : Nat} (hf : f ∈ h.callbacks)
    (hwake : h.mayWake s f = true) :
    ∃ o, Sole (Worker.stage f) s.workers o ∧
      (s.scheduler.life f (h.held f) (h.woken f)).wake.Fits o := by
  obtain ⟨o, hsole, hfits⟩ := hl.fits f hf
  refine ⟨o, hsole, ?_⟩
  simp only [Wakeups.mayWake, Bool.or_eq_true, Bool.and_eq_true, decide_eq_true_eq,
    List.any_eq_true] at hwake
  rcases hwake with hlt | ⟨heq, w, hw, hrun⟩
  · exact hfits.wake hlt
  · obtain rfl := hsole.eq_of_some hw (stage_of_running hrun)
    exact hfits.wake_runs heq

/-- The queue has one entry more for every wakeup. -/
theorem queued_schedule (s : Scheduler C) (fts : List (FiberAndThread C)) (f : Nat) :
    (s.schedule fts).queued f = s.queued f + fts.countP fun ft => ft.fiber = some f := by
  rw [queued_append (s := s) f rfl, List.countP_filter]
  congr 1
  refine List.countP_congr fun ft _ => ?_
  simp only [Bool.and_eq_true, decide_eq_true_eq, and_iff_left_iff_imp]
  intro hft
  simp [hft]

theorem Lives.apply (hl : Lives (s, h)) {act : Act C} {s' : Scheduler C}
    (happly : act.apply s.scheduler = some s') (hcalls : Wakeups.calls a = act.entries)
    (hmade : Wakeups.made s a { s with scheduler := s' } = [])
    (hyields : Wakeups.yields s a = none)
    (honce : ∀ f ∈ h.callbacks,
      (act.entries.countP fun ft => ft.fiber = some f) ≤ (h.mayWake s f).toNat) :
    Lives ({ s with scheduler := s' }, Wakeups.record s a { s with scheduler := s' } h) := by
  have hknown := hl.known.apply happly
  have hrecord : Wakeups.record s a { s with scheduler := s' } h = { h with
      woken := fun f => h.woken f + act.entries.countP fun ft => ft.fiber = some f } := by
    simp [Wakeups.record, hmade, hyields, hcalls]
  rw [hrecord]
  rcases apply_eq_some happly with ⟨cb, rfl, rfl⟩ | ⟨hvalid, rfl⟩
  · have hlen : (s.scheduler.newFiber cb).fibers.length = s.scheduler.fibers.length + 1 := by
      simp [newFiber]
    refine ⟨hknown, fun f hf => ?_, hl.keeps, hl.owns, fun f hf => ?_, fun f hf => ?_⟩
    · exact Nat.lt_of_lt_of_le (hl.made f hf) (by dsimp only; omega)
    · exact hl.fresh f (by dsimp only at hf ⊢; omega)
    · obtain ⟨o, hsole, hfits⟩ := hl.fits f hf
      exact ⟨o, hsole, life_newFiber (hl.made f hf) cb _ _ ▸ hfits⟩
  · refine ⟨hknown, hl.made, hl.keeps, hl.owns, fun f hf => ?_, fun f hf => ?_⟩
    · have hzero : (act.entries.countP fun ft => ft.fiber = some f) = 0 := by
        refine List.countP_eq_zero.mpr fun ft hft hfib => ?_
        have hlt := hvalid ft hft f (by simpa using hfib)
        exact absurd hf (Nat.not_le_of_gt hlt)
      dsimp only
      rw [hzero]
      exact hl.fresh f hf
    · have hle := honce f hf
      have hqueued := queued_schedule s.scheduler act.entries f
      unfold life
      dsimp only
      rw [hqueued]
      generalize (act.entries.countP fun ft => ft.fiber = some f) = n at hle ⊢
      cases hwake : h.mayWake s f with
      | false =>
        rw [hwake] at hle
        obtain rfl : n = 0 := Nat.le_zero.mp hle
        exact hl.fits f hf
      | true =>
        rw [hwake] at hle
        rcases Nat.le_one_iff_eq_zero_or_eq_one.mp hle with rfl | rfl
        · exact hl.fits f hf
        · exact hl.wake hf hwake

/-- A worker goes on outside its loop. -/
theorem Lives.set (hl : Lives (s, h)) {i : Nat} {w w' : Worker C Unit Unit}
    (hw : s.workers[i]? = some w) (hknown : Known { s with workers := s.workers.set i w' })
    (howns : w'.Owns) (hcb : ∀ f ∈ w'.cbFiber, f ∈ w.cbFiber)
    (hstage : ∀ f, w'.stage f = w.stage f) :
    Lives ({ s with workers := s.workers.set i w' }, h) := by
  refine ⟨hknown, hl.made, ?_, forall_mem_set hl.owns howns, hl.fresh, fun f hf => ?_⟩
  · exact forall_mem_set hl.keeps fun f hf => hl.keeps w (List.mem_of_getElem? hw) f (hcb f hf)
  · obtain ⟨o, hsole, hfits⟩ := hl.fits f hf
    exact ⟨o, hsole.set_same hw (hstage f), hfits⟩

/-- Every step under the condition keeps the callbacks' fibers alive. -/
theorem step_lives (hl : Lives (s, h)) (honce : WokenOnce (s, h) a) (hs : s.step a = some t) :
    Lives (t, Wakeups.record s a t h) := by
  have hknown := step_known hl.known hs
  cases step_stepped hs with
  | statement hw hst => exact hl.statement hw hst hknown
  | act hw pc happly => exact hl.apply happly rfl rfl rfl honce
  | leave hw hleaves => exact hl.leave hw hleaves honce hknown
  | @idle i w hw pc =>
    rw [record_eq rfl rfl rfl]
    refine hl.set hw hknown trivial (fun f hf => hf) fun f => ?_
    rw [Worker.stage_of_none (w := w) (by rw [pc]; rfl)]
    exact (Worker.stage_of_none rfl).trans (Worker.keeping_congr rfl)
  | @answer i w first hw pc =>
    rw [record_eq rfl rfl rfl]
    have hnone : w.cbFiber = none := by
      have howns := hl.owns w (List.mem_of_getElem? hw)
      simpa only [Worker.Owns, pc] using howns
    have hnext : (w.answer first s.scheduler.isStopping).Owns ∧
        (w.answer first s.scheduler.isStopping).cbFiber = none ∧
        ∀ f, (w.answer first s.scheduler.isStopping).pc.stage f = none := by
      rcases Worker.answer_eq first s.scheduler.isStopping w with heq | heq | heq <;> rw [heq]
      · exact ⟨trivial, hnone, fun _ => rfl⟩
      · exact ⟨hnone, hnone, fun _ => rfl⟩
      · exact ⟨trivial, rfl, fun _ => rfl⟩
    obtain ⟨howns, hcb, hpc⟩ := hnext
    refine hl.set hw hknown howns (fun f hf => ?_) fun f => ?_
    · rw [hcb] at hf
      cases hf
    · rw [Worker.stage_of_none (hpc f), Worker.stage_of_none (w := w) (by rw [pc]; rfl)]
      exact Worker.keeping_congr (hcb.trans hnone.symm)
  | outside happly => exact hl.apply happly rfl rfl rfl honce
  | stop =>
    rw [record_eq rfl rfl rfl]
    have hcall (w : Worker C Unit Unit) (hw : w ∈ s.workers) :
        (w.callStop (s.workers.length = 1)).Owns ∧
          (w.callStop (s.workers.length = 1)).cbFiber = w.cbFiber ∧
          ∀ f, (w.callStop (s.workers.length = 1)).stage f = w.stage f := by
      have howns := hl.owns w hw
      unfold Worker.callStop
      split
      · rename_i pc
        simp only [Worker.Owns, pc] at howns
        refine ⟨howns, rfl, fun f => ?_⟩
        rw [Worker.stage_of_none (w := w) (by rw [pc]; rfl)]
        exact (Worker.stage_of_none rfl).trans (Worker.keeping_congr rfl)
      · exact ⟨howns, rfl, fun _ => rfl⟩
    refine ⟨hknown, hl.made, fun v hv f hf => ?_, fun v hv => ?_, hl.fresh, fun f hf => ?_⟩
    · obtain ⟨w, hw, rfl⟩ := List.mem_map.mp hv
      exact hl.keeps w hw f ((hcall w hw).2.1 ▸ hf)
    · obtain ⟨w, hw, rfl⟩ := List.mem_map.mp hv
      exact (hcall w hw).1
    · obtain ⟨o, hsole, hfits⟩ := hl.fits f hf
      exact ⟨o, hsole.map fun w hw => (hcall w hw).2.2 f, hfits⟩
  | setStopping =>
    rw [record_eq rfl rfl rfl]
    exact ⟨hknown, hl.made, hl.keeps, hl.owns, hl.fresh, hl.fits⟩

end System

end Xupeng.Scheduler
