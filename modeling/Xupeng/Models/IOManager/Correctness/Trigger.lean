import Xupeng.Models.IOManager.Correctness.Accounting

/-!
# When the assertion of `triggerEvent` fails

The flags in a batch are those that were registered when `epoll_wait` returned.
`idle` compares them with the flags registered now only to see whether any of
them is left, and then triggers all of them. The assertion fails exactly when an
entry is processed of which one flag is still registered and another is not.
-/

namespace Xupeng.IOManager.State

variable {S F C : Type}

/-- `triggerEvent` has not been called for a flag that is not set. -/
def TriggerHeld (s : State S F C) : Prop := s.abort ≠ some .triggerEvent

/-- The step does not process a stale entry. -/
def Fresh (s : State S F C) (a : Step S F C) : Prop :=
  match s.sectionOf a with
  | some (p, .process event, rt) => ∀ c, s.contexts[p]? = some c → ¬ Stale event rt c
  | _ => True

instance (s : State S F C) (a : Step S F C) : Decidable (s.Fresh a) := by
  unfold Fresh Stale
  split <;> infer_instance

/-- A step makes the assertion fail exactly when it processes a stale entry. -/
theorem triggerHeld_iff_fresh (s : State S F C) (a : Step S F C) (t : State S F C) (hs : s.Sound)
    (_ : s.TriggerHeld) (h : s.step a = some t) : t.TriggerHeld ↔ s.Fresh a := by
  have hmoved {es : List (Effect S F C)} (hm : Moved s t es) : t.TriggerHeld := by
    rcases hm.abort with ha | ha <;> simp [TriggerHeld, ha]
  obtain ⟨hnone, hm⟩ | ⟨p, sec, rt, c, hsec, hc, hgood, hran⟩ := step_cases hs.good h
  · exact iff_of_true (hmoved hm) (by simp only [Fresh, hnone])
  by_cases hproc : ∃ event, sec = .process event
  · obtain ⟨event, rfl⟩ := hproc
    have hfresh : s.Fresh a ↔ ¬ Stale event rt c := by
      simp only [Fresh, hsec, hc, Option.some.injEq, forall_eq']
    rw [hfresh]
    rcases process_cases hgood event rt with ⟨hnot, r, hr, -⟩ | ⟨hstale, herr⟩
    · refine iff_of_true ?_ hnot
      rcases hran with ⟨r, -, hm⟩ | ⟨x, hx, -⟩
      · exact hmoved hm
      · exact absurd (hr.symm.trans hx) nofun
    · refine iff_of_false ?_ (not_not_intro hstale)
      rcases hran with ⟨r, hr, -⟩ | ⟨x, hx, hab, -⟩
      · exact absurd (herr.symm.trans hr) nofun
      · obtain rfl := Except.error.inj (herr.symm.trans hx)
        simp [TriggerHeld, hab.abort]
  · refine iff_of_true ?_ ?_
    · rcases hran with ⟨r, -, hm⟩ | ⟨x, -, hab, rfl | rfl | rfl | ⟨-, hex⟩⟩
      · exact hmoved hm
      · simp [TriggerHeld, hab.abort]
      · simp [TriggerHeld, hab.abort]
      · simp [TriggerHeld, hab.abort]
      · exact absurd hex hproc
    · unfold Fresh
      split
      · rename_i event _ heq
        rw [hsec] at heq
        cases heq
        exact absurd ⟨event, rfl⟩ hproc
      · trivial

/-- In every run, the assertion of `triggerEvent` holds in all states exactly when no step
processes an entry with one flag still registered and another one no longer. -/
theorem triggerHeld_along_iff_fresh (as : List (Step S F C)) (hr : (run step init as).isSome) :
    Along step TriggerHeld (init : State S F C) as ↔ Guarded step Fresh init as :=
  along_iff_guarded (fun s a t hs _ _ => step_sound s a t hs) triggerHeld_iff_fresh init_sound
    nofun hr

/-- The run that registers two events and delivers one meets the condition. -/
theorem triggerHeld_along_registerAndDeliver :
    Along step TriggerHeld init registerAndDeliver :=
  (triggerHeld_along_iff_fresh registerAndDeliver rfl).mpr (by decide)

/-- Both events of a descriptor are registered and become ready together; the reading one is
deleted before the worker gets to the entry. -/
def deleteInBetween : List (Step Unit Nat Nat) :=
  [.enter (.addEvent ⟨(), 7, .EXEC⟩ 3 .READ (some 1)), .commit 0 true,
    .enter (.addEvent ⟨(), 7, .EXEC⟩ 3 .WRITE (some 2)), .commit 0 true,
    .wait [(3, ⟨⟨true, true⟩, false⟩)], .enter (.delEvent 3 .READ), .commit 0 true, .process 0 true]

/-- The process aborts in `triggerEvent`. -/
theorem triggerEvent_aborts_deleteInBetween :
    (run step init deleteInBetween).map (·.abort) = some (some .triggerEvent) :=
  rfl

end Xupeng.IOManager.State
