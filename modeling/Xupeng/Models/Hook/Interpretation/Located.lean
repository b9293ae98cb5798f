import Xupeng.Models.Hook.Interpretation.Calls
import Xupeng.Models.Hook.Interpretation.Queue

/-!
# Where the context of a waiting fiber is found

A timeout cancels an event by its descriptor: `cancelEvent` looks the context up again.
It finds the one that holds the fiber as long as no resize of the table cuts off a
context that is in use.
-/

namespace Xupeng.Hook

open IOManager (Fewer Result)

/-- The context holds the fiber for the event that it waits for. -/
def EventTable.Holds (t : EventTable) (f : Nat) (w : Wait) (q : ContextPtr) : Prop :=
  (t.contexts q).slot w.fn.event = ⟨some (), some f, none⟩

/-- The context that a fiber in `addEvent` has found. -/
def Pc.found : Pc → Option ContextPtr
  | .waiting _ p => p.found
  | _ => none

/-- The context has events, or an `addEvent` in progress has found it. -/
def System.Used (s : System) (q : ContextPtr) : Prop :=
  (s.contexts q).events ≠ .NONE ∨ ∃ pc ∈ s.fibers, pc.found = some q

/-- After the resize for a descriptor its context is found, and so is every context in use that
was found before. -/
def System.KeepsUsed (s : System) (fd : Nat) : Prop :=
  ((s.contextResize (fd * 3 / 2)).lookup fd).isSome ∧
    ∀ i < s.fdContexts.length, ∀ q ∈ s.lookup i, s.Used q →
      (s.contextResize (fd * 3 / 2)).lookup i = some q

instance (s : System) (q : ContextPtr) : Decidable (s.Used q) :=
  inferInstanceAs (Decidable (_ ∨ _))

instance (s : System) (fd : Nat) : Decidable (s.KeepsUsed fd) :=
  inferInstanceAs (Decidable (_ ∧ _))

variable {s t : System} {f g : Nat} {w w' : Wait} {q : ContextPtr}

/-! ## What the contexts hold -/

theorem Fun.event_single (fn : Fun) : fn.event.Single := by
  cases fn with
  | io fn => cases fn <;> first | exact Or.inl rfl | exact Or.inr rfl
  | connect addr addrlen => exact Or.inr rfl

/-- A context that holds a fiber has the flag of its event. -/
theorem EventTable.Holds.set (h : s.Holds f w q) (hgood : (s.contexts q).Good) :
    (s.contexts q).events.inter w.fn.event ≠ .NONE := by
  intro hclear
  cases h.symm.trans (hgood.empty_of_clear w.fn.event_single hclear)

/-- A context that holds a fiber is in use. -/
theorem EventTable.Holds.used (h : s.Holds f w q) (hgood : (s.contexts q).Good) : s.Used q := by
  refine Or.inl fun hnone => h.set hgood ?_
  rw [hnone]
  rfl

/-- A fiber that a context holds is one that waits. -/
theorem EventTable.Holds.held (h : s.Holds f w q) (hgood : (s.contexts q).Good) :
    s.held q f ≠ 0 := by
  have hslot : ((s.contexts q).slot w.fn.event).held = some ((), .fiber f) :=
    IOManager.EventContext.held_eq_some.mpr (Or.inl ⟨f, rfl, h⟩)
  have hpending := (IOManager.remove_spec hgood w.fn.event_single (h.set hgood) hslot).2.2
  rw [Shared.held, hpending, Multiset.count_add, Multiset.count_singleton_self]
  exact Nat.succ_ne_zero _

/-- A section that empties slots makes no context hold a fiber. -/
theorem holds_of_fewer {p : ContextPtr} {r : Result Unit Nat Empty}
    (hfewer : Fewer (s.contexts p) r.ctx) (h : (s.after p r).Holds f w q) : s.Holds f w q := by
  simp only [EventTable.Holds, System.after, Function.update_apply] at h ⊢
  split at h
  · rename_i heq
    obtain hsame | hempty := hfewer w.fn.event w.fn.event_single
    · rw [heq, ← hsame]
      exact h
    · rw [hempty] at h
      cases h
  · exact h

/-- `addEvent` makes the context hold no fiber but its own. -/
theorem holds_of_addEvent {p : ContextPtr} {rt : Bool} {r : Result Unit Nat Empty}
    (hadd : (s.contexts p).addEvent ⟨(), f, .EXEC⟩ w.fd.toNat w.fn.event none rt = .ok r)
    (h : (s.after p r).Holds g w' q) : s.Holds g w' q ∨ g = f ∧ q = p := by
  simp only [EventTable.Holds, System.after, Function.update_apply] at h ⊢
  split at h
  · rename_i heq
    obtain hsame | ⟨-, hnew⟩ :=
      IOManager.addEvent_slots w.fn.event_single hadd w'.fn.event_single
    · rw [heq, ← hsame]
      exact Or.inl h
    · rw [hnew] at h
      cases h
      exact Or.inr ⟨rfl, heq⟩
  · exact Or.inl h

/-! ## Finding them -/

theorem EventTable.lookup_lt {t : EventTable} {fd : Nat} (h : t.lookup fd = some q) :
    fd < t.fdContexts.length := by
  unfold EventTable.lookup at h
  split at h
  · exact (List.getElem?_eq_some_iff.mp h).1
  · cases h

/-- What is found is the context in the slot. -/
theorem EventTable.lookup_of_isSome {t : EventTable} {fd : Nat} (h : (t.lookup fd).isSome) :
    t.lookup fd = t.fdContexts[fd]? := by
  unfold EventTable.lookup at h ⊢
  split at h
  · rename_i hcovered
    rw [if_pos hcovered]
  · cases h

/-- The table has the context that holds the fiber, and the one that its `addEvent` has found,
under the descriptor of the call. -/
structure Located (t : EventTable) (f : Nat) (w : Wait) (p : Point) : Prop where
  held : ∀ q, t.Holds f w q → t.lookup w.fd.toNat = some q
  found : ∀ q, p.found = some q → t.lookup w.fd.toNat = some q

/-- Every waiting fiber is in its place, and the contexts of all calls are found. -/
structure Homed (s : System) : Prop where
  placed : Placed s
  located : ∀ (f : Nat) w p, s.fibers[f]? = some (.waiting w p) → Located s.toEventTable f w p

/-- A call that goes on without having found a context. -/
theorem Located.goes {t : EventTable} {p p' : Point} (h : Located t f w p)
    (hfound : p'.found = none) : Located t f w p' := by
  refine ⟨h.held, fun q hq => ?_⟩
  cases hfound.symm.trans hq

/-- The contexts hold less, and are found as before. -/
theorem Located.mono {t t' : EventTable} {p : Point} (h : Located t f w p)
    (hholds : ∀ q, t'.Holds f w q → t.Holds f w q) (hlookup : ∀ fd, t'.lookup fd = t.lookup fd) :
    Located t' f w p := by
  refine ⟨fun q hq => ?_, fun q hq => ?_⟩
  · rw [hlookup]
    exact h.held q (hholds q hq)
  · rw [hlookup]
    exact h.found q hq

namespace Homed

theorem init (n : Nat) (now : UInt64) (k : Kernel) : Homed (.init n now k) :=
  ⟨.init n now k, fun _ _ _ h => absurd h System.init_not_waiting⟩

/-- The table is resized for a call, and keeps the contexts in use. -/
theorem grow {timer : Option Nat} {p : ContextPtr} (h : Homed s)
    (hpc : s.fibers[f]? = some (.waiting w (.grow timer))) (hkeeps : s.KeepsUsed w.fd.toNat)
    (hp : (s.contextResize (w.fd.toNat * 3 / 2)).fdContexts[w.fd.toNat]? = some p) (g : Nat)
    (w' : Wait) (p' : Point)
    (hg : (s.fibers.set f (.waiting w (.locked timer p)))[g]? = some (.waiting w' p')) :
    Located (s.contextResize (w.fd.toNat * 3 / 2)) g w' p' := by
  have hkept {i : Nat} {q : ContextPtr} (hq : s.lookup i = some q) (hused : s.Used q) :
      (s.contextResize (w.fd.toNat * 3 / 2)).lookup i = some q :=
    hkeeps.2 i (EventTable.lookup_lt hq) q hq hused
  have hheld {g : Nat} {w' : Wait} {p' : Point} (hg : s.fibers[g]? = some (.waiting w' p'))
      (q : ContextPtr) (hq : s.Holds g w' q) :
      (s.contextResize (w.fd.toNat * 3 / 2)).lookup w'.fd.toNat = some q :=
    hkept ((h.located g w' p' hg).held q hq) (hq.used (h.placed.good q))
  refine forall_waiting_set (Q := Located (s.contextResize (w.fd.toNat * 3 / 2))) ?_ ?_ g w' p' hg
  · rintro w' p' heq
    cases heq
    refine ⟨hheld hpc, fun q hq => ?_⟩
    cases hq
    rw [EventTable.lookup_of_isSome hkeeps.1, hp]
  · intro g w' p' _ hg
    refine ⟨hheld hg, fun q hq => hkept ((h.located g w' p' hg).found q hq) (Or.inr ?_)⟩
    exact ⟨_, List.mem_of_getElem? hg, hq⟩

/-- A step of a fiber; if it resizes the table, the contexts in use stay. -/
theorem moved (h : Homed s) (hplaced : Placed t)
    (hkeeps : ∀ w timer, s.fibers[f]? = some (.waiting w (.grow timer)) → s.KeepsUsed w.fd.toNat)
    (hm : Moved f s t) : Homed t := by
  refine ⟨hplaced, ?_⟩
  have hothers (g : Nat) (w : Wait) (p : Point) (_ : g ≠ f)
      (hg : s.fibers[g]? = some (.waiting w p)) : Located s.toEventTable g w p := h.located g w p hg
  cases hm with
  | go pc pc' process ready hpc hgoes =>
    refine forall_waiting_set (fun w p heq => ?_) hothers
    subst heq
    cases hgoes with
    | waiting w p p' _ hfound => exact (h.located f w p hpc).goes hfound
    | short w timer | yield w timer | resume w timer => exact (h.located f w _ hpc).goes rfl
  | enter last fn fd timeout p process hpc hp hfound =>
    refine forall_waiting_set (fun w p' heq => ?_) hothers
    cases heq
    refine ⟨fun q hq => ?_, fun q hq => ?_⟩
    · -- a fiber in the code of the program is held by no context
      exact absurd (h.placed.of_awake (System.asleepIn_of_pc hpc) q).1
        (EventTable.Holds.held (s := s) hq (h.placed.good q))
    · cases hfound.symm.trans hq
  | arm w addr now timers hpc hadd =>
    refine forall_waiting_set (fun w' p' heq => ?_) hothers
    cases heq
    exact (h.located f w _ hpc).goes rfl
  | found w timer p hpc hp =>
    refine forall_waiting_set (fun w' p' heq => ?_) hothers
    cases heq
    refine ⟨(h.located f w _ hpc).held, fun q hq => ?_⟩
    cases hq
    exact hp
  | grow w timer p hpc hp => exact h.grow hpc (hkeeps w timer hpc) hp
  | register w timer p rt r hpc hadd =>
    have hown := h.located f w _ hpc
    refine forall_waiting_set (fun w' p' heq => ?_) fun g w' p' hne hg => ?_
    · cases heq
      refine ⟨fun q hq => ?_, fun q hq => ?_⟩
      · obtain hq | ⟨-, rfl⟩ := holds_of_addEvent hadd hq
        · exact hown.held q hq
        · exact hown.found q rfl
      · split at hq <;> cases hq
    · refine (h.located g w' p' hg).mono (fun q hq => ?_) fun _ => rfl
      obtain hq | ⟨rfl, -⟩ := holds_of_addEvent hadd hq
      · exact hq
      · exact absurd rfl hne
  | stop w p timer pc timers hpc htimer hcancel hgoes =>
    refine forall_waiting_set (fun w' p' heq => ?_) hothers
    subst heq
    cases hgoes with
    | waiting w _ p' _ hfound => exact (h.located f w p hpc).goes hfound
  | cancelAll fd p rt r hall =>
    have hfewer := (IOManager.cancelAll_empties (h.placed.good p) hall).fewer
    refine forall_waiting_set (fun w' p' heq => by cases heq) fun g w' p' _ hg => ?_
    exact (h.located g w' p' hg).mono (fun q hq => holds_of_fewer hfewer hq) fun _ => rfl
  | abort a => exact h.located

/-- A step of the workers. -/
theorem served (h : Homed s) (hplaced : Placed t) {a : Step} (hm : Served s a t) : Homed t := by
  refine ⟨hplaced, ?_⟩
  have hafter {p : ContextPtr} {r : Result Unit Nat Empty} (hfewer : Fewer (s.contexts p) r.ctx)
      (g : Nat) (w : Wait) (p' : Point) (hg : s.fibers[g]? = some (.waiting w p')) :
      Located (s.after p r).toEventTable g w p' :=
    (h.located g w p' hg).mono (fun q hq => holds_of_fewer hfewer hq) fun _ => rfl
  cases hm with
  | release fd rt release p r hr => exact hafter (release.empties (h.placed.good p) hr).fewer
  | process p rt event r hr => exact hafter (IOManager.process_empties (h.placed.good p) hr).fewer
  | cancel i rt c p r hi hp hr =>
    exact hafter (IOManager.cancelEvent_slots (h.placed.good p) hr).1.fewer
  | _ => exact h.located

/-- Every step; if it resizes the table, the contexts in use stay. -/
theorem step (h : Homed s) {a : Step}
    (hkeeps : ∀ f act w timer, a = .fiber f act → s.fibers[f]? = some (.waiting w (.grow timer)) →
      s.KeepsUsed w.fd.toNat) (hs : s.step a = some t) : Homed t := by
  obtain ⟨f, act, rfl, hm⟩ | hm := System.step_cases hs
  · exact h.moved (h.placed.step hs) (fun w timer => hkeeps f act w timer rfl) hm
  · exact h.served (h.placed.step hs) hm

end Homed

end Xupeng.Hook
