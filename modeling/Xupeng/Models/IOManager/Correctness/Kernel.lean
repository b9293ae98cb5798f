import Xupeng.Core.Entries
import Xupeng.Models.IOManager.Interpretation.Linked

/-!
# The event table agrees with the kernel

The kernel refuses to add a descriptor that is registered, and to modify or delete
one that is not. As long as no context gets lost, a descriptor is registered exactly
when its context has events, with exactly these, so no call of `epoll_ctl` is of the
wrong kind.

A context can get lost: resizing a table that another `addEvent` has made longer cuts
contexts off, and two calls that fill the same slot give one descriptor two contexts.
-/

namespace Xupeng.IOManager

variable {S F C : Type}

namespace Racing

variable {s t : Racing S F C} {a : Step S F C}

/-- The section that a step runs, with the context it runs on and the result of `epoll_ctl`. -/
def sectionOf (s : Racing S F C) : Step S F C → Option (Nat × Section S F C × Bool)
  | .commit i rt =>
    match s.calls[i]? with
    | some (call, .locked p) => some (p, call.toSection, rt)
    | _ => none
  | .process i rt =>
    match s.batches[i]? with
    | some ((p, event) :: _) => some (p, .process event, rt)
    | _ => none
  | _ => none

/-- A descriptor is registered exactly when its context has events, with exactly these, and
whatever section is run next makes a call that fits. -/
structure Agrees (s : Racing S F C) : Prop where
  registered : ∀ fd, (s.interest fd).map Prod.snd =
    if s.toSlots.events fd = .NONE then none else some (s.toSlots.events fd)
  fits : ∀ a p sec rt c k, s.sectionOf a = some (p, sec, rt) → s.contexts[p]? = some c →
    sec.request c = some k → k.Fits s.interest

/-- What the kernel is assumed to do: a call that succeeds fits. -/
def KernelChecks (s : Racing S F C) (a : Step S F C) : Prop :=
  ∀ x ∈ s.sectionOf a, x.2.2 = true → ∀ c ∈ s.contexts[x.1]?, ∀ k ∈ x.2.1.request c,
    k.Fits s.interest

/-- A call looks its context up, or begins to resize the table, while no other call is resizing
it. -/
def Alone (s : Racing S F C) : Step S F C → Prop
  | .enter _ => ∀ y ∈ s.calls, y.2.inside = false
  | .grow i => ∀ x ∈ s.calls[i]?, x.2 = .lock → ∀ y ∈ s.calls, y.2.inside = false
  | _ => True

/-- A step that resizes the table cuts off only contexts that have no events and that no
`addEvent` in progress holds. -/
def CutsUnused (s : Racing S F C) : Step S F C → Prop
  | .grow i =>
    ∀ x ∈ s.calls[i]?, x.2 = .resize → ∀ slot ∈ s.fdContexts.drop (x.1.fd * 3 / 2), ∀ p ∈ slot,
      (∀ c ∈ s.contexts[p]?, c.events = .NONE) ∧
        ∀ y ∈ s.calls, y.1.isAddEvent = true → y.2 ≠ .locked p
  | _ => True

instance (s : Racing S F C) (a : Step S F C) : Decidable (s.KernelChecks a) := by
  unfold KernelChecks
  infer_instance

instance (s : Racing S F C) (a : Step S F C) : Decidable (s.Alone a) := by
  unfold Alone
  split <;> infer_instance

instance (s : Racing S F C) (a : Step S F C) : Decidable (s.CutsUnused a) := by
  unfold CutsUnused
  split <;> infer_instance

/-! ## The invariant -/

/-- What a call in progress relies on. -/
def Holds (u : Slots S F C) (x : Call S F C × Place) : Prop :=
  match x.2 with
  | .locked p =>
    (∃ c : FdContext S F C, u.contexts[p]? = some c ∧ c.fd = x.1.fd) ∧
      (x.1.isAddEvent = true → u.fdContexts[x.1.fd]? = some (some p))
  | .fill i => u.fdContexts[i]? = some none
  | _ => True

/-- A call relies on the slots after a step if its context is still there, for the same descriptor,
and the slot that it needs is as it was. -/
theorem Holds.mono {u v : Slots S F C} {x : Call S F C × Place} (hx : Holds u x)
    (hcontexts : ∀ (p : Nat) (c : FdContext S F C), u.contexts[p]? = some c →
      ∃ c' : FdContext S F C, v.contexts[p]? = some c' ∧ c'.fd = c.fd)
    (hlocked : ∀ p, x.1.isAddEvent = true → x.2 = .locked p →
      u.fdContexts[x.1.fd]? = some (some p) → v.fdContexts[x.1.fd]? = some (some p))
    (hfill : ∀ i, x.2 = .fill i → u.fdContexts[i]? = some none → v.fdContexts[i]? = some none) :
    Holds v x := by
  unfold Holds at hx ⊢
  split
  · rename_i p hp
    rw [hp] at hx
    obtain ⟨⟨c, hc, hfd⟩, hadd⟩ := hx
    obtain ⟨c', hc', hfd'⟩ := hcontexts p c hc
    exact ⟨⟨c', hc', hfd'.trans hfd⟩, fun hisadd => hlocked p hisadd hp (hadd hisadd)⟩
  · rename_i i hi
    rw [hi] at hx
    exact hfill i hi hx
  · trivial

/-- The calls are not both inside of `contextResize`. -/
def Apart (x y : Call S F C × Place) : Prop := x.2.inside = false ∨ y.2.inside = false

/-- Contexts and kernel are linked, the calls in progress hold what they rely on, and at most one
of them is resizing the table. -/
structure Mapped (s : Racing S F C) : Prop where
  good : ∀ c ∈ s.contexts, c.Good
  linked : s.toSlots.Linked
  holds : ∀ x ∈ s.calls, Holds s.toSlots x
  apart : s.calls.Pairwise Apart

/-- A section makes a call only for a context in the table. -/
theorem Mapped.home (h : s.Mapped) {p : Nat} {sec : Section S F C} {rt : Bool}
    {c : FdContext S F C} (hsec : s.sectionOf a = some (p, sec, rt))
    (hc : s.contexts[p]? = some c) {k : Ctl} (hk : sec.request c = some k) :
    k.fd = c.fd ∧ s.fdContexts[c.fd]? = some (some p) := by
  -- a context with events is in the table, and for one without only `addEvent` makes a call
  have howner : c.events ≠ .NONE → s.fdContexts[c.fd]? = some (some p) := h.linked.owner p c hc
  cases a with
  | enter call | grow i | wait events => cases hsec
  | commit i rt =>
    simp only [sectionOf] at hsec
    split at hsec
    · rename_i call q hcall
      cases hsec
      obtain ⟨⟨d, hd, hfd⟩, hadd⟩ := h.holds (call, .locked p) (List.mem_of_getElem? hcall)
      rw [hc] at hd
      rw [← Option.some.inj hd] at hfd
      refine ⟨(Call.request_fd hk).trans hfd.symm, ?_⟩
      rcases Section.request_eq_some hk with ⟨hne, -⟩ | ⟨-, -, caller, fd, event, cb, heq⟩
      · exact howner hne
      · rw [hfd]
        refine hadd ?_
        cases call <;> first | rfl | cases heq
    · cases hsec
  | process i rt =>
    simp only [sectionOf] at hsec
    split at hsec
    · cases hsec
      refine ⟨process_request_fd hk, ?_⟩
      rcases Section.request_eq_some hk with ⟨hne, -⟩ | ⟨-, -, caller, fd, event, cb, heq⟩
      · exact howner hne
      · cases heq
    · cases hsec

/-- The table that is mapped agrees with the kernel. -/
theorem Mapped.agrees (h : s.Mapped) : s.Agrees where
  registered := h.linked.interest_events
  fits a p sec rt c k hsec hc hk := by
    obtain ⟨hfd, hp⟩ := h.home hsec hc hk
    unfold Ctl.Fits
    rcases Section.request_eq_some hk with ⟨hne, hop⟩ | ⟨hnone, hop, -⟩
    · rw [if_neg hop, hfd, (h.linked.registered c.fd p c.events).mpr ⟨c, hc, rfl, rfl, hne⟩]
      exact Option.some_ne_none _
    · rw [if_pos hop, hfd]
      exact h.linked.interest_eq_none hp hc hnone

/-- What a step leaves that changes neither contexts nor calls. -/
theorem Mapped.same (h : s.Mapped) (hslots : t.toSlots = s.toSlots)
    (hcalls : t.calls.Sublist s.calls) : t.Mapped := by
  refine ⟨?_, ?_, fun x hx => ?_, h.apart.sublist hcalls⟩
  · rw [hslots]
    exact h.good
  · rw [hslots]
    exact h.linked
  · rw [hslots]
    exact h.holds x (hcalls.subset hx)

/-- A section that is run on a state whose calls and batches have been moved along. -/
theorem Mapped.runSection (h : s.Mapped) {p : Nat} {sec : Section S F C} {rt : Bool}
    (hsec : s.sectionOf a = some (p, sec, rt)) (s' : Racing S F C) (hslots : s'.toSlots = s.toSlots)
    (hcalls : s'.calls.Sublist s.calls) (ht : s'.runSection p rt sec = some t) : t.Mapped := by
  obtain ⟨c, hc, rfl⟩ := Option.map_eq_some_iff.mp ht
  rw [hslots] at hc
  have hgood := h.good c (List.mem_of_getElem? hc)
  split
  · exact h.same (t := { s' with abort := _ }) hslots hcalls
  · rename_i r hr
    have hmoves : Moves c r.ctx r.effects := Section.moves hgood sec hr
    have hlinked := h.linked.set hc (Section.exec_ends hgood hr) hmoves.fd_eq
      fun k hk => h.home hsec hc hk
    refine ⟨?_, ?_, fun x hx => ?_, h.apart.sublist hcalls⟩
    · dsimp only
      rw [hslots]
      exact forall_mem_set h.good hmoves.good
    · dsimp only
      rw [hslots]
      exact hlinked
    · dsimp only
      rw [hslots]
      refine (h.holds x (hcalls.subset hx)).mono (fun q d hd => ?_) (fun _ _ _ hslot => hslot)
        fun _ _ hslot => hslot
      by_cases hqp : q = p
      · subst hqp
        rw [hc] at hd
        obtain rfl := Option.some.inj hd
        exact ⟨r.ctx, List.getElem?_set_self (List.getElem?_eq_some_iff.mp hc).1, hmoves.fd_eq⟩
      · exact ⟨d, (List.getElem?_set_ne (Ne.symm hqp)).trans hd, rfl⟩

/-- The lookup of a call. -/
theorem Mapped.enter (h : s.Mapped) (call : Call S F C) : (s.enter call).Mapped := by
  have hnew {place : Place} (hplace : place.inside = false)
      (hholds : Holds s.toSlots (call, place)) :
      Mapped { s with calls := s.calls ++ [(call, place)] } := by
    refine ⟨h.good, h.linked, fun x hx => ?_, ?_⟩
    · rcases List.mem_append.mp hx with hold | heq
      · exact h.holds x hold
      · rw [List.mem_singleton.mp heq]
        exact hholds
    · refine List.pairwise_append.mpr ⟨h.apart, List.pairwise_singleton _ _, fun x _ y hy => ?_⟩
      rw [List.mem_singleton.mp hy]
      exact Or.inr hplace
  unfold Racing.enter
  split
  · split
    · rename_i p hp
      exact hnew rfl ⟨h.linked.home _ p hp, fun _ => hp⟩
    · exact h.same rfl (List.Sublist.refl _)
  · split
    · exact hnew rfl trivial
    · exact h

/-- A call goes on with other slots, if the other calls can rely on them. -/
theorem Mapped.move (h : s.Mapped) {i : Nat} {call : Call S F C} {place : Place}
    {u : Slots S F C} (hgood : ∀ c ∈ u.contexts, c.Good) (hlinked : u.Linked)
    (hholds : ∀ x ∈ s.calls.eraseIdx i, Holds u x) (hown : Holds u (call, place))
    (halone : place.inside = true → ∀ y ∈ s.calls.eraseIdx i, y.2.inside = false) :
    Mapped { s.goto i call place with toSlots := u } := by
  refine ⟨hgood, hlinked, forall_mem_set_of_eraseIdx hholds hown,
    pairwise_set (fun _ _ => Or.symm) h.apart fun y hy => ?_⟩
  by_cases hplace : place.inside = true
  · exact Or.inr (halone hplace y hy)
  · exact Or.inl (Bool.eq_false_iff.mpr hplace)

/-- The other calls, which are not resizing the table, rely on contexts that stay where they are. -/
theorem Mapped.others (h : s.Mapped) {i : Nat} {u : Slots S F C}
    (hout : ∀ y ∈ s.calls.eraseIdx i, y.2.inside = false)
    (hcontexts : ∀ (p : Nat) (c : FdContext S F C), s.contexts[p]? = some c →
      u.contexts[p]? = some c)
    (hslots : ∀ y ∈ s.calls, ∀ p, y.1.isAddEvent = true → y.2 = .locked p →
      s.fdContexts[y.1.fd]? = some (some p) → u.fdContexts[y.1.fd]? = some (some p)) :
    ∀ y ∈ s.calls.eraseIdx i, Holds u y := by
  intro y hy
  have hmem := List.mem_of_mem_eraseIdx hy
  refine (h.holds y hmem).mono (fun p c hc => ⟨c, hcontexts p c hc, rfl⟩) (hslots y hmem)
    fun j hj => ?_
  have hinside := hout y hy
  rw [hj] at hinside
  cases hinside

/-- A statement of a call that has found the table too short. -/
theorem Mapped.grow (h : s.Mapped) {i : Nat} {call : Call S F C} {place : Place}
    (hi : s.calls[i]? = some (call, place)) (halone : s.Alone (.grow i))
    (hcut : s.CutsUnused (.grow i)) (ht : s.grow i call place = some t) : t.Mapped := by
  have hsame : ∀ y ∈ s.calls.eraseIdx i, Holds s.toSlots y := fun y hy =>
    h.holds y (List.mem_of_mem_eraseIdx hy)
  -- the others are not inside while this call is
  have hout (hin : place.inside = true) : ∀ y ∈ s.calls.eraseIdx i, y.2.inside = false := by
    intro y hy
    rcases pairwise_eraseIdx (fun _ _ => Or.symm) h.apart hi y hy with hplace | hy
    · cases hin.symm.trans hplace
    · exact hy
  cases place with
  | lock =>
    cases ht
    refine h.move h.good h.linked hsame trivial fun _ y hy => ?_
    exact halone (call, .lock) hi rfl y (List.mem_of_mem_eraseIdx hy)
  | resize =>
    cases ht
    have hcut' (p : Nat) (hp : some p ∈ s.fdContexts.drop (call.fd * 3 / 2)) :=
      hcut (call, .resize) hi rfl (some p) hp p rfl
    refine h.move h.good (h.linked.resize fun p hp => (hcut' p hp).1)
      (h.others (hout rfl) (fun _ _ hc => hc) fun y hy p hadd hp hslot => ?_) trivial fun _ =>
        hout rfl
    refine Slots.resize_slot.mpr ⟨?_, hslot⟩
    by_contra hge
    exact (hcut' p (Slots.mem_drop (Nat.le_of_not_lt hge) hslot)).2 y hy hadd hp
  | test j =>
    cases ht
    refine h.move h.good h.linked hsame ?_ fun _ => hout rfl
    split
    · trivial
    · assumption
    · trivial
  | fill j =>
    have hslot : s.fdContexts[j]? = some none := h.holds _ (List.mem_of_getElem? hi)
    cases ht
    rw [if_pos (List.getElem?_eq_some_iff.mp hslot).1]
    refine h.move (fun c hc => ?_) (h.linked.fill hslot)
      (h.others (hout rfl) (fun _ _ => Slots.fill_old) fun y _ p _ _ => Slots.fill_slot hslot)
      trivial fun _ => hout rfl
    rcases List.mem_append.mp hc with hold | hnew
    · exact h.good c hold
    · rw [List.mem_singleton.mp hnew]
      exact FdContext.new_good j
  | index =>
    cases ht
    split
    · rename_i p hp
      exact h.move h.good h.linked hsame ⟨h.linked.home _ p hp, fun _ => hp⟩ nofun
    · exact h.same rfl (List.Sublist.refl _)
  | locked p => cases ht

/-- Every step that cuts off only unused contexts, and is made alone, keeps contexts and kernel
linked. -/
theorem step_mapped (h : s.Mapped) (halone : s.Alone a) (hcut : s.CutsUnused a)
    (hs : s.step a = some t) : t.Mapped := by
  unfold step at hs
  split at hs
  · cases hs
  cases a with
  | enter call =>
    cases hs
    exact h.enter call
  | grow i =>
    obtain ⟨⟨call, place⟩, hi, ht⟩ := Option.bind_eq_some_iff.mp hs
    exact h.grow hi halone hcut ht
  | commit i rt =>
    dsimp only at hs
    split at hs
    · rename_i call p hcall
      have hsec : s.sectionOf (.commit i rt) = some (p, call.toSection, rt) := by
        simp only [sectionOf, hcall]
      exact h.runSection hsec { s with calls := s.calls.eraseIdx i } rfl
        (List.eraseIdx_sublist ..) hs
    · cases hs
  | wait events =>
    obtain ⟨batch, -, rfl⟩ := Option.map_eq_some_iff.mp hs
    exact h.same rfl (List.Sublist.refl _)
  | process i rt =>
    dsimp only at hs
    split at hs
    · rename_i p event rest hbatch
      have hsec : s.sectionOf (.process i rt) = some (p, .process event, rt) := by
        simp only [sectionOf, hbatch]
      exact h.runSection hsec { s with batches := s.batches.set i rest } rfl
        (List.Sublist.refl _) hs
    · cases hs

/-- The contexts of the constructor are those of their indices, and have no events. -/
theorem init_mapped : (init : Racing S F C).Mapped := by
  have hnew {p : Nat} {c : FdContext S F C} (hc : (init : Racing S F C).contexts[p]? = some c) :
      c.events = .NONE := by
    obtain ⟨fd, -, rfl⟩ := List.mem_map.mp (List.mem_of_getElem? hc)
    rfl
  refine ⟨fun c hc => ?_, ⟨fun i p hp => ?_, fun p c hc hne => absurd (hnew hc) hne, ?_⟩, nofun,
    List.Pairwise.nil⟩
  · obtain ⟨fd, -, rfl⟩ := List.mem_map.mp hc
    exact FdContext.new_good fd
  · obtain ⟨q, hq, heq⟩ := Option.map_eq_some_iff.mp ((List.getElem?_map ..).symm.trans hp)
    obtain ⟨hlt, rfl⟩ := List.getElem?_eq_some_iff.mp hq
    cases heq
    refine ⟨.new i, ?_, rfl⟩
    rw [List.getElem_range, init, List.getElem?_map, List.getElem?_range (by simpa using hlt)]
    rfl
  · intro fd p e
    refine iff_of_false nofun ?_
    rintro ⟨c, hc, -, rfl, hne⟩
    exact hne (hnew hc)

/-- In every run in which at most one call at a time is inside of `contextResize`, no call looks
its context up meanwhile, and the table is only cut off behind the contexts that are in use, the
table agrees with the kernel. -/
theorem table_agrees_with_kernel (as : List (Step S F C))
    (h : Guarded step (fun s a => s.Alone a ∧ s.CutsUnused a) init as) :
    Along step (Agrees (S := S) (F := F) (C := C)) init as :=
  along_of_guarded (I := Mapped) (fun _ _ _ h hg hs => step_mapped h hg.1 hg.2 hs)
    (fun _ h => h.agrees) init_mapped h

/-- The call makes its next `n` statements. -/
def goOn (i n : Nat) : List (Step Unit Unit Unit) := List.replicate n (.grow i)

/-- The table grows twice, and two events of a descriptor are registered, one of which is
triggered and one cancelled. -/
def growingTwice : List (Step Unit Unit Unit) :=
  [.enter (register 32 .READ), .enter (register 48 .READ)] ++ goOn 0 68 ++ goOn 1 100 ++
    [.commit 0 true, .commit 0 true, .enter (register 48 .WRITE), .commit 0 true,
      .wait [(48, ⟨.READ, false⟩)], .process 0 true, .enter (.cancelAll 48), .commit 0 true]

/-- It does in this run. -/
theorem table_agrees_with_kernel_growingTwice :
    (run step init growingTwice).isSome ∧ Along step Agrees init growingTwice :=
  ⟨by decide +kernel, table_agrees_with_kernel growingTwice (by decide +kernel)⟩

/-- Two threads find the table too short, for the descriptors 48 and 32. The first one makes it
longer and registers its event, the second one makes it shorter again. Then 48 is used again. -/
def shrinkingTable : List (Step Unit Unit Unit) :=
  [.enter (register 48 .READ), .enter (register 32 .READ)] ++ goOn 0 116 ++ [.commit 0 true] ++
    goOn 0 52 ++ [.commit 0 true, .enter (register 48 .WRITE)] ++ goOn 0 100

/-- Two threads resize the table for the descriptor 40 at the same time. Both find its slot empty,
the first one fills it and registers its event, and the second one fills it again. -/
def sharedResize : List (Step Unit Unit Unit) :=
  [.enter (register 40 .READ), .enter (register 40 .WRITE), .grow 0, .grow 1, .grow 0, .grow 1] ++
    goOn 0 49 ++ goOn 1 41 ++ goOn 0 41 ++ [.commit 0 true] ++ goOn 0 22

/-- The kernel has the event that was registered first, the context of the descriptor has none,
and the section that is run next tries to add the descriptor. -/
def Lost (fd : Nat) (s : Racing Unit Unit Unit) : Prop :=
  (s.sectionOf (.commit 0 true)).any (fun x => (s.contexts[x.1]?.bind x.2.1.request) =
      some ⟨.ADD, fd, .WRITE⟩) = true ∧
    (s.interest fd).map Prod.snd = some .READ ∧ s.toSlots.events fd = .NONE

instance (fd : Nat) (s : Racing Unit Unit Unit) : Decidable (Lost fd s) :=
  inferInstanceAs (Decidable (_ ∧ _ ∧ _))

/-- Then the table does not agree with the kernel. -/
theorem Lost.not_agrees {fd : Nat} {s : Racing Unit Unit Unit} (h : Lost fd s) : ¬ s.Agrees := by
  intro hagrees
  have hregistered := hagrees.registered fd
  rw [h.2.1, if_pos h.2.2] at hregistered
  cases hregistered

/-- The table loses the context of a descriptor: when it is cut off, although only one call at a
time resizes it, and when two calls resize it at once, although nothing is cut off. -/
theorem context_lost_shrinkingTable :
    (Guarded step (fun s a => s.KernelChecks a ∧ s.Alone a) init shrinkingTable ∧
        ∃ s, run step init shrinkingTable = some s ∧ Lost 48 s ∧ ¬ s.Agrees) ∧
      Guarded step (fun s a => s.KernelChecks a ∧ s.CutsUnused a) init sharedResize ∧
        ∃ s, run step init sharedResize = some s ∧ Lost 40 s ∧ ¬ s.Agrees := by
  have hcut : (run step init shrinkingTable).any (fun s => Lost 48 s) = true := by decide +kernel
  have hshared : (run step init sharedResize).any (fun s => Lost 40 s) = true := by
    decide +kernel
  obtain ⟨s, hs, hlost⟩ := (Option.any_eq_true _ _).mp hcut
  obtain ⟨t, ht, hlost'⟩ := (Option.any_eq_true _ _).mp hshared
  have hs' := of_decide_eq_true hlost
  have ht' := of_decide_eq_true hlost'
  exact ⟨⟨by decide +kernel, s, hs, hs', hs'.not_agrees⟩, by decide +kernel, t, ht, ht',
    ht'.not_agrees⟩

end Racing

end Xupeng.IOManager
