import Xupeng.Models.IOManager.Interpretation.Slots
import Xupeng.Models.IOManager.Native.Racing

/-!
# Contexts, descriptors and the kernel

A context in the table is the one of its index, and the kernel has been told exactly about
the contexts with events. A section keeps this, and so does each part of `contextResize`.
-/

namespace Xupeng.IOManager

variable {S F C : Type}

/-- The call of `epoll_ctl` is not rejected for being of the wrong kind. -/
def Ctl.Fits (k : Ctl) (interest : Nat → Option (Nat × Event)) : Prop :=
  if k.op = .ADD then interest k.fd = none else interest k.fd ≠ none

instance (k : Ctl) (interest : Nat → Option (Nat × Event)) : Decidable (k.Fits interest) := by
  unfold Ctl.Fits
  infer_instance

/-- The operation is `addEvent`. -/
def Call.isAddEvent : Call S F C → Bool
  | .addEvent .. => true
  | _ => false

/-- A thread registers a callback. -/
def register (fd : Nat) (event : Event) : Call Unit Unit Unit :=
  .addEvent ⟨(), (), .EXEC⟩ fd event (some ())

namespace Slots

variable {t : Slots S F C} {p fd i : Nat} {c : FdContext S F C}

/-- The events in the context of a descriptor; a descriptor without a context has none. -/
def events (t : Slots S F C) (fd : Nat) : Event :=
  ((t.fdContexts[fd]?.join.bind (t.contexts[·]?)).map (·.events)).getD .NONE

/-! ## Contexts and descriptors -/

/-- A context in the table is the one of its index, a context with events is in the table, and
the kernel has been told exactly about the contexts with events. -/
structure Linked (t : Slots S F C) : Prop where
  home : ∀ i p, t.fdContexts[i]? = some (some p) →
    ∃ c : FdContext S F C, t.contexts[p]? = some c ∧ c.fd = i
  owner : ∀ (p : Nat) (c : FdContext S F C), t.contexts[p]? = some c → c.events ≠ .NONE →
    t.fdContexts[c.fd]? = some (some p)
  registered : ∀ fd p e, t.interest fd = some (p, e) ↔
    ∃ c : FdContext S F C, t.contexts[p]? = some c ∧ c.fd = fd ∧ c.events = e ∧ e ≠ .NONE

/-- A descriptor whose context has no events is not registered. -/
theorem Linked.interest_eq_none (h : t.Linked) (hp : t.fdContexts[fd]? = some (some p))
    (hc : t.contexts[p]? = some c) (hnone : c.events = .NONE) : t.interest fd = none := by
  rw [Option.eq_none_iff_forall_ne_some]
  rintro ⟨q, e⟩ hq
  obtain ⟨d, hd, rfl, rfl, hne⟩ := (h.registered fd q e).mp hq
  have hqp : q = p :=
    Option.some.inj (Option.some.inj ((h.owner q d hd hne).symm.trans hp))
  rw [hqp, hc] at hd
  exact hne (Option.some.inj hd ▸ hnone)

/-- What the kernel has for a descriptor are the events of its context. -/
theorem Linked.interest_events (h : t.Linked) (fd : Nat) :
    (t.interest fd).map Prod.snd = if t.events fd = .NONE then none else some (t.events fd) := by
  cases hp : t.fdContexts[fd]?.join with
  | none =>
    have hevents : t.events fd = .NONE := by simp [events, hp]
    rw [if_pos hevents, Option.map_eq_none_iff, Option.eq_none_iff_forall_ne_some]
    rintro ⟨q, e⟩ hq
    obtain ⟨d, hd, rfl, rfl, hne⟩ := (h.registered fd q e).mp hq
    rw [h.owner q d hd hne] at hp
    cases hp
  | some p =>
    have hslot := Option.join_eq_some_iff.mp hp
    obtain ⟨c, hc, rfl⟩ := h.home fd p hslot
    have hevents : t.events c.fd = c.events := by simp [events, hp, hc]
    rw [hevents]
    split
    · rename_i hnone
      rw [h.interest_eq_none hslot hc hnone]
      rfl
    · rename_i hne
      rw [(h.registered c.fd p c.events).mpr ⟨c, hc, rfl, rfl, hne⟩]
      rfl

/-- A call sets or removes the interest by its mask alone. -/
theorem applyCtl_eq (p : Nat) (interest : Nat → Option (Nat × Event)) {k : Ctl}
    (hk : k.op = .DEL ↔ k.events = .NONE) :
    applyCtl p interest (some k) = Function.update interest k.fd
      (if k.events = .NONE then none else some (p, k.events)) := by
  obtain ⟨op, fd, events⟩ := k
  cases op with
  | DEL => rw [if_pos (hk.mp rfl), applyCtl]
  | ADD | MOD =>
    rw [if_neg fun hnone => nomatch hk.mpr hnone]
    rfl

/-- A section keeps contexts and kernel linked, if the context that it makes a call for is in the
table. -/
theorem Linked.set (h : t.Linked) (hc : t.contexts[p]? = some c) {sec : Section S F C}
    {r : Result S F C} (hr : sec.Ends c r) (hfd : r.ctx.fd = c.fd)
    (hhome : ∀ k, sec.request c = some k → k.fd = c.fd ∧ t.fdContexts[c.fd]? = some (some p)) :
    Linked { t with
      contexts := t.contexts.set p r.ctx
      interest := applyCtl p t.interest r.ctl } := by
  have hlt : p < t.contexts.length := (List.getElem?_eq_some_iff.mp hc).1
  have hself : (t.contexts.set p r.ctx)[p]? = some r.ctx := List.getElem?_set_self hlt
  have hother {q : Nat} (hq : q ≠ p) : (t.contexts.set p r.ctx)[q]? = t.contexts[q]? :=
    List.getElem?_set_ne hq.symm
  rcases hr with ⟨hctl, hctx⟩ | ⟨k, hctl, hk, hevents, hdel⟩
  · have hset : t.contexts.set p c = t.contexts := by
      obtain ⟨hlt, rfl⟩ := List.getElem?_eq_some_iff.mp hc
      exact List.set_getElem_self hlt
    rw [hctl, hctx, hset]
    exact h
  · obtain ⟨hkfd, hp⟩ := hhome k hk
    rw [hctl, applyCtl_eq p _ hdel, hkfd]
    refine ⟨fun i q hq => ?_, fun q d hd hne => ?_, fun fd q e => ?_⟩
    · obtain ⟨d, hd, rfl⟩ := h.home i q hq
      by_cases hqp : q = p
      · subst hqp
        rw [hc] at hd
        exact ⟨r.ctx, hself, hfd.trans (congrArg FdContext.fd (Option.some.inj hd))⟩
      · exact ⟨d, (hother hqp).trans hd, rfl⟩
    · by_cases hqp : q = p
      · subst hqp
        dsimp only at hd ⊢
        rw [hself] at hd
        rw [← Option.some.inj hd, hfd]
        exact hp
      · exact h.owner q d ((hother hqp).symm.trans hd) hne
    · dsimp only
      by_cases hfdc : fd = c.fd
      · subst hfdc
        rw [Function.update_self]
        constructor
        · intro hq
          split at hq
          · cases hq
          · rename_i hne
            cases hq
            exact ⟨r.ctx, hself, hfd, hevents, hne⟩
        · rintro ⟨d, hd, hdfd, rfl, hne⟩
          by_cases hqp : q = p
          · subst hqp
            rw [hself] at hd
            obtain rfl := Option.some.inj hd
            rw [hevents] at hne ⊢
            rw [if_neg hne]
          · -- no other context of the descriptor has events
            rw [hother hqp] at hd
            have hq := h.owner q d hd hne
            rw [hdfd, hp] at hq
            exact absurd (Option.some.inj (Option.some.inj hq)).symm hqp
      · rw [Function.update_of_ne hfdc, h.registered]
        refine exists_congr fun d => ?_
        by_cases hqp : q = p
        · subst hqp
          rw [hself, hc]
          refine iff_of_false ?_ ?_
          · rintro ⟨hd, hdfd, -⟩
            exact hfdc (hdfd ▸ congrArg FdContext.fd (Option.some.inj hd).symm)
          · rintro ⟨hd, hdfd, -⟩
            rw [← Option.some.inj hd, hfd] at hdfd
            exact hfdc hdfd.symm
        · rw [hother hqp]

/-! ## Resizing -/

/-- A slot is full after the resize if it was before and is not behind the new end. -/
theorem resize_slot {size : Nat} :
    (t.resize size).fdContexts[i]? = some (some p) ↔
      i < size ∧ t.fdContexts[i]? = some (some p) := by
  dsimp only [resize]
  by_cases hi : i < (t.fdContexts.take size).length
  · have hsize : i < size := by
      rw [List.length_take] at hi
      omega
    rw [List.getElem?_append_left hi, List.getElem?_take_of_lt hsize, and_iff_right hsize]
  · rw [List.getElem?_append_right (Nat.le_of_not_lt hi), List.getElem?_replicate]
    refine iff_of_false (by split <;> simp) ?_
    rintro ⟨hsize, hp⟩
    have hlt := (List.getElem?_eq_some_iff.mp hp).1
    rw [List.length_take] at hi
    omega

/-- A slot that is cut off. -/
theorem mem_drop {size : Nat} (hi : size ≤ i) (hp : t.fdContexts[i]? = some (some p)) :
    some p ∈ t.fdContexts.drop size := by
  refine List.mem_of_getElem? (i := i - size) ?_
  rw [List.getElem?_drop, Nat.add_sub_cancel' hi]
  exact hp

/-- The new size keeps contexts and kernel linked, if what is cut off has no events. -/
theorem Linked.resize (h : t.Linked) {size : Nat}
    (hcut : ∀ p, some p ∈ t.fdContexts.drop size → ∀ c ∈ t.contexts[p]?, c.events = .NONE) :
    (t.resize size).Linked := by
  refine ⟨fun i q hq => h.home i q (resize_slot.mp hq).2, fun q d hd hne => ?_, h.registered⟩
  have hq := h.owner q d hd hne
  refine resize_slot.mpr ⟨?_, hq⟩
  by_contra hge
  exact hne (hcut q (mem_drop (Nat.le_of_not_lt hge) hq) d hd)

/-- A context that is there stays, and a new one has no events. -/
theorem fill_contexts (hc : c.events ≠ .NONE) :
    (t.fill i).contexts[p]? = some c ↔ t.contexts[p]? = some c := by
  dsimp only [fill]
  by_cases hlt : p < t.contexts.length
  · rw [List.getElem?_append_left hlt]
  · rw [List.getElem?_append_right (Nat.le_of_not_lt hlt),
      List.getElem?_eq_none (Nat.le_of_not_lt hlt)]
    refine iff_of_false (fun h => ?_) nofun
    rw [List.mem_singleton.mp (List.mem_of_getElem? h)] at hc
    exact hc rfl

/-- A context made before is still there. -/
theorem fill_old (hc : t.contexts[p]? = some c) : (t.fill i).contexts[p]? = some c := by
  dsimp only [fill]
  rw [List.getElem?_append_left (List.getElem?_eq_some_iff.mp hc).1, hc]

/-- A slot other than the one that is filled. -/
theorem fill_slot (hi : t.fdContexts[i]? = some none) (hp : t.fdContexts[fd]? = some (some p)) :
    (t.fill i).fdContexts[fd]? = some (some p) := by
  dsimp only [fill]
  rw [List.getElem?_set_ne, hp]
  rintro rfl
  cases hi.symm.trans hp

/-- A new context for a slot without one keeps contexts and kernel linked. -/
theorem Linked.fill (h : t.Linked) (hi : t.fdContexts[i]? = some none) : (t.fill i).Linked := by
  refine ⟨fun j q hq => ?_, fun q d hd hne => ?_, fun fd q e => ?_⟩
  · by_cases hji : i = j
    · subst hji
      dsimp only [Slots.fill] at hq
      rw [List.getElem?_set_self (List.getElem?_eq_some_iff.mp hi).1] at hq
      cases hq
      exact ⟨.new i, List.getElem?_concat_length, rfl⟩
    · dsimp only [Slots.fill] at hq
      rw [List.getElem?_set_ne hji] at hq
      obtain ⟨c, hc, hfd⟩ := h.home j q hq
      exact ⟨c, fill_old hc, hfd⟩
  · exact fill_slot hi (h.owner q d ((fill_contexts hne).mp hd) hne)
  · refine (h.registered fd q e).trans (exists_congr fun d => ?_)
    constructor
    · rintro ⟨hd, hrest⟩
      exact ⟨fill_old hd, hrest⟩
    · rintro ⟨hd, hfd, rfl, hne⟩
      exact ⟨(fill_contexts hne).mp hd, hfd, rfl, hne⟩

end Slots

end Xupeng.IOManager
