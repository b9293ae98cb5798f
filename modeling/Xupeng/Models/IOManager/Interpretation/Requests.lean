import Xupeng.Models.IOManager.Interpretation.Sections

/-!
# What a section asks of the kernel

Every section makes at most one call of `epoll_ctl`, and derives the operation and
the mask from the events of its context. `Section.Ran` says how a section runs to
its end. If the call succeeds, the context has the events of the mask; otherwise it
is as before.
-/

namespace Xupeng.IOManager

variable {S F C : Type} {c : FdContext S F C} {r : Result S F C} {rt : Bool}

/-- The operation for a context that is to have these events left. -/
def CtlOp.left (events : Event) : CtlOp := if events ≠ .NONE then .MOD else .DEL

/-- The call of `epoll_ctl` that a section makes. -/
def Section.request (fd_ctx : FdContext S F C) : Section S F C → Option Ctl
  | .addEvent _ fd event _ =>
    if fd_ctx.events.inter event ≠ .NONE then none
    else
      some ⟨if fd_ctx.events ≠ .NONE then .MOD else .ADD, fd, fd_ctx.events.union event⟩
  | .delEvent fd event | .cancelEvent fd event =>
    if fd_ctx.events.inter event = .NONE then none
    else some ⟨.left (fd_ctx.events.without event), fd, fd_ctx.events.without event⟩
  | .cancelAll fd => if fd_ctx.events = .NONE then none else some ⟨.DEL, fd, .NONE⟩
  | .process event =>
    let real_events := fd_ctx.realEvents event
    if fd_ctx.events.inter real_events = .NONE then none
    else
      some ⟨.left (fd_ctx.events.without real_events), fd_ctx.fd,
        fd_ctx.events.without real_events⟩

/-- The section ends with what the call asked for, or with the context it began with. -/
def Section.Ends (sec : Section S F C) (c : FdContext S F C) (r : Result S F C) : Prop :=
  r.ctl = none ∧ r.ctx = c ∨
    ∃ k, r.ctl = some k ∧ sec.request c = some k ∧ r.ctx.events = k.events ∧
      (k.op = .DEL ↔ k.events = .NONE)

/-- The descriptor is removed when no event is left. -/
theorem left_eq_DEL (events : Event) : CtlOp.left events = .DEL ↔ events = .NONE := by
  unfold CtlOp.left
  split <;> simp_all

/-- After an event has been added there is one. -/
theorem union_ne_NONE {a b : Event} (hb : b.Single) : a.union b ≠ .NONE := by
  rcases hb with rfl | rfl <;> rcases a with ⟨_ | _, _ | _⟩ <;> decide

/-- A slot can be set without the bits. -/
theorem setContext_events (c : FdContext S F C) (event : Event) (ctx : EventContext S F C) :
    (c.setContext event ctx).events = c.events := by
  unfold FdContext.setContext
  split
  · rfl
  · split <;> rfl

/-- What two triggers leave of the events. -/
theorem triggerTwice_events (hg : c.Good) {cond cond' : Bool}
    {r₁ r₂ : FdContext S F C × List (Effect S F C)} (h₁ : c.triggerIf cond .READ = .ok r₁)
    (h₂ : r₁.1.triggerIf cond' .WRITE = .ok r₂) :
    r₂.1.events = c.events.without ⟨cond, cond'⟩ := by
  obtain ⟨hm, he₁, -⟩ := triggerIf_ok hg h₁
  obtain ⟨-, he₂, -⟩ := triggerIf_ok hm.good h₂
  rw [he₂, he₁]
  rcases c.events with ⟨_ | _, _ | _⟩ <;> cases cond <;> cases cond' <;> rfl

/-! ## How a section runs -/

/-- How a section runs to its end. It leaves everything as it is, unless it has a call to make
and the call succeeds; then it goes on to fill or to empty slots. -/
inductive Section.Ran (c : FdContext S F C) : Bool → Section S F C → Result S F C → Prop
  | unchanged {rt : Bool} {sec : Section S F C} (unasked : rt = true → sec.request c = none) :
      Ran c rt sec ⟨c, none, [], false⟩
  | addCallback {caller : FdContext.Caller S F} {fd : Nat} {event : Event} {cb : C} {k : Ctl}
      (asked : Section.request c (.addEvent caller fd event (some cb)) = some k)
      (single : event.Single) :
      Ran c true (.addEvent caller fd event (some cb))
        ⟨c.insert event ⟨some caller.scheduler, none, some cb⟩, some k,
          [.increment, .registered caller.scheduler (.cb cb)], true⟩
  | addFiber {caller : FdContext.Caller S F} {fd : Nat} {event : Event} {k : Ctl}
      (asked : Section.request c (.addEvent caller fd event none) = some k)
      (single : event.Single) :
      Ran c true (.addEvent caller fd event none)
        ⟨c.insert event ⟨some caller.scheduler, some caller.fiber, none⟩, some k,
          [.increment, .registered caller.scheduler (.fiber caller.fiber)], true⟩
  | delEvent {fd : Nat} {event : Event} {k : Ctl}
      (asked : Section.request c (.delEvent fd event) = some k) (single : event.Single) :
      Ran c true (.delEvent fd event)
        ⟨c.remove event, some k,
          .decrement :: ((c.slot event).held.map fun r => .dropped r.1 r.2).toList, true⟩
  | cancelEvent {fd : Nat} {event : Event} {k : Ctl}
      {x : FdContext S F C × List (Effect S F C)}
      (asked : Section.request c (.cancelEvent fd event) = some k)
      (trigger : c.triggerIf true event = .ok x) :
      Ran c true (.cancelEvent fd event) ⟨x.1, some k, x.2, true⟩
  | cancelAll {fd : Nat} {k : Ctl} {x y : FdContext S F C × List (Effect S F C)}
      (asked : Section.request c (.cancelAll fd) = some k)
      (read : c.triggerIf c.events.read .READ = .ok x)
      (write : x.1.triggerIf x.1.events.write .WRITE = .ok y) (done : y.1.events = .NONE) :
      Ran c true (.cancelAll fd) ⟨y.1, some k, x.2 ++ y.2, true⟩
  | process {event : EpollEvents} {k : Ctl} {x y : FdContext S F C × List (Effect S F C)}
      (asked : Section.request c (.process event) = some k)
      (read : c.triggerIf (c.realEvents event).read .READ = .ok x)
      (write : x.1.triggerIf (c.realEvents event).write .WRITE = .ok y) :
      Ran c true (.process event) ⟨y.1, some k, x.2 ++ y.2, true⟩

/-- An event whose context has been found is `READ` or `WRITE`. -/
theorem single_of_getContext {event : Event} {ctx : EventContext S F C}
    (h : c.getContext event = .ok ctx) : event.Single := by
  by_contra he
  rw [getContext_of_not_single he] at h
  cases h

/-- A section whose call fails leaves everything as it is. -/
theorem Section.exec_fails {sec : Section S F C} (hr : sec.exec false c = .ok r) :
    r = ⟨c, none, [], false⟩ := by
  cases sec with
  | addEvent caller fd event cb =>
    simp only [Section.exec, FdContext.addEvent] at hr
    split at hr <;> cases hr
    rfl
  | delEvent fd event =>
    simp only [Section.exec, FdContext.delEvent] at hr
    split at hr <;> cases hr <;> rfl
  | cancelEvent fd event =>
    simp only [Section.exec, FdContext.cancelEvent] at hr
    split at hr <;> cases hr <;> rfl
  | cancelAll fd =>
    simp only [Section.exec, FdContext.cancelAll] at hr
    split at hr <;> cases hr <;> rfl
  | process event =>
    simp only [Section.exec, FdContext.process] at hr
    split at hr <;> cases hr <;> rfl

/-- The request and the bits after it go together. -/
theorem addEvent_ran {caller : FdContext.Caller S F} {fd : Nat} {event : Event} {cb : Option C}
    (hr : c.addEvent caller fd event cb true = .ok r) :
    Section.Ran c true (.addEvent caller fd event cb) r := by
  unfold FdContext.addEvent at hr
  split at hr
  · cases hr
  rename_i hclear
  obtain ⟨ctx, hctx, hr⟩ := bind_eq_ok.mp hr
  have he := single_of_getContext hctx
  split at hr
  · cases hr
  · split at hr
    · cases hr
      exact .addCallback (if_neg hclear) he
    · split at hr <;> cases hr
      exact .addFiber (if_neg hclear) he

/-- Every section that does not abort runs in one of these ways. -/
theorem Section.ran {sec : Section S F C} (hr : sec.exec rt c = .ok r) : Ran c rt sec r := by
  cases rt with
  | false =>
    cases exec_fails hr
    exact .unchanged Bool.noConfusion
  | true =>
    cases sec with
    | addEvent caller fd event cb => exact addEvent_ran hr
    | delEvent fd event =>
      simp only [Section.exec, FdContext.delEvent] at hr
      split at hr
      · rename_i hclear
        cases hr
        exact .unchanged fun _ => if_pos hclear
      · rename_i hset
        obtain ⟨ctx, hctx, hr⟩ := bind_eq_ok.mp hr
        have he := single_of_getContext hctx
        rw [getContext_of_single he] at hctx
        cases hctx
        cases hr
        exact .delEvent (if_neg hset) he
    | cancelEvent fd event =>
      simp only [Section.exec, FdContext.cancelEvent] at hr
      split at hr
      · rename_i hclear
        cases hr
        exact .unchanged fun _ => if_pos hclear
      · rename_i hset
        obtain ⟨x, hx, hr⟩ := bind_eq_ok.mp hr
        cases hr
        exact .cancelEvent (if_neg hset) hx
    | cancelAll fd =>
      simp only [Section.exec, FdContext.cancelAll] at hr
      split at hr
      · rename_i hnone
        cases hr
        exact .unchanged fun _ => if_pos hnone
      · rename_i hsome
        obtain ⟨x, hx, hr⟩ := bind_eq_ok.mp hr
        obtain ⟨y, hy, hr⟩ := bind_eq_ok.mp hr
        split at hr
        · cases hr
        · rename_i hdone
          cases hr
          exact .cancelAll (if_neg hsome) hx hy (not_not.mp hdone)
    | process event =>
      simp only [Section.exec, FdContext.process] at hr
      split at hr
      · rename_i hclear
        cases hr
        exact .unchanged fun _ => if_pos hclear
      · rename_i hset
        obtain ⟨x, hx, hr⟩ := bind_eq_ok.mp hr
        obtain ⟨y, hy, hr⟩ := bind_eq_ok.mp hr
        cases hr
        exact .process (if_neg hset) hx hy

/-- Every section ends with what its call of `epoll_ctl` asked for, or with the context it
began with. -/
theorem Section.exec_ends (hg : c.Good) {sec : Section S F C} (hr : sec.exec rt c = .ok r) :
    sec.Ends c r := by
  -- the mask of an `ADD` or a `MOD` is not empty
  have hadd {event : Event} (he : event.Single) :
      (if c.events ≠ .NONE then CtlOp.MOD else .ADD) = .DEL ↔ c.events.union event = .NONE := by
    refine iff_of_false ?_ (union_ne_NONE he)
    split <;> simp
  cases Section.ran hr with
  | unchanged => exact Or.inl ⟨rfl, rfl⟩
  | addCallback asked single | addFiber asked single =>
    refine Or.inr ⟨_, rfl, asked, ?_⟩
    cases (Option.ite_none_left_eq_some.mp asked).2
    exact ⟨setContext_events _ _ _, hadd single⟩
  | delEvent asked =>
    refine Or.inr ⟨_, rfl, asked, ?_⟩
    cases (Option.ite_none_left_eq_some.mp asked).2
    exact ⟨setContext_events _ _ _, left_eq_DEL _⟩
  | cancelEvent asked trigger =>
    refine Or.inr ⟨_, rfl, asked, ?_⟩
    cases (Option.ite_none_left_eq_some.mp asked).2
    exact ⟨(triggerIf_ok hg trigger).2.1, left_eq_DEL _⟩
  | cancelAll asked _ _ done =>
    refine Or.inr ⟨_, rfl, asked, ?_⟩
    cases (Option.ite_none_left_eq_some.mp asked).2
    exact ⟨done, iff_of_true rfl rfl⟩
  | process asked read write =>
    refine Or.inr ⟨_, rfl, asked, ?_⟩
    cases (Option.ite_none_left_eq_some.mp asked).2
    exact ⟨triggerTwice_events hg read write, left_eq_DEL _⟩

/-- Only `addEvent` makes a call for a context without events. -/
theorem Section.request_eq_some {sec : Section S F C} {k : Ctl} (hk : sec.request c = some k) :
    c.events ≠ .NONE ∧ k.op ≠ .ADD ∨
      c.events = .NONE ∧ k.op = .ADD ∧
        ∃ caller fd event cb, sec = .addEvent caller fd event cb := by
  by_cases hnone : c.events = .NONE
  · refine Or.inr ⟨hnone, ?_⟩
    have hinter (event : Event) : c.events.inter event = .NONE := by
      rw [hnone]
      rfl
    cases sec with
    | addEvent caller fd event cb =>
      simp only [Section.request, ne_eq, not_true_eq_false, if_false, hnone] at hk
      cases hk
      exact ⟨rfl, caller, fd, event, cb, rfl⟩
    | delEvent fd event | cancelEvent fd event =>
      rw [Section.request, if_pos (hinter event)] at hk
      cases hk
    | cancelAll fd =>
      rw [Section.request, if_pos hnone] at hk
      cases hk
    | process event =>
      simp only [Section.request, hinter, if_true] at hk
      cases hk
  · refine Or.inl ⟨hnone, ?_⟩
    have hleft (events : Event) : CtlOp.left events ≠ .ADD := by
      unfold CtlOp.left
      split <;> simp
    cases sec with
    | addEvent caller fd event cb =>
      rw [Section.request, if_pos hnone] at hk
      split at hk
      · cases hk
      · cases hk
        simp
    | delEvent fd event | cancelEvent fd event =>
      rw [Section.request] at hk
      split at hk
      · cases hk
      · cases hk
        exact hleft _
    | cancelAll fd =>
      rw [Section.request, if_neg hnone] at hk
      cases hk
      simp
    | process event =>
      simp only [Section.request] at hk
      split at hk
      · cases hk
      · cases hk
        exact hleft _

/-- The descriptor of the call is the one of the operation, or of the context. -/
theorem Call.request_fd {call : Call S F C} {k : Ctl} (hk : call.toSection.request c = some k) :
    k.fd = call.fd := by
  cases call with
  | addEvent caller fd event cb =>
    simp only [Call.toSection, Section.request] at hk
    split at hk <;> cases hk
    rfl
  | delEvent fd event | cancelEvent fd event =>
    simp only [Call.toSection, Section.request] at hk
    split at hk <;> cases hk
    rfl
  | cancelAll fd =>
    simp only [Call.toSection, Section.request] at hk
    split at hk <;> cases hk
    rfl

/-- The request is for the descriptor of the context. -/
theorem process_request_fd {event : EpollEvents} {k : Ctl}
    (hk : Section.request c (.process event) = some k) : k.fd = c.fd := by
  simp only [Section.request] at hk
  split at hk <;> cases hk
  rfl

end Xupeng.IOManager
