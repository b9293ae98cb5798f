import Xupeng.Models.Hook.Interpretation.Timeouts

/-!
# The invariant of timed waits

If every event is registered while `cancelled` is clear, the table keeps the contexts in
use, and `epoll_ctl` succeeds for the callbacks, then every step keeps what the calls in
progress rely on.
-/

namespace Xupeng.Hook

open IOManager (Fewer)

/-- Where the next step of a fiber has a condition: a resize keeps the contexts in use, and the
event of a timed wait is registered while `cancelled` is clear. -/
def Pc.InTime (s : System) : Pc → Prop
  | .waiting w (.grow _) => s.KeepsUsed w.fd.toNat
  | .waiting w (.locked (some _) _) => s.cancelled w.tinfo = 0
  | _ => True

/-- The same for every step; besides, `epoll_ctl` succeeds when a callback cancels an event. -/
def InTime (s : System) : Step → Prop
  | .fiber f _ => ∀ pc ∈ s.fibers[f]?, pc.InTime s
  | .cancel _ rt => rt = true
  | _ => True

instance (s : System) (pc : Pc) : Decidable (pc.InTime s) := by
  unfold Pc.InTime
  split <;> infer_instance

instance (s : System) : (a : Step) → Decidable (InTime s a)
  | .fiber f _ => Option.decidableForallMem (o := s.fibers[f]?)
  | .cancel _ rt => inferInstanceAs (Decidable (rt = true))
  | .release .. | .process .. | .expire .. | .push _ | .take _ | .test _ | .set _ =>
    isTrue trivial

/-- What holds in every state of a run whose events are registered in time. -/
structure Timed (s : System) : Prop where
  sound : s.timers.Sound []
  numbered : Numbered s.fibers s.infos.length
  kept : ∀ (f : Nat) w p, s.fibers[f]? = some (.waiting w p) → Kept s.toShared f w p
  callbacks : ∀ c, s.Pending c → c.winfo < s.infos.length ∧ Matches s.fibers c

namespace Timed

variable {s t : System} {f : Nat}

theorem init (n : Nat) (now : UInt64) (k : Kernel) : Timed (.init n now k) := by
  refine ⟨TimerManager.new_sound now,
    ⟨fun f w p h => absurd h System.init_not_waiting,
      fun f g w w' p p' h => absurd h System.init_not_waiting⟩,
    fun f w p h => absurd h System.init_not_waiting, ?_⟩
  rintro c (hleft | hcancel)
  · cases hleft with
    | timer p hp => simp [System.init, TimerManager.new, TimerManager.deref] at hp
    | batch cbs hcbs hc => cases hcbs
    | queue hc => cases hc
    | test hc => cases hc
    | set hc => cases hc
  · cases hcancel

/-- The rule for a step that begins no call. -/
theorem of_sameCalls (h : Timed s) (hsound : t.timers.Sound [])
    (hinfos : t.infos.length = s.infos.length) (hsame : SameCalls t.fibers s.fibers)
    (hkept : ∀ (f : Nat) w p, t.fibers[f]? = some (.waiting w p) → Kept t.toShared f w p)
    (hpending : ∀ c, t.Pending c → s.Pending c ∨ c.winfo < s.infos.length ∧ Matches s.fibers c) :
    Timed t := by
  refine ⟨hsound, hinfos ▸ h.numbered.mono hsame, hkept, fun c hc => ?_⟩
  have hold : c.winfo < s.infos.length ∧ Matches s.fibers c := by
    obtain hc | hnew := hpending c hc
    · exact h.callbacks c hc
    · exact hnew
  rw [hinfos]
  exact ⟨hold.1, hold.2.mono hsame⟩

/-! ## The steps of fibers -/

/-- A move without an effect on shared objects. -/
theorem goes {pc pc' : Pc} {process : Process} {ready : List Nat} (h : Timed s)
    (hpc : s.fibers[f]? = some pc) (hgoes : Goes pc pc') :
    Timed ({ s with process := process, ready := ready }.goto f pc') := by
  refine h.of_sameCalls h.sound rfl (.goes hpc hgoes) (forall_waiting_set ?_ ?_) fun c => Or.inl
  · rintro w p' rfl
    cases hgoes with
    | waiting w p p' hp hfound => exact Kept.of_timer_none hp
    | short w timer =>
      have hkept := h.kept f w _ hpc
      exact ⟨hkept.own, hkept.left, nofun⟩
    | yield w timer =>
      have hkept := h.kept f w _ hpc
      exact ⟨hkept.own, hkept.left, hkept.watched⟩
    | resume w timer =>
      have hkept := h.kept f w _ hpc
      exact ⟨hkept.own, nofun, nofun⟩
  · intro g w p _ hg
    exact h.kept g w p hg

/-- A call begins. -/
theorem enter {last : Option Ret} {fn : Fun} {fd : Int} {timeout : UInt64} {p : Point}
    {process : Process} (h : Timed s) (hpc : s.fibers[f]? = some (.user last))
    (hp : p.timer = none) (hfound : p.found = none) :
    Timed ({ s with process := process }.enter f fn fd timeout p) := by
  have hmoved : Moved f s ({ s with process := process }.enter f fn fd timeout p) :=
    .enter last fn fd timeout p process hpc hp hfound
  have hsame := System.moved_cancelled hmoved
  have hlen : ({ s with process := process }.enter f fn fd timeout p).infos.length =
      s.infos.length + 1 := List.length_append
  refine ⟨h.sound, ?_, forall_waiting_set ?_ ?_, fun c hc => ?_⟩
  · rw [hlen]
    exact h.numbered.enter rfl
  · rintro w p' heq
    cases heq
    exact Kept.of_timer_none hp
  · intro g w p' _ hg
    have hkept := h.kept g w p' hg
    refine ⟨hkept.own, fun timer ht h0 => hkept.left timer ht ?_,
      fun timer ht hreg hne => hkept.watched timer ht hreg ?_⟩
    · rw [← hsame]
      exact h0
    · rw [← hsame]
      exact hne
  · obtain ⟨hlt, hmatch⟩ := h.callbacks c hc
    refine ⟨by rw [hlen]; omega, fun g w p' hg heq => ?_⟩
    obtain ⟨-, hpc⟩ | ⟨-, hg⟩ := waiting_of_set hg
    · -- the callback is older than the call
      cases hpc
      change s.infos.length = c.winfo at heq
      omega
    · exact hmatch g w p' hg heq

/-- A timer is armed. -/
theorem arm {w : Wait} {addr : Nat} {now : UInt64} {timers : TimerManager Callback} (h : Timed s)
    (hpc : s.fibers[f]? = some (.waiting w .arm))
    (hadd : s.timers.step (.addTimer addr now w.timeout (w.callback s.timers.heap.length) false) =
      some timers) :
    Timed
      ({ s with timers := timers }.goto f
        (.waiting w (.register (some s.timers.heap.length)))) := by
  obtain ⟨hlen, hderef⟩ := timers_of_addTimer hadd
  have hold {p : Nat} {c : Callback} (hp : (s.timers.deref p).cb = some c) :
      (timers.deref p).cb = some c := by
    have hlt := TimerManager.lt_length_of_isSome_cb (Option.isSome_of_eq_some hp)
    rw [hderef, if_neg (Nat.ne_of_lt hlt), hp]
  refine h.of_sameCalls (h.sound.step hadd) rfl (.within hpc _) (forall_waiting_set ?_ ?_) ?_
  · rintro w' p' heq
    cases heq
    refine ⟨fun timer ht => ?_, fun timer ht _ => .timer timer ?_, nofun⟩
    · cases ht
      refine ⟨hlen ▸ Nat.lt_succ_self _, fun c hc => ?_⟩
      change (timers.deref _).cb = some c at hc
      rw [hderef, if_pos rfl] at hc
      exact (Option.some.inj hc).symm
    · cases ht
      change (timers.deref _).cb = _
      rw [hderef, if_pos rfl]
  · intro g w' p' _ hg
    refine (h.kept g w' p' hg).moved (hlen ▸ Nat.le_succ _) ?_ rfl rfl ?_ fun c hc => hc
    · intro q c hq hc
      change (timers.deref q).cb = some c at hc
      rwa [hderef, if_neg (Nat.ne_of_lt hq)] at hc
    · intro timer _ hleft
      exact left_timers (fun p hp => ⟨p, hold hp⟩) hleft
  · intro c hc
    obtain hc | ⟨p, hp⟩ := pending_of_timers hc
    · exact Or.inl hc
    · rw [hderef] at hp
      split at hp
      · cases hp
        refine Or.inr ⟨h.numbered.lt f w _ hpc, fun g w' p' hg heq => ?_⟩
        obtain rfl := h.numbered.inj g f w' w p' _ hg hpc heq
        cases hg.symm.trans hpc
        exact ⟨rfl, rfl⟩
      · exact Or.inl (Or.inl (.timer p hp))

/-- A timer is cancelled by the call that armed it. -/
theorem stop {w : Wait} {p : Point} {timer : Nat} {pc : Pc} {timers : TimerManager Callback}
    (h : Timed s) (hpc : s.fibers[f]? = some (.waiting w p)) (htimer : p.timer = some timer)
    (hcancel : s.timers.step (.cancel timer) = some timers)
    (hgoes : Goes (.waiting w .check) pc) : Timed ({ s with timers := timers }.goto f pc) := by
  obtain ⟨hlen, hderef⟩ := timers_of_cancel h.sound hcancel
  have hfewer {q : Nat} {c : Callback} (hq : (timers.deref q).cb = some c) :
      (s.timers.deref q).cb = some c := by
    rw [hderef] at hq
    split at hq
    · cases hq
    · exact hq
  refine h.of_sameCalls (h.sound.step hcancel) rfl (SameCalls.set ?_) (forall_waiting_set ?_ ?_) ?_
  · rintro w' p' rfl
    cases hgoes
    exact ⟨p, hpc⟩
  · rintro w' p' rfl
    cases hgoes with
    | waiting w _ p' hp hfound => exact Kept.of_timer_none hp
  · intro g w' p' hne hg
    refine (h.kept g w' p' hg).moved hlen.ge (fun q c _ hc => hfewer hc) rfl rfl ?_ fun c hc => hc
    intro timer' _ hleft
    refine left_timers (fun q hq => ⟨q, ?_⟩) hleft
    rw [hderef, if_neg, hq]
    -- the timer of this call holds no callback of another
    rintro rfl
    have hown := ((h.kept f w p hpc).own _ htimer).2 _ hq
    exact hne (h.numbered.inj g f w' w p' p hg hpc (congrArg Callback.winfo hown))
  · intro c hc
    obtain hc | ⟨q, hq⟩ := pending_of_timers hc
    · exact Or.inl hc
    · exact Or.inl (Or.inl (.timer q (hfewer hq)))

/-- A context is found for `addEvent`. -/
theorem found {w : Wait} {timer : Option Nat} {p : Point} {q : ContextPtr} {table : EventTable}
    (h : Timed s) (hpc : s.fibers[f]? = some (.waiting w p)) (hp : p.timer = timer)
    (harmed : p.armed = timer) (htable : table.contexts = s.contexts) :
    Timed ({ s with toEventTable := table }.goto f (.waiting w (.locked timer q))) := by
  have hholds {g : Nat} {w : Wait} (q : ContextPtr) (hq : table.Holds g w q) : s.Holds g w q := by
    unfold EventTable.Holds at hq ⊢
    rwa [htable] at hq
  refine h.of_sameCalls h.sound rfl (.within hpc _) (forall_waiting_set ?_ ?_) fun c => Or.inl
  · rintro w' p' heq
    cases heq
    have hkept := h.kept f w p hpc
    exact ⟨fun timer' ht => hkept.own timer' (hp.trans ht),
      fun timer' ht => hkept.left timer' (harmed.trans ht), nofun⟩
  · intro g w' p' _ hg
    exact (h.kept g w' p' hg).table hholds

/-- The event of a wait is registered while `cancelled` is clear, if the wait is timed. -/
theorem register {w : Wait} {timer : Option Nat} {p : ContextPtr} {rt : Bool}
    {r : IOManager.Result Unit Nat Empty} (h : Timed s)
    (hpc : s.fibers[f]? = some (.waiting w (.locked timer p)))
    (hclear : timer.isSome → s.cancelled w.tinfo = 0)
    (hadd : (s.contexts p).addEvent ⟨(), f, .EXEC⟩ w.fd.toNat w.fn.event none rt = .ok r) :
    Timed ((s.after p r).goto f
      (.waiting w (if r.success then .yield timer else .unregistered timer))) := by
  have hkept := h.kept f w _ hpc
  refine h.of_sameCalls h.sound rfl (.within hpc _) (forall_waiting_set ?_ ?_) fun c => Or.inl
  · rintro w' p' heq
    cases heq
    split
    · refine ⟨hkept.own, hkept.left, fun timer' ht _ hne => absurd (hclear ?_) hne⟩
      change timer = some timer' at ht
      rw [ht]
      rfl
    · exact ⟨hkept.own, nofun, nofun⟩
  · intro g w' p' hne hg
    refine (h.kept g w' p' hg).table fun q hq => ?_
    obtain hq | ⟨rfl, -⟩ := holds_of_addEvent hadd hq
    · exact hq
    · exact absurd rfl hne

/-- A section empties slots. -/
theorem after {p : ContextPtr} {r : IOManager.Result Unit Nat Empty} (h : Timed s)
    (hfewer : Fewer (s.contexts p) r.ctx) : Timed (s.after p r) := by
  refine h.of_sameCalls h.sound rfl (SameCalls.refl _) ?_ fun c => Or.inl
  intro g w p' hg
  exact (h.kept g w p' hg).table fun q hq => holds_of_fewer hfewer hq

/-- The process is aborted. -/
theorem abort (h : Timed s) (a : IOManager.Abort) : Timed { s with abort := some a } :=
  ⟨h.sound, h.numbered, h.kept, h.callbacks⟩

/-- Every step of a fiber that registers its event in time. -/
theorem moved (h : Timed s) (hhomed : Homed s) {a : Act} (hin : InTime s (.fiber f a))
    (hm : Moved f s t) : Timed t := by
  cases hm with
  | go pc pc' process ready hpc hgoes => exact h.goes hpc hgoes
  | enter last fn fd timeout p process hpc hp hfound => exact h.enter hpc hp hfound
  | arm w addr now timers hpc hadd => exact h.arm hpc hadd
  | found w timer p hpc hp => exact h.found hpc rfl rfl rfl
  | grow w timer p hpc hp => exact h.found hpc rfl rfl rfl
  | register w timer p rt r hpc hadd =>
    refine h.register hpc (fun htimer => ?_) hadd
    obtain ⟨timer, rfl⟩ := Option.isSome_iff_exists.mp htimer
    exact hin _ hpc
  | stop w p timer pc timers hpc htimer hcancel hgoes => exact h.stop hpc htimer hcancel hgoes
  | cancelAll fd p rt r hall =>
    have hfewer := (IOManager.cancelAll_empties (hhomed.placed.good p) hall).fewer
    refine (h.after hfewer).of_sameCalls h.sound rfl (SameCalls.set nofun)
      (forall_waiting_set nofun fun g w p' _ hg => ?_) fun c => Or.inl
    exact (h.after hfewer).kept g w p' hg
  | abort a => exact h.abort a

/-! ## The steps of workers -/

/-- Callbacks expire, are queued and taken. -/
theorem expire (h : Timed s) (addr : Nat) (now : UInt64) :
    Timed { s with
      timers := (s.timers.listExpiredCb addr now).1
      batches := s.batches ++ [(s.timers.listExpiredCb addr now).2.filterMap id] } := by
  have hs : s.timers.step (.listExpiredCb addr now) =
      some (s.timers.listExpiredCb addr now).1 := rfl
  refine h.of_sameCalls (h.sound.step hs) rfl (SameCalls.refl _) ?_
    fun c hc => Or.inl (pending_of_expire h.sound hc)
  intro g w p hg
  refine (h.kept g w p hg).moved ((TimerManager.step_frame hs).heap not_false).ge
    (fun q c _ hc => deref_expire h.sound hc) rfl rfl ?_ fun c hc => hc
  intro timer _ hleft
  exact left_expire h.sound addr now hleft

/-- A batch of callbacks is put into the queue. -/
theorem push {i : Nat} {cbs : List Callback} (h : Timed s) (hi : s.batches[i]? = some cbs) :
    Timed { s with batches := s.batches.eraseIdx i, queue := s.queue ++ cbs } := by
  refine h.of_sameCalls h.sound rfl (SameCalls.refl _) ?_
    fun c hc => Or.inl (pending_of_push hi hc)
  intro g w p hg
  refine (h.kept g w p hg).moved le_rfl (fun q c _ hc => hc) rfl rfl ?_ fun c hc => hc
  intro timer _ hleft
  exact left_push hi hleft

theorem take {i : Nat} {c : Callback} (h : Timed s) (hi : s.queue[i]? = some c) :
    Timed { s with queue := s.queue.eraseIdx i, running := s.running ++ [(c, .test)] } := by
  refine h.of_sameCalls h.sound rfl (SameCalls.refl _) ?_
    fun c hc => Or.inl (pending_of_take hi hc)
  intro g w p hg
  refine (h.kept g w p hg).moved le_rfl (fun q c _ hc => hc) rfl rfl ?_
    fun c hc => List.mem_append_left _ hc
  intro timer _ hleft
  exact left_take hi hleft

/-- A callback finds `cancelled` clear. -/
theorem test {i : Nat} {c : Callback} (h : Timed s) (hi : s.running[i]? = some (c, .test)) :
    Timed { s with running := s.running.set i (c, .set) } := by
  refine h.of_sameCalls h.sound rfl (SameCalls.refl _) ?_
    fun c hc => Or.inl (pending_of_running (fun stage => running_of_mem_set hi) hc)
  intro g w p hg
  refine (h.kept g w p hg).moved le_rfl (fun q c _ hc => hc) rfl rfl ?_ ?_
  · intro timer _ hleft
    refine left_running (fun hc => ?_) (fun hc => mem_set_of_ne _ hc hi nofun) hleft
    by_cases heq : w.callback timer = c
    · rw [heq]
      exact Or.inr (mem_set_self _ hi)
    · exact Or.inl (mem_set_of_ne _ hc hi fun hpair => heq (Prod.mk.inj hpair).1)
  · intro c' hc
    exact mem_set_of_ne _ hc hi nofun

/-- A callback finds its call gone or `cancelled` set. The callback of a call in progress finds
the call, so `cancelled` is set. -/
theorem drop {i : Nat} {c : Callback} (h : Timed s) (hi : s.running[i]? = some (c, .test))
    (hdrop : ¬ (s.alive c.winfo ∧ s.cancelled c.winfo = 0)) :
    Timed { s with running := s.running.eraseIdx i } := by
  refine h.of_sameCalls h.sound rfl (SameCalls.refl _) ?_
    fun c hc => Or.inl (pending_of_running
      (fun stage hc => ⟨stage, List.mem_of_mem_eraseIdx hc⟩) hc)
  intro g w p hg
  refine (h.kept g w p hg).moved le_rfl (fun q c _ hc => hc) rfl rfl ?_ ?_
  · intro timer h0 hleft
    have hne : w.callback timer ≠ c := by
      rintro rfl
      have halive : s.alive w.tinfo = true := by
        simp only [System.alive, Bool.or_eq_true, List.any_eq_true, decide_eq_true_eq]
        exact Or.inl ⟨_, List.mem_of_getElem? hg, rfl⟩
      exact hdrop ⟨halive, h0⟩
    refine left_running (fun hc => Or.inl ?_) (fun hc => ?_) hleft
    · exact mem_eraseIdx_of_ne hc hi fun hpair => hne (Prod.mk.inj hpair).1
    · exact mem_eraseIdx_of_ne hc hi nofun
  · intro c' hc
    exact mem_eraseIdx_of_ne hc hi nofun

/-- A callback sets `cancelled`, and is about to cancel the event of its call. -/
theorem set {i : Nat} {c : Callback} (h : Timed s) (hi : s.running[i]? = some (c, .set)) :
    Timed { s with
      infos := s.infos.set c.winfo ETIMEDOUT
      running := s.running.set i (c, .cancel) } := by
  obtain ⟨hlt, hmatch⟩ := h.callbacks c (Or.inl (.set (List.mem_of_getElem? hi)))
  have hown : (s.infos.set c.winfo ETIMEDOUT).getD c.winfo 0 ≠ 0 := by
    rw [List.getD_eq_getElem?_getD, List.getElem?_set_self hlt]
    exact Int.ne_of_gt (by decide)
  have hother {n : Nat} (hn : n ≠ c.winfo) :
      (s.infos.set c.winfo ETIMEDOUT).getD n 0 = s.infos.getD n 0 := by
    rw [List.getD_eq_getElem?_getD, List.getElem?_set_ne (Ne.symm hn),
      List.getD_eq_getElem?_getD]
  refine h.of_sameCalls h.sound List.length_set (SameCalls.refl _) ?_
    fun c hc => Or.inl (pending_of_running (fun stage => running_of_mem_set hi) hc)
  intro g w p hg
  by_cases hw : w.tinfo = c.winfo
  · refine (h.kept g w p hg).mono le_rfl (fun q c _ hc => hc) (fun h0 => ?_) (fun timer h0 => ?_) ?_
    · exact absurd (hw ▸ h0) hown
    · exact absurd (hw ▸ h0) hown
    · intro _ _
      obtain ⟨hfd, hevent⟩ := hmatch g w p hg hw
      exact Or.inl ⟨c, mem_set_self _ hi, hw.symm, hfd, hevent⟩
  · have hsame := hother hw
    refine (h.kept g w p hg).mono le_rfl (fun q c _ hc => hc) (fun h0 => hsame.symm.trans h0) ?_ ?_
    · intro timer _ hleft
      have hne : w.callback timer ≠ c := fun heq => hw (congrArg Callback.winfo heq)
      refine left_running (fun hc => Or.inl ?_) (fun hc => ?_) hleft
      · exact mem_set_of_ne _ hc hi nofun
      · exact mem_set_of_ne _ hc hi fun hpair => hne (Prod.mk.inj hpair).1
    · intro hreg hne
      refine Or.inr ⟨hreg, fun h0 => hne (hsame.trans h0), fun c' _ _ hc => ?_⟩
      exact mem_set_of_ne _ hc hi nofun

/-- A callback comes to its end. The context of its call does not hold the fiber any more, if it
was found. -/
theorem finish {i : Nat} {c : Callback} (h : Timed s) (hi : s.running[i]? = some (c, .cancel))
    (hdone : ∀ (g : Nat) w p, s.fibers[g]? = some (.waiting w p) → c.fd = w.fd →
      c.event = w.fn.event → ¬ s.Registered g w) :
    Timed { s with running := s.running.eraseIdx i } := by
  refine h.of_sameCalls h.sound rfl (SameCalls.refl _) ?_
    fun c hc => Or.inl (pending_of_running
      (fun stage hc => ⟨stage, List.mem_of_mem_eraseIdx hc⟩) hc)
  intro g w p hg
  refine (h.kept g w p hg).mono le_rfl (fun q c _ hc => hc) (fun h0 => h0) ?_ ?_
  · intro timer _ hleft
    refine left_running (fun hc => Or.inl ?_) (fun hc => ?_) hleft
    · exact mem_eraseIdx_of_ne hc hi nofun
    · exact mem_eraseIdx_of_ne hc hi nofun
  · intro hreg hne
    refine Or.inr ⟨hreg, hne, fun c' hfd hevent hc => ?_⟩
    refine mem_eraseIdx_of_ne hc hi fun hpair => ?_
    obtain ⟨rfl, -⟩ := Prod.mk.inj hpair
    exact hdone g w p hg hfd hevent hreg

/-- A callback cancels the event of its call, in the context that holds its fiber. -/
theorem cancel {i : Nat} {c : Callback} {q : ContextPtr} {r : IOManager.Result Unit Nat Empty}
    (h : Timed s) (hhomed : Homed s) (hi : s.running[i]? = some (c, .cancel))
    (hq : s.lookup c.fd.toNat = some q)
    (hr : (s.contexts q).cancelEvent c.fd.toNat c.event true = .ok r) :
    Timed { s.after q r with running := s.running.eraseIdx i } := by
  obtain ⟨⟨hfewer, -⟩, hempty⟩ := IOManager.cancelEvent_slots (hhomed.placed.good q) hr
  refine (h.after hfewer).finish hi fun g w p hg hfd hevent => ?_
  rintro ⟨q', hq'⟩
  have hfound := (hhomed.located g w p hg).held q' (holds_of_fewer hfewer hq')
  rw [← hfd, hq] at hfound
  cases hfound
  -- the slot has just been emptied
  have hslot := hempty rfl (hevent ▸ w.fn.event_single)
  simp only [EventTable.Holds, System.after, Function.update_self, ← hevent, hslot] at hq'
  cases hq'

/-- A callback for whose descriptor the table is too short has no event to cancel. -/
theorem missed {i : Nat} {c : Callback} (h : Timed s) (hhomed : Homed s)
    (hi : s.running[i]? = some (c, .cancel)) (hq : s.lookup c.fd.toNat = none) :
    Timed { s with running := s.running.eraseIdx i } := by
  refine h.finish hi fun g w p hg hfd _ => ?_
  rintro ⟨q, hholds⟩
  have hfound := (hhomed.located g w p hg).held q hholds
  rw [← hfd, hq] at hfound
  cases hfound

theorem served (h : Timed s) (hhomed : Homed s) {a : Step} (hin : InTime s a)
    (hm : Served s a t) : Timed t := by
  cases hm with
  | release fd rt release p r hr =>
    exact h.after (release.empties (hhomed.placed.good p) hr).fewer
  | absent fd rt release => exact h
  | process p rt event r hr =>
    exact h.after (IOManager.process_empties (hhomed.placed.good p) hr).fewer
  | expire addr now => exact h.expire addr now
  | push i cbs hi => exact h.push hi
  | take i c hi => exact h.take hi
  | test i c hi hgo => exact h.test hi
  | drop i c hi hdrop => exact h.drop hi hdrop
  | set i c hi => exact h.set hi
  | cancel i rt c p r hi hp hr =>
    obtain rfl : rt = true := hin
    exact h.cancel hhomed hi hp hr
  | missed i rt c hi hp => exact h.missed hhomed hi hp
  | abort a e => exact h.abort e

theorem step (h : Timed s) (hhomed : Homed s) {a : Step} (hin : InTime s a)
    (hs : s.step a = some t) : Timed t := by
  obtain ⟨f, act, rfl, hm⟩ | hm := System.step_cases hs
  · exact h.moved hhomed hin hm
  · exact h.served hhomed hin hm

end Timed

end Xupeng.Hook
