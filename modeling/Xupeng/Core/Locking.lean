import Mathlib.Data.Finset.Max
import Xupeng.Core.Run

/-!
# Code with locks over a shared state

The code of a thread takes a lock, gives one back, or acts on the shared state and goes on as
that state tells. An action without a result ends the process.

The threads agree on what every action keeps, and on what each lock protects. Code that keeps
to the agreement can be looked at alone.
-/

namespace Xupeng

/-- What a thread still has to do before it has its value. -/
inductive Code (σ L α : Type)
  | pure (a : α)
  | acquire (l : L) (k : Code σ L α)
  | release (l : L) (k : Code σ L α)
  | act (f : σ → Option σ) (k : σ → Code σ L α)

variable {σ L P α β : Type}

namespace Code

/-- One code behind the other. -/
protected def bind : Code σ L α → (α → Code σ L β) → Code σ L β
  | pure a, g => g a
  | acquire l k, g => acquire l (k.bind g)
  | release l k, g => release l (k.bind g)
  | act f k, g => act f fun s => (k s).bind g

instance : Monad (Code σ L) where
  pure := Code.pure
  bind := Code.bind

/-- The shared state is read. -/
def get : Code σ L σ := act some Code.pure

/-- The shared state is changed, where that is defined. -/
def attempt (f : σ → Option σ) : Code σ L Unit := act f fun _ => Code.pure ()

/-- The shared state is changed. -/
def modify (f : σ → σ) : Code σ L Unit := attempt fun s => some (f s)

/-- A block with a lock. -/
def locked (l : L) (body : Code σ L α) : Code σ L α := do
  acquire l (Code.pure ())
  let a ← body
  release l (Code.pure ())
  return a

/-- The shared state is changed, with a value from before. -/
def modifyGet (f : σ → α × σ) : Code σ L α := act (fun s => some (f s).2) fun s => Code.pure (f s).1

/-- A loop over a list. -/
def mapEach (body : β → Code σ L α) : List β → Code σ L (List α)
  | [] => return []
  | b :: bs => do
    let a ← body b
    let as ← mapEach body bs
    return a :: as

/-! ## A single thread -/

/-- The code run by a single thread. -/
def alone : Code σ L α → σ → Option (α × σ)
  | pure a, s => some (a, s)
  | acquire _ k, s => k.alone s
  | release _ k, s => k.alone s
  | act f k, s => (f s).bind fun t => (k s).alone t

theorem alone_pure (a : α) (s : σ) : (Pure.pure a : Code σ L α).alone s = some (a, s) := rfl

/-- A thread that is alone makes one statement after the other. -/
theorem alone_bind (p : Code σ L α) (g : α → Code σ L β) (s : σ) :
    (p >>= g).alone s = (p.alone s).bind fun r => (g r.1).alone r.2 := by
  change (p.bind g).alone s = _
  induction p generalizing s with
  | pure a => rfl
  | acquire l k ih => exact ih s
  | release l k ih => exact ih s
  | act f k ih =>
    rw [Code.bind, alone, alone]
    cases f s with
    | none => rfl
    | some t => exact ih s t

theorem alone_get (s : σ) : (get : Code σ L σ).alone s = some (s, s) := rfl

theorem alone_attempt (f : σ → Option σ) (s : σ) :
    (attempt f : Code σ L Unit).alone s = (f s).map fun t => ((), t) := by
  rw [attempt, alone, Option.map_eq_bind]
  rfl

theorem alone_modify (f : σ → σ) (s : σ) :
    (modify f : Code σ L Unit).alone s = some ((), f s) := rfl

/-- Nobody else is there to wait for. -/
theorem alone_locked (l : L) (body : Code σ L α) (s : σ) :
    (locked l body).alone s = body.alone s := by
  have hrest : (locked l body).alone s =
      (body >>= fun a => release l (Code.pure ()) >>= fun _ => Pure.pure a).alone s := rfl
  rw [hrest, alone_bind]
  cases body.alone s with
  | none => rfl
  | some r => rfl

/-! ## The order of the locks -/

/-- The lock that is wanted next. -/
def wants : Code σ L α → Option L
  | acquire l _ => some l
  | _ => none

/-- `b` is what may be left of `a` after one statement. -/
inductive Rest : Code σ L α → Code σ L α → Prop
  | acquire (l : L) (k : Code σ L α) : Rest k (acquire l k)
  | release (l : L) (k : Code σ L α) : Rest k (release l k)
  | act (f : σ → Option σ) (k : σ → Code σ L α) (s : σ) : Rest (k s) (act f k)

/-- Every thread comes to its end. -/
theorem rest_wellFounded : WellFounded (Rest (σ := σ) (L := L) (α := α)) := by
  refine ⟨fun c => ?_⟩
  induction c with
  | pure a =>
    constructor
    intro b h
    cases h
  | acquire l k ih =>
    constructor
    intro b h
    cases h
    exact ih
  | release l k ih =>
    constructor
    intro b h
    cases h
    exact ih
  | act f k ih =>
    constructor
    intro b h
    cases h
    exact ih _

section Climbs

variable [DecidableEq L] [LT P] {rank : L → P} {last held mid : List L} {l : L}

/-- Every lock is taken above those that the thread has, and `last` are left at the end. -/
def Climbs (rank : L → P) (last : List L) : List L → Code σ L α → Prop
  | held, pure _ => held = last
  | held, acquire l k => (∀ m ∈ held, rank m < rank l) ∧ Climbs rank last (l :: held) k
  | held, release l k => Climbs rank last (held.erase l) k
  | held, act _ k => ∀ s, Climbs rank last held (k s)

theorem climbs_pure (a : α) : (Pure.pure a : Code σ L α).Climbs rank held held := rfl

theorem climbs_get : (get : Code σ L σ).Climbs rank held held := fun _ => rfl

theorem climbs_attempt (f : σ → Option σ) :
    (attempt f : Code σ L Unit).Climbs rank held held := fun _ => rfl

theorem climbs_modify (f : σ → σ) : (modify f : Code σ L Unit).Climbs rank held held := fun _ => rfl

/-- The second part begins with the locks that the first one ends with. -/
theorem Climbs.bind {p : Code σ L α} {g : α → Code σ L β} (hp : p.Climbs rank mid held)
    (hg : ∀ a, (g a).Climbs rank last mid) : (p >>= g).Climbs rank last held := by
  change (p.bind g).Climbs rank last held
  induction p generalizing held with
  | pure a =>
    cases hp
    exact hg a
  | acquire l k ih => exact ⟨hp.1, ih hp.2⟩
  | release l k ih => exact ih hp
  | act f k ih => exact fun s => ih s (hp s)

theorem climbs_modifyGet (f : σ → α × σ) :
    (modifyGet f : Code σ L α).Climbs rank held held := fun _ => rfl

/-- A block whose lock is above those that the thread has. -/
theorem climbs_locked {body : Code σ L α} (hl : ∀ m ∈ held, rank m < rank l)
    (hbody : body.Climbs rank (l :: held) (l :: held)) :
    (locked l body).Climbs rank held held := by
  have htake : (acquire l (Code.pure ())).Climbs (σ := σ) rank (l :: held) held := ⟨hl, rfl⟩
  refine htake.bind fun _ => hbody.bind fun a => ?_
  exact List.erase_cons_head l held

/-- A loop climbs if its body gives back what it takes. -/
theorem climbs_mapEach {body : β → Code σ L α} {bs : List β}
    (h : ∀ b ∈ bs, (body b).Climbs rank held held) :
    (mapEach body bs).Climbs rank held held := by
  induction bs with
  | nil => exact climbs_pure []
  | cons b bs ih =>
    refine Climbs.bind (h b List.mem_cons_self) fun a => ?_
    refine Climbs.bind (ih fun c hc => h c (List.mem_cons_of_mem b hc)) fun as => ?_
    exact climbs_pure (a :: as)

theorem climbs_ite {c : Prop} [Decidable c] {p q : Code σ L α} (hp : p.Climbs rank last held)
    (hq : q.Climbs rank last held) : (if c then p else q).Climbs rank last held := by
  split
  · exact hp
  · exact hq

end Climbs

end Code

/-! ## What is agreed on -/

/-- What the threads have agreed on: what every action keeps, and what is changed only by the
thread that has the lock. -/
structure Agreement (σ L : Type) where
  always : σ → σ → Prop
  under : L → σ → σ → Prop
  always_refl : ∀ s, always s s
  always_trans : ∀ {s t u}, always s t → always t u → always s u
  under_refl : ∀ l s, under l s s
  under_trans : ∀ {l s t u}, under l s t → under l t u → under l s u

namespace Agreement

variable {A : Agreement σ L} {held : List L} {s t u : σ}

/-- What a thread with these locks may see the others do. -/
def Seen (A : Agreement σ L) (held : List L) (s t : σ) : Prop :=
  A.always s t ∧ ∀ l ∈ held, A.under l s t

/-- What a thread with these locks may do. -/
def Allowed (A : Agreement σ L) (held : List L) (s t : σ) : Prop :=
  A.always s t ∧ ∀ l, l ∉ held → A.under l s t

/-- What the others do does not make it false. -/
def Stable (A : Agreement σ L) (held : List L) (I : σ → Prop) : Prop :=
  ∀ s t, I s → A.Seen held s t → I t

/-- With more locks less is seen. -/
theorem Stable.mono {I : σ → Prop} {other : List L} (h : A.Stable held I) (hsub : held ⊆ other) :
    A.Stable other I :=
  fun s t hs hst => h s t hs ⟨hst.1, fun l hl => hst.2 l (hsub hl)⟩

/-- What is stable without locks is kept by every action. -/
theorem Stable.of_always {I : σ → Prop} (h : A.Stable [] I) (hs : I s) (hst : A.always s t) : I t :=
  h s t hs ⟨hst, fun _ hl => absurd hl List.not_mem_nil⟩

/-- Two facts that are stable are stable together. -/
theorem Stable.and {I J : σ → Prop} (h : A.Stable held I) (h' : A.Stable held J) :
    A.Stable held fun s => I s ∧ J s :=
  fun s t hs hst => ⟨h s t hs.1 hst, h' s t hs.2 hst⟩

/-- A thread may see that nothing has happened. -/
theorem seen_refl : A.Seen held s s := ⟨A.always_refl s, fun l _ => A.under_refl l s⟩

theorem allowed_refl : A.Allowed held s s := ⟨A.always_refl s, fun l _ => A.under_refl l s⟩

theorem Seen.trans (h : A.Seen held s t) (h' : A.Seen held t u) : A.Seen held s u :=
  ⟨A.always_trans h.1 h'.1, fun l hl => A.under_trans (h.2 l hl) (h'.2 l hl)⟩

/-- With fewer locks a thread may see more. -/
theorem Seen.of_cons {l : L} (h : A.Seen (l :: held) s t) : A.Seen held s t :=
  ⟨h.1, fun m hm => h.2 m (List.mem_cons_of_mem l hm)⟩

/-- What a thread does is seen by a thread that has none of its locks. -/
theorem Allowed.seen {other : List L} (h : A.Allowed held s t) (hdisj : ∀ l ∈ other, l ∉ held) :
    A.Seen other s t :=
  ⟨h.1, fun l hl => h.2 l (hdisj l hl)⟩

end Agreement

namespace Code

variable [DecidableEq L] {A : Agreement σ L} {Q : α → List L → σ → Prop} {held : List L} {s t : σ}
  {l : L}

/-- Whatever the others do, the thread does what it is allowed to, never an action without a
result, and ends with `Q`. -/
def Safe (A : Agreement σ L) (Q : α → List L → σ → Prop) : List L → σ → Code σ L α → Prop
  | held, s, pure a => ∀ t, A.Seen held s t → Q a held t
  | held, s, acquire l k => ∀ t, A.Seen held s t → Safe A Q (l :: held) t k
  | held, s, release l k => ∀ t, A.Seen held s t → Safe A Q (held.erase l) t k
  | held, s, act f k =>
    ∀ t, A.Seen held s t → ∃ u, f t = some u ∧ A.Allowed held t u ∧ Safe A Q held u (k t)

/-- A thread stays safe when the others act. -/
theorem Safe.of_seen {c : Code σ L α} (h : c.Safe A Q held s) (hst : A.Seen held s t) :
    c.Safe A Q held t := by
  cases c with
  | pure a => exact fun u hu => h u (hst.trans hu)
  | acquire l k => exact fun u hu => h u (hst.trans hu)
  | release l k => exact fun u hu => h u (hst.trans hu)
  | act f k => exact fun u hu => h u (hst.trans hu)

/-- The second part is safe where the first one ends. -/
theorem Safe.bind {Q' : β → List L → σ → Prop} {p : Code σ L α} {g : α → Code σ L β}
    (hp : p.Safe A Q held s) (hg : ∀ a held t, Q a held t → (g a).Safe A Q' held t) :
    (p >>= g).Safe A Q' held s := by
  change (p.bind g).Safe A Q' held s
  induction p generalizing held s with
  | pure a => exact hg a held s (hp s A.seen_refl)
  | acquire l k ih => exact fun t ht => ih (hp t ht)
  | release l k ih => exact fun t ht => ih (hp t ht)
  | act f k ih =>
    intro t ht
    obtain ⟨u, hu, hallowed, hk⟩ := hp t ht
    exact ⟨u, hu, hallowed, ih t hk⟩

theorem Safe.imp {Q' : α → List L → σ → Prop} {p : Code σ L α} (hp : p.Safe A Q held s)
    (h : ∀ a held t, Q a held t → Q' a held t) : p.Safe A Q' held s := by
  induction p generalizing held s with
  | pure a => exact fun t ht => h a held t (hp t ht)
  | acquire l k ih => exact fun t ht => ih (hp t ht)
  | release l k ih => exact fun t ht => ih (hp t ht)
  | act f k ih =>
    intro t ht
    obtain ⟨u, hu, hallowed, hk⟩ := hp t ht
    exact ⟨u, hu, hallowed, ih t hk⟩

/-- What others cannot destroy still holds at the end. -/
theorem Safe.frame {F : σ → Prop} {p : Code σ L α} (hp : p.Safe A Q held s)
    (hF : A.Stable [] F) (hs : F s) : p.Safe A (fun a last t => Q a last t ∧ F t) held s := by
  induction p generalizing held s with
  | pure a => exact fun t ht => ⟨hp t ht, hF.of_always hs ht.1⟩
  | acquire l k ih => exact fun t ht => ih (hp t ht) (hF.of_always hs ht.1)
  | release l k ih => exact fun t ht => ih (hp t ht) (hF.of_always hs ht.1)
  | act f k ih =>
    intro t ht
    obtain ⟨u, hu, hallowed, hk⟩ := hp t ht
    exact ⟨u, hu, hallowed, ih t hk (hF.of_always (hF.of_always hs ht.1) hallowed.1)⟩

/-- From a state with `I` the code ends with `R` and with the locks that it began with. -/
def Does (A : Agreement σ L) (held : List L) (I : σ → Prop) (p : Code σ L α)
    (R : α → σ → Prop) : Prop :=
  ∀ s, I s → p.Safe A (fun a last t => last = held ∧ R a t) held s

section Does

variable {I : σ → Prop} {R : α → σ → Prop}

theorem does_pure {a : α} (hR : A.Stable held (R a)) (h : ∀ s, I s → R a s) :
    Does A held I (Pure.pure a) R :=
  fun s hs t ht => ⟨rfl, hR s t (h s hs) ht⟩

/-- The rule for two parts, one after the other. -/
theorem Does.bind {R' : β → σ → Prop} {p : Code σ L α} {g : α → Code σ L β}
    (hp : Does A held I p R) (hg : ∀ a, Does A held (R a) (g a) R') :
    Does A held I (p >>= g) R' := by
  intro s hs
  refine (hp s hs).bind ?_
  rintro a _ t ⟨rfl, ht⟩
  exact hg a t ht

/-- What was read may be old. -/
theorem does_get {R : σ → σ → Prop} (hI : A.Stable held I)
    (h : ∀ s t, I s → A.Seen held s t → R s t) : Does A held I get R :=
  fun s hs t ht => ⟨t, rfl, A.allowed_refl, fun u hu => ⟨rfl, h t u (hI s t hs ht) hu⟩⟩

/-- An action that does not fail and is allowed. -/
theorem does_attempt {R : Unit → σ → Prop} {f : σ → Option σ} (hI : A.Stable held I)
    (hR : A.Stable held (R ())) (h : ∀ s, I s → ∃ t, f s = some t ∧ A.Allowed held s t ∧ R () t) :
    Does A held I (attempt f) R := by
  intro s hs t ht
  obtain ⟨u, hu, hallowed, hr⟩ := h t (hI s t hs ht)
  exact ⟨u, hu, hallowed, fun v hv => ⟨rfl, hR u v hr hv⟩⟩

theorem does_modify {R : Unit → σ → Prop} {f : σ → σ} (hI : A.Stable held I)
    (hR : A.Stable held (R ())) (h : ∀ s, I s → A.Allowed held s (f s) ∧ R () (f s)) :
    Does A held I (modify f) R :=
  does_attempt hI hR fun s hs => ⟨f s, rfl, h s hs⟩

/-- An action that is allowed keeps what no action makes false. -/
theorem does_modify_of_allowed {f : σ → σ} (hI : A.Stable [] I)
    (h : ∀ s, I s → A.Allowed held s (f s)) : Does A held I (modify f) fun _ => I := by
  have hheld : A.Stable held I := hI.mono (List.nil_subset held)
  refine does_modify hheld hheld fun s hs => ?_
  exact ⟨h s hs, hI.of_always hs (h s hs).1⟩

/-- In the block the lock protects what is known. -/
theorem does_locked {p : Code σ L α} (hI : A.Stable held I) (hR : ∀ a, A.Stable held (R a))
    (h : Does A (l :: held) I p R) : Does A held I (locked l p) R := by
  intro s hs
  have htake : (acquire l (Code.pure ())).Safe A
      (fun _ last t => last = l :: held ∧ I t) held s := by
    intro t ht u hu
    exact ⟨rfl, hI s u hs (ht.trans hu.of_cons)⟩
  refine htake.bind ?_
  rintro - _ t ⟨rfl, ht⟩
  refine (h t ht).bind ?_
  rintro a _ u ⟨rfl, hu⟩
  have hgive : (release l (Code.pure ())).Safe A
      (fun _ last t => last = held ∧ R a t) (l :: held) u := by
    intro v hv
    rw [List.erase_cons_head]
    exact fun w hw => ⟨rfl, hR a u w hu (hv.of_cons.trans hw)⟩
  refine hgive.bind ?_
  rintro - _ v ⟨rfl, hv⟩
  exact fun w hw => ⟨rfl, hR a v w hv hw⟩

/-- An action that returns something as well. -/
theorem does_modifyGet {f : σ → α × σ} (hI : A.Stable held I)
    (hR : ∀ a, A.Stable held (R a))
    (h : ∀ s, I s → A.Allowed held s (f s).2 ∧ R (f s).1 (f s).2) :
    Does A held I (modifyGet f) R := by
  intro s hs t ht
  obtain ⟨hallowed, hr⟩ := h t (hI s t hs ht)
  exact ⟨(f t).2, rfl, hallowed, fun u hu => ⟨rfl, hR _ _ u hr hu⟩⟩

theorem Does.imp {I' : σ → Prop} {p : Code σ L α} (h : Does A held I p R) (hI : ∀ s, I' s → I s) :
    Does A held I' p R :=
  fun s hs => h s (hI s hs)

theorem Does.weaken {R' : α → σ → Prop} {p : Code σ L α} (h : Does A held I p R)
    (hR : ∀ a s, R a s → R' a s) : Does A held I p R' :=
  fun s hs => (h s hs).imp fun a _ t ht => ⟨ht.1, hR a t ht.2⟩

/-- What no action makes false is still true at the end. -/
theorem Does.frame {F : σ → Prop} {p : Code σ L α} (h : Does A held I p R)
    (hF : A.Stable [] F) : Does A held (fun s => I s ∧ F s) p fun a s => R a s ∧ F s := by
  intro s hs
  refine ((h s hs.1).frame hF hs.2).imp ?_
  exact fun a last t ht => ⟨ht.1.1, ht.1.2, ht.2⟩

/-- Each pass of a loop keeps `I`, and what it says of its value stays true. -/
theorem does_mapEach {body : β → Code σ L α} {bs : List β} {G : α → σ → Prop}
    (hI : A.Stable held I) (hG : ∀ a, A.Stable [] (G a))
    (h : ∀ b ∈ bs, Does A held I (body b) fun a s => I s ∧ G a s) :
    Does A held I (mapEach body bs) fun as s => I s ∧ ∀ a ∈ as, G a s := by
  have hstable (as : List α) : A.Stable held fun s => I s ∧ ∀ a ∈ as, G a s :=
    fun s t hs hst => ⟨hI s t hs.1 hst, fun a ha => (hG a).of_always (hs.2 a ha) hst.1⟩
  induction bs with
  | nil => exact does_pure (hstable _) fun s hs => ⟨hs, fun a ha => absurd ha List.not_mem_nil⟩
  | cons b bs ih =>
    refine (h b List.mem_cons_self).bind fun a => ?_
    refine Does.bind (Does.frame (ih fun c hc => h c (List.mem_cons_of_mem b hc)) (hG a))
      fun as => does_pure (hstable _) fun s hs => ?_
    exact ⟨hs.1.1, List.forall_mem_cons.mpr ⟨hs.2, hs.1.2⟩⟩

/-- A loop whose passes keep `I`. -/
theorem does_mapEach_of_invariant {body : β → Code σ L α} (bs : List β) (hI : A.Stable held I)
    (h : ∀ b ∈ bs, Does A held I (body b) fun _ => I) :
    Does A held I (mapEach body bs) fun _ => I := by
  refine Does.weaken (does_mapEach (G := fun _ _ => True) hI (fun _ _ _ _ _ => trivial)
    fun b hb => ?_) fun _ s hs => hs.1
  exact Does.weaken (h b hb) fun _ s hs => ⟨hs, trivial⟩

theorem does_ite {c : Prop} [Decidable c] {p q : Code σ L α} (hp : c → Does A held I p R)
    (hq : ¬ c → Does A held I q R) : Does A held I (if c then p else q) R := by
  split
  · exact hp (by assumption)
  · exact hq (by assumption)

end Does

end Code

end Xupeng
