import Xupeng.Models.ByteArray.Interpretation.Preservation

/-!
# The byte array refines a flat buffer

`Request` lists the raw operations. The chunked array answers a request through
its nodes, the flat buffer through its list of bytes; `Valid` together with the
map `flat` is the simulation. One request is answered alike on both levels and
leads to related states again, hence so is every sequence of requests.
-/

namespace Xupeng.ByteArray

/-- A raw operation with its arguments. -/
inductive Request
  | write (bytes : List UInt8)
  | read (n : Nat)
  | setPosition (v : Nat)
  | clear
  | toString
  | getReadBuffers (len : Nat)
  deriving DecidableEq, Repr

/-- What the caller of a raw operation sees. Of a gather list it sees the returned
length and the bytes its segments cover one after the other. -/
inductive Observation
  | done
  | bytes (content : List UInt8)
  | buffers (returned : Nat) (content : List UInt8)
  | outOfRange (error : OutOfRange)
  deriving DecidableEq, Repr

/-- What a call shows, where `view` turns its result into an observation; nothing
when the call follows a null pointer. -/
def observed {β : Type} (view : β → ByteArray → Observation) :
    Outcome OutOfRange ByteArray β → Option (Observation × ByteArray)
  | .ok b t => some (view b t, t)
  | .throw e t => some (.outOfRange e, t)
  | .fault => none

/-- The answer of the chunked array. -/
def Request.answer (s : ByteArray) : Request → Option (Observation × ByteArray)
  | .write bytes => observed (fun _ _ => .done) (ByteArray.write bytes s)
  | .read n => observed (fun bs _ => .bytes bs) (ByteArray.read n s)
  | .setPosition v => observed (fun _ _ => .done) (ByteArray.setPosition v s)
  | .clear => observed (fun _ _ => .done) (ByteArray.clear s)
  | .toString => observed (fun bs _ => .bytes bs) (ByteArray.toString s)
  | .getReadBuffers len =>
    observed (fun r t => .buffers r.1 (r.2.flatMap (segment t.nodes)))
      (ByteArray.getReadBuffers len s)

/-- The answer of the flat buffer. -/
def Request.specification (f : Flat) : Request → Observation × Flat
  | .write bytes => (.done, f.write bytes)
  | .read n =>
    if f.data.length - f.pos < n then (.outOfRange .notEnoughLen, f)
    else (.bytes ((f.data.drop f.pos).take n), ⟨f.data, f.pos + n⟩)
  | .setPosition v => (.done, ⟨f.data, v⟩)
  | .clear => (.done, ⟨[], 0⟩)
  | .toString => (.bytes (f.data.drop f.pos), f)
  | .getReadBuffers len =>
    let n := min len (f.data.length - f.pos)
    (.buffers n ((f.data.drop f.pos).take n), f)

/-- The requests that the flat buffer explains: reads of at least one byte and
positions inside the content. -/
def Request.Proper (f : Flat) : Request → Prop
  | .read n => 1 ≤ n
  | .setPosition v => v ≤ f.data.length
  | _ => True

instance (f : Flat) (r : Request) : Decidable (r.Proper f) := by
  cases r <;> unfold Request.Proper <;> infer_instance

/-- The observations of a sequence of requests, and the array after it. -/
def answers : ByteArray → List Request → Option (List Observation × ByteArray)
  | s, [] => some ([], s)
  | s, r :: rs =>
    (r.answer s).bind fun a => (answers a.2 rs).map fun as => (a.1 :: as.1, as.2)

/-- The observations of a sequence of requests to the flat buffer, and the buffer after it. -/
def specifications : Flat → List Request → List Observation × Flat
  | f, [] => ([], f)
  | f, r :: rs =>
    let a := r.specification f
    let as := specifications a.2 rs
    (a.1 :: as.1, as.2)

/-- Every request of the sequence is proper when its turn comes. -/
def ProperAlong : Flat → List Request → Prop
  | _, [] => True
  | f, r :: rs => r.Proper f ∧ ProperAlong (r.specification f).2 rs

instance decidableProperAlong : (f : Flat) → (rs : List Request) → Decidable (ProperAlong f rs)
  | _, [] => isTrue trivial
  | f, r :: rs =>
    have := decidableProperAlong (r.specification f).2 rs
    inferInstanceAs (Decidable (_ ∧ _))

namespace Valid

variable {s : ByteArray}

/-- One request is answered as the flat buffer answers it, and the states stay related. -/
theorem answer_refines (h : s.Valid) {r : Request} (hr : r.Proper s.flat) :
    ∃ t, r.answer s = some ((r.specification s.flat).1, t) ∧ t.Valid ∧
      t.flat = (r.specification s.flat).2 := by
  have hlen : s.flat.data.length - s.flat.pos = s.getReadSize := by
    rw [h.length_data]
    rfl
  cases r with
  | write bytes =>
    obtain ⟨t, hw, hv, hf, -⟩ := h.write bytes
    exact ⟨t, by simp only [Request.answer, hw, observed, Request.specification], hv, hf⟩
  | read n =>
    by_cases hlt : s.getReadSize < n
    · refine ⟨s, ?_, h, ?_⟩
      · simp only [Request.answer, read_of_lt hlt, observed, Request.specification, hlen, hlt,
          if_true]
      · simp only [Request.specification, hlen, hlt, if_true]
    · obtain ⟨t, hread, hv, hf, -⟩ := h.read_of_le hr (Nat.not_lt.mp hlt)
      refine ⟨t, ?_, hv, ?_⟩
      · simp only [Request.answer, hread, observed, Request.specification, hlen, hlt, if_false,
          Flat.ahead]
      · simp only [Request.specification, hlen, hlt, if_false]
        exact hf
  | setPosition v =>
    have hv : v ≤ s.size := by
      rw [← h.length_data]
      exact hr
    obtain ⟨t, hp, hvalid, hf, -⟩ := h.setPosition_of_le hv
    exact ⟨t, by simp only [Request.answer, hp, observed, Request.specification], hvalid, hf⟩
  | clear =>
    obtain ⟨t, hc, hv, hf, -⟩ := h.clear
    exact ⟨t, by simp only [Request.answer, hc, observed, Request.specification], hv, hf⟩
  | toString =>
    refine ⟨s, ?_, h, rfl⟩
    simp only [Request.answer, h.toString, observed, Request.specification, Flat.ahead]
  | getReadBuffers len =>
    obtain ⟨vs, hg, hseg⟩ := h.getReadBuffers len
    refine ⟨s, ?_, h, rfl⟩
    simp only [Request.answer, hg, observed, hseg, Request.specification, hlen, Flat.ahead]

/-- The same for a sequence of requests, by induction over the sequence. -/
theorem answers_refine (h : s.Valid) {rs : List Request} (hrs : ProperAlong s.flat rs) :
    ∃ t, answers s rs = some ((specifications s.flat rs).1, t) ∧ t.Valid ∧
      t.flat = (specifications s.flat rs).2 := by
  induction rs generalizing s with
  | nil => exact ⟨s, rfl, h, rfl⟩
  | cons r rs ih =>
    obtain ⟨t, ha, hv, hf⟩ := h.answer_refines hrs.1
    have hrest : ProperAlong t.flat rs := by
      rw [hf]
      exact hrs.2
    obtain ⟨u, has, hu, hfu⟩ := ih hv hrest
    rw [hf] at has hfu
    exact ⟨u, by simp only [answers, ha, Option.bind_some, has, Option.map_some, specifications],
      hu, hfu⟩

end Valid

/-- A byte array of any base size answers every proper sequence of requests as the
empty flat buffer does and ends in the state the flat buffer ends in. So the base
size and the old content of its memory cannot be observed. -/
theorem refines_flat (B : Nat) (hB : 0 < B) (heap : Nat → UInt8) (rs : List Request)
    (hrs : ProperAlong ⟨[], 0⟩ rs) :
    (∃ t, answers (new B heap) rs = some ((specifications ⟨[], 0⟩ rs).1, t) ∧
        t.flat = (specifications ⟨[], 0⟩ rs).2) ∧
      ∀ B' heap', 0 < B' →
        (answers (new B' heap') rs).map Prod.fst = (answers (new B heap) rs).map Prod.fst := by
  have hrun : ∀ B heap, 0 < B →
      ∃ t, answers (new B heap) rs = some ((specifications ⟨[], 0⟩ rs).1, t) ∧
        t.flat = (specifications ⟨[], 0⟩ rs).2 := by
    intro B heap hB
    have hproper : ProperAlong (new B heap).flat rs := by
      rw [new_flat]
      exact hrs
    obtain ⟨t, ha, -, hf⟩ := (new_valid hB heap).answers_refine hproper
    rw [new_flat] at ha hf
    exact ⟨t, ha, hf⟩
  refine ⟨hrun B heap hB, ?_⟩
  intro B' heap' hB'
  obtain ⟨t, ht, -⟩ := hrun B heap hB
  obtain ⟨t', ht', -⟩ := hrun B' heap' hB'
  rw [ht, ht']
  rfl

/-- Four bytes in nodes of two: an overwrite, a read to the end of the capacity and one beyond. -/
theorem refines_flat_overwrite :
    (answers (new 2 fun _ => 7)
        [.write [1, 2, 3, 4], .setPosition 1, .write [9], .toString, .read 2, .read 1]).map
          Prod.fst =
      some [.done, .done, .done, .bytes [3, 4], .bytes [3, 4], .outOfRange .notEnoughLen] := by
  obtain ⟨⟨t, ht, -⟩, -⟩ := refines_flat 2 (by decide) (fun _ => 7)
    [.write [1, 2, 3, 4], .setPosition 1, .write [9], .toString, .read 2, .read 1] (by decide)
  simp only [ht, Option.map_some]
  decide

end Xupeng.ByteArray
