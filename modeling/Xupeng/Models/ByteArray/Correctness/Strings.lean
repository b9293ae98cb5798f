import Xupeng.Models.ByteArray.Interpretation.Typed

/-!
# Strings with a length in front

A string is written as its length followed by its bytes, and `write` of no bytes
returns at once. The reader asks `read` for the bytes in any case, and `read`
looks at the current node before it looks at the size. So an empty string can be
read back only while the position is before the end of the capacity; this fails
for the last string of a message that fills its nodes exactly.
-/

namespace Xupeng.ByteArray

/-- The three forms of the length: `F32`, `F64` and `Vint`. -/
inductive Length
  | f32
  | f64
  | vint
  deriving DecidableEq, Repr

/-- The bytes a length takes. -/
def Length.width : Length → Nat
  | .f32 => 4
  | .f64 => 8
  | .vint => 8

/-- `writeStringF32`, `writeStringF64` and `writeStringVint`. -/
def Length.write (host : Endian) : Length × List UInt8 → Call Unit
  | (.f32, value) => writeStringF32 host value
  | (.f64, value) => writeStringF64 host value
  | (.vint, value) => writeStringVint host value

/-- `readStringF32`, `readStringF64` and `readStringVint`. -/
def Length.read (host : Endian) : Length → Call (List UInt8)
  | .f32 => readStringF32 host
  | .f64 => readStringF64 host
  | .vint => readStringVint host

/-- The bytes of a string with its length in an array of byte order `e`. -/
def Length.code (e : Endian) (m : Length × List UInt8) : List UInt8 :=
  e.memory m.1.width m.2.length ++ m.2

variable {e : Endian}

theorem Length.width_pos (l : Length) : 0 < l.width := by
  cases l <;> decide

theorem Length.length_code (m : Length × List UInt8) :
    (Length.code e m).length = m.1.width + m.2.length := by
  rw [Length.code, List.length_append, length_memory]

/-- Writing, for strings whose length is a `uint32_t`. -/
theorem Length.write_emits (host : Endian) {m : Length × List UInt8} (hm : m.2.length < 2 ^ 32) :
    Emits e (Length.write host m) (Length.code e m) := by
  have h32 : (UInt32.ofNat m.2.length).toNat = m.2.length := UInt32.toNat_ofNat_of_lt' hm
  have h64 : (UInt64.ofNat m.2.length).toNat = m.2.length :=
    UInt64.toNat_ofNat_of_lt' (Nat.lt_trans hm (by decide))
  obtain ⟨l, value⟩ := m
  cases l with
  | f32 =>
    have h := writeFixed_emits (e := e) host 4 (UInt32.ofNat value.length).toNat
    have hcode := h.append (ByteArray.write_emits value)
    rw [h32] at hcode
    rw [Length.write, writeStringF32, writeFuint32, h32]
    exact hcode
  | f64 | vint =>
    have h := writeFixed_emits (e := e) host 8 (UInt64.ofNat value.length).toNat
    have hcode := h.append (ByteArray.write_emits value)
    rw [h64] at hcode
    simp only [Length.write, writeStringF64, writeStringVint, writeFuint64, h64]
    exact hcode

/-- The reader gets the length and then asks for that many bytes. -/
theorem Length.read_eq (host : Endian) {m : Length × List UInt8} (hm : m.2.length < 2 ^ 32)
    {s : ByteArray} {rest : List UInt8} (hs : s.Valid) (he : s.endian = e)
    (hahead : s.flat.ahead = Length.code e m ++ rest) :
    ∃ t, m.1.read host s = ByteArray.read m.2.length t ∧ t.Valid ∧ t.endian = e ∧
      t.flat.ahead = m.2 ++ rest ∧ t.position = s.position + m.1.width ∧
      t.capacity = s.capacity := by
  have h32 : (UInt32.ofNat m.2.length).toNat = m.2.length := UInt32.toNat_ofNat_of_lt' hm
  have h64 : (UInt64.ofNat m.2.length).toNat = m.2.length :=
    UInt64.toNat_ofNat_of_lt' (Nat.lt_trans hm (by decide))
  rw [Length.code, List.append_assoc] at hahead
  have hrest {t : ByteArray}
      (h : t.flat = ⟨s.flat.data, s.flat.pos + (e.memory m.1.width m.2.length).length⟩) :
      t.flat.ahead = m.2 ++ rest ∧ t.position = s.position + m.1.width := by
    have hp : t.position = s.position + (e.memory m.1.width m.2.length).length :=
      congrArg Flat.pos h
    rw [length_memory] at hp
    exact ⟨by rw [h]; exact Flat.ahead_of_append hahead, hp⟩
  obtain ⟨l, value⟩ := m
  cases l with
  | f32 =>
    have h := readFuint32_parses (e := e) host (UInt32.ofNat value.length)
    rw [h32] at h
    obtain ⟨t, ht, htv, htf, hte, -, htc⟩ := h s _ hs he hahead
    refine ⟨t, ?_, htv, hte, (hrest htf).1, (hrest htf).2, htc⟩
    rw [Length.read, readStringF32, Program.bind_of_ok ht, h32]
  | f64 | vint =>
    have h := readFuint64_parses (e := e) host (UInt64.ofNat value.length)
    rw [h64] at h
    obtain ⟨t, ht, htv, htf, hte, -, htc⟩ := h s _ hs he hahead
    refine ⟨t, ?_, htv, hte, (hrest htf).1, (hrest htf).2, htc⟩
    simp only [Length.read, readStringF64, readStringVint, Program.bind_of_ok ht, h64]

/-- At the end of the capacity an empty string cannot be read: `m_cur` is null. -/
theorem Length.read_fault (host : Endian) {m : Length × List UInt8} (hm : m.2 = [])
    {s : ByteArray} {rest : List UInt8} (hs : s.Valid) (he : s.endian = e)
    (hahead : s.flat.ahead = Length.code e m ++ rest)
    (hcap : s.position + (Length.code e m).length = s.capacity) : m.1.read host s = .fault := by
  have hlen : m.2.length = 0 := by rw [hm, List.length_nil]
  obtain ⟨t, ht, htv, -, -, htp, htc⟩ := Length.read_eq host (by omega) hs he hahead
  rw [Length.length_code] at hcap
  have hnot : ¬ t.position < t.capacity := by omega
  rw [ht, hlen, htv.read_zero, ite_cond_eq_false _ _ (eq_false hnot)]

/-- Otherwise a string is read back and the position moves past its code. -/
theorem Length.read_ok (host : Endian) {m : Length × List UInt8} (hm : m.2.length < 2 ^ 32)
    {s : ByteArray} {rest : List UInt8} (hs : s.Valid) (he : s.endian = e)
    (hahead : s.flat.ahead = Length.code e m ++ rest)
    (hcap : m.2 = [] → s.position + (Length.code e m).length ≠ s.capacity) :
    ∃ t, m.1.read host s = .ok m.2 t ∧ t.Valid ∧ t.endian = e ∧ t.flat.ahead = rest ∧
      t.position = s.position + (Length.code e m).length ∧ t.capacity = s.capacity := by
  obtain ⟨t, ht, htv, hte, hta, htp, htc⟩ := Length.read_eq host hm hs he hahead
  rw [Length.length_code] at hcap ⊢
  by_cases hnil : m.2 = []
  · have hcap := hcap hnil
    have hle : t.position ≤ t.capacity := Nat.le_trans htv.position_le htv.size_le
    rw [hnil, List.length_nil, Nat.add_zero] at hcap ⊢
    have hlt : t.position < t.capacity := by omega
    rw [hnil, List.length_nil, htv.read_zero, ite_cond_eq_true _ _ (eq_true hlt)] at ht
    rw [hnil, List.nil_append] at hta
    exact ⟨t, ht, htv, hte, hta, htp, htc⟩
  · obtain ⟨u, hu, huv, huf, hue, -, huc⟩ := read_parses (e := e) hnil t rest htv hte hta
    have hup : u.position = t.position + m.2.length := congrArg Flat.pos huf
    refine ⟨u, ht.trans hu, huv, hue, ?_, by omega, huc.trans htc⟩
    rw [huf]
    exact Flat.ahead_of_append hta

/-! ## Messages -/

/-- The last string of the message is empty. -/
def EndsEmpty (ms : List (Length × List UInt8)) : Prop := ms.getLast?.map Prod.snd = some []

instance (ms : List (Length × List UInt8)) : Decidable (EndsEmpty ms) :=
  inferInstanceAs (Decidable (_ = _))

/-- The message ends with an empty string at the end of the capacity. -/
def EndsAtNull (s : ByteArray) (ms : List (Length × List UInt8)) : Prop :=
  EndsEmpty ms ∧ s.position + (ms.flatMap (Length.code s.endian)).length = s.capacity

/-- Where more of the message follows, a string is read back whatever it is: the code
of the next string is still inside the capacity. -/
private theorem code_before_capacity {s : ByteArray} (hs : s.Valid) {m : Length × List UInt8}
    {ms : List (Length × List UInt8)} (hne : ms ≠ [])
    (hahead : s.flat.ahead = Length.code e m ++ ms.flatMap (Length.code e)) :
    s.position + (Length.code e m).length < s.capacity := by
  obtain ⟨m', ms', rfl⟩ := List.exists_cons_of_ne_nil hne
  have hlen := hs.length_ahead
  have hwidth := m'.1.width_pos
  have hsize := hs.size_le
  rw [hahead, List.length_append, List.flatMap_cons, List.length_append,
    Length.length_code m', getReadSize] at hlen
  omega

/-- Reading a message back from where it lies. -/
theorem readAll_strings (host : Endian) {ms : List (Length × List UInt8)}
    (hms : ∀ m ∈ ms, m.2.length < 2 ^ 32) {s : ByteArray} (hs : s.Valid)
    (hahead : s.flat.ahead = ms.flatMap (Length.code s.endian)) :
    (EndsAtNull s ms → readAll (Length.read host) (ms.map Prod.fst) s = .fault) ∧
      (¬ EndsAtNull s ms →
        ∃ w, readAll (Length.read host) (ms.map Prod.fst) s = .ok (ms.map Prod.snd) w ∧
          w.getReadSize = 0) := by
  induction ms generalizing s with
  | nil =>
    refine ⟨(fun h => nomatch h.1), fun _ => ⟨s, rfl, ?_⟩⟩
    rw [← hs.length_ahead, hahead]
    rfl
  | cons m ms ih =>
    have hm := hms m List.mem_cons_self
    rw [List.flatMap_cons] at hahead
    by_cases hnil : ms = []
    · subst hnil
      have hiff : EndsAtNull s [m] ↔
          m.2 = [] ∧ s.position + (Length.code s.endian m).length = s.capacity := by
        simp [EndsAtNull, EndsEmpty]
      rw [hiff]
      constructor
      · rintro ⟨hempty, hcap⟩
        exact Program.bind_of_fault (Length.read_fault host hempty hs rfl hahead hcap)
      · intro hnot
        obtain ⟨t, ht, htv, -, hta, -⟩ := Length.read_ok host hm hs rfl hahead
          fun hempty hcap => hnot ⟨hempty, hcap⟩
        refine ⟨t, ?_, ?_⟩
        · exact (Program.bind_of_ok ht).trans (Program.map_of_ok rfl)
        · rw [← htv.length_ahead, hta]
          rfl
    · have hlt := code_before_capacity hs hnil hahead
      obtain ⟨t, ht, htv, hte, hta, htp, htc⟩ := Length.read_ok host hm hs rfl hahead
        fun _ => Nat.ne_of_lt hlt
      rw [← hte] at hta
      obtain ⟨hfault, hok⟩ := ih (fun b hb => hms b (List.mem_cons_of_mem m hb)) htv hta
      have hiff : EndsAtNull s (m :: ms) ↔ EndsAtNull t ms := by
        simp only [EndsAtNull, EndsEmpty, List.getLast?_cons_of_ne_nil hnil, List.flatMap_cons,
          List.length_append, htp, htc, hte, Nat.add_assoc]
      rw [hiff]
      constructor
      · intro h
        exact (Program.bind_of_ok ht).trans (Program.bind_of_fault (hfault h))
      · intro h
        obtain ⟨w, hw, hwz⟩ := hok h
        exact ⟨w, (Program.bind_of_ok ht).trans (Program.map_of_ok hw), hwz⟩

theorem length_flatMap_code (ms : List (Length × List UInt8)) :
    (ms.flatMap (Length.code e)).length = (ms.map fun m => m.1.width + m.2.length).sum := by
  induction ms with
  | nil => rfl
  | cons m ms ih =>
    rw [List.flatMap_cons, List.length_append, ih, Length.length_code, List.map_cons, List.sum_cons]

/-- A content fills the capacity allocated for it exactly when it fills whole nodes. -/
theorem eq_max_roundUp_iff {B n : Nat} (hB : 0 < B) (hn : 0 < n) :
    n = max B (roundUp B n) ↔ B ∣ n := by
  constructor
  · intro h
    rw [h]
    rcases Nat.le_total B (roundUp B n) with hle | hle
    · rw [Nat.max_eq_right hle]
      exact Nat.dvd_mul_left B _
    · rw [Nat.max_eq_left hle]
  · rintro ⟨k, rfl⟩
    have hk : B ≤ B * k := Nat.le_mul_of_pos_right B (Nat.pos_of_mul_pos_left hn)
    have hup : roundUp B (B * k) = B * k :=
      Nat.le_antisymm (roundUp_le hB (Nat.le_refl _)) (le_roundUp hB _)
    rw [hup, Nat.max_eq_right hk]

/-- A message whose strings are shorter than `2 ^ 32`, written to a new array, is read
back after `setPosition(0)`, leaving nothing to read, exactly when it does not end with
an empty string while its code fills whole nodes. -/
theorem strings_round_trip_iff (host : Endian) (B : Nat) (hB : 0 < B) (heap : Nat → UInt8)
    (val : Bool) (ms : List (Length × List UInt8)) (hms : ∀ m ∈ ms, m.2.length < 2 ^ 32) :
    (∃ t u w,
        (do setIsLittleEndian val; writeAll (Length.write host) ms) (new B heap) = .ok () t ∧
        setPosition 0 t = .ok () u ∧
        readAll (Length.read host) (ms.map Prod.fst) u = .ok (ms.map Prod.snd) w ∧
        w.getReadSize = 0) ↔
      ¬ (EndsEmpty ms ∧ B ∣ (ms.map fun m => m.1.width + m.2.length).sum) := by
  obtain ⟨s, hs, hsv, hsf, -, hsb, hsc⟩ := (new_valid hB heap).setIsLittleEndian val
  have hsf : s.flat = ⟨[], 0⟩ := hsf.trans (new_flat B heap)
  have hpos : s.position = 0 := congrArg Flat.pos hsf
  have hwrite : Emits s.endian (writeAll (Length.write host) ms)
      (ms.flatMap (Length.code s.endian)) :=
    writeAll_emits fun m hm => Length.write_emits host (hms m hm)
  obtain ⟨t, u, ht, htf, -, hu, huv, hue, huf, hahead, hub, huc⟩ := hwrite.reposition hsv rfl
  rw [hpos] at hu
  rw [hsf, List.drop_nil, List.append_nil, ← hue] at hahead
  have hup : u.position = 0 := (congrArg Flat.pos huf).trans hpos
  have hbase : s.baseSize = B := hsb
  have hcap : s.capacity = B := hsc
  have hiff : EndsAtNull u ms ↔
      EndsEmpty ms ∧ B ∣ (ms.map fun m => m.1.width + m.2.length).sum := by
    rw [EndsAtNull, huc, hup, hpos, Nat.zero_add, Nat.zero_add, length_flatMap_code,
      length_flatMap_code, hbase, hcap]
    refine and_congr_right fun hempty => eq_max_roundUp_iff hB ?_
    obtain ⟨m, ms, rfl⟩ := List.exists_cons_of_ne_nil (l := ms) (by
      rintro rfl
      cases hempty)
    have := m.1.width_pos
    rw [List.map_cons, List.sum_cons]
    omega
  obtain ⟨hfault, hok⟩ := readAll_strings host hms huv hahead
  rw [← hiff]
  constructor
  · rintro ⟨t', u', w, ht', hu', hw, -⟩ hnull
    rw [Program.bind_of_ok hs, ht] at ht'
    cases ht'
    rw [hu] at hu'
    cases hu'
    rw [hfault hnull] at hw
    cases hw
  · intro h
    obtain ⟨w, hw, hz⟩ := hok h
    exact ⟨t, u, w, (Program.bind_of_ok hs).trans ht, hu, hw, hz⟩

/-- An empty string in the middle is read back, in nodes of two bytes that are filled. -/
theorem strings_round_trip_empty_inside :
    ∃ t u w,
      (do setIsLittleEndian false; writeAll (Length.write .little) [(.f32, []), (.vint, [1, 2])])
        (new 2 fun _ => 0) = .ok () t ∧
      setPosition 0 t = .ok () u ∧
      readAll (Length.read .little) [.f32, .vint] u = .ok [[], [1, 2]] w ∧ w.getReadSize = 0 :=
  (strings_round_trip_iff .little 2 (by decide) (fun _ => 0) false [(.f32, []), (.vint, [1, 2])]
    (by decide)).mpr (by decide)

/-- One empty string in a node of four bytes: the read follows a null pointer. -/
theorem strings_round_trip_null :
    (do writeStringF32 .little []; setPosition 0; readStringF32 .little) (new 4 fun _ => 0) =
      .fault :=
  rfl

end Xupeng.ByteArray
