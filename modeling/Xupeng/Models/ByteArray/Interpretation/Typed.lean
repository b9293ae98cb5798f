import Xupeng.Core.Zigzag
import Xupeng.Models.ByteArray.Interpretation.Preservation
import Xupeng.Models.ByteArray.Native.Codec

/-!
# What the typed operations write and read

`Emits e m bs` says that on every valid array of byte order `e` the call `m`
writes exactly the bytes `bs`; `Parses e m bs v` that wherever `bs` lies ahead
the call returns `v` and moves past it. Both compose along a sequence of calls,
so each codec is treated once and every message built from codecs follows.
-/

namespace Xupeng

/-- Two writes one after the other write the concatenation. -/
theorem Flat.write_write {f : Flat} (h : f.pos ≤ f.data.length) (a b : List UInt8) :
    (f.write a).write b = f.write (a ++ b) := by
  simp only [Flat.write, splice_splice h, List.length_append, Nat.add_assoc]

/-- What lies ahead after moving past the first of two pieces. -/
theorem Flat.ahead_of_append {f : Flat} {a b : List UInt8} (h : f.ahead = a ++ b) :
    (Flat.mk f.data (f.pos + a.length)).ahead = b := by
  rw [Flat.ahead] at h ⊢
  change f.data.drop (f.pos + a.length) = b
  rw [← List.drop_drop, h, List.drop_left]

namespace ByteArray

/-- The call writes the bytes `bs`, in an array of byte order `e`. -/
def Emits (e : Endian) (m : Call Unit) (bs : List UInt8) : Prop :=
  ∀ s : ByteArray, s.Valid → s.endian = e →
    ∃ t, m s = .ok () t ∧ t.Valid ∧ t.flat = s.flat.write bs ∧ t.endian = e ∧
      t.baseSize = s.baseSize ∧
      t.capacity = max s.capacity (roundUp s.baseSize (s.position + bs.length))

/-- The call returns `v` where `bs` lies ahead and moves past it. -/
def Parses {β : Type} (e : Endian) (m : Call β) (bs : List UInt8) (v : β) : Prop :=
  ∀ (s : ByteArray) (rest : List UInt8), s.Valid → s.endian = e → s.flat.ahead = bs ++ rest →
    ∃ t, m s = .ok v t ∧ t.Valid ∧ t.flat = ⟨s.flat.data, s.flat.pos + bs.length⟩ ∧
      t.endian = e ∧ t.baseSize = s.baseSize ∧ t.capacity = s.capacity

variable {e : Endian}

/-! ## Composition -/

theorem roundUp_mono {B m n : Nat} (h : m ≤ n) : roundUp B m ≤ roundUp B n := by
  unfold roundUp
  exact Nat.mul_le_mul_right B (Nat.div_le_div_right (by omega))

theorem Emits.nil : Emits e (pure ()) [] := by
  intro s hs he
  obtain ⟨t, hw, ht⟩ := hs.write []
  have hst : s = t := by
    simpa [write] using hw
  subst hst
  exact ⟨s, rfl, ht.1, ht.2.1, he, ht.2.2.2⟩

theorem Emits.append {m n : Call Unit} {a b : List UInt8} (hm : Emits e m a) (hn : Emits e n b) :
    Emits e (do m; n) (a ++ b) := by
  intro s hs he
  obtain ⟨t, ht, htv, htf, hte, htb, htc⟩ := hm s hs he
  obtain ⟨u, hu, huv, huf, hue, hub, huc⟩ := hn t htv hte
  have hpos : s.flat.pos ≤ s.flat.data.length := by
    rw [hs.length_data]
    exact hs.position_le
  have hmid : t.position = s.position + a.length := congrArg Flat.pos htf
  refine ⟨u, ?_, huv, ?_, hue, hub.trans htb, ?_⟩
  · rw [Program.bind_of_ok ht, hu]
  · rw [huf, htf, Flat.write_write hpos]
  · have hmono : roundUp s.baseSize (s.position + a.length) ≤
        roundUp s.baseSize (s.position + a.length + b.length) := roundUp_mono (Nat.le_add_right _ _)
    rw [huc, htc, htb, hmid, List.length_append, ← Nat.add_assoc]
    omega

/-- Going back to where the writing started, the bytes written lie ahead, followed by
what lay behind them before. -/
theorem Emits.reposition {m : Call Unit} {bs : List UInt8} (hm : Emits e m bs) {s : ByteArray}
    (hs : s.Valid) (he : s.endian = e) :
    ∃ t u, m s = .ok () t ∧ t.flat = s.flat.write bs ∧ t.endian = e ∧
      setPosition s.position t = .ok () u ∧ u.Valid ∧ u.endian = e ∧
      u.flat = ⟨t.flat.data, s.position⟩ ∧
      u.flat.ahead = bs ++ s.flat.data.drop (s.position + bs.length) ∧
      u.baseSize = s.baseSize ∧
      u.capacity = max s.capacity (roundUp s.baseSize (s.position + bs.length)) := by
  obtain ⟨t, ht, htv, htf, hte, htb, htc⟩ := hm s hs he
  have hmid : t.position = s.position + bs.length := congrArg Flat.pos htf
  have hle : s.position ≤ t.size := by
    have := htv.position_le
    omega
  obtain ⟨u, hu, huv, huf, hue, hub, huc⟩ := htv.setPosition_of_le hle
  have hpos : s.position ≤ s.flat.data.length := by
    rw [hs.length_data]
    exact hs.position_le
  refine ⟨t, u, ht, htf, hte, hu, huv, hue.trans hte, huf, ?_, hub.trans htb, huc.trans htc⟩
  rw [huf, htf]
  exact drop_splice hpos bs

theorem Parses.nil {β : Type} (v : β) : Parses e (pure v) [] v := by
  intro s rest hs he _
  exact ⟨s, rfl, hs, rfl, he, rfl, rfl⟩

/-- What is read by two calls stands one behind the other. -/
theorem Parses.bind {β γ : Type} {m : Call β} {f : β → Call γ} {a b : List UInt8} {v : β} {w : γ}
    (hm : Parses e m a v) (hf : Parses e (f v) b w) : Parses e (m >>= f) (a ++ b) w := by
  intro s rest hs he hahead
  rw [List.append_assoc] at hahead
  obtain ⟨t, ht, htv, htf, hte, htb, htc⟩ := hm s (b ++ rest) hs he hahead
  have hrest : t.flat.ahead = b ++ rest := by
    rw [htf]
    exact Flat.ahead_of_append hahead
  obtain ⟨u, hu, huv, huf, hue, hub, huc⟩ := hf t rest htv hte hrest
  refine ⟨u, ?_, huv, ?_, hue, hub.trans htb, huc.trans htc⟩
  · rw [Program.bind_of_ok ht, hu]
  · rw [huf, htf, List.length_append, Nat.add_assoc]

/-- The value is changed after it has been read. -/
theorem Parses.map {β γ : Type} {m : Call β} {a : List UInt8} {v : β} (hm : Parses e m a v)
    (f : β → γ) : Parses e (f <$> m) a (f v) := by
  have h := hm.bind (f := fun b => pure (f b)) (Parses.nil (f v))
  rwa [List.append_nil] at h

/-! ## Raw bytes -/

theorem write_emits (bs : List UInt8) : Emits e (write bs) bs := by
  rintro s hs rfl
  exact hs.write bs

theorem read_parses {bs : List UInt8} (h : bs ≠ []) : Parses e (read bs.length) bs bs := by
  rintro s rest hs rfl hahead
  have hle : bs.length ≤ s.getReadSize := by
    rw [← hs.length_ahead, hahead, List.length_append]
    exact Nat.le_add_right _ _
  obtain ⟨t, ht, htv, htf, hrest⟩ := hs.read_of_le (List.length_pos_of_ne_nil h) hle
  rw [hahead, List.take_left] at ht
  exact ⟨t, ht, htv, htf, hrest⟩

/-! ## Fixed width -/

@[simp] theorem length_memory (host : Endian) (n v : Nat) : (host.memory n v).length = n := by
  cases host <;> simp [Endian.memory]

/-- Swapping the bytes when the orders differ stores the expansion in the order of the array. -/
theorem memory_byteswap (host e : Endian) (n v : Nat) :
    host.memory n (if e ≠ host then byteswap n v else v) = e.memory n v := by
  have hswap : bytesLE n (byteswap n v) = (bytesLE n v).reverse := by
    have h := bytesLE_natOfBytes (bytesLE n v).reverse
    rwa [List.length_reverse, length_bytesLE] at h
  cases host <;> cases e <;> simp [Endian.memory, hswap]

/-- Reading undoes the expansion, up to what does not fit into `n` bytes. -/
theorem value_byteswap (host e : Endian) (n v : Nat) :
    (if e = host then host.value (e.memory n v) else byteswap n (host.value (e.memory n v))) =
      v % 256 ^ n := by
  have hswap : byteswap n (natOfBytes (bytesLE n v).reverse) = v % 256 ^ n := by
    have h := bytesLE_natOfBytes (bytesLE n v).reverse
    rw [List.length_reverse, length_bytesLE] at h
    rw [byteswap, h, List.reverse_reverse, natOfBytes_bytesLE]
  cases host <;> cases e <;> simp [Endian.value, Endian.memory, hswap, natOfBytes_bytesLE]

/-- A number is written in the order of the array. -/
theorem writeFixed_emits (host : Endian) (n v : Nat) :
    Emits e (writeFixed host n v) (e.memory n v) := by
  rintro s hs rfl
  have h := write_emits (e := s.endian) (s.endian.memory n v) s hs rfl
  simpa only [writeFixed, memory_byteswap] using h

/-- It is read in the order of the array, as far as the bytes go. -/
theorem readFixed_parses (host : Endian) {n : Nat} (hn : 0 < n) (v : Nat) :
    Parses e (readFixed host n) (e.memory n v) (v % 256 ^ n) := by
  have hne : e.memory n v ≠ [] := by
    apply List.ne_nil_of_length_pos
    rw [length_memory]
    exact hn
  have hread : Parses e (host.value <$> read n) (e.memory n v) (host.value (e.memory n v)) := by
    have h := read_parses (e := e) hne
    rw [length_memory] at h
    exact h.map host.value
  -- the byte order is looked up after the bytes have been read
  have hswap : Parses e (toHost host n (host.value (e.memory n v))) [] (v % 256 ^ n) := by
    rintro s rest hs rfl _
    exact ⟨s, by rw [toHost, value_byteswap], hs, rfl, rfl, rfl, rfl⟩
  have h := hread.bind hswap
  rwa [List.append_nil] at h

/-- A fixed-width read gives back a value that fits into the width. -/
theorem readFixed_parses_of_lt (host : Endian) {n v : Nat} (hn : 0 < n) (hv : v < 256 ^ n) :
    Parses e (readFixed host n) (e.memory n v) v := by
  have h := readFixed_parses (e := e) host hn v
  rwa [Nat.mod_eq_of_lt hv] at h

theorem readFuint16_parses (host : Endian) (v : UInt16) :
    Parses e (readFuint16 host) (e.memory 2 v.toNat) v := by
  have h := (readFixed_parses_of_lt (e := e) host Nat.two_pos v.toNat_lt).map UInt16.ofNat
  rwa [UInt16.ofNat_toNat] at h

theorem readFuint32_parses (host : Endian) (v : UInt32) :
    Parses e (readFuint32 host) (e.memory 4 v.toNat) v := by
  have h := (readFixed_parses_of_lt (e := e) host (n := 4) (by decide) v.toNat_lt).map UInt32.ofNat
  rwa [UInt32.ofNat_toNat] at h

theorem readFuint64_parses (host : Endian) (v : UInt64) :
    Parses e (readFuint64 host) (e.memory 8 v.toNat) v := by
  have h := (readFixed_parses_of_lt (e := e) host (n := 8) (by decide) v.toNat_lt).map UInt64.ofNat
  rwa [UInt64.ofNat_toNat] at h

theorem readFuint8_parses (b : UInt8) : Parses e readFuint8 [b] b :=
  (read_parses (List.cons_ne_nil b [])).map fun bs => bs.headD 0

/-! ## Variable width -/

/-- A continued byte carries the low seven bits. -/
private theorem and_or_toNat {w : Nat} (hw : 8 ≤ w) (v : BitVec w) :
    ((v &&& 0x7f#w) ||| 0x80#w).toNat = v.toNat % 128 + 128 := by
  have hpow : 2 ^ 8 ≤ 2 ^ w := Nat.pow_le_pow_right Nat.two_pos hw
  have hmask : (0x7f#w).toNat = 2 ^ 7 - 1 := Nat.mod_eq_of_lt (by omega)
  have hhigh : (0x80#w).toNat = 1 <<< 7 := Nat.mod_eq_of_lt (by omega)
  have hlow : v.toNat % 2 ^ 7 < 2 ^ 7 := Nat.mod_lt _ (by decide)
  rw [BitVec.toNat_or, BitVec.toNat_and, hmask, hhigh, Nat.and_two_pow_sub_one_eq_mod, Nat.or_comm,
    ← Nat.shiftLeft_add_eq_or_of_lt hlow, Nat.add_comm]
  rfl

/-- The loop of the varint writers: seven bits a byte, every byte but the last one high. -/
theorem varintLoop_eq {w room : Nat} {v : BitVec w} (hw : 8 ≤ w) (hv : v.toNat < 128 ^ (room + 1)) :
    ∃ bs, varintLoop (room + 1) v = some bs ∧ Terminated bs ∧ groupValue bs = v.toNat ∧
      bs.length ≤ room + 1 := by
  have hbyte (n : Nat) (hn : n < 256) : (UInt8.ofNat n).toNat = n := by
    rw [UInt8.toNat_ofNat']
    omega
  have hlast {room : Nat} {v : BitVec w} (hlt : v.toNat < 128) :
      ∃ bs, varintLoop (room + 1) v = some bs ∧ Terminated bs ∧ groupValue bs = v.toNat ∧
        bs.length ≤ room + 1 := by
    refine ⟨[UInt8.ofNat v.toNat], ?_, ?_, ?_, Nat.succ_le_succ (Nat.zero_le room)⟩
    · simp only [varintLoop, Nat.not_le.mpr hlt, if_false]
    · change (UInt8.ofNat v.toNat).toNat < 128
      rw [hbyte _ (by omega)]
      exact hlt
    · simp only [groupValue, hbyte v.toNat (by omega), Nat.mod_eq_of_lt hlt]
      rfl
  induction room generalizing v with
  | zero => exact hlast (by omega)
  | succ room ih =>
    by_cases hlt : v.toNat < 128
    · exact hlast hlt
    · have hshift : (v >>> 7).toNat = v.toNat / 128 := by
        rw [BitVec.toNat_ushiftRight, Nat.shiftRight_eq_div_pow]
      have hrest : (v >>> 7).toNat < 128 ^ (room + 1) := by
        rw [hshift]
        exact Nat.div_lt_of_lt_mul (by rwa [Nat.mul_comm, ← Nat.pow_succ])
      obtain ⟨bs, hloop, hterm, hval, hlen⟩ := ih hrest
      have hb := hbyte (v.toNat % 128 + 128) (by omega)
      refine ⟨UInt8.ofNat (v.toNat % 128 + 128) :: bs, ?_, ?_, ?_, Nat.succ_le_succ hlen⟩
      · rw [varintLoop, ite_cond_eq_true _ _ (eq_true (Nat.not_lt.mp hlt)), hloop, Option.map_some,
          and_or_toNat hw]
      · rw [terminated_cons, hb]
        exact Or.inr ⟨by omega, hterm⟩
      · rw [groupValue, hb, hval, hshift]
        omega

/-- The loop of the varint readers leaves the word after `k` passes, however many it is given. -/
theorem readVarintLoop_eq_of_le {w k fuel i : Nat} (hi : w ≤ i + 7 * k) (hk : k ≤ fuel)
    (r : BitVec w) : readVarintLoop w fuel i r = readVarintLoop w k i r := by
  induction k generalizing fuel i r with
  | zero =>
    cases fuel with
    | zero => rfl
    | succ fuel =>
      have hout : ¬ i < w := by omega
      simp only [readVarintLoop, hout, if_false]
  | succ k ih =>
    obtain ⟨fuel, rfl⟩ : ∃ j, fuel = j + 1 := ⟨fuel - 1, by omega⟩
    simp only [readVarintLoop, ih (i := i + 7) (by omega) (Nat.le_of_succ_le_succ hk)]

/-- A varint reader of `k` groups makes `k` passes. -/
theorem readVarintLoop_passes {w k passes : Nat} (hw : w ≤ 7 * k) (hk : 7 * k < w + 7)
    (hle : k ≤ passes) : readVarintLoop w passes 0 0 = readVarintLoop w w 0 0 := by
  have hstart : w ≤ 0 + 7 * k := by omega
  have hroom : k ≤ w := by omega
  rw [readVarintLoop_eq_of_le hstart hle, readVarintLoop_eq_of_le hstart hroom]

/-- A byte is widened with zeros. -/
private theorem setWidth_toBitVec (w : Nat) (b : UInt8) :
    b.toBitVec.setWidth w = BitVec.ofNat w b.toNat := by
  apply BitVec.eq_of_toNat_eq
  simp

/-- The low seven bits of a byte. -/
private theorem toNat_and_0x7f (b : UInt8) : (b &&& 0x7f).toNat = b.toNat % 128 := by
  rw [UInt8.toNat_and]
  exact Nat.and_two_pow_sub_one_eq_mod b.toNat 7

/-- The loop of the varint readers, entered with the value `r` of the groups before and `k`
passes ahead, returns after the bytes that belong to the number. The last group may be shifted
partly out of the word. -/
theorem readVarintLoop_parses {w k i r : Nat} {bs : List UInt8} (hbs : groupCount k bs = bs.length)
    (hr : r < 2 ^ i) (hi : i + 7 * k < w + 7) :
    Parses e (readVarintLoop w k i (BitVec.ofNat w r)) bs
      (BitVec.ofNat w (r + 2 ^ i * groupValue bs)) := by
  induction k generalizing i r bs with
  | zero =>
    rw [groupCount_zero] at hbs
    obtain rfl : bs = [] := List.eq_nil_of_length_eq_zero hbs.symm
    exact Parses.nil _
  | succ k ih =>
    cases bs with
    | nil => simp [groupCount_succ_nil] at hbs
    | cons b bs =>
      have hiw : i < w := by omega
      rw [readVarintLoop, if_pos hiw]
      refine Parses.bind (a := [b]) (b := bs) (readFuint8_parses b) ?_
      rw [groupCount_succ_cons, List.length_cons] at hbs
      have hval : r + 2 ^ i * groupValue (b :: bs) =
          r + 2 ^ i * (b.toNat % 128) + 2 ^ (i + 7) * groupValue bs := by
        rw [groupValue, Nat.pow_add, Nat.mul_add, Nat.add_assoc, Nat.mul_assoc]
      by_cases hb : b.toNat < 128
      · rw [if_pos hb] at hbs
        obtain rfl : bs = [] := List.eq_nil_of_length_eq_zero (by omega)
        rw [if_pos (UInt8.lt_iff_toNat_lt.mpr hb), setWidth_toBitVec, ofNat_or_shiftLeft hr, hval,
          Nat.mod_eq_of_lt hb]
        exact Parses.nil _
      · rw [if_neg hb] at hbs
        have hlow : b.toNat % 128 < 2 ^ 7 := Nat.mod_lt _ (by decide)
        have hnext : r + 2 ^ i * (b.toNat % 128) < 2 ^ (i + 7) := by
          calc r + 2 ^ i * (b.toNat % 128)
              < 2 ^ i * (b.toNat % 128) + 2 ^ i := by omega
            _ = 2 ^ i * (b.toNat % 128 + 1) := (Nat.mul_succ _ _).symm
            _ ≤ 2 ^ i * 2 ^ 7 := Nat.mul_le_mul_left _ hlow
            _ = 2 ^ (i + 7) := (Nat.pow_add 2 i 7).symm
        rw [if_neg (fun h => hb (UInt8.lt_iff_toNat_lt.mp h)), setWidth_toBitVec, toNat_and_0x7f,
          ofNat_or_shiftLeft hr, hval]
        exact ih (by omega) hnext (by omega)

/-- A varint reader of `k` groups, on the bytes of one number. -/
theorem readVarint_parses {w k : Nat} {bs : List UInt8} (hw : w ≤ 7 * k) (hk : 7 * k < w + 7)
    (hbs : groupCount k bs = bs.length) :
    Parses e (readVarintLoop w w 0 0) bs (BitVec.ofNat w (groupValue bs)) := by
  have hone : 0 < 2 ^ 0 := Nat.one_pos
  have h := readVarintLoop_parses (e := e) (w := w) (i := 0) hbs hone (by omega)
  rw [Nat.pow_zero, Nat.one_mul, Nat.zero_add] at h
  rw [← readVarintLoop_passes hw hk (Nat.le_refl k)]
  exact h

/-- What a varint writer of `k` groups stores is one number, with the value as its groups. -/
theorem varintLoop_eq_of_le {w k : Nat} (hw : 8 ≤ w) (hk : w ≤ 7 * k) (v : BitVec w) :
    ∃ bs, varintLoop k v = some bs ∧ Terminated bs ∧ groupValue bs = v.toNat ∧ bs.length ≤ k := by
  obtain ⟨room, rfl⟩ : ∃ room, k = room + 1 := ⟨k - 1, by omega⟩
  apply varintLoop_eq hw
  calc v.toNat < 2 ^ w := v.isLt
    _ ≤ 2 ^ (7 * (room + 1)) := Nat.pow_le_pow_right Nat.two_pos hk
    _ = 128 ^ (room + 1) := Nat.pow_mul 2 7 (room + 1)

/-- A varint is read back by the loop of its own width, from a non-empty code. -/
theorem varint_codec {w k : Nat} (hw : 8 ≤ w) (hlow : w ≤ 7 * k) (hhigh : 7 * k < w + 7)
    (v : BitVec w) :
    Emits e (writeVarint k v) ((varintLoop k v).getD []) ∧
      Parses e (readVarintLoop w w 0 0) ((varintLoop k v).getD []) v := by
  obtain ⟨bs, hloop, hterm, hval, hlen⟩ := varintLoop_eq_of_le hw hlow v
  rw [writeVarint, hloop, Option.getD_some]
  refine ⟨write_emits bs, ?_⟩
  have h := readVarint_parses (e := e) hlow hhigh (hterm.groupCount_eq hlen)
  rw [hval, BitVec.ofNat_toNat, BitVec.setWidth_eq] at h
  exact h

/-- A varint is read back, at both widths. -/
theorem uint32_codec (v : UInt32) :
    Emits e (writeUint32 v) ((varintLoop 5 v.toBitVec).getD []) ∧
      Parses e readUint32 ((varintLoop 5 v.toBitVec).getD []) v := by
  obtain ⟨hw, hr⟩ := varint_codec (e := e) (k := 5) (by decide) (by decide) (by decide) v.toBitVec
  exact ⟨hw, hr.map UInt32.ofBitVec⟩

theorem uint64_codec (v : UInt64) :
    Emits e (writeUint64 v) ((varintLoop 10 v.toBitVec).getD []) ∧
      Parses e readUint64 ((varintLoop 10 v.toBitVec).getD []) v := by
  obtain ⟨hw, hr⟩ := varint_codec (e := e) (k := 10) (by decide) (by decide) (by decide) v.toBitVec
  exact ⟨hw, hr.map UInt64.ofBitVec⟩

/-! ## Sequences of calls -/

/-- One writing call for each element. -/
def writeAll {α : Type} (put : α → Call Unit) : List α → Call Unit
  | [] => pure ()
  | a :: as => do
    put a
    writeAll put as

/-- One reading call for each element, with all the results. -/
def readAll {α β : Type} (get : α → Call β) : List α → Call (List β)
  | [] => pure []
  | a :: as => do
    let b ← get a
    (b :: ·) <$> readAll get as

/-- The codes of all values stand one behind the other. -/
theorem writeAll_emits {α : Type} {put : α → Call Unit} {code : α → List UInt8} {as : List α}
    (h : ∀ a ∈ as, Emits e (put a) (code a)) : Emits e (writeAll put as) (as.flatMap code) := by
  induction as with
  | nil => exact Emits.nil
  | cons a as ih =>
    rw [List.flatMap_cons]
    exact (h a List.mem_cons_self).append (ih fun b hb => h b (List.mem_cons_of_mem a hb))

/-- The reading call for a value depends on its `key` only, such as its type. -/
theorem readAll_parses {α β : Type} {get : α → Call β} {key : β → α} {code : β → List UInt8}
    {vs : List β} (h : ∀ v ∈ vs, Parses e (get (key v)) (code v) v) :
    Parses e (readAll get (vs.map key)) (vs.flatMap code) vs := by
  induction vs with
  | nil => exact Parses.nil []
  | cons v vs ih =>
    rw [List.flatMap_cons, List.map_cons]
    have htail := ih fun b hb => h b (List.mem_cons_of_mem v hb)
    exact (h v List.mem_cons_self).bind (htail.map (v :: ·))

end ByteArray

end Xupeng
