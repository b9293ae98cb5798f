import Xupeng.Models.Address.Interpretation.Bits

/-!
# Prefix arithmetic

The subnet mask of a length has exactly the upper bits set, and the broadcast address has all
other bits set beside those of the address. The network address is computed with the same mask
as the broadcast address, so it keeps the bits that it should clear. For IPv6 this concerns the
byte with the end of the prefix only, and the bytes behind it are cleared.
-/

namespace Xupeng

/-- The functions of a class of addresses with `w` bits. -/
structure Prefixes (α : Type) (w : Nat) where
  value : α → BitVec w
  family : α → Int32
  port : α → BitVec 16
  subnetMask : UInt32 → Except Undefined (Option α)
  networdAddress : α → UInt32 → Except Undefined (Option α)
  broadcastAddress : α → UInt32 → Except Undefined (Option α)

/-- The functions of `IPv4Address` -/
def IPv4Address.prefixes (host : Endian) : Prefixes IPv4Address 32 where
  value := value host
  family := family
  port := port
  subnetMask := IPv4Address.subnetMask host
  networdAddress := IPv4Address.networdAddress host
  broadcastAddress := IPv4Address.broadcastAddress host

/-- The functions of `IPv6Address` -/
def IPv6Address.prefixes : Prefixes IPv6Address 128 where
  value := value
  family := family
  port := port
  subnetMask := IPv6Address.subnetMask
  networdAddress := IPv6Address.networdAddress
  broadcastAddress := IPv6Address.broadcastAddress

namespace Prefixes

variable {α : Type} {w : Nat}

/-- Subnet mask, network address and broadcast address, with all that they should have but the
value of the network address. -/
structure Results (c : Prefixes α w) (a : α) (p : UInt32) (m n b : α) : Prop where
  subnetMask : c.subnetMask p = .ok (some m)
  networdAddress : c.networdAddress a p = .ok (some n)
  broadcastAddress : c.broadcastAddress a p = .ok (some b)
  mask : c.value m = topBits w p.toNat
  broadcast : c.value b = c.value a ||| ~~~ c.value m
  family : c.family n = c.family a ∧ c.family b = c.family a
  port : c.port n = c.port a ∧ c.port b = c.port a
  below : c.value n ≤ c.value a
  above : c.value a ≤ c.value b
  networkAgain : c.networdAddress n p = .ok (some n)
  broadcastAgain : c.broadcastAddress b p = .ok (some b)

/-- The value that the network address should have. -/
def Network (c : Prefixes α w) (a : α) (p : UInt32) (n : α) : Prop :=
  c.networdAddress a p = .ok (some n) ∧ c.value n = c.value a &&& topBits w p.toNat

/-- Two network addresses that are as they should be are the same if the addresses agree in the
upper bits. -/
theorem network_eq_iff {c : Prefixes α w} {a a' n n' : α} {p : UInt32} (h : c.Network a p n)
    (h' : c.Network a' p n') :
    c.value n = c.value n' ↔
      ∀ i < p.toNat, (c.value a).getMsbD i = (c.value a').getMsbD i := by
  rw [h.2, h'.2, and_topBits_eq_iff]

end Prefixes

/-! ## IPv4 -/

namespace IPv4Address

variable (host : Endian) (a : IPv4Address) {p : UInt32}

/-- The bits behind the prefix, as the word that the host loads. -/
def behind (p : UInt32) : BitVec 32 := byteswapOnLittleEndian host (~~~ topBits 32 p.toNat)

/-- The bits behind the prefix are combined with the address. -/
theorem masked_of_le (op : BitVec 32 → BitVec 32 → BitVec 32) (hpos : 1 ≤ p.toNat)
    (hle : p.toNat ≤ 32) :
    masked op host a p = .ok (some { a with addr := op a.addr (behind host p) }) := by
  have hnot : ¬ p > 32 := Nat.not_lt.mpr hle
  rw [masked, if_neg hnot, createMask_of_le hle (by omega)]
  rfl

/-- The mask has the bits of the prefix. -/
theorem subnetMask_of_le (hpos : 1 ≤ p.toNat) (hle : p.toNat ≤ 32) :
    subnetMask host p = .ok (some ⟨afInet, 0, ~~~ behind host p⟩) := by
  rw [subnetMask, createMask_of_le hle (by omega)]
  rfl

/-- In the order of the host the bits behind the prefix are the low ones. -/
theorem swap_behind (p : UInt32) :
    byteswapOnLittleEndian host (behind host p) = ~~~ topBits 32 p.toNat :=
  swap_swap (by decide) host _

/-- The network address has the bits behind the prefix. -/
theorem exists_results (hpos : 1 ≤ p.toNat) (hle : p.toNat ≤ 32) :
    ∃ m n b, (prefixes host).Results a p m n b ∧
      n.value host = a.value host &&& ~~~ topBits 32 p.toNat := by
  have hw : 8 ∣ 32 := by decide
  have hmask : value host ⟨afInet, 0, ~~~ behind host p⟩ = topBits 32 p.toNat := by
    rw [value, swap_not hw, swap_behind, BitVec.not_not]
  have hnetwork : value host { a with addr := a.addr &&& behind host p } =
      a.value host &&& ~~~ topBits 32 p.toNat := by
    rw [value, swap_and hw, swap_behind, value]
  have hbroadcast : value host { a with addr := a.addr ||| behind host p } =
      a.value host ||| ~~~ topBits 32 p.toNat := by
    rw [value, swap_or hw, swap_behind, value]
  refine ⟨⟨afInet, 0, ~~~ behind host p⟩, { a with addr := a.addr &&& behind host p },
    { a with addr := a.addr ||| behind host p }, ?_, hnetwork⟩
  refine
    { subnetMask := subnetMask_of_le host hpos hle
      networdAddress := masked_of_le host a _ hpos hle
      broadcastAddress := masked_of_le host a _ hpos hle
      mask := hmask
      broadcast := hbroadcast.trans (congrArg (fun m => a.value host ||| ~~~ m) hmask.symm)
      family := ⟨rfl, rfl⟩
      port := ⟨rfl, rfl⟩
      below := BitVec.le_trans (BitVec.le_of_eq hnetwork) (and_le _ _)
      above := BitVec.le_trans (le_or _ _) (BitVec.le_of_eq hbroadcast.symm)
      networkAgain := ?_
      broadcastAgain := ?_ }
  · refine (masked_of_le host _ _ hpos hle).trans ?_
    simp only [BitVec.and_assoc, BitVec.and_self]
  · refine (masked_of_le host _ _ hpos hle).trans ?_
    simp only [BitVec.or_assoc, BitVec.or_self]

end IPv4Address

/-! ## IPv6 -/

namespace IPv6Address

variable (a : IPv6Address) {p : UInt32}

/-- The bytes in front of the byte `q` are those of `x`, the byte `q` is that of `y`, and behind it
all are `rest`. -/
def Around (q : Nat) (x y : Vector UInt8 16) (rest : UInt8) (r : Vector UInt8 16) : Prop :=
  ∀ (k : Nat) (hk : k < 16), r[k] = if k < q then x[k] else if k = q then y[k] else rest

/-- The byte with the end of a prefix, combined with the bits behind the prefix. -/
def combined (op : UInt8 → UInt8 → UInt8) (p : UInt32) (x : Vector UInt8 16) : Vector UInt8 16 :=
  x.map fun byte => op byte ⟨~~~ topBits 8 (p.toNat % 8)⟩

/-- The mask of the byte in which the prefix ends. -/
theorem createMask_mod (p : UInt32) : createMask 8 (p % 8) = .ok (~~~ topBits 8 (p.toNat % 8)) := by
  have hmod : (p % 8).toNat = p.toNat % 8 := rfl
  rw [createMask_of_le (by omega) (by omega), hmod]

/-- The bytes in front of the end of the prefix stay, those behind it are set. -/
theorem exists_masked (op : UInt8 → UInt8 → UInt8) (rest : UInt8) (h : p.toNat < 128) :
    ∃ r, masked op rest a p = .ok (some { a with addr := r }) ∧
      Around (p.toNat / 8) a.addr (combined op p a.addr) rest r := by
  have hi : p.toNat / 8 < 16 := by omega
  obtain ⟨r, hr, hbytes⟩ := exists_fill (i := p.toNat / 8 + 1) (n := 16 - (p.toNat / 8 + 1))
    (by omega) rest (a.addr.set (p.toNat / 8) (op a.addr[p.toNat / 8]
      ⟨~~~ topBits 8 (p.toNat % 8)⟩))
  refine ⟨r, ?_, fun k hk => ?_⟩
  · simp only [masked, createMask_mod, change_of_lt hi, bind, Except.bind, hr]
    rfl
  · rw [hbytes k hk, Vector.getElem_set, combined, Vector.getElem_map]
    rcases Nat.lt_trichotomy k (p.toNat / 8) with hlt | heq | hgt
    · rw [if_neg (by omega), if_neg (by omega), if_pos hlt]
    · subst heq
      rw [if_neg (by omega), if_pos rfl, if_neg (Nat.lt_irrefl _), if_pos rfl]
    · rw [if_pos (by omega), if_neg (by omega), if_neg (by omega)]

/-- A second time changes nothing. -/
theorem masked_again {op : UInt8 → UInt8 → UInt8} (hop : ∀ x m, op (op x m) m = op x m)
    {rest : UInt8} (hp : p.toNat < 128) {r : Vector UInt8 16}
    (h : Around (p.toNat / 8) a.addr (combined op p a.addr) rest r) :
    masked op rest { a with addr := r } p = .ok (some { a with addr := r }) := by
  obtain ⟨r', hr', hbytes⟩ := exists_masked { a with addr := r } op rest hp
  have heq : r' = r := by
    ext k hk
    rw [hbytes k hk, combined, Vector.getElem_map, h k hk, combined, Vector.getElem_map]
    split
    · rfl
    · split
      · exact congrArg UInt8.toNat (hop _ _)
      · rfl
  rw [hr', heq]

/-- The mask has ones in front of that byte and zeros behind it. -/
theorem exists_subnetMask (h : p.toNat < 128) :
    ∃ r, subnetMask p = .ok (some ⟨afInet6, 0, r⟩) ∧
      Around (p.toNat / 8) (.replicate 16 0xff) (.replicate 16 ⟨topBits 8 (p.toNat % 8)⟩) 0 r := by
  have hi : p.toNat / 8 < 16 := by omega
  obtain ⟨r, hr, hbytes⟩ := exists_fill (i := 0) (n := p.toNat / 8) (by omega) 0xff
    ((Vector.replicate 16 (0 : UInt8)).set (p.toNat / 8) ⟨~~~ ~~~ topBits 8 (p.toNat % 8)⟩)
  refine ⟨r, ?_, fun k hk => ?_⟩
  · simp only [subnetMask, createMask_mod, change_of_lt hi, bind, Except.bind, hr]
    rfl
  · rw [hbytes k hk, Vector.getElem_set, BitVec.not_not]
    simp only [Vector.getElem_replicate]
    rcases Nat.lt_trichotomy k (p.toNat / 8) with hlt | heq | hgt
    · rw [if_pos (by omega), if_pos hlt]
    · subst heq
      rw [if_neg (by omega), if_pos rfl, if_neg (Nat.lt_irrefl _)]
    · rw [if_neg (by omega), if_neg (by omega), if_neg (by omega), if_neg (by omega)]

/-- Read as a number, these are the bits of the prefix. -/
theorem value_subnetMask {r : Vector UInt8 16}
    (h : Around (p.toNat / 8) (.replicate 16 0xff) (.replicate 16 ⟨topBits 8 (p.toNat % 8)⟩) 0 r)
    (family : Int32) (port : BitVec 16) :
    value ⟨family, port, r⟩ = topBits 128 p.toNat := by
  refine BitVec.eq_of_getMsbD_eq fun i hi => ?_
  have hj : i % 8 < 8 := Nat.mod_lt i (by decide)
  rw [getMsbD_value _ hi, getMsbD_topBits hi, h (i / 8) (by omega), Vector.getElem_replicate,
    Vector.getElem_replicate]
  rcases Nat.lt_trichotomy (i / 8) (p.toNat / 8) with hlt | heq | hgt
  · have hall : (0xff : UInt8).toBitVec = BitVec.allOnes 8 := rfl
    have hin : i < p.toNat := by omega
    rw [if_pos hlt, hall, BitVec.getMsbD_allOnes]
    simp [hj, hin]
  · have hin : i < p.toNat ↔ i % 8 < p.toNat % 8 := by omega
    rw [if_neg (by omega), if_pos heq, getMsbD_topBits hj, decide_eq_decide]
    exact hin.symm
  · have hzero : (0 : UInt8).toBitVec = 0#8 := rfl
    have hnot : ¬ i < p.toNat := by omega
    rw [if_neg (by omega), if_neg (by omega), hzero, BitVec.getMsbD_zero]
    simp [hnot]

/-- All bits behind the prefix are set. -/
theorem value_broadcast {r : Vector UInt8 16}
    (h : Around (p.toNat / 8) a.addr (combined (· ||| ·) p a.addr) 0xff r) :
    value { a with addr := r } = a.value ||| ~~~ topBits 128 p.toNat := by
  refine BitVec.eq_of_getMsbD_eq fun i hi => ?_
  have hj : i % 8 < 8 := Nat.mod_lt i (by decide)
  rw [getMsbD_value _ hi, BitVec.getMsbD_or, BitVec.getMsbD_not, getMsbD_topBits hi,
    getMsbD_value a hi, h (i / 8) (by omega), combined, Vector.getElem_map]
  rcases Nat.lt_trichotomy (i / 8) (p.toNat / 8) with hlt | heq | hgt
  · have hin : i < p.toNat := by omega
    rw [if_pos hlt]
    simp [hin]
  · have hin : i < p.toNat ↔ i % 8 < p.toNat % 8 := by omega
    rw [if_neg (by omega), if_pos heq, UInt8.toBitVec_or, BitVec.getMsbD_or, BitVec.getMsbD_not,
      getMsbD_topBits hj]
    simp only [hin, hi, hj]
  · have hall : (0xff : UInt8).toBitVec = BitVec.allOnes 8 := rfl
    have hnot : ¬ i < p.toNat := by omega
    rw [if_neg (by omega), if_neg (by omega), hall, BitVec.getMsbD_allOnes]
    simp [hi, hj, hnot]

/-- The bits that the network address keeps. -/
theorem getMsbD_network {r : Vector UInt8 16}
    (h : Around (p.toNat / 8) a.addr (combined (· &&& ·) p a.addr) 0 r) {i : Nat} (hi : i < 128) :
    (value { a with addr := r }).getMsbD i =
      (a.value.getMsbD i &&
        (decide (i / 8 < p.toNat / 8) || decide (i / 8 = p.toNat / 8 ∧ p.toNat ≤ i))) := by
  have hj : i % 8 < 8 := Nat.mod_lt i (by decide)
  rw [getMsbD_value _ hi, getMsbD_value a hi, h (i / 8) (by omega), combined, Vector.getElem_map]
  rcases Nat.lt_trichotomy (i / 8) (p.toNat / 8) with hlt | heq | hgt
  · simp [hlt]
  · have hnot : ¬ i / 8 < p.toNat / 8 := by omega
    have hbehind : (decide (i / 8 = p.toNat / 8 ∧ p.toNat ≤ i)) =
        !decide (i % 8 < p.toNat % 8) := by
      rw [← decide_not, decide_eq_decide]
      omega
    rw [if_neg hnot, if_pos heq, UInt8.toBitVec_and, BitVec.getMsbD_and, BitVec.getMsbD_not,
      getMsbD_topBits hj, hbehind]
    simp only [hj, hnot, decide_true, decide_false, Bool.true_and, Bool.false_or]
  · have hzero : (0 : UInt8).toBitVec = 0#8 := rfl
    have hlt : ¬ i / 8 < p.toNat / 8 := by omega
    have hne : ¬ i / 8 = p.toNat / 8 := by omega
    rw [if_neg hlt, if_neg hne, hzero, BitVec.getMsbD_zero]
    simp [hlt, hne]

/-- The network address is as it should be if the byte with the end of the prefix is zero. -/
theorem value_network_iff {r : Vector UInt8 16} (hp : p.toNat < 128)
    (h : Around (p.toNat / 8) a.addr (combined (· &&& ·) p a.addr) 0 r) :
    value { a with addr := r } = a.value &&& topBits 128 p.toNat ↔ a.addr[p.toNat / 8] = 0 := by
  constructor
  · intro heq
    apply UInt8.eq_of_toBitVec_eq
    refine BitVec.eq_of_getMsbD_eq fun j hj => ?_
    -- the bit of the byte, in the whole address
    have hi : 8 * (p.toNat / 8) + j < 128 := by omega
    have hdiv : (8 * (p.toNat / 8) + j) / 8 = p.toNat / 8 := by omega
    have hmod : (8 * (p.toNat / 8) + j) % 8 = j := by omega
    have hbit := congrArg (BitVec.getMsbD · (8 * (p.toNat / 8) + j)) heq
    simp only [getMsbD_network a h hi, BitVec.getMsbD_and, getMsbD_topBits hi, hdiv,
      getMsbD_value a hi, hmod] at hbit
    change a.addr[p.toNat / 8].toBitVec.getMsbD j = (0#8).getMsbD j
    rw [BitVec.getMsbD_zero]
    by_cases hle : p.toNat ≤ 8 * (p.toNat / 8) + j
    · simpa [hle, Nat.not_lt.mpr hle] using hbit
    · simpa [hle, Nat.not_le.mp hle] using hbit
  · intro hzero
    refine BitVec.eq_of_getMsbD_eq fun i hi => ?_
    rw [getMsbD_network a h hi, BitVec.getMsbD_and, getMsbD_topBits hi]
    by_cases heq : i / 8 = p.toNat / 8
    · have hbit : a.value.getMsbD i = false := by
        rw [getMsbD_value a hi]
        simp only [heq, hzero]
        exact BitVec.getMsbD_zero
      rw [hbit, Bool.false_and, Bool.false_and]
    · have hin : i < p.toNat ↔ i / 8 < p.toNat / 8 := by omega
      simp [heq, hin]

/-- All three addresses, and when the network address is as it should be. -/
theorem exists_results (hp : p.toNat < 128) :
    ∃ m n b, prefixes.Results a p m n b ∧
      (n.value = a.value &&& topBits 128 p.toNat ↔ a.addr[p.toNat / 8] = 0) := by
  obtain ⟨rm, hm, hmbytes⟩ := exists_subnetMask hp
  obtain ⟨rn, hn, hnbytes⟩ := exists_masked a (· &&& ·) 0x00 hp
  obtain ⟨rb, hb, hbbytes⟩ := exists_masked a (· ||| ·) 0xff hp
  have hmask := value_subnetMask hmbytes afInet6 0
  have hbroadcast := value_broadcast a hbbytes
  have hsub : value { a with addr := rn } = a.value &&& value { a with addr := rn } := by
    refine BitVec.eq_of_getMsbD_eq fun i hi => ?_
    rw [BitVec.getMsbD_and, getMsbD_network a hnbytes hi, ← Bool.and_assoc, Bool.and_self]
  refine ⟨⟨afInet6, 0, rm⟩, { a with addr := rn }, { a with addr := rb }, ?_,
    value_network_iff a hp hnbytes⟩
  refine
    { subnetMask := hm
      networdAddress := hn
      broadcastAddress := hb
      mask := hmask
      broadcast := hbroadcast.trans (congrArg (fun m => a.value ||| ~~~ m) hmask.symm)
      family := ⟨rfl, rfl⟩
      port := ⟨rfl, rfl⟩
      below := BitVec.le_trans (BitVec.le_of_eq hsub) (and_le _ _)
      above := BitVec.le_trans (le_or _ _) (BitVec.le_of_eq hbroadcast.symm)
      networkAgain := masked_again a (fun x m => ?_) hp hnbytes
      broadcastAgain := masked_again a (fun x m => ?_) hp hbbytes }
  · rw [UInt8.and_assoc, UInt8.and_self]
  · rw [UInt8.or_assoc, UInt8.or_self]

end IPv6Address

/-- For every IPv4 address and every length from 1 to 32, and for every IPv6 address and every
length below 128: subnet mask and broadcast address are as they should be, all three keep what
they should keep, and the network address is as it should be exactly if the IPv4 address is zero,
or if the byte of the IPv6 address with the end of the prefix is. -/
theorem prefix_arithmetic_iff (host : Endian) (a : IPv4Address) (b : IPv6Address) (p : UInt32) :
    (1 ≤ p.toNat → p.toNat ≤ 32 → ∃ m n l, (IPv4Address.prefixes host).Results a p m n l ∧
      ((IPv4Address.prefixes host).Network a p n ↔ a.value host = 0#32) ∧
      ∀ a' n', (IPv4Address.prefixes host).Network a p n →
        (IPv4Address.prefixes host).Network a' p n' → (n.value host = n'.value host ↔
          ∀ i < p.toNat, (a.value host).getMsbD i = (a'.value host).getMsbD i)) ∧
    ∀ hp : p.toNat < 128, ∃ m n l, IPv6Address.prefixes.Results b p m n l ∧
      (IPv6Address.prefixes.Network b p n ↔ b.addr[p.toNat / 8] = 0) ∧
      ∀ b' n', IPv6Address.prefixes.Network b p n → IPv6Address.prefixes.Network b' p n' →
        (n.value = n'.value ↔ ∀ i < p.toNat, b.value.getMsbD i = b'.value.getMsbD i) := by
  constructor
  · intro hpos hle
    obtain ⟨m, n, l, hresults, hn⟩ := IPv4Address.exists_results host a hpos hle
    refine ⟨m, n, l, hresults, ?_, fun a' n' h h' => Prefixes.network_eq_iff h h'⟩
    rw [Prefixes.Network, and_iff_right hresults.networdAddress]
    change n.value host = a.value host &&& topBits 32 p.toNat ↔ _
    rw [hn, and_eq_and_not_iff]
  · intro hp
    obtain ⟨m, n, l, hresults, hn⟩ := IPv6Address.exists_results b hp
    refine ⟨m, n, l, hresults, ?_, fun b' n' h h' => Prefixes.network_eq_iff h h'⟩
    rw [Prefixes.Network, and_iff_right hresults.networdAddress]
    exact hn

/-- 10.1.2.3 with a prefix of eight bits, whose network comes out wrong, and 20::1 with a prefix of
64 bits, whose network comes out right. -/
theorem prefix_arithmetic_examples :
    (∃ m n l, (IPv4Address.prefixes .little).Results ⟨afInet, 0, 0x0302010a#32⟩ 8 m n l ∧
        ¬ (IPv4Address.prefixes .little).Network ⟨afInet, 0, 0x0302010a#32⟩ 8 n) ∧
      let b : IPv6Address := ⟨afInet6, 0, #v[0, 0x20, 0, 0, 0, 0, 0, 0, 0, 0, 0, 0, 0, 0, 0, 1]⟩
      ∃ m n l, IPv6Address.prefixes.Results b 64 m n l ∧ IPv6Address.prefixes.Network b 64 n := by
  refine ⟨?_, ?_⟩
  · obtain ⟨m, n, l, hresults, hnetwork, -⟩ := (prefix_arithmetic_iff .little
      ⟨afInet, 0, 0x0302010a#32⟩ ⟨afInet6, 0, .replicate 16 0⟩ 8).1 (by decide) (by decide)
    exact ⟨m, n, l, hresults, fun h => absurd (hnetwork.mp h) (by decide)⟩
  · intro b
    obtain ⟨m, n, l, hresults, hnetwork, -⟩ :=
      (prefix_arithmetic_iff .little ⟨afInet, 0, 0⟩ b 64).2 (by decide)
    exact ⟨m, n, l, hresults, hnetwork.mpr (by decide)⟩

/-- The network of 10.1.2.3 with a prefix of eight bits should be 10.0.0.0, and comes out as
0.1.2.3. That of 20::1 with a prefix of 126 bits should be 20::, and comes out as 20::1. -/
theorem prefix_network_kept :
    IPv4Address.networdAddress .little ⟨afInet, 0, 0x0302010a#32⟩ 8 =
        .ok (some ⟨afInet, 0, 0x03020100#32⟩) ∧
      (IPv4Address.value .little ⟨afInet, 0, 0x0302010a#32⟩ = 0x0a010203#32 ∧
        IPv4Address.value .little ⟨afInet, 0, 0x03020100#32⟩ = 0x00010203#32) ∧
      IPv6Address.networdAddress ⟨afInet6, 0, #v[0, 0x20, 0, 0, 0, 0, 0, 0, 0, 0, 0, 0, 0, 0, 0, 1]⟩
          126 =
        .ok (some ⟨afInet6, 0, #v[0, 0x20, 0, 0, 0, 0, 0, 0, 0, 0, 0, 0, 0, 0, 0, 1]⟩) := by
  decide

end Xupeng
