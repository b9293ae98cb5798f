import Xupeng.Models.Address.Correctness.Prefix

/-!
# Limits of prefix lengths

The length 0 shifts an `int` by 32 in all functions of IPv4. Lengths above 32 are refused for
broadcast and network addresses, while the subnet mask shifts by the wrapped difference. For
IPv6 no length is refused, and lengths from 128 on reach behind the array.
-/

namespace Xupeng

/-- Nothing undefined happens, and up to a limit there is a result. -/
def Bounded {α : Type} (limit : Nat) (p : UInt32) (r : Except Undefined (Option α)) : Prop :=
  (∃ o, r = .ok o) ∧ (p.toNat ≤ limit → r ≠ .ok none)

/-- A result is within the bounds, whatever it is. -/
theorem Bounded.of_some {α : Type} {limit : Nat} {p : UInt32} {r : Except Undefined (Option α)}
    {a : α} (h : r = .ok (some a)) : Bounded limit p r := by
  subst h
  exact ⟨⟨some a, rfl⟩, nofun⟩

/-- Undefined behaviour is not. -/
theorem not_bounded_of_error {α : Type} {limit : Nat} {p : UInt32}
    {r : Except Undefined (Option α)} {e : Undefined} (h : r = .error e) :
    ¬ Bounded limit p r := by
  rintro ⟨⟨o, ho⟩, -⟩
  cases h.symm.trans ho

/-! ## IPv4 -/

/-- The shift of a length that is 0 or too large. -/
theorem createMask_of_not {p : UInt32} (h : ¬ (1 ≤ p.toNat ∧ p.toNat ≤ 32)) :
    createMask 32 p = .error .shift := by
  have hp : p.toNat < 2 ^ 32 := p.toNat_lt
  have hcount : ¬ (32 + 2 ^ 64 - p.toNat) % 2 ^ 64 < 32 := by omega
  simp only [createMask, if_neg hcount]

namespace IPv4Address

variable (host : Endian) (a : IPv4Address) (p : UInt32)

theorem bounded_masked_iff (op : BitVec 32 → BitVec 32 → BitVec 32) :
    Bounded 32 p (masked op host a p) ↔ p.toNat ≠ 0 := by
  by_cases hgt : p > 32
  · have hlong : 32 < p.toNat := hgt
    have hnull : masked op host a p = .ok none := by rw [masked, if_pos hgt]
    exact iff_of_true ⟨⟨none, hnull⟩, by omega⟩ (by omega)
  · have hle : p.toNat ≤ 32 := Nat.not_lt.mp hgt
    by_cases hzero : p.toNat = 0
    · have herror : masked op host a p = .error .shift := by
        rw [masked, if_neg hgt, createMask_of_not (by omega)]
        rfl
      exact iff_of_false (not_bounded_of_error herror) (not_not.mpr hzero)
    · exact iff_of_true (Bounded.of_some (masked_of_le host a op (by omega) hle)) hzero

theorem bounded_subnetMask_iff :
    Bounded 32 p (subnetMask host p) ↔ 1 ≤ p.toNat ∧ p.toNat ≤ 32 := by
  by_cases h : 1 ≤ p.toNat ∧ p.toNat ≤ 32
  · exact iff_of_true (Bounded.of_some (subnetMask_of_le host h.1 h.2)) h
  · have herror : subnetMask host p = .error .shift := by
      rw [subnetMask, createMask_of_not h]
      rfl
    exact iff_of_false (not_bounded_of_error herror) h

end IPv4Address

/-! ## IPv6 -/

namespace IPv6Address

variable (a : IPv6Address) (p : UInt32)

theorem bounded_masked_iff (op : UInt8 → UInt8 → UInt8) (rest : UInt8) :
    Bounded 128 p (masked op rest a p) ↔ p.toNat < 128 := by
  by_cases h : p.toNat < 128
  · obtain ⟨r, hr, -⟩ := exists_masked a op rest h
    exact iff_of_true (Bounded.of_some hr) h
  · have herror : masked op rest a p = .error .index := by
      rw [masked, createMask_mod]
      simp only [change_of_le (show 16 ≤ p.toNat / 8 by omega), bind, Except.bind]
    exact iff_of_false (not_bounded_of_error herror) h

theorem bounded_subnetMask_iff : Bounded 128 p (subnetMask p) ↔ p.toNat < 128 := by
  by_cases h : p.toNat < 128
  · obtain ⟨r, hr, -⟩ := exists_subnetMask h
    exact iff_of_true (Bounded.of_some hr) h
  · have herror : subnetMask p = .error .index := by
      rw [subnetMask, createMask_mod]
      simp only [change_of_le (show 16 ≤ p.toNat / 8 by omega), bind, Except.bind]
    exact iff_of_false (not_bounded_of_error herror) h

end IPv6Address

/-- For every length and every address: broadcast and network addresses of IPv4 are null or
computed within the limits for every length but 0, the subnet mask for the lengths from 1 to 32,
and those of IPv6 for the lengths below 128. -/
theorem prefix_limits_iff (host : Endian) (a : IPv4Address) (b : IPv6Address) (p : UInt32) :
    (Bounded 32 p (a.broadcastAddress host p) ↔ p.toNat ≠ 0) ∧
      (Bounded 32 p (a.networdAddress host p) ↔ p.toNat ≠ 0) ∧
      (Bounded 32 p (IPv4Address.subnetMask host p) ↔ 1 ≤ p.toNat ∧ p.toNat ≤ 32) ∧
      (Bounded 128 p (b.broadcastAddress p) ↔ p.toNat < 128) ∧
      (Bounded 128 p (b.networdAddress p) ↔ p.toNat < 128) ∧
      (Bounded 128 p (IPv6Address.subnetMask p) ↔ p.toNat < 128) :=
  ⟨a.bounded_masked_iff host p _, a.bounded_masked_iff host p _,
    IPv4Address.bounded_subnetMask_iff host p, b.bounded_masked_iff p _ _,
    b.bounded_masked_iff p _ _, IPv6Address.bounded_subnetMask_iff p⟩

/-- The default route and a host route are out of reach: 0 for IPv4 shifts by 32, 33 gives a
mask with a wrapped count, and 128 for IPv6 has the index 16. -/
theorem prefix_limits_missed :
    IPv4Address.broadcastAddress .little ⟨afInet, 0, 0⟩ 0 = .error .shift ∧
      IPv4Address.networdAddress .little ⟨afInet, 0, 0⟩ 0 = .error .shift ∧
      IPv4Address.subnetMask .little 0 = .error .shift ∧
      IPv4Address.subnetMask .little 33 = .error .shift ∧
      IPv6Address.broadcastAddress ⟨afInet6, 0, Vector.replicate 16 0⟩ 128 = .error .index ∧
      IPv6Address.networdAddress ⟨afInet6, 0, Vector.replicate 16 0⟩ 128 = .error .index ∧
      IPv6Address.subnetMask 128 = .error .index := by
  decide

end Xupeng
