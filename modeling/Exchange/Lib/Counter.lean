import Mathlib.Data.Nat.ModEq
import Mathlib.Data.Int.Notation
import Mathlib.Data.Nat.Notation

/-!
# Counters that wrap

A 64-bit counter that is only ever incremented is `UInt64.ofNat n` for its true value `n`. Differences of
true values below `2 ^ 64` can be read off the counters, and so can residues by powers of two. Signed results
wrap at `2 ^ 63`.
-/

namespace Exchange.Counter

def signed64 (x : ℤ) : ℤ := x.bmod (2 ^ 64)

theorem toNat_sub {m n : ℕ} (hle : n ≤ m) (hlt : m - n < 2 ^ 64) :
    (UInt64.ofNat m - UInt64.ofNat n).toNat = m - n := by
  rw [UInt64.toNat_sub, UInt64.toNat_ofNat', UInt64.toNat_ofNat']
  omega

theorem ofNat_inj {m n : ℕ} (hle : n ≤ m) (hlt : m - n < 2 ^ 64) : UInt64.ofNat m = UInt64.ofNat n ↔ m = n := by
  constructor
  · intro h
    have hsub := toNat_sub hle hlt
    rw [h, UInt64.sub_self] at hsub
    have : (0 : UInt64).toNat = 0 := rfl
    omega
  · rintro rfl
    rfl

theorem succ (n : ℕ) : UInt64.ofNat n + 1 = UInt64.ofNat (n + 1) := by
  rw [UInt64.ofNat_add]
  rfl

theorem toNat_succ_of_lt {c d : UInt64} (h : c < d) : (c + 1).toNat = c.toNat + 1 := by
  have hd := d.toNat_lt
  have hone : (1 : UInt64).toNat = 1 := rfl
  rw [UInt64.lt_iff_toNat_lt] at h
  rw [UInt64.toNat_add]
  omega

theorem succ_le_of_lt {c d : UInt64} (h : c < d) : c + 1 ≤ d := by
  rw [UInt64.le_iff_toNat_le, toNat_succ_of_lt h]
  exact UInt64.lt_iff_toNat_lt.1 h

theorem succ_ne_zero_of_lt {c d : UInt64} (h : c < d) : c + 1 ≠ 0 := by
  intro hzero
  have hsucc := toNat_succ_of_lt h
  rw [hzero] at hsucc
  cases hsucc

theorem lt_succ_of_ne_zero {c : UInt64} (h : c + 1 ≠ 0) : c < c + 1 := by
  have hc := c.toNat_lt
  have hone : (1 : UInt64).toNat = 1 := rfl
  have hzero : (c + 1).toNat ≠ 0 := fun h0 => h (UInt64.toNat_inj.1 h0)
  rw [UInt64.toNat_add] at hzero
  rw [UInt64.lt_iff_toNat_lt, UInt64.toNat_add]
  omega

theorem toNat_and_mask {n k : ℕ} (hk : k ≤ 63) :
    (UInt64.ofNat n &&& UInt64.ofNat (2 ^ k - 1)).toNat = n % 2 ^ k := by
  have hpow : 2 ^ k ≤ 2 ^ 63 := Nat.pow_le_pow_right (by decide) hk
  have hpos : 0 < 2 ^ k := Nat.two_pow_pos k
  have hmask : (2 ^ k - 1) % 2 ^ 64 = 2 ^ k - 1 := Nat.mod_eq_of_lt (by omega)
  rw [UInt64.toNat_and, UInt64.toNat_ofNat', UInt64.toNat_ofNat', hmask, Nat.and_two_pow_sub_one_eq_mod]
  exact Nat.mod_mod_of_dvd n (Nat.pow_dvd_pow 2 (by omega))

theorem mod_ne_mod {c i j : ℕ} (hij : i < j) (hj : j < i + c) : i % c ≠ j % c := by
  intro h
  have hdvd : c ∣ j - i := (Nat.modEq_iff_dvd' hij.le).1 h
  exact absurd (Nat.le_of_dvd (by omega) hdvd) (by omega)

end Exchange.Counter
