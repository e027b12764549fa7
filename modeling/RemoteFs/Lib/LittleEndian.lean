import Mathlib.Algebra.Group.Nat.Defs
import Mathlib.Data.List.Basic

/-!
# Numbers as bytes, the lowest first

`leBytes k n` are the `k` low bytes of `n`, and `ofLeBytes` is the number some bytes stand for.  Each
undoes the other, as far as `k` bytes can hold `n`.
-/

set_option autoImplicit false

/-- The `k` low bytes of a number. -/
def leBytes : ℕ → ℕ → List UInt8
  | 0, _ => []
  | k + 1, n => UInt8.ofNat n :: leBytes k (n / 2 ^ 8)

/-- The number some bytes stand for. -/
def ofLeBytes : List UInt8 → ℕ
  | [] => 0
  | b :: bs => b.toNat + 2 ^ 8 * ofLeBytes bs

@[simp] theorem length_leBytes (k n : ℕ) : (leBytes k n).length = k := by
  induction k generalizing n with
  | zero => rfl
  | succ k ih => rw [leBytes, List.length_cons, ih]

theorem ofLeBytes_lt (bs : List UInt8) : ofLeBytes bs < 2 ^ (8 * bs.length) := by
  induction bs with
  | nil => exact Nat.one_pos
  | cons b bs ih =>
    have hb := b.toNat_lt
    have hpow : 2 ^ (8 * (b :: bs).length) = 2 ^ 8 * 2 ^ (8 * bs.length) := by
      rw [List.length_cons, Nat.mul_succ, Nat.add_comm, Nat.pow_add]
    rw [ofLeBytes, hpow]
    omega

/-- **What was written is read.** -/
theorem ofLeBytes_leBytes {k n : ℕ} (h : n < 2 ^ (8 * k)) : ofLeBytes (leBytes k n) = n := by
  induction k generalizing n with
  | zero =>
    rw [Nat.mul_zero, Nat.pow_zero, Nat.lt_one_iff] at h
    rw [h]
    rfl
  | succ k ih =>
    rw [Nat.mul_succ, Nat.add_comm, Nat.pow_add] at h
    rw [leBytes, ofLeBytes, ih (Nat.div_lt_of_lt_mul h), UInt8.toNat_ofNat']
    omega

/-- **And what was read is what was written.** -/
theorem leBytes_ofLeBytes (bs : List UInt8) : leBytes bs.length (ofLeBytes bs) = bs := by
  induction bs with
  | nil => rfl
  | cons b bs ih =>
    have hb := b.toNat_lt
    have hdiv : (b.toNat + 2 ^ 8 * ofLeBytes bs) / 2 ^ 8 = ofLeBytes bs := by omega
    have hlow : UInt8.ofNat (b.toNat + 2 ^ 8 * ofLeBytes bs) = b := by
      refine UInt8.toNat_inj.mp ?_
      rw [UInt8.toNat_ofNat']
      omega
    rw [ofLeBytes, List.length_cons, leBytes, hdiv, ih, hlow]
