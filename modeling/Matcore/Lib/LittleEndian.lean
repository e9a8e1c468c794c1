import Mathlib.Data.UInt
import Mathlib.Tactic.Ring

/-!
# Little-endian integers

`digits n v` is the integer `v` in `n` bytes, lowest first, and `value` reads bytes back.
-/

namespace LittleEndian

def digits : ℕ → ℕ → List UInt8
  | 0, _ => []
  | n + 1, v => UInt8.ofNat (v % 256) :: digits n (v / 256)

def value : List UInt8 → ℕ
  | [] => 0
  | byte :: rest => byte.toNat + 256 * value rest

@[simp] theorem length_digits (n v : ℕ) : (digits n v).length = n := by
  induction n generalizing v with
  | zero => rfl
  | succ n ih => rw [digits, List.length_cons, ih]

theorem digits_eq_map (n v : ℕ) :
    digits n v = (List.range n).map fun i => UInt8.ofNat (v / 256 ^ i % 256) := by
  induction n generalizing v with
  | zero => rfl
  | succ n ih =>
    have hdiv : ∀ i, v / 256 / 256 ^ i = v / 256 ^ (i + 1) := by
      intro i
      rw [Nat.div_div_eq_div_mul, Nat.pow_succ, Nat.mul_comm 256]
    rw [digits, ih, List.range_succ_eq_map, List.map_cons, List.map_map]
    simp only [Function.comp_def, hdiv, Nat.pow_zero, Nat.div_one]

theorem value_digits {n v : ℕ} (h : v < 256 ^ n) : value (digits n v) = v := by
  induction n generalizing v with
  | zero =>
    have hzero : v = 0 := by simpa using h
    rw [hzero]
    rfl
  | succ n ih =>
    have hdiv : v / 256 < 256 ^ n := Nat.div_lt_of_lt_mul (by rwa [Nat.pow_succ, Nat.mul_comm] at h)
    have hbyte : (UInt8.ofNat (v % 256)).toNat = v % 256 := by
      rw [UInt8.toNat_ofNat']
      omega
    rw [digits, value, hbyte, ih hdiv]
    exact Nat.mod_add_div v 256

theorem value_lt (bytes : List UInt8) : value bytes < 256 ^ bytes.length := by
  induction bytes with
  | nil => exact Nat.one_pos
  | cons byte rest ih =>
    have hbyte := byte.toNat_lt
    have hpow : 256 ^ (byte :: rest).length = 256 * 256 ^ rest.length := by
      rw [List.length_cons, Nat.pow_succ, Nat.mul_comm]
    rw [value, hpow]
    omega

theorem digits_value (bytes : List UInt8) : digits bytes.length (value bytes) = bytes := by
  induction bytes with
  | nil => rfl
  | cons byte rest ih =>
    have hbyte := byte.toNat_lt
    have hmod : (byte.toNat + 256 * value rest) % 256 = byte.toNat := by omega
    have hdiv : (byte.toNat + 256 * value rest) / 256 = value rest := by omega
    rw [List.length_cons, value, digits, hmod, hdiv, ih, UInt8.ofNat_toNat]

end LittleEndian
