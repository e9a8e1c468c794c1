import Mathlib.Data.UInt

/-!
# Well-formed UTF-8 and UTF-16

A byte string is well formed when it encodes a list of Unicode scalar values.

* `encode_one` to `encode_four`: the bytes of a scalar value, by its size.
* `char_two` to `char_four`: the scalar value of such bytes.
-/

namespace Utf8

open UInt8 (ofNat)
open String (utf8EncodeChar)

/-- The bytes encode a list of scalar values. -/
def WellFormed (bytes : List UInt8) : Prop :=
  ∃ chars : List Char, bytes = chars.flatMap utf8EncodeChar

theorem wellFormed_nil : WellFormed [] := ⟨[], rfl⟩

variable {bytes : List UInt8}

theorem WellFormed.cons {c : Char} (h : WellFormed bytes) :
    WellFormed (utf8EncodeChar c ++ bytes) := by
  obtain ⟨chars, rfl⟩ := h
  exact ⟨c :: chars, List.flatMap_cons.symm⟩

theorem WellFormed.cases (h : WellFormed bytes) :
    bytes = [] ∨ ∃ c rest, bytes = utf8EncodeChar c ++ rest ∧ WellFormed rest := by
  obtain ⟨chars, rfl⟩ := h
  cases chars with
  | nil => exact Or.inl rfl
  | cons c chars => exact Or.inr ⟨c, _, List.flatMap_cons, chars, rfl⟩

section Encode

variable {c : Char}

theorem encode_one (h : c.toNat ≤ 0x7f) : utf8EncodeChar c = [ofNat c.toNat] :=
  if_pos h

theorem encode_two (h1 : 0x7f < c.toNat) (h2 : c.toNat ≤ 0x7ff) :
    utf8EncodeChar c =
      [ofNat (c.toNat / 64 % 0x20 + 0xc0), ofNat (c.toNat % 0x40 + 0x80)] := by
  unfold utf8EncodeChar
  exact (if_neg (Nat.not_le.2 h1)).trans (if_pos h2)

theorem encode_three (h1 : 0x7ff < c.toNat) (h2 : c.toNat ≤ 0xffff) :
    utf8EncodeChar c =
      [ofNat (c.toNat / 4096 % 0x10 + 0xe0), ofNat (c.toNat / 64 % 0x40 + 0x80),
        ofNat (c.toNat % 0x40 + 0x80)] := by
  have h0 : 0x7f < c.toNat := by omega
  unfold utf8EncodeChar
  exact (if_neg (Nat.not_le.2 h0)).trans ((if_neg (Nat.not_le.2 h1)).trans (if_pos h2))

theorem encode_four (h : 0xffff < c.toNat) :
    utf8EncodeChar c =
      [ofNat (c.toNat / 262144 % 0x08 + 0xf0), ofNat (c.toNat / 4096 % 0x40 + 0x80),
        ofNat (c.toNat / 64 % 0x40 + 0x80), ofNat (c.toNat % 0x40 + 0x80)] := by
  have h0 : 0x7f < c.toNat := by omega
  have h1 : 0x7ff < c.toNat := by omega
  unfold utf8EncodeChar
  exact (if_neg (Nat.not_le.2 h0)).trans ((if_neg (Nat.not_le.2 h1)).trans
    (if_neg (Nat.not_le.2 h)))

theorem encode_ne_nil : utf8EncodeChar c ≠ [] := String.utf8EncodeChar_ne_nil

end Encode

variable {v : ℕ}

/-- A scalar value below the surrogates or above them. -/
theorem exists_char (h : v < 0xd800 ∨ 0xdfff < v ∧ v < 0x110000) : ∃ c : Char, c.toNat = v := by
  refine ⟨Char.ofNat v, ?_⟩
  have hvalid : v.isValidChar := h
  rw [Char.ofNat, dif_pos hvalid]
  exact UInt32.toNat_ofNatLT ..

theorem ofNat_eq {b : UInt8} (h : b.toNat = v) : ofNat v = b := by
  rw [← h]
  exact UInt8.ofNat_toNat

variable {b0 b1 b2 b3 : UInt8}

theorem char_one (h : b0.toNat ≤ 0x7f) : ∃ c : Char, utf8EncodeChar c = [b0] ∧
    c.toNat = b0.toNat := by
  obtain ⟨c, hc⟩ := exists_char (v := b0.toNat) (Or.inl (by omega))
  exact ⟨c, by rw [encode_one (by omega), ofNat_eq hc.symm], hc⟩

theorem char_two (h0 : 0xc2 ≤ b0.toNat ∧ b0.toNat ≤ 0xdf) (h1 : 0x80 ≤ b1.toNat ∧ b1.toNat ≤ 0xbf)
    (hv : v = b0.toNat % 32 * 64 + b1.toNat % 64) :
    ∃ c : Char, utf8EncodeChar c = [b0, b1] ∧ c.toNat = v := by
  obtain ⟨c, hc⟩ := exists_char (v := v) (Or.inl (by omega))
  refine ⟨c, ?_, hc⟩
  rw [encode_two (by omega) (by omega), hc, ofNat_eq (b := b0) (by omega),
    ofNat_eq (b := b1) (by omega)]

theorem char_three (h0 : 0xe0 ≤ b0.toNat ∧ b0.toNat ≤ 0xef) (h1 : 0x80 ≤ b1.toNat ∧ b1.toNat ≤ 0xbf)
    (h2 : 0x80 ≤ b2.toNat ∧ b2.toNat ≤ 0xbf)
    (hv : v = (b0.toNat % 16 * 64 + b1.toNat % 64) * 64 + b2.toNat % 64) (hmin : 0x800 ≤ v)
    (hscalar : v < 0xd800 ∨ 0xdfff < v) :
    ∃ c : Char, utf8EncodeChar c = [b0, b1, b2] ∧ c.toNat = v := by
  obtain ⟨c, hc⟩ := exists_char (v := v) (by omega)
  refine ⟨c, ?_, hc⟩
  rw [encode_three (by omega) (by omega), hc, ofNat_eq (b := b0) (by omega),
    ofNat_eq (b := b1) (by omega), ofNat_eq (b := b2) (by omega)]

theorem char_four (h0 : 0xf0 ≤ b0.toNat ∧ b0.toNat ≤ 0xf4) (h1 : 0x80 ≤ b1.toNat ∧ b1.toNat ≤ 0xbf)
    (h2 : 0x80 ≤ b2.toNat ∧ b2.toNat ≤ 0xbf) (h3 : 0x80 ≤ b3.toNat ∧ b3.toNat ≤ 0xbf)
    (hv : v = ((b0.toNat % 8 * 64 + b1.toNat % 64) * 64 + b2.toNat % 64) * 64 + b3.toNat % 64)
    (hmin : 0x10000 ≤ v) (hmax : v < 0x110000) :
    ∃ c : Char, utf8EncodeChar c = [b0, b1, b2, b3] ∧ c.toNat = v := by
  obtain ⟨c, hc⟩ := exists_char (v := v) (by omega)
  refine ⟨c, ?_, hc⟩
  rw [encode_four (by omega), hc, ofNat_eq (b := b0) (by omega), ofNat_eq (b := b1) (by omega),
    ofNat_eq (b := b2) (by omega), ofNat_eq (b := b3) (by omega)]

/-- The units of a scalar value. -/
def utf16EncodeChar (c : Char) : List UInt16 :=
  if c.toNat < 0x10000 then [UInt16.ofNat c.toNat]
  else [UInt16.ofNat (0xd800 + (c.toNat - 0x10000) / 1024),
    UInt16.ofNat (0xdc00 + (c.toNat - 0x10000) % 1024)]

def IsHigh (unit : UInt16) : Prop := 0xd800 ≤ unit.toNat ∧ unit.toNat ≤ 0xdbff

def IsLow (unit : UInt16) : Prop := 0xdc00 ≤ unit.toNat ∧ unit.toNat ≤ 0xdfff

/-- Every high surrogate is followed by a low one, and there is no other low one. -/
inductive Paired : List UInt16 → Prop
  | nil : Paired []
  | unit {u : UInt16} {units : List UInt16} (hhigh : ¬ IsHigh u) (hlow : ¬ IsLow u)
      (h : Paired units) : Paired (u :: units)
  | pair {u v : UInt16} {units : List UInt16} (hhigh : IsHigh u) (hlow : IsLow v)
      (h : Paired units) : Paired (u :: v :: units)

variable {u low : UInt16}

theorem char_unit (hhigh : ¬ IsHigh u) (hlow : ¬ IsLow u) :
    ∃ c : Char, utf16EncodeChar c = [u] ∧ c.toNat = u.toNat := by
  have hlt : u.toNat < 0x10000 := u.toNat_lt
  unfold IsHigh at hhigh
  unfold IsLow at hlow
  obtain ⟨c, hc⟩ := exists_char (v := u.toNat) (by omega)
  refine ⟨c, ?_, hc⟩
  unfold utf16EncodeChar
  rw [if_pos (hc ▸ hlt), hc, UInt16.ofNat_toNat]

theorem char_pair (hhigh : IsHigh u) (hlow : IsLow low)
    (hv : v = 0x10000 + (u.toNat - 0xd800) * 1024 + (low.toNat - 0xdc00)) :
    ∃ c : Char, utf16EncodeChar c = [u, low] ∧ c.toNat = v := by
  obtain ⟨hu, hu'⟩ := hhigh
  obtain ⟨hl, hl'⟩ := hlow
  obtain ⟨c, hc⟩ := exists_char (v := v) (by omega)
  refine ⟨c, ?_, hc⟩
  have hfirst : 0xd800 + (v - 0x10000) / 1024 = u.toNat := by omega
  have hsecond : 0xdc00 + (v - 0x10000) % 1024 = low.toNat := by omega
  unfold utf16EncodeChar
  rw [if_neg (by omega), hc, hfirst, hsecond, UInt16.ofNat_toNat, UInt16.ofNat_toNat]

end Utf8
