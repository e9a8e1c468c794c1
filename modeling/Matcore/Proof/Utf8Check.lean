import Matcore.Lib.Utf8
import Matcore.Support.ArgumentFile
import Mathlib.Tactic.Ring

/-!
# The UTF-8 check

`valid_utf8` walks a string character by character. A step at a byte either refuses, or finds the
bytes of a scalar value there, and never looks past the end of the string.

Nothing else is decoded (`decode_cases`).
-/

namespace Matcore.Support

open UInt8 (toNat_inj toNat_and le_iff_toNat_le ofNat)
open String (utf8EncodeChar)
open List (length_drop cons_ne_nil cons_append length_cons forall_mem_cons length_append foldl_cons
  foldl_nil append_assoc mem_cons flatMap_cons flatMap map_cons)
open Except (ok_bind ok)
open Utf8 (WellFormed utf16EncodeChar IsHigh IsLow Paired)

variable {value : Bytes} {offset : UInt64}

theorem toNat_size (h : value.length < 2 ^ 63) : (size value).toNat = value.length := by
  unfold size
  rw [UInt64.toNat_ofNat']
  omega

theorem toNat_add {a b : UInt64} (h : a.toNat + b.toNat < 2 ^ 64) :
    (a + b).toNat = a.toNat + b.toNat := by
  rw [UInt64.toNat_add]
  omega

theorem length_of_drop {position : ℕ} {tail : Bytes} (h : value.drop position = tail)
    (hne : tail ≠ []) : position + tail.length = value.length := by
  have hlength := congrArg List.length h
  have hpos := List.length_pos_of_ne_nil hne
  rw [length_drop] at hlength
  omega

variable {rest : Bytes}

theorem drop_cons {position : ℕ} {byte : UInt8} (h : value.drop position = byte :: rest) :
    value.drop (position + 1) = rest := by
  rw [← List.drop_drop, h]
  rfl

theorem byteAt_eq {byte : UInt8} (h : value.drop offset.toNat = byte :: rest) :
    byteAt value offset = .ok byte := by
  have hbyte : value[offset.toNat]? = some byte := by
    rw [← Nat.add_zero offset.toNat, ← List.getElem?_drop, h]
    rfl
  unfold byteAt
  rw [hbyte]

/-- The bytes may continue a sequence. -/
def Continues (bytes : Bytes) : Prop := ∀ b ∈ bytes, 0x80 ≤ b.toNat ∧ b.toNat ≤ 0xbf

instance (bytes : Bytes) : Decidable (Continues bytes) :=
  inferInstanceAs (Decidable (∀ b ∈ bytes, _))

/-- The payload with six bits of every continuation byte behind it. -/
def payload (first : ℕ) (bytes : Bytes) : ℕ := bytes.foldl (fun v b => v * 64 + b.toNat % 64) first

theorem continuation_iff (b : UInt8) : b &&& 0xc0 = 0x80 ↔ 0x80 ≤ b.toNat ∧ b.toNat ≤ 0xbf := by
  have hall : ∀ n < 256, n &&& 0xc0 = 0x80 ↔ 0x80 ≤ n ∧ n ≤ 0xbf := by
    decide +kernel
  rw [← toNat_inj, toNat_and]
  exact hall b.toNat b.toNat_lt

theorem toNat_mask (b : UInt8) (n : ℕ) (mask : UInt8) (h : mask.toNat = 2 ^ n - 1) :
    (b &&& mask).toUInt32.toNat = b.toNat % 2 ^ n := by
  rw [UInt8.toNat_toUInt32, toNat_and, h, Nat.and_two_pow_sub_one_eq_mod]

variable {codePoint : UInt32}

theorem toNat_shift (b : UInt8) (h : codePoint.toNat * 64 < 2 ^ 32) :
    ((codePoint <<< 6) ||| (b &&& 0x3f).toUInt32).toNat = codePoint.toNat * 64 + b.toNat % 64 := by
  have hshift : (codePoint <<< 6).toNat = 2 ^ 6 * codePoint.toNat := by
    rw [UInt32.toNat_shiftLeft]
    have hsix : (6 : UInt32).toNat % 32 = 6 := rfl
    rw [hsix, Nat.shiftLeft_eq, Nat.mod_eq_of_lt (by omega), Nat.mul_comm]
  have hmask := toNat_mask b 6 0x3f rfl
  rw [UInt32.toNat_or, hshift, hmask, ← Nat.two_pow_add_eq_or_of_lt (Nat.mod_lt _ (by decide))]
  omega

theorem continuations_cons {remaining : ℕ} {index : UInt64} {b : UInt8}
    (h : byteAt value (offset + index) = .ok b) :
    continuations value offset (remaining + 1) index codePoint =
      if b &&& 0xc0 ≠ 0x80 then .ok none
      else continuations value offset remaining (index + 1)
        ((codePoint <<< 6) ||| (b &&& 0x3f).toUInt32) := by
  conv_lhs => unfold continuations
  rw [h]
  rfl

theorem continuations_eq {bytes : Bytes} (index : UInt64) (hsize : value.length < 2 ^ 63)
    (h : value.drop (offset.toNat + index.toNat) = bytes ++ rest)
    (hcode : (codePoint.toNat + 1) * 64 ^ bytes.length ≤ 2 ^ 32) :
    continuations value offset bytes.length index codePoint =
      .ok (if Continues bytes then some (UInt32.ofNat (payload codePoint.toNat bytes))
        else none) := by
  induction bytes generalizing index codePoint with
  | nil =>
    have hnil : Continues [] := fun _ hb => absurd hb List.not_mem_nil
    rw [if_pos hnil]
    exact congrArg (fun c => ok (some c)) UInt32.ofNat_toNat.symm
  | cons b bytes ih =>
    have hlength := length_of_drop h (cons_ne_nil _ _)
    rw [cons_append, length_cons] at hlength
    have hone : (1 : UInt64).toNat = 1 := rfl
    have hposition : (offset + index).toNat = offset.toNat + index.toNat := toNat_add (by omega)
    have hindex : (index + 1).toNat = index.toNat + 1 := toNat_add (by omega)
    have hbyte : byteAt value (offset + index) = .ok b := byteAt_eq (by rw [hposition]; exact h)
    have hnext : value.drop (offset.toNat + (index + 1).toNat) = bytes ++ rest := by
      rw [hindex, ← Nat.add_assoc]
      exact drop_cons h
    -- six more bits still fit
    have hpow : 0 < 64 ^ bytes.length := Nat.pow_pos (by decide)
    have hcode' : (codePoint.toNat + 1) * 64 * 64 ^ bytes.length ≤ 2 ^ 32 := by
      rw [length_cons, Nat.pow_succ] at hcode
      calc (codePoint.toNat + 1) * 64 * 64 ^ bytes.length
          = (codePoint.toNat + 1) * (64 ^ bytes.length * 64) := by ring
        _ ≤ 2 ^ 32 := hcode
    have hfits : (codePoint.toNat + 1) * 64 ≤ 2 ^ 32 :=
      Nat.le_trans (Nat.le_mul_of_pos_right _ hpow) hcode'
    have hsix : codePoint.toNat * 64 < 2 ^ 32 := by omega
    have hshift := toNat_shift b hsix
    rw [length_cons, continuations_cons hbyte]
    by_cases hb : b &&& 0xc0 = 0x80
    · have hbounds := (continuation_iff b).1 hb
      have hcontinues : Continues (b :: bytes) ↔ Continues bytes :=
        forall_mem_cons.trans (and_iff_right hbounds)
      have hrest := ih (index + 1) hnext (by
        rw [hshift]
        refine Nat.le_trans (Nat.mul_le_mul_right _ ?_) hcode'
        omega)
      rw [if_neg (not_not.2 hb), hrest, hshift]
      simp only [hcontinues]
      rfl
    · have hnot : ¬ Continues (b :: bytes) := fun hall =>
        hb ((continuation_iff b).2 (hall b List.mem_cons_self))
      rw [if_pos hb, if_neg hnot]

theorem payload_lt (first : ℕ) (bytes : Bytes) :
    payload first bytes < (first + 1) * 64 ^ bytes.length := by
  induction bytes generalizing first with
  | nil => simp [payload]
  | cons b bytes ih =>
    have hrest := ih (first * 64 + b.toNat % 64)
    refine Nat.lt_of_lt_of_le hrest ?_
    rw [length_cons, Nat.pow_succ, Nat.mul_comm (64 ^ bytes.length), ← Nat.mul_assoc]
    exact Nat.mul_le_mul_right _ (by omega)

/-- The value is a scalar value of its size. -/
def Scalar (minimum v : ℕ) : Prop := minimum ≤ v ∧ (v < 0xd800 ∨ 0xdfff < v ∧ v < 0x110000)

instance (minimum v : ℕ) : Decidable (Scalar minimum v) := inferInstanceAs (Decidable (_ ∧ _))

theorem scalar_iff (codePoint minimum : UInt32) :
    (codePoint < minimum || codePoint > 0x10ffff ||
      (codePoint ≥ 0xd800 && codePoint ≤ 0xdfff)) = false ↔
      Scalar minimum.toNat codePoint.toNat := by
  have h10ffff : (0x10ffff : UInt32).toNat = 0x10ffff := rfl
  have hd800 : (0xd800 : UInt32).toNat = 0xd800 := rfl
  have hdfff : (0xdfff : UInt32).toNat = 0xdfff := rfl
  simp only [Bool.or_eq_false_iff, Bool.and_eq_false_iff, decide_eq_false_iff_not, gt_iff_lt,
    ge_iff_le, UInt32.lt_iff_toNat_lt, UInt32.le_iff_toNat_le, h10ffff, hd800, hdfff, Scalar]
  omega

section Decode

variable {first : UInt8} {bytes tail rest : Bytes} {length : UInt64} {minimum lead : UInt32}

theorem above_ascii (h : 0x7f < first.toNat) : ¬ first ≤ 0x7f := by
  rw [le_iff_toNat_le]
  exact Nat.not_le.2 h

theorem decode_ascii (h : value.drop offset.toNat = first :: rest) (hfirst : first.toNat ≤ 0x7f) :
    decodeUtf8CodePoint value offset = .ok (some (first.toUInt32, offset + 1)) := by
  have hle : first ≤ 0x7f := le_iff_toNat_le.2 hfirst
  unfold decodeUtf8CodePoint
  rw [byteAt_eq h, ok_bind, if_pos hle]
  rfl

theorem decode_invalid (h : value.drop offset.toNat = first :: rest) (hfirst : 0x7f < first.toNat)
    (hlead : leadByte first = none) : decodeUtf8CodePoint value offset = .ok none := by
  unfold decodeUtf8CodePoint
  rw [byteAt_eq h, ok_bind, if_neg (above_ascii hfirst), hlead]
  rfl

theorem past_size (hsize : value.length < 2 ^ 63) (h : value.drop offset.toNat = first :: tail)
    (hlength : length.toNat ≤ 4) :
    offset + length > size value ↔ (first :: tail).length < length.toNat := by
  have hend := length_of_drop h (cons_ne_nil _ _)
  have hsum : (offset + length).toNat = offset.toNat + length.toNat := toNat_add (by omega)
  rw [gt_iff_lt, UInt64.lt_iff_toNat_lt, toNat_size hsize, hsum]
  omega

theorem decode_short (hsize : value.length < 2 ^ 63) (h : value.drop offset.toNat = first :: tail)
    (hfirst : 0x7f < first.toNat) (hlead : leadByte first = some (length, minimum, lead))
    (hfour : length.toNat ≤ 4) (hshort : (first :: tail).length < length.toNat) :
    decodeUtf8CodePoint value offset = .ok none := by
  have hpast := (past_size hsize h hfour).2 hshort
  unfold decodeUtf8CodePoint
  rw [byteAt_eq h, ok_bind, if_neg (above_ascii hfirst), hlead]
  dsimp only
  rw [if_pos hpast]
  rfl

theorem decode_lead (hsize : value.length < 2 ^ 63)
    (h : value.drop offset.toNat = first :: (bytes ++ rest)) (hfirst : 0x7f < first.toNat)
    (hlead : leadByte first = some (length, minimum, lead))
    (hlength : length.toNat = bytes.length + 1) (hfour : length.toNat ≤ 4)
    (hcode : (lead.toNat + 1) * 64 ^ bytes.length ≤ 2 ^ 32) :
    decodeUtf8CodePoint value offset =
      .ok (if Continues bytes ∧ Scalar minimum.toNat (payload lead.toNat bytes) then
        some (UInt32.ofNat (payload lead.toNat bytes), offset + length) else none) := by
  have hpast : ¬ offset + length > size value := by
    rw [past_size hsize h hfour, hlength, length_cons, length_append]
    omega
  have hcontinue := continuations_eq 1 hsize (drop_cons h) hcode
  have hremaining : length.toNat - 1 = bytes.length := by omega
  have hlt : payload lead.toNat bytes < 2 ^ 32 :=
    Nat.lt_of_lt_of_le (payload_lt _ _) hcode
  have htoNat : (UInt32.ofNat (payload lead.toNat bytes)).toNat = payload lead.toNat bytes := by
    rw [UInt32.toNat_ofNat', Nat.mod_eq_of_lt hlt]
  have hscalar := scalar_iff (UInt32.ofNat (payload lead.toNat bytes)) minimum
  rw [htoNat] at hscalar
  unfold decodeUtf8CodePoint
  rw [byteAt_eq h, ok_bind, if_neg (above_ascii hfirst), hlead]
  dsimp only
  rw [if_neg hpast, hremaining, hcontinue, ok_bind]
  by_cases hall : Continues bytes
  · rw [if_pos hall]
    dsimp only
    by_cases hvalid : Scalar minimum.toNat (payload lead.toNat bytes)
    · have hboth : Continues bytes ∧ Scalar minimum.toNat (payload lead.toNat bytes) :=
        ⟨hall, hvalid⟩
      rw [hscalar.2 hvalid, if_pos hboth]
      rfl
    · have hnot : ¬ (Continues bytes ∧ Scalar minimum.toNat (payload lead.toNat bytes)) :=
        fun hboth => hvalid hboth.2
      rw [Bool.eq_true_of_not_eq_false (mt hscalar.1 hvalid), if_neg hnot]
      rfl
  · rw [if_neg hall, if_neg (fun hboth => hall hboth.1)]
    rfl

end Decode

section Lead

variable {first : UInt8} {rest : Bytes}

theorem leadByte_two (h : 0xc2 ≤ first.toNat ∧ first.toNat ≤ 0xdf) :
    leadByte first = some (2, 0x80, (first &&& 0x1f).toUInt32) := by
  unfold leadByte
  simp only [ge_iff_le, le_iff_toNat_le]
  exact if_pos (by simpa using h)

theorem leadByte_three (h : 0xe0 ≤ first.toNat ∧ first.toNat ≤ 0xef) :
    leadByte first = some (3, 0x800, (first &&& 0x0f).toUInt32) := by
  unfold leadByte
  simp only [ge_iff_le, le_iff_toNat_le]
  rw [if_neg (by simp; omega)]
  exact if_pos (by simpa using h)

theorem leadByte_four (h : 0xf0 ≤ first.toNat ∧ first.toNat ≤ 0xf4) :
    leadByte first = some (4, 0x10000, (first &&& 0x07).toUInt32) := by
  unfold leadByte
  simp only [ge_iff_le, le_iff_toNat_le]
  rw [if_neg (by simp; omega), if_neg (by simp; omega)]
  exact if_pos (by simpa using h)

theorem leadByte_none (h2 : ¬ (0xc2 ≤ first.toNat ∧ first.toNat ≤ 0xdf))
    (h3 : ¬ (0xe0 ≤ first.toNat ∧ first.toNat ≤ 0xef))
    (h4 : ¬ (0xf0 ≤ first.toNat ∧ first.toNat ≤ 0xf4)) : leadByte first = none := by
  unfold leadByte
  simp only [ge_iff_le, le_iff_toNat_le]
  rw [if_neg (by simpa using h2), if_neg (by simpa using h3), if_neg (by simpa using h4)]

theorem two_toNat : (2 : UInt64).toNat = 1 + 1 := rfl
theorem three_toNat : (3 : UInt64).toNat = 2 + 1 := rfl
theorem four_toNat : (4 : UInt64).toNat = 3 + 1 := rfl

/-- What `decode` returns for the character at the offset. -/
def decoded (offset : UInt64) (c : Char) : UInt32 × UInt64 :=
  (c.val, offset + UInt64.ofNat (utf8EncodeChar c).length)

theorem toNat_ofNat_byte {v : ℕ} (h : v < 256) : (ofNat v).toNat = v := by
  rw [UInt8.toNat_ofNat', Nat.mod_eq_of_lt h]

theorem char_lt (c : Char) : c.toNat < 0xd800 ∨ 0xdfff < c.toNat ∧ c.toNat < 0x110000 := c.valid

theorem decode_char {c : Char} {bytes : Bytes} {length : UInt64} {minimum lead : UInt32}
    (hsize : value.length < 2 ^ 63) (h : value.drop offset.toNat = first :: (bytes ++ rest))
    (hc : utf8EncodeChar c = first :: bytes) (hfirst : 0x7f < first.toNat)
    (hlead : leadByte first = some (length, minimum, lead))
    (hlength : length.toNat = bytes.length + 1) (hfour : length.toNat ≤ 4)
    (hcode : (lead.toNat + 1) * 64 ^ bytes.length ≤ 2 ^ 32) (hcontinues : Continues bytes)
    (hpayload : payload lead.toNat bytes = c.toNat) (hminimum : minimum.toNat ≤ c.toNat) :
    decodeUtf8CodePoint value offset = .ok (some (decoded offset c)) := by
  have hval : UInt32.ofNat c.toNat = c.val := UInt32.ofNat_toNat
  have hlength' : UInt64.ofNat (first :: bytes).length = length := by
    rw [length_cons, ← hlength]
    exact UInt64.ofNat_toNat
  have hscalar : Scalar minimum.toNat (payload lead.toNat bytes) := by
    rw [hpayload]
    exact ⟨hminimum, char_lt c⟩
  rw [decode_lead hsize h hfirst hlead hlength hfour hcode, if_pos ⟨hcontinues, hscalar⟩,
    hpayload, hval]
  unfold decoded
  rw [hc, hlength']

variable {b1 : UInt8}

section

variable (h1 : 0x80 ≤ b1.toNat ∧ b1.toNat ≤ 0xbf)

include h1

theorem continues_one : Continues [b1] := by
  simpa only [Continues, List.forall_mem_singleton] using h1

theorem continues_two {b2 : UInt8} (h2 : 0x80 ≤ b2.toNat ∧ b2.toNat ≤ 0xbf) : Continues [b1, b2] :=
  forall_mem_cons.2 ⟨h1, continues_one h2⟩

theorem continues_three {b2 b3 : UInt8}
    (h2 : 0x80 ≤ b2.toNat ∧ b2.toNat ≤ 0xbf) (h3 : 0x80 ≤ b3.toNat ∧ b3.toNat ≤ 0xbf) :
    Continues [b1, b2, b3] :=
  forall_mem_cons.2 ⟨h1, continues_two h2 h3⟩

end

/-- An encoded character is decoded to it. -/
theorem decode_encode {c : Char} (hsize : value.length < 2 ^ 63)
    (h : value.drop offset.toNat = utf8EncodeChar c ++ rest) :
    decodeUtf8CodePoint value offset = .ok (some (decoded offset c)) := by
  have hchar := char_lt c
  -- one case for each length of an encoding
  by_cases h1 : c.toNat ≤ 0x7f
  · have hbyte := toNat_ofNat_byte (v := c.toNat) (by omega)
    have hc := Utf8.encode_one h1
    have hsame : (ofNat c.toNat).toUInt32 = c.val := by
      rw [← UInt32.toNat_inj, UInt8.toNat_toUInt32, hbyte]
      rfl
    rw [hc] at h
    rw [decode_ascii h (by omega), hsame]
    unfold decoded
    rw [hc]
    rfl
  by_cases h2 : c.toNat ≤ 0x7ff
  · have hb0 := toNat_ofNat_byte (v := c.toNat / 64 % 0x20 + 0xc0) (by omega)
    have hb1 := toNat_ofNat_byte (v := c.toNat % 0x40 + 0x80) (by omega)
    have hc := Utf8.encode_two (by omega) h2
    generalize ofNat (c.toNat / 64 % 0x20 + 0xc0) = b0 at *
    generalize ofNat (c.toNat % 0x40 + 0x80) = b1 at *
    have hmask := toNat_mask b0 5 0x1f rfl
    have hpayload : payload (b0 &&& 0x1f).toUInt32.toNat [b1] = c.toNat := by
      simp only [payload, foldl_cons, foldl_nil, hmask]
      omega
    rw [hc] at h
    exact decode_char hsize h hc (by omega) (leadByte_two (by omega)) two_toNat
      (by decide) (by rw [hmask]; simp; omega) (continues_one (by omega)) hpayload
      (by simp; omega)
  by_cases h3 : c.toNat ≤ 0xffff
  · have hb0 := toNat_ofNat_byte (v := c.toNat / 4096 % 0x10 + 0xe0) (by omega)
    have hb1 := toNat_ofNat_byte (v := c.toNat / 64 % 0x40 + 0x80) (by omega)
    have hb2 := toNat_ofNat_byte (v := c.toNat % 0x40 + 0x80) (by omega)
    have hc := Utf8.encode_three (by omega) h3
    generalize ofNat (c.toNat / 4096 % 0x10 + 0xe0) = b0 at *
    generalize ofNat (c.toNat / 64 % 0x40 + 0x80) = b1 at *
    generalize ofNat (c.toNat % 0x40 + 0x80) = b2 at *
    have hmask := toNat_mask b0 4 0x0f rfl
    have hpayload : payload (b0 &&& 0x0f).toUInt32.toNat [b1, b2] = c.toNat := by
      simp only [payload, foldl_cons, foldl_nil, hmask]
      omega
    rw [hc] at h
    exact decode_char hsize h hc (by omega) (leadByte_three (by omega))
      three_toNat (by decide) (by rw [hmask]; simp; omega)
      (continues_two (by omega) (by omega)) hpayload (by simp; omega)
  · have hb0 := toNat_ofNat_byte (v := c.toNat / 262144 % 0x08 + 0xf0) (by omega)
    have hb1 := toNat_ofNat_byte (v := c.toNat / 4096 % 0x40 + 0x80) (by omega)
    have hb2 := toNat_ofNat_byte (v := c.toNat / 64 % 0x40 + 0x80) (by omega)
    have hb3 := toNat_ofNat_byte (v := c.toNat % 0x40 + 0x80) (by omega)
    have hc := Utf8.encode_four (c := c) (by omega)
    generalize ofNat (c.toNat / 262144 % 0x08 + 0xf0) = b0 at *
    generalize ofNat (c.toNat / 4096 % 0x40 + 0x80) = b1 at *
    generalize ofNat (c.toNat / 64 % 0x40 + 0x80) = b2 at *
    generalize ofNat (c.toNat % 0x40 + 0x80) = b3 at *
    have hmask := toNat_mask b0 3 0x07 rfl
    have hpayload : payload (b0 &&& 0x07).toUInt32.toNat [b1, b2, b3] = c.toNat := by
      simp only [payload, foldl_cons, foldl_nil, hmask]
      omega
    rw [hc] at h
    exact decode_char hsize h hc (by omega) (leadByte_four (by omega))
      four_toNat (by decide) (by rw [hmask]; simp; omega)
      (continues_three (by omega) (by omega) (by omega)) hpayload (by simp; omega)

theorem decode_cases {tail : Bytes} (hsize : value.length < 2 ^ 63)
    (h : value.drop offset.toNat = first :: tail) :
    decodeUtf8CodePoint value offset = .ok none ∨
      ∃ c rest, first :: tail = utf8EncodeChar c ++ rest ∧
        decodeUtf8CodePoint value offset = .ok (some (decoded offset c)) := by
  -- once the bytes are those of a character, they are decoded to it
  have found : ∀ {c bytes rest}, first :: tail = bytes ++ rest →
      utf8EncodeChar c = bytes →
      ∃ c rest, first :: tail = utf8EncodeChar c ++ rest ∧
        decodeUtf8CodePoint value offset = .ok (some (decoded offset c)) := by
    rintro c bytes rest hsplit rfl
    exact ⟨c, rest, hsplit, decode_encode hsize (h.trans hsplit)⟩
  by_cases h1 : first.toNat ≤ 0x7f
  · obtain ⟨c, hc, -⟩ := Utf8.char_one h1
    exact Or.inr (found rfl hc)
  by_cases h2 : 0xc2 ≤ first.toNat ∧ first.toNat ≤ 0xdf
  · have hlead := leadByte_two h2
    have hmask := toNat_mask first 5 0x1f rfl
    match tail with
    | [] => exact Or.inl (decode_short hsize h (by omega) hlead (by decide) (by simp))
    | b1 :: rest =>
      have hsplit : value.drop offset.toNat = first :: ([b1] ++ rest) := h
      have hdecode := decode_lead hsize hsplit (by omega) hlead two_toNat (by decide)
        (by rw [hmask]; simp; omega)
      split at hdecode
      · next hboth =>
        obtain ⟨hcontinues, -⟩ := hboth
        obtain ⟨c, hc, -⟩ := Utf8.char_two h2 (hcontinues b1 (by simp)) rfl
        exact Or.inr (found rfl hc)
      · exact Or.inl hdecode
  by_cases h3 : 0xe0 ≤ first.toNat ∧ first.toNat ≤ 0xef
  · have hlead := leadByte_three h3
    have hmask := toNat_mask first 4 0x0f rfl
    match tail with
    | [] | [_] => exact Or.inl (decode_short hsize h (by omega) hlead (by decide) (by simp))
    | b1 :: b2 :: rest =>
      have hsplit : value.drop offset.toNat = first :: ([b1, b2] ++ rest) := h
      have hdecode := decode_lead hsize hsplit (by omega) hlead three_toNat
        (by decide) (by rw [hmask]; simp; omega)
      split at hdecode
      · next hboth =>
        obtain ⟨hcontinues, hminimum, hscalar⟩ := hboth
        simp only [payload, foldl_cons, foldl_nil, hmask] at hminimum hscalar
        obtain ⟨c, hc, -⟩ := Utf8.char_three h3 (hcontinues b1 (by simp))
          (hcontinues b2 (by simp)) rfl hminimum (by omega)
        exact Or.inr (found rfl hc)
      · exact Or.inl hdecode
  by_cases h4 : 0xf0 ≤ first.toNat ∧ first.toNat ≤ 0xf4
  · have hlead := leadByte_four h4
    have hmask := toNat_mask first 3 0x07 rfl
    match tail with
    | [] | [_] | [_, _] =>
      exact Or.inl (decode_short hsize h (by omega) hlead (by decide) (by simp))
    | b1 :: b2 :: b3 :: rest =>
      have hsplit : value.drop offset.toNat = first :: ([b1, b2, b3] ++ rest) := h
      have hdecode := decode_lead hsize hsplit (by omega) hlead four_toNat
        (by decide) (by rw [hmask]; simp; omega)
      split at hdecode
      · next hboth =>
        obtain ⟨hcontinues, hminimum, hscalar⟩ := hboth
        simp only [payload, foldl_cons, foldl_nil, hmask] at hminimum hscalar
        have hlow : 0x10000 ≤ _ := hminimum
        obtain ⟨c, hc, -⟩ := Utf8.char_four h4 (hcontinues b1 (by simp))
          (hcontinues b2 (by simp)) (hcontinues b3 (by simp)) rfl hlow (by omega)
        exact Or.inr (found rfl hc)
      · exact Or.inl hdecode
  · exact Or.inl (decode_invalid h (by omega) (leadByte_none h2 h3 h4))

end Lead

theorem drop_decoded {c : Char} (hsize : value.length < 2 ^ 63)
    (h : value.drop offset.toNat = utf8EncodeChar c ++ rest) :
    (decoded offset c).2.toNat = offset.toNat + (utf8EncodeChar c).length ∧
      value.drop (decoded offset c).2.toNat = rest ∧
      (decoded offset c).2.toNat + rest.length = value.length ∧
      0 < (utf8EncodeChar c).length := by
  have hpos := List.length_pos_of_ne_nil (Utf8.encode_ne_nil (c := c))
  have hend := length_of_drop h (List.append_ne_nil_of_left_ne_nil Utf8.encode_ne_nil rest)
  rw [length_append] at hend
  have hwidth : (UInt64.ofNat (utf8EncodeChar c).length).toNat =
      (utf8EncodeChar c).length := by
    rw [UInt64.toNat_ofNat']
    omega
  have hnext : (decoded offset c).2.toNat =
      offset.toNat + (utf8EncodeChar c).length := by
    unfold decoded
    rw [toNat_add (by omega), hwidth]
  refine ⟨hnext, ?_, by omega, hpos⟩
  rw [hnext, ← List.drop_drop, h, List.drop_left]

theorem validUtf8From_eq {turns : ℕ} (hsize : value.length < 2 ^ 63)
    (h : value.drop offset.toNat = rest) (hoffset : offset.toNat ≤ value.length)
    (hturns : rest.length < turns) :
    ∃ accepted, validUtf8From value turns offset = .ok accepted ∧
      (accepted = true ↔ WellFormed rest) := by
  induction turns generalizing offset rest with
  | zero => exact absurd hturns (Nat.not_lt_zero _)
  | succ turns ih =>
    have hlength : rest.length = value.length - offset.toNat := by
      rw [← h, length_drop]
    cases rest with
    | nil =>
      have hend : ¬ offset < size value := by
        rw [UInt64.lt_iff_toNat_lt, toNat_size hsize]
        rw [List.length_nil] at hlength
        omega
      refine ⟨true, ?_, iff_of_true rfl Utf8.wellFormed_nil⟩
      unfold validUtf8From
      rw [if_neg hend]
      rfl
    | cons first tail =>
      have hinside : offset < size value := by
        rw [UInt64.lt_iff_toNat_lt, toNat_size hsize]
        rw [length_cons] at hlength
        omega
      unfold validUtf8From
      rw [if_pos hinside]
      rcases decode_cases hsize h with hnone | ⟨c, rest, hsplit, hsome⟩
      · rw [hnone, ok_bind]
        refine ⟨false, rfl, iff_of_false Bool.false_ne_true fun hwell => ?_⟩
        -- a well-formed rest would start with a character
        rcases hwell.cases with hnil | ⟨c, rest, hsplit, -⟩
        · exact cons_ne_nil _ _ hnil
        · rw [decode_encode hsize (h.trans hsplit)] at hnone
          cases hnone
      · rw [hsome, ok_bind]
        obtain ⟨hnext, hdrop, hend, hpos⟩ := drop_decoded hsize (h.trans hsplit)
        obtain ⟨accepted, hrun, hiff⟩ := ih hdrop (by omega) (by omega)
        refine ⟨accepted, hrun, hiff.trans ?_⟩
        rw [hsplit]
        refine ⟨WellFormed.cons, fun hwell => ?_⟩
        -- the character is the one that was decoded
        rcases hwell.cases with hnil | ⟨c', rest', hsplit', hwell'⟩
        · exact absurd (List.append_eq_nil_iff.1 hnil).1 Utf8.encode_ne_nil
        · have hother := decode_encode hsize (h.trans (hsplit.trans hsplit'))
          rw [hsome] at hother
          have hchar : c = c' :=
            Char.ext (congrArg Prod.fst (Option.some.inj (ok.inj hother)))
          rw [hchar] at hsplit'
          rw [List.append_cancel_left hsplit']
          exact hwell'

/-- The walk ends and accepts the well-formed strings. -/
theorem validUtf8_eq (hsize : value.length < 2 ^ 63) :
    ∃ accepted, validUtf8 value = .ok accepted ∧ (accepted = true ↔ WellFormed value) :=
  validUtf8From_eq hsize (by rfl) (Nat.zero_le _) (Nat.lt_succ_self _)

theorem marked_eq {marker bits : UInt32} {a i : ℕ} (hmarker : marker.toNat = 2 ^ i * a)
    (hbits : bits.toNat < 2 ^ i) :
    marked marker bits = ofNat (bits.toNat + marker.toNat) := by
  unfold marked
  have hor : marker.toNat ||| bits.toNat = marker.toNat + bits.toNat := by
    rw [hmarker, ← Nat.two_pow_add_eq_or_of_lt hbits]
  rw [← toNat_inj, UInt32.toNat_toUInt8, UInt32.toNat_or, hor, UInt8.toNat_ofNat',
    Nat.add_comm]

theorem toNat_shiftRight (x : UInt32) {n : UInt32} (hn : n.toNat < 32) :
    (x >>> n).toNat = x.toNat / 2 ^ n.toNat := by
  rw [UInt32.toNat_shiftRight, Nat.mod_eq_of_lt hn, Nat.shiftRight_eq_div_pow]

theorem toNat_low_bits (x : UInt32) : (x &&& 0x3f).toNat = x.toNat % 0x40 := by
  have hmask : (0x3f : UInt32).toNat = 2 ^ 6 - 1 := rfl
  rw [UInt32.toNat_and, hmask, Nat.and_two_pow_sub_one_eq_mod]

theorem marked_low (x : UInt32) :
    marked 0x80 (x &&& 0x3f) = ofNat (x.toNat % 0x40 + 0x80) := by
  have hbits := toNat_low_bits x
  have hlt : (x &&& 0x3f).toNat < 2 ^ 6 := by omega
  rw [marked_eq (a := 2) rfl hlt, hbits]
  rfl

/-- A code point is written as the bytes of its character. -/
theorem appendUtf8_char (c : Char) (output : Bytes) :
    appendUtf8 c.val output = output ++ utf8EncodeChar c := by
  have hchar := char_lt c
  have htoNat : c.val.toNat = c.toNat := rfl
  have h6 : (c.val >>> 6).toNat = c.toNat / 64 := toNat_shiftRight c.val (by decide)
  have h12 : (c.val >>> 12).toNat = c.toNat / 4096 := toNat_shiftRight c.val (by decide)
  have h18 : (c.val >>> 18).toNat = c.toNat / 262144 := toNat_shiftRight c.val (by decide)
  have hle : ∀ bound : UInt32, c.val ≤ bound ↔ c.toNat ≤ bound.toNat := fun _ =>
    UInt32.le_iff_toNat_le
  unfold appendUtf8
  by_cases h1 : c.toNat ≤ 0x7f
  · rw [if_pos ((hle 0x7f).2 h1), Utf8.encode_one h1]
    rfl
  by_cases h2 : c.toNat ≤ 0x7ff
  · rw [if_neg (mt (hle 0x7f).1 h1), if_pos ((hle 0x7ff).2 h2), Utf8.encode_two (by omega) h2,
      marked_low, marked_eq (a := 6) (i := 5) rfl (by omega), h6, htoNat]
    have hlead : c.toNat / 64 % 0x20 = c.toNat / 64 := by omega
    rw [hlead]
    rfl
  by_cases h3 : c.toNat ≤ 0xffff
  · rw [if_neg (mt (hle 0x7f).1 h1), if_neg (mt (hle 0x7ff).1 h2), if_pos ((hle 0xffff).2 h3),
      Utf8.encode_three (by omega) h3, marked_low, marked_low,
      marked_eq (a := 14) (i := 4) rfl (by omega), h6, h12, htoNat]
    have hlead : c.toNat / 4096 % 0x10 = c.toNat / 4096 := by omega
    rw [hlead]
    rfl
  · rw [if_neg (mt (hle 0x7f).1 h1), if_neg (mt (hle 0x7ff).1 h2), if_neg (mt (hle 0xffff).1 h3),
      Utf8.encode_four (by omega), marked_low, marked_low, marked_low,
      marked_eq (a := 30) (i := 3) rfl (by omega), h6, h12, h18, htoNat]
    have hlead : c.toNat / 262144 % 0x08 = c.toNat / 262144 := by omega
    rw [hlead]
    rfl

/-- The code points of a string from `offset` on, decoded one by one and encoded again. -/
def recode (value : Bytes) : ℕ → UInt64 → Bytes → Except Failure (Option Bytes)
  | 0, _, _ => .error .diverges
  | turns + 1, offset, output => do
    if offset < size value then
      match ← decodeUtf8CodePoint value offset with
      | none => return none
      | some (codePoint, next) => recode value turns next (appendUtf8 codePoint output)
    else return some output

theorem recode_eq {turns : ℕ} (output : Bytes) (hsize : value.length < 2 ^ 63)
    (hwell : WellFormed rest) (h : value.drop offset.toNat = rest)
    (hoffset : offset.toNat ≤ value.length) (hturns : rest.length < turns) :
    recode value turns offset output = .ok (some (output ++ rest)) := by
  induction turns generalizing offset rest output with
  | zero => exact absurd hturns (Nat.not_lt_zero _)
  | succ turns ih =>
    have hlength : rest.length = value.length - offset.toNat := by
      rw [← h, length_drop]
    unfold recode
    rcases hwell.cases with rfl | ⟨c, tail, rfl, htail⟩
    · have hend : ¬ offset < size value := by
        rw [UInt64.lt_iff_toNat_lt, toNat_size hsize]
        rw [List.length_nil] at hlength
        omega
      rw [if_neg hend, List.append_nil]
      rfl
    · obtain ⟨hnext, hdrop, hend, hpos⟩ := drop_decoded hsize h
      have hinside : offset < size value := by
        rw [UInt64.lt_iff_toNat_lt, toNat_size hsize]
        omega
      rw [length_append] at hturns
      have hrest := ih (output ++ utf8EncodeChar c) htail hdrop (by omega) (by omega)
      rw [if_pos hinside, decode_encode hsize h, ok_bind, ← append_assoc, ← hrest,
        ← appendUtf8_char]
      rfl

section Wide

variable {u low : UInt16} {cells text : List UInt16} {encoded : Bytes}

theorem high_iff : (u ≥ 0xd800 && u ≤ 0xdbff) = true ↔ IsHigh u := by
  rw [Bool.and_eq_true, decide_eq_true_iff, decide_eq_true_iff, ge_iff_le, UInt16.le_iff_toNat_le,
    UInt16.le_iff_toNat_le]
  rfl

theorem low_iff : (u ≥ 0xdc00 && u ≤ 0xdfff) = true ↔ IsLow u := by
  rw [Bool.and_eq_true, decide_eq_true_iff, decide_eq_true_iff, ge_iff_le, UInt16.le_iff_toNat_le,
    UInt16.le_iff_toNat_le]
  rfl

theorem not_low_iff : (u < 0xdc00 || u > 0xdfff) = true ↔ ¬ IsLow u := by
  rw [Bool.or_eq_true, decide_eq_true_iff, decide_eq_true_iff, gt_iff_lt, ← UInt16.not_le,
    ← UInt16.not_le, UInt16.le_iff_toNat_le, UInt16.le_iff_toNat_le, ← not_and_or]
  rfl

theorem wideToUtf8_unit (hzero : u ≠ 0) (hhigh : ¬ IsHigh u) (hlow : ¬ IsLow u) :
    wideToUtf8 (u :: cells) encoded = wideToUtf8 cells (appendUtf8 u.toUInt32 encoded) := by
  conv_lhs => unfold wideToUtf8
  rw [if_neg hzero, if_neg (mt high_iff.1 hhigh), if_neg (mt low_iff.1 hlow)]

theorem wideToUtf8_low (hzero : u ≠ 0) (hlow : IsLow u) :
    wideToUtf8 (u :: cells) encoded = .error unpairedSurrogate := by
  have hhigh : ¬ IsHigh u := fun h => by
    have hle := h.2
    have hge := hlow.1
    omega
  unfold wideToUtf8
  rw [if_neg hzero, if_neg (mt high_iff.1 hhigh), if_pos (low_iff.2 hlow)]

theorem wideToUtf8_high (hzero : u ≠ 0) (hhigh : IsHigh u) (hlow : ¬ IsLow low) :
    wideToUtf8 (u :: low :: cells) encoded = .error unpairedSurrogate := by
  unfold wideToUtf8
  rw [if_neg hzero, if_pos (high_iff.2 hhigh)]
  exact if_pos (not_low_iff.2 hlow)

theorem wideToUtf8_pair (hzero : u ≠ 0) (hhigh : IsHigh u) (hlow : IsLow low) :
    wideToUtf8 (u :: low :: cells) encoded =
      wideToUtf8 cells (appendUtf8 (0x10000 + ((u.toUInt32 - 0xd800) <<< (10 : UInt32)) +
        (low.toUInt32 - 0xdc00)) encoded) := by
  conv_lhs => unfold wideToUtf8
  rw [if_neg hzero, if_pos (high_iff.2 hhigh)]
  exact if_neg (mt not_low_iff.1 (not_not.2 hlow))

theorem toNat_pair (hhigh : IsHigh u) (hlow : IsLow low) :
    (0x10000 + ((u.toUInt32 - 0xd800) <<< (10 : UInt32)) + (low.toUInt32 - 0xdc00)).toNat =
      0x10000 + (u.toNat - 0xd800) * 1024 + (low.toNat - 0xdc00) := by
  obtain ⟨hu, hu'⟩ := hhigh
  obtain ⟨hl, hl'⟩ := hlow
  have hfirst : (u.toUInt32 - 0xd800).toNat = u.toNat - 0xd800 :=
    UInt32.toNat_sub_of_le _ _ (UInt32.le_iff_toNat_le.2 hu)
  have hsecond : (low.toUInt32 - 0xdc00).toNat = low.toNat - 0xdc00 :=
    UInt32.toNat_sub_of_le _ _ (UInt32.le_iff_toNat_le.2 hl)
  have hshift : ((u.toUInt32 - 0xd800) <<< (10 : UInt32)).toNat = (u.toNat - 0xd800) * 1024 := by
    have hten : (10 : UInt32).toNat % 32 = 10 := rfl
    rw [UInt32.toNat_shiftLeft, hten, hfirst, Nat.shiftLeft_eq, Nat.mod_eq_of_lt (by omega)]
  have hbase : (0x10000 : UInt32).toNat = 0x10000 := rfl
  rw [UInt32.toNat_add, UInt32.toNat_add, hshift, hsecond, hbase]
  omega

theorem isLow_ne_zero (h : IsLow u) : u ≠ 0 := by
  rintro rfl
  exact absurd h.1 (by decide)

theorem wideToUtf8_paired (h : Paired text) (hzero : 0 ∉ text) :
    ∃ chars : List Char, text = chars.flatMap utf16EncodeChar ∧ ∀ encoded,
      wideToUtf8 (text ++ [0]) encoded = .ok (encoded ++ chars.flatMap utf8EncodeChar) := by
  induction h with
  | nil => exact ⟨[], rfl, fun encoded => congrArg ok (List.append_nil encoded).symm⟩
  | @unit u units hhigh hlow _ ih =>
    obtain ⟨hu, hunits⟩ := not_or.1 (mt mem_cons.2 hzero)
    obtain ⟨chars, hchars, hrun⟩ := ih hunits
    obtain ⟨c, hc, hvalue⟩ := Utf8.char_unit hhigh hlow
    have hcode : u.toUInt32 = c.val := UInt32.toNat_inj.1 hvalue.symm
    refine ⟨c :: chars, ?_, fun encoded => ?_⟩
    · rw [flatMap_cons, hc, hchars]
      rfl
    · rw [cons_append, wideToUtf8_unit (Ne.symm hu) hhigh hlow, hrun, hcode, appendUtf8_char,
        flatMap_cons, append_assoc]
  | @pair u low units hhigh hlow _ ih =>
    obtain ⟨hu, htail⟩ := not_or.1 (mt mem_cons.2 hzero)
    obtain ⟨-, hunits⟩ := not_or.1 (mt mem_cons.2 htail)
    obtain ⟨chars, hchars, hrun⟩ := ih hunits
    obtain ⟨c, hc, hvalue⟩ := Utf8.char_pair hhigh hlow rfl
    have hcode := UInt32.toNat_inj.1 ((toNat_pair hhigh hlow).trans hvalue.symm)
    refine ⟨c :: chars, ?_, fun encoded => ?_⟩
    · rw [flatMap_cons, hc, hchars]
      rfl
    · rw [cons_append, cons_append, wideToUtf8_pair (Ne.symm hu) hhigh hlow, hrun,
        hcode, flatMap_cons, ← append_assoc]
      exact congrArg (fun e => ok (e ++ _)) (appendUtf8_char c encoded)

theorem wideToUtf8_unpaired : ∀ {text : List UInt16} {encoded : Bytes}, ¬ Paired text →
    0 ∉ text → wideToUtf8 (text ++ [0]) encoded = .error unpairedSurrogate
  | [], _, h, _ => absurd Paired.nil h
  | u :: rest, encoded, h, hzero => by
    obtain ⟨hu, hrest⟩ := not_or.1 (mt mem_cons.2 hzero)
    by_cases hlow : IsLow u
    · exact wideToUtf8_low (Ne.symm hu) hlow
    by_cases hhigh : IsHigh u
    · match rest with
      | [] => exact wideToUtf8_high (Ne.symm hu) hhigh fun hlow => isLow_ne_zero hlow rfl
      | low :: rest =>
        by_cases hpair : IsLow low
        · have hunits := mt (Paired.pair hhigh hpair) h
          have htail := mt (List.mem_cons_of_mem low) hrest
          exact (wideToUtf8_pair (Ne.symm hu) hhigh hpair).trans (wideToUtf8_unpaired hunits htail)
        · exact wideToUtf8_high (Ne.symm hu) hhigh hpair
    · have hunits := mt (Paired.unit hhigh hlow) h
      exact (wideToUtf8_unit (Ne.symm hu) hhigh hlow).trans (wideToUtf8_unpaired hunits hrest)

/-- The arguments as they lie in memory, each up to its terminator. -/
def terminated (arguments : List (List UInt16)) : List (Option (List UInt16)) :=
  arguments.map fun text => some (text ++ [0])

variable {arguments : List (List UInt16)}

theorem wideArguments_paired (h : ∀ text ∈ arguments, Paired text ∧ 0 ∉ text) :
    ∃ chars : List (List Char), arguments = chars.map (flatMap utf16EncodeChar) ∧
      wideArguments arguments.length (terminated arguments) =
        .ok (chars.map (flatMap utf8EncodeChar)) := by
  induction arguments with
  | nil => exact ⟨[], rfl, rfl⟩
  | cons text arguments ih =>
    obtain ⟨⟨hpaired, hzero⟩, hrest⟩ := forall_mem_cons.1 h
    obtain ⟨chars, hchars, hrun⟩ := wideToUtf8_paired hpaired hzero
    obtain ⟨others, hothers, hrunRest⟩ := ih hrest
    refine ⟨chars :: others, ?_, ?_⟩
    · rw [map_cons, ← hchars, ← hothers]
    · unfold terminated at hrunRest ⊢
      rw [length_cons, map_cons, wideArguments, hrun, ok_bind, hrunRest, ok_bind]
      rfl

theorem wideArguments_unpaired (hzero : ∀ text ∈ arguments, 0 ∉ text)
    (h : ∃ text ∈ arguments, ¬ Paired text) :
    wideArguments arguments.length (terminated arguments) = .error unpairedSurrogate := by
  induction arguments with
  | nil =>
    obtain ⟨text, hmem, -⟩ := h
    exact absurd hmem List.not_mem_nil
  | cons text arguments ih =>
    obtain ⟨hfirst, hrest⟩ := forall_mem_cons.1 hzero
    unfold terminated at ih ⊢
    rw [length_cons, map_cons, wideArguments]
    by_cases hpaired : Paired text
    · obtain ⟨chars, -, hrun⟩ := wideToUtf8_paired hpaired hfirst
      have hlater : ∃ text ∈ arguments, ¬ Paired text := by
        obtain ⟨other, hmem, hother⟩ := h
        rcases mem_cons.1 hmem with rfl | hmem
        · exact absurd hpaired hother
        · exact ⟨other, hmem, hother⟩
      rw [hrun, ok_bind, ih hrest hlater]
      rfl
    · rw [wideToUtf8_unpaired hpaired hfirst]
      rfl

end Wide

/-- **UTF-8 and UTF-16 are read exactly.** The check accepts the well-formed strings, which come
back code point by code point, and arguments are converted when their surrogates are paired. -/
theorem utf8_exact {arguments : List (List UInt16)} (hsize : value.length < 2 ^ 63)
    (hzero : ∀ text ∈ arguments, 0 ∉ text) :
    (∃ accepted, validUtf8 value = .ok accepted ∧ (accepted = true ↔ WellFormed value) ∧
      (accepted = true → recode value (value.length + 1) 0 [] = .ok (some value))) ∧
    ((∀ text ∈ arguments, Paired text) → ∃ chars : List (List Char),
      arguments = chars.map (flatMap utf16EncodeChar) ∧
      wideArgumentsToUtf8 arguments.length (some (terminated arguments)) =
        .ok (chars.map (flatMap utf8EncodeChar))) ∧
    ((∃ text ∈ arguments, ¬ Paired text) →
      wideArgumentsToUtf8 arguments.length (some (terminated arguments)) =
        .error unpairedSurrogate) := by
  have hvector : ¬ ((arguments.length : ℤ) < 0 ||
      ((arguments.length : ℤ) ≠ 0 && (some (terminated arguments)).isNone)) = true := by
    rw [Option.isNone_some, Bool.and_false, Bool.or_false, decide_eq_true_iff]
    exact Int.not_lt.2 (Int.natCast_nonneg _)
  have hrun : wideArgumentsToUtf8 arguments.length (some (terminated arguments)) =
      wideArguments arguments.length (terminated arguments) := if_neg hvector
  obtain ⟨accepted, hvalid, hiff⟩ := validUtf8_eq hsize
  rw [hrun]
  refine ⟨⟨accepted, hvalid, hiff, fun h => ?_⟩, fun h => ?_, wideArguments_unpaired hzero⟩
  · exact recode_eq [] hsize (hiff.1 h) (by rfl) (Nat.zero_le _) (Nat.lt_succ_self _)
  · exact wideArguments_paired fun text hmem => ⟨h text hmem, hzero text hmem⟩

/-- The euro sign is accepted, and a surrogate pair is converted. -/
theorem euro_and_pair :
    recode [0xe2, 0x82, 0xac] 4 0 [] = .ok (some [0xe2, 0x82, 0xac]) ∧
      ∃ encoded, wideArgumentsToUtf8 1 (some [some [0xd83d, 0xde00, 0]]) = .ok encoded := by
  have hpair : Paired [0xd83d, 0xde00] :=
    Paired.pair (by unfold IsHigh; decide) (by unfold IsLow; decide) Paired.nil
  obtain ⟨⟨accepted, hvalid, -, hback⟩, hpaired, -⟩ :=
    @utf8_exact [0xe2, 0x82, 0xac] [[0xd83d, 0xde00]] (by decide) (by decide)
  have haccepted : accepted = true := (ok.inj hvalid).symm
  obtain ⟨chars, -, hrun⟩ := hpaired (List.forall_mem_singleton.2 hpair)
  exact ⟨hback haccepted, _, hrun⟩

end Matcore.Support
