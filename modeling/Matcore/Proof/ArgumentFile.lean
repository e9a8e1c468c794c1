import Matcore.Lib.LittleEndian
import Matcore.Proof.Utf8Check

/-!
# The argument file codec is exact

The loop of the reader passes the values that are there, and stops with a message elsewhere.
-/

namespace Matcore.Support

open LittleEndian (digits length_digits value_digits value_lt digits_value)
open UInt64 (ofNat toNat_ofNat' le_iff_toNat_le toNat_sub_of_le lt_iff_toNat_lt)
open List (length_cons length_append append_nil flatMap_cons append_assoc length drop_drop
  drop_left' length_take length_drop)
open Except (ok_bind ok)

variable {value : Bytes} {offset : UInt64}

/-- The values of an argument file. -/
def Valid (argument : Bytes) : Prop := 0 ∉ argument ∧ Utf8.WellFormed argument

theorem validValue_eq (value : Bytes) (hsize : value.length < 2 ^ 63) :
    ∃ accepted, validValue value = .ok accepted ∧ (accepted = true ↔ Valid value) := by
  have hnul : containsNul value = true ↔ 0 ∈ value := List.contains_iff_mem
  by_cases hmem : 0 ∈ value
  · refine ⟨false, ?_, iff_of_false Bool.false_ne_true fun h => h.1 hmem⟩
    unfold validValue
    rw [hnul.2 hmem]
    rfl
  · obtain ⟨accepted, hcheck, hiff⟩ := validUtf8_eq hsize
    refine ⟨accepted, ?_, hiff.trans (and_iff_right hmem).symm⟩
    unfold validValue
    rw [Bool.eq_false_iff.2 (mt hnul.1 hmem)]
    exact hcheck

theorem toNat_or_shift {acc : UInt64} (b : UInt8) {k : ℕ} (hk : k < 8)
    (hacc : acc.toNat < 2 ^ (8 * k)) :
    (acc ||| (b.toUInt64 <<< ofNat (8 * k))).toNat = acc.toNat + 2 ^ (8 * k) * b.toNat := by
  have hb := b.toNat_lt
  have hshift : (ofNat (8 * k)).toNat % 64 = 8 * k := by
    rw [toNat_ofNat']
    omega
  have hpow : 2 ^ (8 * k) * 2 ^ 8 ≤ 2 ^ 64 := by
    rw [← Nat.pow_add]
    exact Nat.pow_le_pow_right (by decide) (by omega)
  have hlt : 2 ^ (8 * k) * b.toNat < 2 ^ 64 := by
    refine Nat.lt_of_lt_of_le ?_ hpow
    exact Nat.mul_lt_mul_of_pos_left hb (Nat.two_pow_pos _)
  rw [UInt64.toNat_or, UInt64.toNat_shiftLeft, hshift, UInt8.toNat_toUInt64, Nat.shiftLeft_eq,
    Nat.mul_comm b.toNat, Nat.mod_eq_of_lt hlt, Nat.or_comm,
    ← Nat.two_pow_add_eq_or_of_lt hacc, Nat.add_comm]

variable {rest bytes : Bytes}

theorem takeBytes_eq (k : ℕ) (acc : UInt64) (hk : k + bytes.length ≤ 8)
    (hsize : value.length < 2 ^ 63) (h : value.drop offset.toNat = bytes ++ rest)
    (hacc : acc.toNat < 2 ^ (8 * k)) :
    takeBytes value ((List.range' k bytes.length).map fun i => ofNat (8 * i)) offset acc =
      .ok (ofNat (acc.toNat + 2 ^ (8 * k) * LittleEndian.value bytes),
        offset + ofNat bytes.length) := by
  induction bytes generalizing k offset acc with
  | nil =>
    have hvalue : ofNat (acc.toNat + 2 ^ (8 * k) * LittleEndian.value []) = acc := by
      rw [LittleEndian.value, Nat.mul_zero, Nat.add_zero, UInt64.ofNat_toNat]
    have hoffset : offset + ofNat ([] : Bytes).length = offset := UInt64.add_zero offset
    rw [hvalue, hoffset]
    rfl
  | cons b bytes ih =>
    rw [length_cons] at hk
    have hlength := length_of_drop h (List.cons_ne_nil _ _)
    rw [List.cons_append, length_cons] at hlength
    have hone : (1 : UInt64).toNat = 1 := rfl
    have hnext : (offset + 1).toNat = offset.toNat + 1 := toNat_add (by omega)
    have hdrop : value.drop (offset + 1).toNat = bytes ++ rest := by
      rw [hnext]
      exact drop_cons h
    have hor := toNat_or_shift b (k := k) (by omega) hacc
    have hpow : 2 ^ (8 * (k + 1)) = 2 ^ (8 * k) * 256 := by
      rw [Nat.mul_succ, Nat.pow_add]
    have hb := b.toNat_lt
    have hbound : (acc ||| (b.toUInt64 <<< ofNat (8 * k))).toNat < 2 ^ (8 * (k + 1)) := by
      rw [hor, hpow]
      calc acc.toNat + 2 ^ (8 * k) * b.toNat
          < 2 ^ (8 * k) + 2 ^ (8 * k) * b.toNat := Nat.add_lt_add_right hacc _
        _ = 2 ^ (8 * k) * (b.toNat + 1) := by ring
        _ ≤ 2 ^ (8 * k) * 256 := Nat.mul_le_mul_left _ hb
    rw [length_cons, List.range'_succ, List.map_cons]
    unfold takeBytes
    rw [byteAt_eq h, ok_bind, ih (k + 1) _ (by omega) hdrop hbound, hor, hpow]
    have hvalue : acc.toNat + 2 ^ (8 * k) * b.toNat + 2 ^ (8 * k) * 256 * LittleEndian.value bytes =
        acc.toNat + 2 ^ (8 * k) * LittleEndian.value (b :: bytes) := by
      rw [LittleEndian.value]
      ring
    have hoffset : offset + 1 + ofNat bytes.length =
        offset + ofNat (bytes.length + 1) := by
      rw [UInt64.ofNat_add, UInt64.add_assoc, UInt64.add_comm 1]
      rfl
    rw [hvalue, hoffset]

theorem toNat_remaining (hsize : value.length < 2 ^ 63) :
    (size value - min (size value) offset).toNat = value.length - offset.toNat := by
  have hlength := toNat_size hsize
  have hmin : min (size value) offset = if size value ≤ offset then size value else offset := rfl
  rw [hmin]
  split
  · next hle =>
    rw [le_iff_toNat_le, hlength] at hle
    rw [toNat_sub_of_le _ _ (UInt64.le_refl _)]
    omega
  · next hlt =>
    rw [le_iff_toNat_le, hlength, Nat.not_le] at hlt
    rw [toNat_sub_of_le _ _ (le_iff_toNat_le.2 (by omega)), hlength]

/-- **An integer** is read where its eight bytes are, and only there. -/
theorem takeU64_eq (hsize : value.length < 2 ^ 63) (h : value.drop offset.toNat = bytes ++ rest)
    (hlength : bytes.length = 8) :
    takeU64 value offset =
      .ok (some (ofNat (LittleEndian.value bytes), offset + 8)) := by
  have hne : bytes ++ rest ≠ [] := by
    intro hnil
    rw [List.append_eq_nil_iff] at hnil
    rw [hnil.1] at hlength
    exact absurd hlength (by decide)
  have hend := length_of_drop h hne
  rw [length_append, hlength] at hend
  have height : (8 : UInt64).toNat = 8 := rfl
  have henough : ¬ size value - min (size value) offset < 8 := by
    rw [lt_iff_toNat_lt, toNat_remaining hsize]
    omega
  have hbytes := takeBytes_eq 0 0 (by omega) hsize h (by decide)
  rw [hlength] at hbytes
  unfold takeU64
  rw [if_neg henough]
  have hvalue : (0 : UInt64).toNat + 2 ^ (8 * 0) * LittleEndian.value bytes =
      LittleEndian.value bytes := by
    simp
  rw [hvalue] at hbytes
  exact congrArg (fun r => r >>= fun x => ok (some x)) hbytes

theorem takeU64_short (hsize : value.length < 2 ^ 63) (h : value.length < offset.toNat + 8) :
    takeU64 value offset = .ok none := by
  have height : (8 : UInt64).toNat = 8 := rfl
  have hshort : size value - min (size value) offset < 8 := by
    rw [lt_iff_toNat_lt, toNat_remaining hsize]
    omega
  unfold takeU64
  rw [if_pos hshort]
  rfl

theorem appendU64_eq (v : UInt64) (output : Bytes) :
    appendU64 v output = output ++ digits 8 v.toNat := by
  have hshifts : shifts = (List.range 8).map fun i => ofNat (8 * i) := rfl
  unfold appendU64
  rw [LittleEndian.digits_eq_map, hshifts, List.map_map]
  refine congrArg (output ++ ·) (List.map_congr_left fun i hi => ?_)
  have hi8 := List.mem_range.1 hi
  have hshift : (ofNat (8 * i)).toNat % 64 = 8 * i := by
    rw [toNat_ofNat']
    omega
  have hpow : 256 ^ i = 2 ^ (8 * i) := by rw [Nat.pow_mul]
  have hmask : (0xff : UInt64).toNat = 2 ^ 8 - 1 := rfl
  refine UInt8.toNat_inj.1 ?_
  rw [Function.comp_apply, UInt64.toNat_toUInt8, UInt64.toNat_and, UInt64.toNat_shiftRight, hshift,
    hmask, Nat.and_two_pow_sub_one_eq_mod, Nat.shiftRight_eq_div_pow, UInt8.toNat_ofNat', hpow]

/-- An argument as it stands in the file. -/
def encodedArgument (argument : Bytes) : Bytes :=
  digits 8 argument.length ++ argument

/-- The file of a list of arguments. -/
def encoding (arguments : List Bytes) : Bytes :=
  argumentFileMagic ++ digits 8 arguments.length ++
    arguments.flatMap encodedArgument

/-- The lists that a file can hold. -/
structure Encodable (arguments : List Bytes) : Prop where
  count : arguments.length ≤ 2 ^ 20
  valid : ∀ argument ∈ arguments, Valid argument
  fits : (encoding arguments).length ≤ 64 * 1024 * 1024

@[simp] theorem length_encodedArgument (argument : Bytes) :
    (encodedArgument argument).length = 8 + argument.length := by
  unfold encodedArgument
  rw [length_append, length_digits]

theorem length_encoding (arguments : List Bytes) :
    (encoding arguments).length = 23 + (arguments.flatMap encodedArgument).length := by
  unfold encoding
  rw [length_append, length_append, length_digits]
  rfl

theorem maximum_toNat : maximumArgumentFileBytes.toNat = 64 * 1024 * 1024 := rfl

variable {arguments : List Bytes}

theorem appendArguments_eq (contents : Bytes) (hvalid : ∀ argument ∈ arguments, Valid argument)
    (hfits : contents.length + (arguments.flatMap encodedArgument).length ≤ 64 * 1024 * 1024) :
    appendArguments arguments contents =
      .ok (contents ++ arguments.flatMap encodedArgument) := by
  induction arguments generalizing contents with
  | nil =>
    rw [List.flatMap_nil, append_nil]
    rfl
  | cons argument rest ih =>
    rw [flatMap_cons, length_append, length_encodedArgument] at hfits
    obtain ⟨accepted, hcheck, hiff⟩ := validValue_eq argument (by omega)
    have haccepted := hiff.2 (hvalid argument List.mem_cons_self)
    have hcontents : (size contents).toNat = contents.length := toNat_size (by omega)
    have hargument : (size argument).toNat = argument.length := toNat_size (by omega)
    have hlimit : (maximumArgumentFileBytes - 8).toNat = 64 * 1024 * 1024 - 8 := rfl
    have hroom : (size contents > maximumArgumentFileBytes - 8 ||
        size argument > maximumArgumentFileBytes - 8 - size contents) = false := by
      have hsub : (maximumArgumentFileBytes - 8 - size contents).toNat =
          64 * 1024 * 1024 - 8 - contents.length := by
        rw [toNat_sub_of_le _ _ (le_iff_toNat_le.2 (by omega)), hlimit, hcontents]
      simp only [gt_iff_lt, lt_iff_toNat_lt, hsub, hlimit, hcontents, hargument,
        Bool.or_eq_false_iff, decide_eq_false_iff_not]
      omega
    have happend : appendU64 (size argument) contents ++ argument =
        contents ++ encodedArgument argument := by
      rw [appendU64_eq, hargument, append_assoc]
      rfl
    have hrest := ih (contents ++ encodedArgument argument)
      (fun x hx => hvalid x (List.mem_cons_of_mem _ hx))
      (by rw [length_append, length_encodedArgument]; omega)
    unfold appendArguments
    rw [hcheck, haccepted, ok_bind, hroom, happend, flatMap_cons, ← append_assoc]
    exact hrest

theorem writeArgumentFile_eq (h : Encodable arguments) {output : OutputFile}
    (hopens : output.opens = true) (hwrites : output.writes = true) :
    writeArgumentFile output arguments = .ok (encoding arguments) := by
  have hcount : ¬ arguments.length > maximumArgumentCount.toNat := Nat.not_lt.2 h.count
  have hlength : (ofNat arguments.length).toNat = arguments.length := by
    have := h.count
    rw [toNat_ofNat']
    omega
  have hfits := h.fits
  rw [length_encoding] at hfits
  have hmagic : argumentFileMagic.length = 15 := rfl
  have hcontents := appendArguments_eq
    (argumentFileMagic ++ digits 8 arguments.length) h.valid
    (by rw [length_append, length_digits, hmagic]; omega)
  unfold writeArgumentFile
  rw [if_neg hcount, appendU64_eq, hlength, hcontents, hopens, hwrites]
  rfl

section Read

variable {contents : Bytes} {start : UInt64} {read : List Bytes} {rest : Bytes}

theorem substr_eq {position count : UInt64} {found : Bytes} (hsize : value.length < 2 ^ 63)
    (h : value.drop position.toNat = found ++ rest) (hposition : position.toNat ≤ value.length)
    (hcount : count.toNat = found.length) : substr value position count = .ok found := by
  have hinside : ¬ position > size value := by
    rw [gt_iff_lt, lt_iff_toNat_lt, toNat_size hsize]
    omega
  unfold substr
  rw [if_neg hinside, h, hcount, List.take_left]

variable {remaining : ℕ} {argument : Bytes}

section

variable (hsize : contents.length < 2 ^ 63)

include hsize

section

variable (h : contents.drop start.toNat = encodedArgument argument ++ rest)

include h

theorem argument_inside :
    start.toNat + (8 + argument.length + rest.length) = contents.length ∧
      (start + 8).toNat = start.toNat + 8 ∧ (ofNat argument.length).toNat = argument.length := by
  have hne : encodedArgument argument ++ rest ≠ [] := by
    intro hnil
    have := congrArg length hnil
    rw [length_append, length_encodedArgument, List.length_nil] at this
    omega
  have hend := length_of_drop h hne
  rw [length_append, length_encodedArgument] at hend
  have height : (8 : UInt64).toNat = 8 := rfl
  refine ⟨hend, toNat_add (by omega), ?_⟩
  rw [toNat_ofNat']
  omega

theorem readArguments_step (hvalid : Valid argument) :
    readArguments contents (remaining + 1) start read =
      readArguments contents remaining (start + 8 + ofNat argument.length)
        (read ++ [argument]) := by
  obtain ⟨hend, hstart, hlength⟩ := argument_inside hsize h
  have htake := takeU64_eq
    hsize (h.trans (append_assoc ..)) (length_digits ..)
  rw [value_digits (by omega)] at htake
  have hdrop : contents.drop (start + 8).toNat = argument ++ rest := by
    have happend : encodedArgument argument ++ rest =
        digits 8 argument.length ++ (argument ++ rest) := append_assoc ..
    rw [hstart, ← drop_drop, h, happend]
    exact drop_left' (length_digits ..)
  have hroom : ¬ ofNat argument.length >
      size contents - min (size contents) (start + 8) := by
    rw [gt_iff_lt, lt_iff_toNat_lt, toNat_remaining hsize, hstart, hlength]
    omega
  obtain ⟨accepted, hcheck, hiff⟩ := validValue_eq argument (by omega)
  conv_lhs => unfold readArguments
  rw [htake, ok_bind]
  dsimp only
  rw [if_neg hroom, substr_eq hsize hdrop (by omega) hlength, ok_bind, hcheck,
    hiff.2 hvalid]
  rfl

end

theorem readArguments_cases :
    (∃ text, readArguments contents (remaining + 1) start read = .error (.message text)) ∨
      ∃ argument rest, contents.drop start.toNat = encodedArgument argument ++ rest ∧
        Valid argument := by
  by_cases hshort : contents.length < start.toNat + 8
  · refine Or.inl ⟨"argument file has a truncated value", ?_⟩
    unfold readArguments
    rw [takeU64_short hsize hshort]
    rfl
  have height : (8 : UInt64).toNat = 8 := rfl
  have hstart8 : (start + 8).toNat = start.toNat + 8 := toNat_add (by omega)
  have hbytes : ((contents.drop start.toNat).take 8).length = 8 := by
    rw [length_take, length_drop]
    omega
  have hsplit := List.take_append_drop 8 (contents.drop start.toNat)
  generalize hb : (contents.drop start.toNat).take 8 = bytes at hsplit hbytes
  rw [drop_drop] at hsplit
  have hlt := value_lt bytes
  rw [hbytes] at hlt
  have htake := takeU64_eq hsize hsplit.symm hbytes
  have hlength : (ofNat (LittleEndian.value bytes)).toNat = LittleEndian.value bytes := by
    rw [toNat_ofNat', Nat.mod_eq_of_lt (by omega)]
  by_cases hroom : ofNat (LittleEndian.value bytes) >
      size contents - min (size contents) (start + 8)
  · refine Or.inl ⟨"argument file has a truncated value", ?_⟩
    unfold readArguments
    rw [htake, ok_bind]
    dsimp only
    rw [if_pos hroom]
    rfl
  -- the value as long as the bytes say
  have hfits : LittleEndian.value bytes ≤ (contents.drop (start.toNat + 8)).length := by
    rw [gt_iff_lt, lt_iff_toNat_lt, toNat_remaining hsize, hstart8, hlength] at hroom
    rw [length_drop]
    omega
  have hargument : ((contents.drop (start.toNat + 8)).take (LittleEndian.value bytes)).length =
      LittleEndian.value bytes := by
    rw [length_take]
    omega
  have hrest := List.take_append_drop (LittleEndian.value bytes) (contents.drop (start.toNat + 8))
  generalize (contents.drop (start.toNat + 8)).take (LittleEndian.value bytes) = argument
    at hargument hrest
  generalize (contents.drop (start.toNat + 8)).drop (LittleEndian.value bytes) = rest at hrest
  obtain ⟨accepted, hcheck, hiff⟩ := validValue_eq argument (by
    rw [hargument]
    rw [length_drop] at hfits
    omega)
  cases accepted with
  | true =>
    refine Or.inr ⟨argument, rest, ?_, hiff.1 rfl⟩
    have hdigits := digits_value bytes
    rw [hbytes, ← hargument] at hdigits
    unfold encodedArgument
    rw [hdigits, append_assoc, hrest, hsplit]
  | false =>
    refine Or.inl ⟨"argument file contains malformed UTF-8 or NUL", ?_⟩
    have hdrop : contents.drop (start + 8).toNat = argument ++ rest := by
      rw [hstart8]
      exact hrest.symm
    unfold readArguments
    rw [htake, ok_bind]
    dsimp only
    rw [if_neg hroom, substr_eq hsize hdrop (by omega) (hlength.trans hargument.symm),
      ok_bind, hcheck]
    rfl

theorem drop_argument (h : contents.drop start.toNat = encodedArgument argument ++ rest) :
    (start + 8 + ofNat argument.length).toNat = start.toNat + (8 + argument.length) ∧
      contents.drop (start + 8 + ofNat argument.length).toNat = rest := by
  obtain ⟨hend, hstart, hlength⟩ := argument_inside hsize h
  have hnext : (start + 8 + ofNat argument.length).toNat =
      start.toNat + (8 + argument.length) := by
    rw [toNat_add (by omega), hstart, hlength, Nat.add_assoc]
  refine ⟨hnext, ?_⟩
  rw [hnext, ← drop_drop, h]
  exact drop_left' (length_encodedArgument argument)

theorem readArguments_eq (h : contents.drop start.toNat = arguments.flatMap encodedArgument ++ rest)
    (hvalid : ∀ argument ∈ arguments, Valid argument) :
    ∃ past, readArguments contents arguments.length start read = .ok (read ++ arguments, past) ∧
      past.toNat = start.toNat + (arguments.flatMap encodedArgument).length := by
  induction arguments generalizing start read with
  | nil => exact ⟨start, by rw [append_nil]; rfl, rfl⟩
  | cons argument more ih =>
    rw [flatMap_cons, append_assoc] at h
    obtain ⟨hnext, hdrop⟩ := drop_argument hsize h
    obtain ⟨past, hrun, hpast⟩ := ih hdrop
      fun x hx => hvalid x (List.mem_cons_of_mem _ hx)
    refine ⟨past, ?_, ?_⟩
    · rw [length_cons, readArguments_step hsize h (hvalid argument List.mem_cons_self), hrun,
        append_assoc]
      rfl
    · rw [hpast, hnext, flatMap_cons, length_append, length_encodedArgument,
        Nat.add_assoc]

end

theorem readArguments_all (remaining : ℕ) (hsize : contents.length < 2 ^ 63) :
    (∃ text, readArguments contents remaining start read = .error (.message text)) ∨
      ∃ (arguments : List Bytes) (rest : Bytes), arguments.length = remaining ∧
        contents.drop start.toNat = arguments.flatMap encodedArgument ++ rest ∧
        ∀ argument ∈ arguments, Valid argument := by
  induction remaining generalizing start read with
  | zero =>
    exact Or.inr ⟨[], _, rfl, (List.nil_append _).symm, fun _ h => absurd h List.not_mem_nil⟩
  | succ remaining ih =>
    rcases readArguments_cases hsize with
      hstop | ⟨argument, rest, hhere, hvalid⟩
    · exact Or.inl hstop
    · obtain ⟨-, hdrop⟩ := drop_argument hsize hhere
      rw [readArguments_step hsize hhere hvalid]
      rcases ih
        with hstop | ⟨arguments, more, hlength, hmore, hall⟩
      · exact Or.inl hstop
      · refine Or.inr ⟨argument :: arguments, more, ?_, ?_, List.forall_mem_cons.2 ⟨hvalid, hall⟩⟩
        · rw [length_cons, hlength]
        · rw [hhere, flatMap_cons, append_assoc, ← hmore, hdrop]

theorem magic_toNat : (size argumentFileMagic).toNat = 15 := rfl

theorem parse_of_count (hsize : contents.length < 2 ^ 63)
    (h : contents = argumentFileMagic ++ (digits 8 arguments.length ++
      (arguments.flatMap encodedArgument ++ rest))) (hcount : arguments.length ≤ 2 ^ 20)
    (hvalid : ∀ argument ∈ arguments, Valid argument) :
    parseArgumentFile contents =
      if rest = [] then .ok arguments
      else .error (.message "argument file contains trailing bytes") := by
  have hmagic : argumentFileMagic.length = 15 := rfl
  have hlengths := congrArg length h
  simp only [length_append, length_digits, hmagic] at hlengths
  have hstarts : argumentFileMagic.isPrefixOf contents = true :=
    List.isPrefixOf_iff_prefix.2 ⟨_, h.symm⟩
  have hdrop : contents.drop (size argumentFileMagic).toNat =
      digits 8 arguments.length ++
        (arguments.flatMap encodedArgument ++ rest) := by
    rw [h]
    exact drop_left' hmagic
  have htake := takeU64_eq hsize hdrop (length_digits ..)
  rw [value_digits (by omega)] at htake
  have hcountNat : (ofNat arguments.length).toNat = arguments.length := by
    rw [toNat_ofNat']
    omega
  have hmaximum : maximumArgumentCount.toNat = 2 ^ 20 := rfl
  have hsmall : ¬ ofNat arguments.length > maximumArgumentCount := by
    rw [gt_iff_lt, lt_iff_toNat_lt, hcountNat, hmaximum]
    exact Nat.not_lt.2 hcount
  have hstart : (size argumentFileMagic + 8).toNat = 15 + 8 := rfl
  have hvalues : contents.drop (size argumentFileMagic + 8).toNat =
      arguments.flatMap encodedArgument ++ rest := by
    rw [hstart, ← drop_drop, h, drop_left' hmagic]
    exact drop_left' (length_digits ..)
  obtain ⟨past, hread, hpast⟩ := readArguments_eq hsize hvalues hvalid
  have hend : past ≠ size contents ↔ rest ≠ [] := by
    have hnil := List.length_eq_zero_iff (l := rest)
    rw [Ne, Ne, ← UInt64.toNat_inj, hpast, hstart, toNat_size hsize, ← hnil]
    omega
  unfold parseArgumentFile
  rw [hstarts, htake, ok_bind]
  dsimp only
  rw [if_neg hsmall, hcountNat, hread]
  simp only [ok_bind, hend]
  by_cases hrest : rest = []
  · rw [if_pos hrest, if_neg (not_not.2 hrest)]
    rfl
  · rw [if_neg hrest, if_pos hrest]
    rfl

/-- The parser stops with a message, or a count with its values is there. -/
theorem parse_cases (hsize : contents.length < 2 ^ 63) :
    (∃ text, parseArgumentFile contents = .error (.message text)) ∨
      ∃ (arguments : List Bytes) (rest : Bytes),
        contents = argumentFileMagic ++ (digits 8 arguments.length ++
          (arguments.flatMap encodedArgument ++ rest)) ∧
        arguments.length ≤ 2 ^ 20 ∧ ∀ argument ∈ arguments, Valid argument := by
  by_cases hstarts : argumentFileMagic.isPrefixOf contents = true
  swap
  · refine Or.inl ⟨"argument file has an invalid v1 signature", ?_⟩
    unfold parseArgumentFile
    rw [Bool.not_eq_true] at hstarts
    rw [hstarts]
    rfl
  obtain ⟨tail, rfl⟩ := List.isPrefixOf_iff_prefix.1 hstarts
  have hmagic : argumentFileMagic.length = 15 := rfl
  have hlengths : (argumentFileMagic ++ tail).length = 15 + tail.length := by
    rw [length_append, hmagic]
  have hdrop : (argumentFileMagic ++ tail).drop (size argumentFileMagic).toNat = tail :=
    drop_left' hmagic
  by_cases hshort : tail.length < 8
  · refine Or.inl ⟨"argument file has an invalid count", ?_⟩
    have hnone := takeU64_short
      hsize (by rw [magic_toNat]; omega)
    unfold parseArgumentFile
    rw [hstarts, hnone]
    rfl
  -- the eight bytes of the count
  have hbytes : (tail.take 8).length = 8 := by
    rw [length_take]
    omega
  have hsplit := List.take_append_drop 8 tail
  generalize tail.take 8 = bytes at hbytes hsplit
  generalize htail : tail.drop 8 = more at hsplit
  have hlt := value_lt bytes
  rw [hbytes] at hlt
  have htake := takeU64_eq hsize (hdrop.trans hsplit.symm) hbytes
  have hcountNat : (ofNat (LittleEndian.value bytes)).toNat = LittleEndian.value bytes := by
    rw [toNat_ofNat', Nat.mod_eq_of_lt (by omega)]
  have hmaximum : maximumArgumentCount.toNat = 2 ^ 20 := rfl
  by_cases hlarge : ofNat (LittleEndian.value bytes) > maximumArgumentCount
  · refine Or.inl ⟨"argument file has an invalid count", ?_⟩
    unfold parseArgumentFile
    rw [hstarts, htake, ok_bind]
    dsimp only
    rw [if_pos hlarge]
    rfl
  have hcount : LittleEndian.value bytes ≤ 2 ^ 20 := by
    rw [gt_iff_lt, lt_iff_toNat_lt, hcountNat, hmaximum] at hlarge
    exact Nat.not_lt.1 hlarge
  have hstart : (size argumentFileMagic + 8).toNat = 15 + 8 := rfl
  have hvalues : (argumentFileMagic ++ tail).drop (size argumentFileMagic + 8).toNat = more := by
    rw [hstart, ← drop_drop, drop_left' hmagic, htail]
  rcases readArguments_all
    (LittleEndian.value bytes) hsize with ⟨text, hstop⟩ | ⟨arguments, rest, hlength, hmore, hall⟩
  · refine Or.inl ⟨text, ?_⟩
    unfold parseArgumentFile
    rw [hstarts, htake, ok_bind]
    dsimp only
    rw [if_neg hlarge, hcountNat, hstop]
    rfl
  · refine Or.inr ⟨arguments, rest, ?_, by omega, hall⟩
    have hdigits := digits_value bytes
    rw [hbytes, ← hlength] at hdigits
    rw [hdigits, ← hmore, hvalues, hsplit]

end Read

/-- The file system answers with the bytes of the file, unchanged while it is read. -/
structure InputFile.Faithful (input : InputFile) (bytes : Bytes) : Prop where
  contents : input.contents = bytes
  opens : input.opens = true
  reads : input.readFails = false
  snapshot : ∃ snapshot, input.before = .ok snapshot ∧ input.after = .ok snapshot ∧
    snapshot.fileExists = true ∧ snapshot.regularFile = true ∧
    snapshot.identity.kind ≠ .unavailable ∧ snapshot.sizeBytes.toNat = bytes.length

variable {input : InputFile} {contents : Bytes}

/-- On a faithful file system the reader is the parser behind the limit on the size. -/
theorem readArgumentFile_eq (h : input.Faithful contents) :
    readArgumentFile input =
      if contents.length ≤ 64 * 1024 * 1024 then parseArgumentFile contents
      else .error (.message "argument-file payload exceeds the v1 byte limit") := by
  obtain ⟨snapshot, hbefore, hafter, hexists, hregular, hidentity, hsize⟩ := h.snapshot
  have hlarge : snapshot.sizeBytes > maximumArgumentFileBytes ↔
      ¬ contents.length ≤ 64 * 1024 * 1024 := by
    rw [gt_iff_lt, lt_iff_toNat_lt, hsize, maximum_toNat, Nat.not_le]
  unfold readArgumentFile
  simp only [hbefore, hafter, captureFileSnapshot, Except.mapError, ok_bind, hexists,
    hregular, hidentity, hlarge, h.opens, h.reads, h.contents]
  by_cases hsmall : contents.length ≤ 64 * 1024 * 1024
  · simp [hsmall]
  · simp [hsmall]
    rfl

theorem parse_encoding (h : Encodable arguments) :
    parseArgumentFile (encoding arguments) = .ok arguments := by
  have hfits := h.fits
  have hsplit : encoding arguments = argumentFileMagic ++
      (digits 8 arguments.length ++ (arguments.flatMap encodedArgument ++ [])) := by
    unfold encoding
    rw [append_nil, append_assoc]
  rw [parse_of_count (by omega) hsplit h.count h.valid, if_pos rfl]

theorem read_cases (h : input.Faithful contents) :
    (∃ arguments, Encodable arguments ∧ contents = encoding arguments ∧
      readArgumentFile input = .ok arguments) ∨
    ∃ text, readArgumentFile input = .error (.message text) := by
  rw [readArgumentFile_eq h]
  by_cases hsmall : contents.length ≤ 64 * 1024 * 1024
  swap
  · rw [if_neg hsmall]
    exact Or.inr ⟨_, rfl⟩
  rw [if_pos hsmall]
  have hsize : contents.length < 2 ^ 63 := by omega
  rcases parse_cases hsize with hstop | ⟨arguments, rest, hsplit, hcount, hvalid⟩
  · exact Or.inr hstop
  · rw [parse_of_count hsize hsplit hcount hvalid]
    by_cases hrest : rest = []
    · have hencoding : contents = encoding arguments := by
        rw [hsplit, hrest, append_nil, ← append_assoc]
        rfl
      rw [if_pos hrest]
      exact Or.inl ⟨arguments, ⟨hcount, hvalid, hencoding ▸ hsmall⟩, hencoding, rfl⟩
    · rw [if_neg hrest]
      exact Or.inr ⟨_, rfl⟩

/-- **The codec is exact.** A list that a file can hold is written and read back; what the reader
accepts is the file of the list that it returns, which a file can hold; and on every other file it
reports a message: it never leaves the string and never runs on. -/
theorem argument_file_exact :
    (∀ arguments output input, Encodable arguments → output.opens = true → output.writes = true →
      ∃ contents, writeArgumentFile output arguments = .ok contents ∧
        (input.Faithful contents → readArgumentFile input = .ok arguments)) ∧
    (∀ input contents arguments, input.Faithful contents →
      readArgumentFile input = .ok arguments →
        Encodable arguments ∧ ∀ output, output.opens = true → output.writes = true →
          writeArgumentFile output arguments = .ok contents) ∧
    ∀ input contents, input.Faithful contents →
      (∃ arguments, Encodable arguments ∧ contents = encoding arguments) ∨
      ∃ text, readArgumentFile input = .error (.message text) := by
  refine ⟨fun arguments output input h hopens hwrites => ?_,
    fun input contents arguments h hread => ?_, fun input contents h => ?_⟩
  · refine ⟨encoding arguments, writeArgumentFile_eq h hopens hwrites, fun hfaithful => ?_⟩
    rw [readArgumentFile_eq hfaithful, if_pos h.fits, parse_encoding h]
  · rcases read_cases h with ⟨read, hencodable, rfl, hok⟩ | ⟨text, hstop⟩
    · rw [hread] at hok
      cases hok
      exact ⟨hencodable, fun output hopens hwrites => writeArgumentFile_eq hencodable hopens hwrites⟩
    · rw [hread] at hstop
      cases hstop
  · rcases read_cases h with ⟨arguments, hencodable, hencoding, -⟩ | hstop
    · exact Or.inl ⟨arguments, hencodable, hencoding⟩
    · exact Or.inr hstop

/-- A regular file that holds these bytes. -/
def storedFile (contents : Bytes) : InputFile where
  before := .ok (snapshot contents)
  opens := true
  contents := contents
  readFails := false
  after := .ok (snapshot contents)
where
  snapshot (contents : Bytes) : FileSnapshot :=
    { normalizedPath := [47, 97]
      fileExists := true
      regularFile := true
      sizeBytes := ofNat contents.length
      lastWriteTimeTicks := 1
      identity := { kind := .posixDeviceInode, words := (1, 2) }
      pathIdentityChain := [] }

/-- An ASCII argument and one with a character of two bytes. -/
def twoArguments : List Bytes := [[97], [0xc3, 0xa9]]

theorem twoArguments_encodable : Encodable twoArguments := by
  refine ⟨by decide, fun argument hmem => ?_, by decide⟩
  simp only [twoArguments, List.mem_cons, List.not_mem_nil, or_false] at hmem
  rcases hmem with rfl | rfl
  · exact ⟨by decide, ['a'], by decide⟩
  · exact ⟨by decide, ['é'], by decide⟩

theorem argument_file_exact_twoArguments :
    readArgumentFile (storedFile (encoding twoArguments)) = .ok twoArguments := by
  have hfaithful : (storedFile (encoding twoArguments)).Faithful (encoding twoArguments) :=
    ⟨rfl, rfl, rfl, _, rfl, rfl, rfl, rfl, by decide, by decide⟩
  obtain ⟨contents, hwrite, hread⟩ := argument_file_exact.1 twoArguments ⟨true, true⟩
    (storedFile (encoding twoArguments)) twoArguments_encodable rfl rfl
  rw [writeArgumentFile_eq twoArguments_encodable rfl rfl] at hwrite
  obtain rfl := ok.inj hwrite
  exact hread hfaithful

end Matcore.Support
