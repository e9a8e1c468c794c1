import Matcore.Codegen.Host
import Matcore.Lib.Splice

/-!
# The rewritten host keeps its text and its lines

Each call of a verified module is two edits of the source: what stands before its first argument
gives way to the name of the site with as many newlines, and after its last argument the default
policy is put in when it is missing. The loop of `generate` makes these edits.
-/

namespace Matcore.Codegen

open List (replicate mem_cons not_mem_nil mem_append mem_cons_self nil_append append_assoc
  mem_flatMap)
open Except (bind_eq_ok ok_bind then_eq_ok)
open Ir (Text Operation SourceRange)
open Splice

/-- The interval holds text that must stay: it lies outside the calls (a single byte `p` is the
interval from `p` to `p + 1`), or it is an argument of a call. -/
def Kept (operations : List Operation) (first past : ℕ) : Prop :=
  (∀ operation ∈ operations,
    past ≤ operation.callRange.first.toNat ∨ operation.callRange.past.toNat ≤ first) ∨
  ∃ operation ∈ operations, ∃ range ∈ operation.argumentRanges,
    first = range.first.toNat ∧ past = range.past.toNat

/-- Every kept interval of `source` stands at its place in `text`. -/
structure Preserves (source text : Text) (operations : List Operation) (place : ℕ → ℕ) : Prop where
  same : ∀ {first past}, first < past → past ≤ source.length → Kept operations first past →
    slice text (place first) (place first + (past - first)) = slice source first past
  sameLine : ∀ {first past}, first < past → past ≤ source.length → Kept operations first past →
    newlines (text.take (place first)) = newlines (source.take first)
  inOrder : ∀ {first past next last}, first < past → past ≤ next → next < last →
    last ≤ source.length → Kept operations first past → Kept operations next last →
    place first + (past - first) ≤ place next

variable {source : Text} {operation : Operation} {operations : List Operation}

@[simp] theorem newlines_append (a b : Text) : newlines (a ++ b) = newlines a + newlines b :=
  List.count_append

@[simp] theorem newlines_replicate (n : ℕ) : newlines (replicate n newline) = n :=
  List.count_replicate_self

variable {c : Char}

theorem newline_notMem (h : c ≠ '\n') : newline ∉ String.utf8EncodeChar c := by
  have byte : ∀ v, newline = UInt8.ofNat v → v % 256 = 10 := by
    intro v hv
    have := congrArg UInt8.toNat hv
    rwa [UInt8.toNat_ofNat', eq_comm] at this
  have hc : c.val.toNat ≠ 10 := fun hval => h (Char.toNat_inj.1 hval)
  unfold String.utf8EncodeChar
  intro hmem
  dsimp only at hmem
  split at hmem
  · have := byte _ (List.mem_singleton.1 hmem)
    omega
  · split at hmem
    · simp only [mem_cons, not_mem_nil, or_false] at hmem
      rcases hmem with hmem | hmem <;> have := byte _ hmem <;> omega
    · split at hmem
      · simp only [mem_cons, not_mem_nil, or_false] at hmem
        rcases hmem with hmem | hmem | hmem <;> have := byte _ hmem <;> omega
      · simp only [mem_cons, not_mem_nil, or_false] at hmem
        rcases hmem with hmem | hmem | hmem | hmem <;> have := byte _ hmem <;> omega

theorem newlines_bytes {text : String} (h : '\n' ∉ text.toList) : newlines (bytes text) = 0 := by
  refine List.count_eq_zero.2 fun hmem => ?_
  obtain ⟨c, hc, hbyte⟩ := mem_flatMap.1 hmem
  have hne : c ≠ '\n' := fun heq => h (heq ▸ hc)
  exact newline_notMem hne hbyte

theorem isHexDigit_alphanum (h : Ir.isHexDigit c = true) : c.isAlphanum = true := by
  simp only [Ir.isHexDigit, Bool.or_eq_true, Bool.and_eq_true, decide_eq_true_eq, Char.le_def,
    UInt32.le_iff_toNat_le] at h
  simp only [Char.isAlphanum, Char.isAlpha, Char.isUpper, Char.isLower, Char.isDigit,
    Bool.or_eq_true, Bool.and_eq_true, decide_eq_true_eq, ge_iff_le, UInt32.le_iff_toNat_le]
  have hf : 'f'.val.toNat = 102 := rfl
  have hz : 'z'.val.toNat = 122 := rfl
  omega

variable {siteId : String}

theorem validSiteId_chars (h : Ir.validSiteId siteId = true) :
    ∃ rest, siteId.toList = 'm' :: rest ∧ ∀ c ∈ rest, c.isAlphanum = true ∨ c = '_' := by
  simp only [Ir.validSiteId, Bool.and_eq_true, decide_eq_true_eq, List.isPrefixOf_iff_prefix,
    List.all_eq_true] at h
  obtain ⟨⟨-, digits, hdigits⟩, hhex⟩ := h
  have htext : siteId.toList = 'm' :: 'c' :: '_' :: digits := hdigits.symm
  refine ⟨'c' :: '_' :: digits, htext, fun c hc => ?_⟩
  rw [htext] at hhex
  rcases mem_cons.1 hc with rfl | hc
  · exact Or.inl rfl
  · rcases mem_cons.1 hc with rfl | hc
    · exact Or.inr rfl
    · exact Or.inl (isHexDigit_alphanum (hhex c hc))

theorem validSiteId_identifier (h : Ir.validSiteId siteId = true) :
    validIdentifier siteId = true := by
  obtain ⟨rest, htext, hrest⟩ := validSiteId_chars h
  unfold validIdentifier
  rw [htext]
  simp only [Bool.and_eq_true, Bool.or_eq_true, List.all_eq_true, decide_eq_true_eq]
  exact ⟨Or.inl rfl, hrest⟩

theorem newline_notMem_siteFunction (h : Ir.validSiteId operation.siteId = true) :
    '\n' ∉ ("::" ++ siteFunction operation ++ "(").toList := by
  obtain ⟨rest, htext, hrest⟩ := validSiteId_chars h
  have hid : '\n' ∉ operation.siteId.toList := by
    rw [htext]
    intro hmem
    rcases mem_cons.1 hmem with heq | hmem
    · exact absurd heq (by decide)
    · exact absurd (hrest _ hmem) (by decide)
  have hcolons : '\n' ∉ "::".toList := by decide
  have hname : '\n' ∉ "__matcore_call_site_".toList := by decide
  have hparenthesis : '\n' ∉ "(".toList := by decide
  unfold siteFunction
  simp only [String.toList_append, mem_append, not_or]
  exact ⟨⟨hcolons, hname, hid⟩, hparenthesis⟩

variable {siteIds : List String} {sourceFile : String} {start : UInt64}

theorem verifySiteIds_ok (h : Ir.verifyOperations sourceFile siteIds start operations = .ok ()) :
    verifySiteIds siteIds (operations.map (·.siteId)) = .ok () := by
  induction operations generalizing siteIds start with
  | nil => rfl
  | cons operation rest ih =>
    obtain ⟨⟨⟩, hid, h⟩ := bind_eq_ok h
    have hrest := then_eq_ok (then_eq_ok (then_eq_ok h))
    simp only [Ir.failIf_eq_ok, Bool.or_eq_false_iff, Bool.not_eq_eq_eq_not, Bool.not_false] at hid
    obtain ⟨hvalid, hnew⟩ := hid
    rw [List.map_cons]
    unfold verifySiteIds
    rw [validSiteId_identifier hvalid, hvalid, hnew]
    exact ih hrest

/-- The ranges follow one another from `start` on and end inside the call. -/
def InCall (past : ℕ) : ℕ → List SourceRange → Prop
  | _, [] => True
  | start, range :: rest =>
    start ≤ range.first.toNat ∧ range.first.toNat < range.past.toNat ∧ range.past.toNat ≤ past ∧
      InCall past range.past.toNat rest

/-- What the rewriting of one operation relies on. -/
structure Placed (operation : Operation) : Prop where
  siteId : Ir.validSiteId operation.siteId = true
  call : operation.callRange.first.toNat < operation.callRange.past.toNat
  some : operation.argumentRanges ≠ []
  arguments : InCall operation.callRange.past.toNat operation.callRange.first.toNat
    operation.argumentRanges

/-- The operations follow one another from `start` on, inside a source of `size` bytes. -/
def WellPlaced (size : ℕ) : ℕ → List Operation → Prop
  | start, [] => start ≤ size
  | start, operation :: rest =>
    start ≤ operation.callRange.first.toNat ∧ Placed operation ∧
      WellPlaced size operation.callRange.past.toNat rest

theorem verifyArgumentRanges_inCall {call : SourceRange} {ranges : List SourceRange}
    (h : Ir.verifyArgumentRanges call start ranges = .ok ()) :
    InCall call.past.toNat start.toNat ranges := by
  induction ranges generalizing start with
  | nil => trivial
  | cons range rest ih =>
    obtain ⟨⟨⟩, hrange, hrest⟩ := bind_eq_ok h
    simp only [Ir.failIf_eq_ok, Bool.or_eq_false_iff, decide_eq_false_iff_not,
      UInt64.le_iff_toNat_le, UInt64.lt_iff_toNat_lt, gt_iff_lt, Nat.not_lt, Nat.not_le] at hrange
    exact ⟨hrange.1.1, hrange.1.2, hrange.2, ih hrest⟩

theorem verifyOperations_wellPlaced
    (h : Ir.verifyOperations sourceFile siteIds start operations = .ok ())
    (hstart : start.toNat ≤ source.length)
    (hbound : ∀ operation ∈ operations, operation.callRange.past.toNat ≤ source.length) :
    WellPlaced source.length start.toNat operations := by
  induction operations generalizing siteIds start with
  | nil => exact hstart
  | cons operation rest ih =>
    obtain ⟨⟨⟩, hid, h⟩ := bind_eq_ok h
    replace h := then_eq_ok h
    obtain ⟨⟨⟩, hcontract, h⟩ := bind_eq_ok h
    have hrest := then_eq_ok h
    replace hcontract := then_eq_ok hcontract
    obtain ⟨⟨⟩, hcall, hcontract⟩ := bind_eq_ok hcontract
    obtain ⟨⟨⟩, horder, hcontract⟩ := bind_eq_ok hcontract
    obtain ⟨⟨⟩, hlength, harguments⟩ := bind_eq_ok hcontract
    simp only [Ir.failIf_eq_ok, Bool.or_eq_false_iff, Bool.and_eq_false_iff,
      decide_eq_false_iff_not, Bool.not_eq_eq_eq_not, Bool.not_false,
      UInt64.le_iff_toNat_le, UInt64.lt_iff_toNat_lt, Nat.not_lt, Nat.not_le] at hid hcall horder hlength
    have hplaced : Placed operation := by
      refine ⟨hid.1, hcall.2, ?_, verifyArgumentRanges_inCall harguments⟩
      intro hnil
      rw [hnil] at hlength
      revert hlength
      decide
    exact ⟨horder, hplaced, ih hrest (hbound operation (mem_cons_self ..))
      fun y hy => hbound y (List.mem_cons_of_mem _ hy)⟩

def siteName (operation : Operation) : Text := bytes ("::" ++ siteFunction operation ++ "(")

def defaultPolicy (operation : Operation) : Text :=
  if operation.argumentRanges.length = 3 then bytes ", ::matcore::mdsl::policy\x7b\x7d" else []

def argumentsFirst (operation : Operation) : ℕ := (operation.argumentRanges.headD {}).first.toNat

def argumentsPast (operation : Operation) : ℕ := (operation.argumentRanges.getLastD {}).past.toNat

/-- What stands before the arguments is replaced, and a missing policy is put in after them. -/
def callEdits (source : Text) (operation : Operation) : List (Edit UInt8) :=
  let first := operation.callRange.first.toNat
  [{ first := first, past := argumentsFirst operation
     text := siteName operation ++
      replicate (newlines (slice source first (argumentsFirst operation))) newline },
   { first := argumentsPast operation, past := argumentsPast operation
     text := defaultPolicy operation }]

def hostEdits (source : Text) (operations : List Operation) : List (Edit UInt8) :=
  operations.flatMap (callEdits source)

variable {first past : UInt64}

theorem toNat_sub (h : first.toNat ≤ past.toNat) :
    (past - first).toNat = past.toNat - first.toNat :=
  UInt64.toNat_sub_of_le _ _ (UInt64.le_iff_toNat_le.2 h)

theorem substr_eq (h : first.toNat ≤ past.toNat) :
    substr source first (past - first) = slice source first.toNat past.toNat := by
  unfold substr slice
  rw [toNat_sub h]

theorem replace_eq {text new : Text} (h : first.toNat ≤ past.toNat) :
    Codegen.replace text first (past - first) new =
      Splice.replace text first.toNat past.toNat new := by
  have hpast : first.toNat + (past.toNat - first.toNat) = past.toNat := by omega
  unfold Codegen.replace Splice.replace
  rw [toNat_sub h, hpast]

section Ranges

variable {past start : ℕ} {ranges : List SourceRange}

theorem InCall.between (h : InCall past start ranges) {range : SourceRange}
    (hmem : range ∈ ranges) :
    start ≤ (ranges.headD {}).first.toNat ∧
      (ranges.headD {}).first.toNat ≤ range.first.toNat ∧ range.first.toNat < range.past.toNat ∧
      range.past.toNat ≤ (ranges.getLastD {}).past.toNat ∧
      (ranges.getLastD {}).past.toNat ≤ past := by
  induction ranges generalizing start range with
  | nil => exact absurd hmem not_mem_nil
  | cons head rest ih =>
    obtain ⟨h1, h2, h3, h4⟩ := h
    cases rest with
    | nil =>
      obtain rfl := List.mem_singleton.1 hmem
      exact ⟨h1, Nat.le_refl _, h2, Nat.le_refl _, h3⟩
    | cons next rest =>
      obtain ⟨n1, n2, n3, n4, n5⟩ := ih h4 (mem_cons_self ..)
      rcases mem_cons.1 hmem with rfl | hmem
      · refine ⟨h1, Nat.le_refl _, h2, ?_, n5⟩
        exact Nat.le_trans n1 (Nat.le_trans n2 (Nat.le_trans (Nat.le_of_lt n3) n4))
      · obtain ⟨m1, m2, m3, m4, m5⟩ := ih h4 hmem
        refine ⟨h1, ?_, m3, m4, m5⟩
        exact Nat.le_trans (Nat.le_of_lt h2) (Nat.le_trans m1 m2)

theorem argumentTexts_eq (h : InCall past start ranges) (hsome : ranges ≠ []) :
    argumentTexts source ranges =
      slice source (ranges.headD {}).first.toNat (ranges.getLastD {}).past.toNat := by
  induction ranges generalizing start with
  | nil => exact absurd rfl hsome
  | cons range rest ih =>
    obtain ⟨-, h2, -, h4⟩ := h
    cases rest with
    | nil => exact substr_eq (Nat.le_of_lt h2)
    | cons next rest =>
      have hrest := ih h4 (List.cons_ne_nil _ _)
      obtain ⟨n1, n2, n3, n4, -⟩ := h4.between (mem_cons_self ..)
      have hnext : range.past.toNat ≤ next.first.toNat := n1
      unfold argumentTexts
      rw [hrest, substr_eq (Nat.le_of_lt h2), substr_eq hnext,
        slice_append (Nat.le_of_lt h2) hnext]
      refine slice_append (Nat.le_trans (Nat.le_of_lt h2) hnext) ?_
      exact Nat.le_trans n2 (Nat.le_trans (Nat.le_of_lt n3) n4)

end Ranges

theorem Placed.span (h : Placed operation) :
    operation.callRange.first.toNat ≤ argumentsFirst operation ∧
      argumentsFirst operation ≤ argumentsPast operation ∧
      argumentsPast operation ≤ operation.callRange.past.toNat := by
  obtain ⟨range, hmem⟩ := List.exists_mem_of_ne_nil _ h.some
  obtain ⟨h1, h2, h3, h4, h5⟩ := h.arguments.between hmem
  exact ⟨h1, Nat.le_trans h2 (Nat.le_trans (Nat.le_of_lt h3) h4), h5⟩

theorem replacement_eq (h : Placed operation) :
    replacement source operation =
      siteName operation ++
        replicate (newlines (slice source operation.callRange.first.toNat
          (argumentsFirst operation))) newline ++
        slice source (argumentsFirst operation) (argumentsPast operation) ++
        defaultPolicy operation ++
        slice source (argumentsPast operation) operation.callRange.past.toNat := by
  obtain ⟨h1, -, h3⟩ := h.span
  unfold replacement
  dsimp only
  rw [argumentTexts_eq h.arguments h.some, substr_eq h1, substr_eq h3]
  rfl

@[simp] theorem newlines_siteName (h : Placed operation) : newlines (siteName operation) = 0 :=
  newlines_bytes (newline_notMem_siteFunction h.siteId)

@[simp] theorem newlines_defaultPolicy : newlines (defaultPolicy operation) = 0 := by
  unfold defaultPolicy
  split
  · exact newlines_bytes (by decide)
  · rfl

/-- The replacement has the lines of the call, so nothing is padded and nothing is refused. -/
theorem newlines_replacement (h : Placed operation) :
    newlines (replacement source operation) =
      newlines (slice source operation.callRange.first.toNat operation.callRange.past.toNat) := by
  obtain ⟨h1, h2, h3⟩ := h.span
  rw [← slice_append h1 (Nat.le_trans h2 h3), ← slice_append h2 h3, replacement_eq h]
  simp only [newlines_append, newlines_replicate, newlines_siteName h, newlines_defaultPolicy]
  omega

theorem rewriteCall_eq (h : Placed operation) (rewritten : Text) :
    rewriteCall source rewritten operation =
      .ok (Splice.replace rewritten operation.callRange.first.toNat
        operation.callRange.past.toNat (replacement source operation)) := by
  have hcall := Nat.le_of_lt h.call
  unfold rewriteCall
  simp only [substr_eq hcall, newlines_replacement h, gt_iff_lt, Nat.lt_irrefl, if_false,
    Nat.sub_self, List.replicate_zero, List.append_nil, replace_eq hcall]

theorem hostEdits_cons (operation : Operation) (rest : List Operation) :
    hostEdits source (operation :: rest) = callEdits source operation ++ hostEdits source rest :=
  List.flatMap_cons

theorem Placed.edit (h : Placed operation) {x : Edit UInt8} (hx : x ∈ callEdits source operation) :
    operation.callRange.first.toNat ≤ x.first ∧ x.past ≤ operation.callRange.past.toNat := by
  obtain ⟨h1, h2, h3⟩ := h.span
  simp only [callEdits, mem_cons, not_mem_nil, or_false] at hx
  rcases hx with rfl | rfl
  · exact ⟨Nat.le_refl _, Nat.le_trans h2 h3⟩
  · exact ⟨Nat.le_trans h1 h2, h3⟩

variable {start : ℕ}

theorem sorted_of_le {bound mid : ℕ} {edits : List (Edit UInt8)} (h : start ≤ mid)
    (hs : Sorted bound mid edits) : Sorted bound start edits := by
  cases edits with
  | nil => exact Nat.le_trans h hs
  | cons x rest => exact ⟨Nat.le_trans h hs.1, hs.2⟩

theorem sorted_hostEdits (h : WellPlaced source.length start operations) :
    Sorted source.length start (hostEdits source operations) := by
  induction operations generalizing start with
  | nil => exact h
  | cons operation rest ih =>
    obtain ⟨h1, h2, h3⟩ := h
    obtain ⟨s1, s2, s3⟩ := h2.span
    exact ⟨h1, s1, s2, Nat.le_refl _, sorted_of_le s3 (ih h3)⟩

/-- **The loop** makes the edits of all calls, and never fails. -/
theorem rewriteCalls_eq (h : WellPlaced source.length start operations) :
    rewriteCalls source operations =
      .ok (source.take start ++ splice source start (hostEdits source operations)) := by
  induction operations generalizing start with
  | nil => exact congrArg Except.ok (List.take_append_drop start source).symm
  | cons operation rest ih =>
    obtain ⟨h1, h2, h3⟩ := h
    obtain ⟨s1, s2, s3⟩ := h2.span
    have hrest := sorted_hostEdits h3
    -- the calls behind this one are rewritten first
    have hstep : rewriteCalls source (operation :: rest) =
        rewriteCalls source rest >>= fun rewritten => rewriteCall source rewritten operation := by
      unfold rewriteCalls
      simp only [List.reverse_cons, List.foldlM_append, List.foldlM_cons, List.foldlM_nil,
        bind_pure]
    -- the edit of the whole call, and the two edits it consists of
    let whole : Edit UInt8 :=
      { first := operation.callRange.first.toNat, past := operation.callRange.past.toNat
        text := replacement source operation }
    have hcall : splice source operation.callRange.first.toNat (whole :: hostEdits source rest) =
        splice source operation.callRange.first.toNat
          (hostEdits source (operation :: rest)) := by
      have hbehind : splice source (argumentsPast operation) (hostEdits source rest) = _ :=
        splice_advance s3 hrest
      rw [hostEdits_cons]
      simp only [whole, callEdits, List.cons_append, nil_append, splice, slice_self, hbehind,
        replacement_eq h2, append_assoc]
    have hsorted : Sorted source.length operation.callRange.first.toNat
        (hostEdits source (operation :: rest)) :=
      ⟨Nat.le_refl _, s1, s2, Nat.le_refl _, sorted_of_le s3 hrest⟩
    have hreplace := replace_splice (hostEdits source rest) whole (Nat.le_of_lt h2.call)
      hrest.le_bound
    rw [hstep, ih h3, ok_bind, rewriteCall_eq h2, splice_advance h1 hsorted,
      ← append_assoc, take_append_slice h1, ← hcall, ← hreplace]

section

variable (h : WellPlaced source.length start operations)

include h

theorem WellPlaced.calls_after (hmem : operation ∈ operations) :
    Placed operation ∧ start ≤ operation.callRange.first.toNat := by
  induction operations generalizing start with
  | nil => exact absurd hmem not_mem_nil
  | cons head rest ih =>
    obtain ⟨h1, h2, h3⟩ := h
    rcases mem_cons.1 hmem with rfl | hmem
    · exact ⟨h2, h1⟩
    · obtain ⟨hplaced, hafter⟩ := ih h3 hmem
      have := h2.call
      exact ⟨hplaced, by omega⟩

theorem balanced_hostEdits :
    ∀ x ∈ hostEdits source operations,
      x.text.count newline = (slice source x.first x.past).count newline := by
  intro x hx
  obtain ⟨operation, hmem, hx⟩ := mem_flatMap.1 hx
  simp only [callEdits, mem_cons, not_mem_nil, or_false] at hx
  rcases hx with rfl | rfl
  · have hname := newlines_siteName (h.calls_after hmem).1
    refine (newlines_append _ _).trans ?_
    rw [hname, newlines_replicate, Nat.zero_add]
    rfl
  · rw [slice_self]
    exact newlines_defaultPolicy

/-- What lies outside every call is untouched. -/
theorem untouched_outside {first past : ℕ} (hout : ∀ operation ∈ operations,
      past ≤ operation.callRange.first.toNat ∨ operation.callRange.past.toNat ≤ first) :
    Untouched (hostEdits source operations) first past := by
  intro x hx
  obtain ⟨operation, hmem, hx⟩ := mem_flatMap.1 hx
  obtain ⟨e1, e2⟩ := (h.calls_after hmem).1.edit hx
  rcases hout operation hmem with hbefore | hbehind
  · exact Or.inr (Nat.le_trans hbefore e1)
  · exact Or.inl (Nat.le_trans e2 hbehind)

theorem WellPlaced.edits_after : ∀ x ∈ hostEdits source operations, start ≤ x.first := by
  intro x hx
  obtain ⟨operation, hmem, hx⟩ := mem_flatMap.1 hx
  obtain ⟨hplaced, hafter⟩ := h.calls_after hmem
  exact Nat.le_trans hafter (hplaced.edit hx).1

theorem untouched_argument (hmem : operation ∈ operations) {range : SourceRange}
    (hrange : range ∈ operation.argumentRanges) :
    Untouched (hostEdits source operations) range.first.toNat range.past.toNat := by
  induction operations generalizing start with
  | nil => exact absurd hmem not_mem_nil
  | cons head rest ih =>
    intro x hx
    obtain ⟨-, h2, h3⟩ := h
    rw [hostEdits_cons] at hx
    rcases mem_cons.1 hmem with rfl | hmem
    · obtain ⟨_, a2, _, a4, a5⟩ := h2.arguments.between hrange
      rcases mem_append.1 hx with hx | hx
      · simp only [callEdits, mem_cons, not_mem_nil, or_false] at hx
        rcases hx with rfl | rfl
        · exact Or.inl a2
        · exact Or.inr a4
      · exact Or.inr (Nat.le_trans a4 (Nat.le_trans a5 (h3.edits_after x hx)))
    · rcases mem_append.1 hx with hx | hx
      · obtain ⟨hplaced, hafter⟩ := h3.calls_after hmem
        obtain ⟨a1, a2, -, -, -⟩ := hplaced.arguments.between hrange
        have hedit := (h2.edit hx).2
        exact Or.inl (by omega)
      · exact ih h3 hmem x hx

end

theorem Kept.untouched {first past : ℕ} (h : WellPlaced source.length 0 operations)
    (hkept : Kept operations first past) : Untouched (hostEdits source operations) first past := by
  rcases hkept with hout | ⟨operation, hmem, range, hrange, rfl, rfl⟩
  · exact untouched_outside h hout
  · exact untouched_argument h hmem hrange

/-- Everything outside the edits keeps its text, its order and its line. -/
theorem preserves_splice (h : WellPlaced source.length 0 operations) :
    Preserves source (splice source 0 (hostEdits source operations)) operations
      (place 0 (hostEdits source operations)) := by
  have hsorted := sorted_hostEdits h
  constructor
  · intro first past hlt hpast hkept
    obtain ⟨before, after, hsplice, hplace, -⟩ :=
      splice_eq newline hsorted (Nat.zero_le _) hlt hpast (hkept.untouched h)
    have hfound := slice_of_append before (slice source first past) after
    rw [length_slice hpast, hplace] at hfound
    rw [hsplice]
    exact hfound
  · intro first past hlt hpast hkept
    obtain ⟨before, after, hsplice, hplace, hcount⟩ :=
      splice_eq newline hsorted (Nat.zero_le _) hlt hpast (hkept.untouched h)
    have hlines := hcount (balanced_hostEdits h)
    rw [slice_zero] at hlines
    rw [hsplice, ← hplace, append_assoc, List.take_left]
    exact hlines
  · intro first past next last hlt hnext _ _ hkept _
    exact place_mono hsorted (Nat.zero_le _) hlt hnext (hkept.untouched h)

theorem checkRanges_ok (h : WellPlaced source.length start operations) :
    operations.forM (checkRanges source) = .ok () := by
  induction operations generalizing start with
  | nil => rfl
  | cons operation rest ih =>
    obtain ⟨-, h2, h3⟩ := h
    have hsize : operation.callRange.past.toNat ≤ source.length :=
      (sorted_hostEdits h3).le_bound
    have harguments : (operation.argumentRanges.any fun range =>
        decide (range.past.toNat > source.length)) = false := by
      simp only [List.any_eq_false, decide_eq_true_eq, gt_iff_lt, Nat.not_lt]
      intro range hmem
      obtain ⟨-, -, -, a4, a5⟩ := h2.arguments.between hmem
      exact Nat.le_trans a4 (Nat.le_trans a5 hsize)
    have hcheck : checkRanges source operation = .ok () := by
      unfold checkRanges
      rw [validSiteId_identifier h2.siteId, harguments]
      simp only [gt_iff_lt, Nat.not_lt.2 hsize, decide_false, Ir.failIf, Bool.not_true,
        Bool.false_eq_true, if_false]
      rfl
    simp only [List.forM_eq_forM, List.forM_cons, hcheck, ok_bind]
    exact ih h3

/-- The header goes behind a byte order mark, if the source has one. -/
theorem rewrittenHost_eq (module : Ir.Module) (rewritten : Text) :
    ∃ mark body, rewritten = mark ++ body ∧ (mark = [] ∨ mark = utf8Bom) ∧
      rewrittenHost module rewritten =
        mark ++ (if module.operations = [] then [] else hostHeader module) ++ body := by
  unfold rewrittenHost
  by_cases hnone : module.operations = []
  · refine ⟨[], rewritten, rfl, Or.inl rfl, ?_⟩
    rw [hnone]
    rfl
  · have hsome : module.operations.isEmpty = false := List.isEmpty_eq_false_iff.2 hnone
    simp only [hsome, Bool.false_eq_true, if_false, if_neg hnone]
    by_cases hmark : utf8Bom.isPrefixOf rewritten = true
    · obtain ⟨body, rfl⟩ := List.isPrefixOf_iff_prefix.1 hmark
      exact ⟨utf8Bom, body, rfl, Or.inr rfl, by rw [if_pos hmark, List.drop_left]⟩
    · exact ⟨[], rewritten, rfl, Or.inl rfl, by rw [if_neg hmark, nil_append]⟩

variable {module : Ir.Module}

theorem verify_wellPlaced (hv : Ir.verify module = .ok ())
    (hbound : ∀ operation ∈ module.operations, operation.callRange.past.toNat ≤ source.length) :
    WellPlaced source.length 0 module.operations ∧
      verifySiteIds [] (module.operations.map (·.siteId)) = .ok () := by
  have h := then_eq_ok (then_eq_ok (then_eq_ok (then_eq_ok hv)))
  exact ⟨verifyOperations_wellPlaced h (Nat.zero_le _) hbound, verifySiteIds_ok h⟩

/-- The paths can stand in a directive. -/
def SafePaths (module : Ir.Module) (sitesInclude : String) : Prop :=
  safeDirectiveText module.sourceFile ∧ safeDirectiveText sitesInclude ∧
    sitesInclude.isEmpty = false

instance (module : Ir.Module) (sitesInclude : String) :
    Decidable (SafePaths module sitesInclude) :=
  inferInstanceAs (Decidable (_ ∧ _ ∧ _))

theorem generate_eq (sitesInclude : String) (hv : Ir.verify module = .ok ())
    (hbound : ∀ operation ∈ module.operations, operation.callRange.past.toNat ≤ source.length) :
    generate module source sitesInclude =
      if SafePaths module sitesInclude then
        .ok {
          rewrittenHost :=
            rewrittenHost module (splice source 0 (hostEdits source module.operations))
          sitesHeader := generateSites module
          stubsSource := generateStubs module sitesInclude
          backendSource := generateBackendText (module.operations.map (·.siteId)) .captureV0 }
      else .error "source and generated include paths must be nonempty single-line text" := by
  obtain ⟨hplaced, hbackend⟩ := verify_wellPlaced hv hbound
  have hrewrite := rewriteCalls_eq hplaced
  rw [List.take_zero, nil_append] at hrewrite
  unfold generate
  rw [hv]
  dsimp only
  split
  · next hsafe =>
    obtain ⟨hfile, hinclude, hnonempty⟩ := hsafe
    rw [hfile, hinclude, hnonempty, checkRanges_ok hplaced, hrewrite]
    unfold generateRuntimeDispatchBackendV1
    rw [hbackend]
    rfl
  · next hunsafe =>
    have hfail : (!safeDirectiveText module.sourceFile || !safeDirectiveText sitesInclude ||
        sitesInclude.isEmpty) = true := by
      revert hunsafe
      unfold SafePaths
      cases safeDirectiveText module.sourceFile <;> cases safeDirectiveText sitesInclude <;>
        cases sitesInclude.isEmpty <;> decide
    rw [hfail]
    rfl

/-- **Host rewriting.** For a verified module whose calls lie in the source, the rewritten text
keeps everything outside the calls and every argument, in order and on its line; the host is that
text with the generated header, which ends in a `#line 1`, put in front of it (behind a byte order
mark). `generate` fails on such a module only when a path cannot stand in a directive. -/
theorem host_rewriting (module : Ir.Module) (source : Text) (sitesInclude : String)
    (hv : Ir.verify module = .ok ())
    (hbound : ∀ operation ∈ module.operations,
      operation.callRange.past.toNat ≤ source.length) :
    ∃ rewritten place mark body,
      rewriteCalls source module.operations = .ok rewritten ∧
      Preserves source rewritten module.operations place ∧
      rewritten = mark ++ body ∧ (mark = [] ∨ mark = utf8Bom) ∧
      generate module source sitesInclude =
        if SafePaths module sitesInclude then
          .ok {
            rewrittenHost :=
              mark ++ (if module.operations = [] then [] else hostHeader module) ++ body
            sitesHeader := generateSites module
            stubsSource := generateStubs module sitesInclude
            backendSource := generateBackendText (module.operations.map (·.siteId)) .captureV0 }
        else .error "source and generated include paths must be nonempty single-line text" := by
  obtain ⟨hplaced, -⟩ := verify_wellPlaced hv hbound
  have hrewrite := rewriteCalls_eq hplaced
  rw [List.take_zero, nil_append] at hrewrite
  obtain ⟨mark, body, hsplit, hmark, hhost⟩ :=
    rewrittenHost_eq module (splice source 0 (hostEdits source module.operations))
  refine ⟨_, _, mark, body, hrewrite, preserves_splice hplaced, hsplit, hmark, ?_⟩
  rw [generate_eq sitesInclude hv hbound, hhost]

/-- A call with three arguments of one byte each. -/
def plainCall (siteId : String) (line column : UInt32) (first past : UInt64)
    (arguments : List UInt64) (output lhs rhs : String) : Ir.Operation where
  siteId
  kind := "gemm"
  canonicalCallee := "matcore::mdsl::gemm"
  source := { file := "a.mdsl", offset := first, line, column }
  callRange := { first, past }
  argumentRanges := arguments.map fun argument => { first := argument, past := argument + 1 }
  output := { role := "output", expression := output, mutability := "write" }
  operands := [{ role := "lhs", expression := lhs, mutability := "read" },
    { role := "rhs", expression := rhs, mutability := "read" }]
  target := "cpu"
  fallback := "error"

/-- Two calls, each of which goes on behind the end of a line. -/
def twoCalls : Ir.Module where
  translationUnit := "a"
  sourceFile := "a.mdsl"
  producer := "clang-libtooling-v1"
  operations := [
    plainCall "mc_00000000000000000000000000000000" 1 2 1 10 [3, 6, 8] "a" "b" "c",
    plainCall "mc_00000000000000000000000000000001" 3 1 12 21 [14, 16, 19] "d" "e" "f"]

/-- `@g(a,`, `b,c);`, `g(d,e,` and `f);`. -/
def twoCallsSource : Text :=
  [64, 103, 40, 97, 44, 10, 98, 44, 99, 41, 59, 10, 103, 40, 100, 44, 101, 44, 10, 102, 41, 59]

theorem host_rewriting_twoCalls :
    ∃ rewritten place mark body,
      rewriteCalls twoCallsSource twoCalls.operations = .ok rewritten ∧
      Preserves twoCallsSource rewritten twoCalls.operations place ∧
      rewritten = mark ++ body ∧ (mark = [] ∨ mark = utf8Bom) ∧
      generate twoCalls twoCallsSource "sites.h" =
        if SafePaths twoCalls "sites.h" then
          .ok {
            rewrittenHost :=
              mark ++ (if twoCalls.operations = [] then [] else hostHeader twoCalls) ++ body
            sitesHeader := generateSites twoCalls
            stubsSource := generateStubs twoCalls "sites.h"
            backendSource := generateBackendText (twoCalls.operations.map (·.siteId)) .captureV0 }
        else .error "source and generated include paths must be nonempty single-line text" :=
  host_rewriting twoCalls twoCallsSource "sites.h" (by decide) (by decide)

/-- The first line of the generated header. -/
def headerLine : Text := bytes "// MDSLC generated global call-site declarations." ++ bytes "\n"

theorem bytes_append (a b : String) : bytes (a ++ b) = bytes a ++ bytes b := by
  unfold bytes
  rw [String.toList_append, List.flatMap_append]

theorem hostHeader_line (module : Ir.Module) : ∃ rest, hostHeader module = headerLine ++ rest := by
  have hlines : ∀ text rest, bytes (lines (text :: rest)) =
      bytes (text ++ "\n") ++ bytes (lines rest) := by
    intro text rest
    rw [← bytes_append]
    exact congrArg bytes (String.join_cons ..)
  unfold hostHeader generateHostPreamble headerLine
  simp only [bytes_append, hlines, append_assoc, List.append_cancel_left_eq]
  exact ⟨_, rfl⟩

/-- Counted in the whole host, the lines move: the generated header stands before every byte. -/
theorem header_moves_lines :
    ¬ ∀ (module : Ir.Module) (source : Text) (sitesInclude : String) (artifacts : Artifacts),
      Ir.verify module = .ok () →
      (∀ operation ∈ module.operations, operation.callRange.past.toNat ≤ source.length) →
      generate module source sitesInclude = .ok artifacts →
      ∃ place, Preserves source artifacts.rewrittenHost module.operations place := by
  intro claim
  have hverify : Ir.verify twoCalls = .ok () := by decide
  have hbound : ∀ operation ∈ twoCalls.operations,
      operation.callRange.past.toNat ≤ twoCallsSource.length := by decide
  have hsafe : SafePaths twoCalls "sites.h" := by decide
  have hgenerate := generate_eq "sites.h" hverify hbound
  rw [if_pos hsafe] at hgenerate
  obtain ⟨place, hplace⟩ := claim twoCalls twoCallsSource "sites.h" _ hverify hbound hgenerate
  -- the first byte stands before the call, so it is kept
  have hkept : Kept twoCalls.operations 0 1 := Or.inl (by decide)
  have hsame := hplace.same (Nat.zero_lt_one) (by decide) hkept
  have hline := hplace.sameLine (Nat.zero_lt_one) (by decide) hkept
  -- the host starts with the first line of the header
  obtain ⟨rest, hheader⟩ := hostHeader_line twoCalls
  have hhost : ∀ rewritten, utf8Bom.isPrefixOf rewritten = false →
      rewrittenHost twoCalls rewritten = headerLine ++ (rest ++ rewritten) := by
    intro rewritten hmark
    unfold rewrittenHost
    rw [hmark, hheader, append_assoc]
    rfl
  have hmark : utf8Bom.isPrefixOf (splice twoCallsSource 0
      (hostEdits twoCallsSource twoCalls.operations)) = false := by decide
  rw [hhost _ hmark] at hsame hline
  by_cases hinside : place 0 < headerLine.length
  · -- a byte of that line is not the first byte
    have hbyte := congrArg (fun text => text[0]?) hsame
    have hone : place 0 + (1 - 0) - place 0 = 1 := by omega
    simp only [slice, hone, List.getElem?_take, List.getElem?_drop, Nat.add_zero,
      List.getElem?_append_left hinside, Nat.zero_lt_one, if_true] at hbyte
    have hmem : (64 : UInt8) ∈ headerLine := List.mem_of_getElem? hbyte
    exact absurd hmem (by decide)
  · -- behind that line there is a newline before it
    have hnewline : newlines headerLine = 1 := by decide
    rw [List.take_append, List.take_of_length_le (by omega), newlines_append, hnewline] at hline
    have hzero : newlines (twoCallsSource.take 0) = 0 := rfl
    omega

end Matcore.Codegen
