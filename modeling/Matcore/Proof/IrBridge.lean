import Matcore.Ir.V1Bridge
import Matcore.Proof.IrRoundTrip

/-!
# The bridge between the versions is lossless

An operation of either version is a place in the source and three expressions, once everything
that the verifiers and the projection pin is given its one value (`gemmV0`, `gemmV1`).
-/

namespace Matcore.Ir.V1

open Except (check_eq_ok ok_bind bind_eq_ok ok)
open List (Forall₂)
open Option (some)

/-- What an operation of either version says about its place. -/
structure Site where
  siteId : String
  canonicalCallee : String
  source : SourceLocation
  callRange : SourceRange
  argumentRanges : List SourceRange

/-- The v0 operation with these expressions. -/
def gemmV0 (site : Site) (output lhs rhs : String) : Ir.Operation where
  siteId := site.siteId
  kind := "gemm"
  canonicalCallee := site.canonicalCallee
  source := site.source
  callRange := site.callRange
  argumentRanges := site.argumentRanges
  output := ⟨"output", output, "write"⟩
  operands := [⟨"lhs", lhs, "read"⟩, ⟨"rhs", rhs, "read"⟩]
  target := "cpu"
  fallback := "error"

/-- The v1 operation with these expressions. -/
def gemmV1 (site : Site) (output lhs rhs : String) : Operation where
  siteId := site.siteId
  kind := .gemm
  canonicalCallee := site.canonicalCallee
  source := site.source
  callRange := site.callRange
  argumentRanges := site.argumentRanges
  output := canonicalTensor .output output .writeOnly (.dynamic "m") (.dynamic "n")
  operands :=
    [canonicalTensor .lhs lhs .readOnly (.dynamic "m") (.dynamic "k"),
     canonicalTensor .rhs rhs .readOnly (.dynamic "k") (.dynamic "n")]
  accumulationDtype := .f32
  requirements := canonicalRequirements
  aliasRequirements := [⟨.noAlias, .output, .lhs⟩, ⟨.noAlias, .output, .rhs⟩]
  effects := { reads := [.lhs, .rhs], writes := [.output], synchronization := .synchronous }
  policy := { target := .cpu, fallback := .error }

/-- The two operations say the same. -/
def Same (old : Ir.Operation) (new : Operation) : Prop :=
  ∃ site output lhs rhs, old = gemmV0 site output lhs rhs ∧ new = gemmV1 site output lhs rhs

/-- What the verifiers still ask of the expressions. -/
def Names (output lhs rhs : String) : Prop :=
  (output.isEmpty = false ∧ lhs.isEmpty = false ∧ rhs.isEmpty = false) ∧
    output ≠ lhs ∧ output ≠ rhs

variable {lhs rhs output : String} {site : Site}

theorem verifyOperation_gemmV0 :
    Ir.verifyOperation (gemmV0 site output lhs rhs) = .ok () ↔ Names output lhs rhs := by
  unfold Ir.verifyOperation gemmV0 Names
  simp [check_eq_ok]
  tauto

variable {rows columns : String}

theorem verifyTensorType_canonical (hrows : validSymbol rows = true)
    (hcolumns : validSymbol columns = true) (context : String) :
    verifyTensorType (canonicalTensorType (.dynamic rows) (.dynamic columns)) context =
      .ok () := by
  have hrow : ∀ context, verifyScalar (.dynamic rows) context = .ok () := by
    simp [verifyScalar, ScalarExpr.dynamic, hrows]
  have hcolumn : ∀ context, verifyScalar (.dynamic columns) context = .ok () := by
    simp [verifyScalar, ScalarExpr.dynamic, hcolumns]
  have hone : ∀ context, verifyScalar (.staticValue 1) context = .ok () := fun _ => rfl
  unfold verifyTensorType canonicalTensorType
  have hpower : (4 : UInt32) &&& 3 = 0 := by decide
  simp only [hrow, hcolumn, hone, ok_bind]
  simp [naturalAlignment, check_eq_ok, hpower]

variable {id : ValueId} {mutability : Mutability}

theorem verifyValue_canonical {expression : String} (hrows : validSymbol rows = true)
    (hcolumns : validSymbol columns = true) (context : String) :
    verifyValue (canonicalTensor id expression mutability (.dynamic rows) (.dynamic columns)) id
      mutability context = .ok () ↔ expression.isEmpty = false := by
  have htype := verifyTensorType_canonical hrows hcolumns context
  unfold verifyValue canonicalTensor
  simp [check_eq_ok, htype]

theorem verifyOperation_gemmV1 :
    verifyOperation (gemmV1 site output lhs rhs) = .ok () ↔ Names output lhs rhs := by
  have hm : validSymbol "m" = true := by decide
  have hk : validSymbol "k" = true := by decide
  have hn : validSymbol "n" = true := by decide
  unfold verifyOperation gemmV1 Names
  simp only [check_eq_ok, verifyValue_canonical hm hn, verifyValue_canonical hm hk,
    verifyValue_canonical hk hn, failIf_eq_ok, Bool.or_eq_false_iff, decide_eq_false_iff_not]
  simp [canonicalTensor, canonicalTensorType, legalGemmDTypeContract, exactRequirementContract,
    canonicalRequirements, exactAliasContract, exactEffectsContract]
  tauto

/-- **The verifiers agree** on related operations. -/
theorem verifyOperations_same (sourceFile : String) {old : List Ir.Operation}
    {new : List Operation} (h : Forall₂ Same old new) (siteIds : List String) (start : UInt64) :
    Ir.verifyOperations sourceFile siteIds start old = .ok () ↔
      verifyOperations sourceFile siteIds start new = .ok () := by
  induction h generalizing siteIds start with
  | nil => exact Iff.rfl
  | @cons x y xs ys hsame _ ih =>
    obtain ⟨site, output, lhs, rhs, rfl, rfl⟩ := hsame
    have hnames : Ir.verifyOperation (gemmV0 site output lhs rhs) = .ok () ↔
        verifyOperation (gemmV1 site output lhs rhs) = .ok () :=
      verifyOperation_gemmV0.trans verifyOperation_gemmV1.symm
    unfold Ir.verifyOperations verifyOperations
    simp only [check_eq_ok, failIf_eq_ok, hnames, ih]
    rfl

theorem same_convert {operation : Ir.Operation} (hkind : operation.kind = "gemm")
    (h : Ir.verifyOperation operation = .ok ()) : Same operation (convertOperation operation) := by
  obtain ⟨siteId, kind, callee, source, callRange, ranges, ⟨role, output, mutability⟩, operands,
    target, fallback⟩ := operation
  obtain rfl : kind = "gemm" := hkind
  unfold Ir.verifyOperation at h
  rw [check_eq_ok] at h
  obtain ⟨houtput, h⟩ := h
  match operands with
  | [⟨lhsRole, lhs, lhsMutability⟩, ⟨rhsRole, rhs, rhsMutability⟩] =>
    simp only [check_eq_ok, failIf_eq_ok, Bool.or_eq_false_iff, decide_eq_false_iff_not,
      not_not] at houtput h
    obtain ⟨⟨rfl, rfl⟩, -⟩ := houtput
    obtain ⟨⟨rfl, rfl⟩, ⟨⟨⟨rfl, -⟩, rfl⟩, -⟩, -, rfl, rfl⟩ := h
    exact ⟨⟨siteId, callee, source, callRange, ranges⟩, output, lhs, rhs, rfl, rfl⟩
  | [] => cases h
  | [_] => cases h
  | _ :: _ :: _ :: _ => cases h

theorem canonicalTensor_of_check {value : TensorValue} {rows columns : ScalarExpr}
    {context : String} (h : canonicalTensorForV0 value id mutability rows columns context = .ok ()) :
    value = canonicalTensor id value.sourceExpression mutability rows columns := by
  obtain ⟨valueId, expression, valueMutability, dtype, rank, shape, strides, layout, space,
    alignment⟩ := value
  unfold canonicalTensorForV0 at h
  simp only [failIf_eq_ok, Bool.or_eq_false_iff, decide_eq_false_iff_not, not_not] at h
  obtain ⟨⟨⟨⟨⟨⟨⟨⟨⟨⟨⟨⟨rfl, rfl⟩, rfl⟩, rfl⟩, hshape⟩, hstrides⟩, rfl⟩, rfl⟩, rfl⟩, hrows⟩, hcolumns⟩,
    hstride⟩, hone⟩ := h
  obtain ⟨shape0, shape1, rfl⟩ := List.length_eq_two.1 hshape
  obtain ⟨stride0, stride1, rfl⟩ := List.length_eq_two.1 hstrides
  obtain rfl : shape0 = rows := some.inj hrows
  obtain rfl : shape1 = columns := some.inj hcolumns
  obtain rfl : stride0 = shape1 := some.inj hstride
  obtain rfl : stride1 = .staticValue 1 := some.inj hone
  rfl

variable {old : Ir.Operation}

/-- What the projection lets pass of a verified v1 operation is pinned likewise: it checks the
tensors, the accumulation and the requirements, and the verifier has checked the rest. -/
theorem same_project {operation : Operation} (h : verifyOperation operation = .ok ())
    (hp : projectOperation operation = .ok old) :
    Same old operation := by
  obtain ⟨siteId, ⟨⟩, callee, source, callRange, ranges, output, operands, accumulation,
    requirements, aliases, ⟨reads, writes, ⟨⟩⟩, ⟨⟨⟩, ⟨⟩⟩⟩ := operation
  unfold verifyOperation at h
  rw [check_eq_ok] at h
  obtain ⟨-, h⟩ := h
  match operands with
  | [lhs, rhs] =>
    unfold projectOperation at hp
    simp only [check_eq_ok, failIf_eq_ok, Bool.or_eq_false_iff, decide_eq_false_iff_not,
      not_not] at hp
    obtain ⟨⟨⟨-, rfl⟩, rfl⟩, houtput, hlhs, hrhs, hp⟩ := hp
    simp only [check_eq_ok, failIf_eq_ok, exactAliasContract, exactEffectsContract,
      Bool.not_eq_false', Bool.and_eq_true, decide_eq_true_eq] at h
    obtain ⟨-, -, -, -, -, -, -, -, rfl, ⟨⟨rfl, rfl⟩, -⟩, -⟩ := h
    have houtput := canonicalTensor_of_check houtput
    have hlhs := canonicalTensor_of_check hlhs
    have hrhs := canonicalTensor_of_check hrhs
    refine ⟨⟨siteId, callee, source, callRange, ranges⟩, output.sourceExpression,
      lhs.sourceExpression, rhs.sourceExpression, (ok.inj hp).symm, ?_⟩
    unfold gemmV1
    rw [← houtput]
    exact congrArg₂ (fun lhs rhs => Operation.mk _ _ _ _ _ _ _ [lhs, rhs] _ _ _ _ _) hlhs hrhs
  | [] => cases h
  | [_] => cases h
  | _ :: _ :: _ :: _ => cases h

variable {new : Operation}

theorem Same.convert (h : Same old new) :
    convertOperation old = new := by
  obtain ⟨site, output, lhs, rhs, rfl, rfl⟩ := h
  rfl

theorem Same.project (h : Same old new) :
    projectOperation new = .ok old := by
  obtain ⟨site, output, lhs, rhs, rfl, rfl⟩ := h
  unfold projectOperation gemmV1
  rfl

/-- The two modules say the same. -/
structure SameModule (old : Ir.Module) (new : Module) : Prop where
  translationUnit : new.translationUnit = old.translationUnit
  sourceFile : new.sourceFile = old.sourceFile
  producer : new.producer = old.producer
  operations : Forall₂ Same old.operations new.operations

variable {old : Ir.Module} {new : Module}

/-- **The verifiers agree** on related modules. -/
theorem SameModule.verify (h : SameModule old new) :
    Ir.verify old = .ok () ↔ V1.verify new = .ok () := by
  have hoperations := verifyOperations_same old.sourceFile h.operations [] 0
  unfold Ir.verify V1.verify
  simp only [check_eq_ok, failIf_eq_ok, h.translationUnit, h.sourceFile, h.producer, hoperations,
    Bool.or_eq_false_iff, and_assoc]

theorem SameModule.upgraded (h : SameModule old new) : V1.upgraded old = new := by
  have hoperations : ∀ {xs : List Ir.Operation} {ys : List Operation}, Forall₂ Same xs ys →
      xs.map convertOperation = ys := by
    intro xs ys hsame
    induction hsame with
    | nil => rfl
    | cons hfirst _ ih => rw [List.map_cons, hfirst.convert, ih]
  obtain ⟨translationUnit, sourceFile, producer, operations⟩ := new
  obtain ⟨rfl, rfl, rfl, hsame⟩ := h
  exact congrArg (Module.mk _ _ _) (hoperations hsame)

theorem SameModule.projected (h : SameModule old new) : V1.projected new = .ok old := by
  have hoperations : ∀ {xs : List Ir.Operation} {ys : List Operation}, Forall₂ Same xs ys →
      ys.mapM projectOperation = .ok xs := by
    intro xs ys hsame
    induction hsame with
    | nil => rfl
    | cons hfirst _ ih =>
      rw [List.mapM_cons, hfirst.project, ok_bind, ih]
      rfl
  obtain ⟨translationUnit, sourceFile, producer, operations⟩ := new
  obtain ⟨rfl, rfl, rfl, hsame⟩ := h
  unfold V1.projected
  rw [hoperations hsame]
  rfl

variable {siteIds : List String} {start : UInt64} {sourceFile : String}

theorem forall₂_convert {operations : List Ir.Operation}
    (h : Ir.verifyOperations sourceFile siteIds start operations = .ok ()) :
    Forall₂ Same operations (operations.map convertOperation) := by
  induction operations generalizing siteIds start with
  | nil => exact Forall₂.nil
  | cons operation rest ih =>
    unfold Ir.verifyOperations at h
    simp only [check_eq_ok, failIf_eq_ok, Bool.or_eq_false_iff, decide_eq_false_iff_not,
      not_not] at h
    obtain ⟨-, ⟨hkind, -⟩, -, hoperation, hrest⟩ := h
    exact Forall₂.cons (same_convert hkind hoperation) (ih hrest)

theorem forall₂_project {operations : List Operation} {olds : List Ir.Operation}
    (h : verifyOperations sourceFile siteIds start operations = .ok ())
    (hp : operations.mapM projectOperation = .ok olds) : Forall₂ Same olds operations := by
  induction operations generalizing siteIds start olds with
  | nil =>
    obtain rfl : [] = olds := ok.inj hp
    exact Forall₂.nil
  | cons operation rest ih =>
    unfold verifyOperations at h
    simp only [check_eq_ok] at h
    obtain ⟨-, -, -, hoperation, hrest⟩ := h
    rw [List.mapM_cons] at hp
    obtain ⟨old, hold, hp⟩ := bind_eq_ok hp
    obtain ⟨more, hmore, hp⟩ := bind_eq_ok hp
    obtain rfl : old :: more = olds := ok.inj hp
    exact Forall₂.cons (same_project hoperation hold) (ih hrest hmore)

theorem sameModule_upgraded (h : Ir.verify old = .ok ()) : SameModule old (upgraded old) := by
  unfold Ir.verify at h
  simp only [check_eq_ok] at h
  exact ⟨rfl, rfl, rfl, forall₂_convert h.2.2.2.2⟩

theorem sameModule_projected (h : verify new = .ok ()) (hp : projected new = .ok old) :
    SameModule old new := by
  unfold verify at h
  simp only [check_eq_ok] at h
  obtain ⟨operations, hoperations, hp⟩ := bind_eq_ok hp
  obtain rfl := (ok.inj hp).symm
  exact ⟨rfl, rfl, rfl, forall₂_project h.2.2.2 hoperations⟩

theorem fromV0_of_same (h : SameModule old new) (hold : Ir.verify old = .ok ()) :
    fromV0 old = .ok new := by
  unfold fromV0
  rw [hold, h.upgraded, h.verify.1 hold]

theorem projectToV0_of_same (h : SameModule old new) (hnew : verify new = .ok ()) :
    projectToV0 new = .ok old := by
  unfold projectToV0
  rw [hnew, h.projected]
  dsimp only [ok_bind]
  rw [h.verify.2 hnew]

theorem projectToV0_eq_ok (h : projectToV0 new = .ok old) :
    verify new = .ok () ∧ projected new = .ok old := by
  unfold projectToV0 at h
  split at h
  · cases h
  · next hnew =>
    obtain ⟨module, hmodule, h⟩ := bind_eq_ok h
    split at h
    · cases h
    · obtain rfl := ok.inj h
      exact ⟨hnew, hmodule⟩

/-- **The bridge is lossless.** A verified v0 module is upgraded and projected back to itself, a
v1 module that is projected is recovered by the upgrade, and neither direction hands the other
version's verifier a module that it rejects. -/
theorem bridge_lossless :
    (∀ old, Ir.verify old = .ok () →
      ∃ new, fromV0 old = .ok new ∧ projectToV0 new = .ok old) ∧
    (∀ new old, projectToV0 new = .ok old → fromV0 old = .ok new) ∧
    (∀ old, Ir.verify old = .ok () → verify (upgraded old) = .ok ()) ∧
    ∀ new old, verify new = .ok () → projected new = .ok old → Ir.verify old = .ok () := by
  refine ⟨fun old hold => ?_, fun new old h => ?_, fun old hold => ?_, fun new old hnew h => ?_⟩
  · have hsame := sameModule_upgraded hold
    exact ⟨_, fromV0_of_same hsame hold, projectToV0_of_same hsame (hsame.verify.1 hold)⟩
  · obtain ⟨hnew, hprojected⟩ := projectToV0_eq_ok h
    have hsame := sameModule_projected hnew hprojected
    exact fromV0_of_same hsame (hsame.verify.2 hnew)
  · exact (sameModule_upgraded hold).verify.1 hold
  · exact (sameModule_projected hnew h).verify.2 hnew

theorem bridge_lossless_oneGemm :
    ∃ new, fromV0 oneGemm = .ok new ∧ projectToV0 new = .ok oneGemm :=
  bridge_lossless.1 oneGemm (by decide)

/-- **From one tool to the next.** Every verified v0 module passes the version boundary of the
extractor, and the v1 document written behind it is read as the module that projects back to it. -/
theorem extracted_document {rapidjson : RapidJson} (hold : Ir.verify old = .ok ())
    (hfaithful : rapidjson.FaithfulOn (writeModule (upgraded old))) :
    ∃ new, fromV0 old = .ok new ∧ verify new = .ok () ∧ projectToV0 new = .ok old ∧
      ∀ before, parseAndVerifyJson rapidjson (serializeDeterministicJson rapidjson new) before =
        (.ok (), new) := by
  have hsame := sameModule_upgraded hold
  have hnew := hsame.verify.1 hold
  exact ⟨_, fromV0_of_same hsame hold, hnew, projectToV0_of_same hsame hnew,
    parse_serialize hnew hfaithful⟩

theorem extracted_document_oneGemm :
    let rapidjson := rapidjsonOn (writeModule (upgraded oneGemm))
    ∃ new, fromV0 oneGemm = .ok new ∧ verify new = .ok () ∧ projectToV0 new = .ok oneGemm ∧
      ∀ before, parseAndVerifyJson rapidjson (serializeDeterministicJson rapidjson new) before =
        (.ok (), new) :=
  extracted_document (by decide) (rapidjsonOn_faithful _)

end Matcore.Ir.V1
