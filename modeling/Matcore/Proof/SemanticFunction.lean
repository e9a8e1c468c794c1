import Matcore.Proof.StructuredSite

/-!
# The functions of a semantic module

When the bridge takes a site.
-/

namespace Matcore.Handoff

open Mlir (Bytes ascii)
open AttributeDict (Dictionary)
open Except (error_ite_eq_ok ok)

variable {dialect : List Ty → Op → Bool}

namespace SiteData

variable (d : SiteData)

def field (dictionary name : String) : Option Bytes :=
  (getDictionary d.contract.entries dictionary).bind (getString · name)

/-- The contract is an explicit call of this site in the source file. -/
structure Explicit (sourceFile : Bytes) : Prop where
  site : getString d.contract.entries "site_id" = some d.site
  origin : d.field "origin" "kind" = some (ascii "explicit_call")
  provenance : d.field "provenance" "kind" = some (ascii "explicit_call")
  file : d.field "provenance" "file" = some sourceFile
  profile : d.field "numerical" "profile" = some (ascii explicitGemmF32Profile)

@[simp] theorem get_semanticAttributes (siteType : Option Ty) (name : String) :
    (d.semanticAttributes siteType).get name =
      if "mdsl.site_id" = name then some (.string d.site siteType)
      else if "mdsl.capture_ordinal" = name then some (.integer 64 d.ordinal) else none := by
  unfold semanticAttributes
  rw [Dictionary.get_set, Dictionary.get_setInteger, Dictionary.get_empty]

theorem getString_site (siteType : Option Ty) :
    getString (d.semanticAttributes siteType).entries "mdsl.site_id" = some d.site :=
  getString_eq_some.2 ⟨siteType, by
    change (d.semanticAttributes siteType).get "mdsl.site_id" = _
    rw [get_semanticAttributes, if_pos rfl]⟩

theorem getInteger_ordinal (siteType : Option Ty) :
    getInteger (d.semanticAttributes siteType).entries "mdsl.capture_ordinal" =
      some (64, (d.ordinal : ℤ)) :=
  getInteger_eq_some.2 <| by
    change (d.semanticAttributes siteType).get "mdsl.capture_ordinal" = _
    rw [get_semanticAttributes, if_neg (by decide), if_pos rfl]

theorem semanticAttributes_exact (siteType : Option Ty) :
    (d.semanticAttributes siteType).Exact semanticFunctionFields := by
  refine exact_of_get fun name => ?_
  rw [get_semanticAttributes]
  simp only [semanticFunctionFields, List.mem_cons, List.not_mem_nil, or_false]
  split_ifs with hsite hordinal
  · simp [← hsite]
  · simp [← hordinal]
  · simp [Ne.symm hsite, Ne.symm hordinal]

theorem functionVerified_semantic (open' : Freedom) :
    functionVerified dialect (d.semantic open') = GemmOp.verify d.inputs d.gemm := by
  have hreturn : opVerified dialect [d.output] (d.inputs ++ [d.output])
      (d.last open'.hints) = true := by
    simp [opVerified, last, inputs]
  have hgemm : opVerified dialect [d.output] d.inputs d.gemm = GemmOp.verify d.inputs d.gemm := by
    simp [opVerified, gemm, inputs]
  have hresults : d.gemm.results = [d.output] := rfl
  have harguments : (entryArguments d.inputs d.location).map Prod.fst = d.inputs := by
    simp [entryArguments, inputs]
  simp only [functionVerified, semantic, List.all_cons, List.all_nil, Bool.and_true, blockVerified,
    harguments, opsVerified, hgemm, hresults, hreturn, decide_true, Bool.true_and]
  simp [OpKind.isTerminator, last]

variable {open' : Freedom} {sites : List Bytes} {site : Bytes} {ordinal : ℕ}

theorem semantic_site :
    getString (d.semantic open').attributes.entries "mdsl.site_id" = some d.site :=
  d.getString_site open'.siteType

theorem siteIdentity_semantic :
    siteIdentity sites ordinal (d.semantic open') = some site ↔
      site = d.site ∧ d.site ∉ sites ∧ d.ordinal = ordinal := by
  have hordinal : getInteger (d.semantic open').attributes.entries "mdsl.capture_ordinal" =
      some (64, (d.ordinal : ℤ)) := d.getInteger_ordinal open'.siteType
  have hname : (d.semantic open').name = ascii "__matcore_semantic_" ++ d.site := rfl
  have hpublic : (d.semantic open').isPublic = true := by
    simp [Function.isPublic, semantic]
  unfold siteIdentity
  rw [semantic_site]
  rw [hordinal, hname, hpublic]
  simp only [Bool.and_true, Bool.and_eq_true, Bool.not_eq_true', List.contains_eq_mem,
    decide_eq_false_iff_not, decide_eq_true_eq, Option.some.injEq, Prod.mk.injEq, true_and,
    decide_true, Int.natCast_inj]
  constructor
  · intro h
    split_ifs at h with hcheck
    · exact ⟨(Option.some.inj h).symm, hcheck⟩
  · rintro ⟨rfl, hcheck⟩
    rw [if_pos hcheck]

theorem verifySite_semantic {sourceFile : Bytes} :
    verifySite sourceFile sites ordinal (.func (d.semantic open')) = .ok site ↔
      site = d.site ∧ d.site ∉ sites ∧ d.ordinal = ordinal ∧ d.Explicit sourceFile := by
  have hbody : siteBody (d.semantic open') = some (⟨entryArguments d.inputs d.location,
      [d.gemm, d.last open'.hints]⟩, d.gemm, d.last open'.hints) := rfl
  have hlocated : (entryArguments d.inputs d.location).all
      (fun argument => argument.2 = (d.semantic open').location) = true := by
    simp [entryArguments, semantic]
  have hlocation : (d.semantic open').location = d.location := rfl
  have hcontract : d.gemm.attributes = d.contract := rfl
  unfold verifySite
  dsimp only
  cases hidentity : siteIdentity sites ordinal (d.semantic open') with
  | none =>
    have hmissing : ¬ (d.site ∉ sites ∧ d.ordinal = ordinal) := by
      intro h
      rw [d.siteIdentity_semantic.2 ⟨rfl, h⟩] at hidentity
      cases hidentity
    simp only [reduceCtorEq, false_iff]
    exact fun ⟨_, hfresh, hordinal, _⟩ => hmissing ⟨hfresh, hordinal⟩
  | some found =>
    obtain ⟨rfl, hfresh, hordinal⟩ := d.siteIdentity_semantic.1 hidentity
    rw [hbody]
    dsimp only
    rw [hlocated, hlocation, hcontract]
    simp only [gemm, last, ne_eq, not_true_eq_false, Bool.not_true, Bool.false_eq_true, if_false,
      decide_false, Bool.false_or, Bool.or_false, Bool.or_eq_true, decide_eq_true_eq]
    constructor
    · intro h
      rw [error_ite_eq_ok, error_ite_eq_ok] at h
      obtain ⟨hsite, hfields, h⟩ := h
      obtain rfl := ok.inj h
      push Not at hsite hfields
      exact ⟨rfl, hfresh, hordinal, hsite, hfields.1.1.1, hfields.1.1.2, hfields.1.2, hfields.2⟩
    · rintro ⟨rfl, -, -, hexplicit⟩
      rw [if_neg (not_not.2 hexplicit.site), if_neg]
      push Not
      exact ⟨⟨⟨hexplicit.origin, hexplicit.provenance⟩, hexplicit.file⟩, hexplicit.profile⟩

end SiteData

variable {f : Function} {sites : List Bytes} {site : Bytes} {ordinal : ℕ}

theorem siteIdentity_spec (h : siteIdentity sites ordinal f = some site) :
    getString f.attributes.entries "mdsl.site_id" = some site ∧
      getInteger f.attributes.entries "mdsl.capture_ordinal" = some (64, (ordinal : ℤ)) ∧
      f.name = ascii "__matcore_semantic_" ++ site := by
  unfold siteIdentity at h
  split at h
  · rename_i found hfound
    split_ifs at h with hcheck
    obtain rfl := Option.some.inj h
    simp only [Bool.and_eq_true, decide_eq_true_eq] at hcheck
    exact ⟨hfound, hcheck.1.1.2, hcheck.1.2⟩
  · cases h

variable {block : Block}

theorem siteBody_spec {first last : Op} (h : siteBody f = some (block, first, last)) :
    f.blocks = [block] ∧ block.ops = [first, last] ∧ block.arguments.length = 3 := by
  unfold siteBody at h
  split at h
  · rename_i found hblocks
    split at h
    · rename_i first' last' hops
      split_ifs at h with hlength
      obtain ⟨rfl, rfl, rfl⟩ := by simpa using h
      exact ⟨hblocks, hops, hlength⟩
    · cases h
  · cases h

theorem eq_entryArguments {arguments : List (Ty × Location)} {location : Location}
    (h : ∀ argument ∈ arguments, argument.2 = location) :
    arguments = entryArguments (arguments.map Prod.fst) location := by
  induction arguments with
  | nil => rfl
  | cons first rest ih =>
    have hfirst : first = (first.1, location) := by rw [← h first List.mem_cons_self]
    have hrest := ih fun argument hmem => h argument (List.mem_cons_of_mem _ hmem)
    rw [List.map_cons, entryArguments, List.map_cons, ← hfirst]
    exact congrArg _ hrest

theorem functionVerified_spec (hblocks : f.blocks = [block]) (h : functionVerified dialect f = true) :
    block.arguments.map Prod.fst = f.inputs ∧
      opsVerified dialect f.results f.inputs block.ops = true := by
  unfold functionVerified at h
  rw [hblocks] at h
  simp only [List.all_cons, List.all_nil, Bool.and_true, Bool.and_eq_true, decide_eq_true_eq,
    blockVerified] at h
  obtain ⟨hinputs, hops, -⟩ := h
  exact ⟨hinputs, hinputs ▸ hops⟩

variable {scope results : List Ty} {op : Op}

theorem opVerified_gemm (hkind : op.kind = .gemm) (h : opVerified dialect results scope op = true) :
    GemmOp.verify scope op = true := by
  unfold opVerified at h
  rw [hkind] at h
  exact (Bool.and_eq_true_iff.1 h).2

theorem opVerified_return (hkind : op.kind = .funcReturn)
    (h : opVerified dialect results scope op = true) :
    op.operands.map (scope[·]?) = results.map some ∧ op.results = [] ∧ op.region = [] := by
  unfold opVerified at h
  rw [hkind] at h
  simp only [Bool.and_eq_true, decide_eq_true_eq, List.isEmpty_iff] at h
  exact ⟨h.2.1.1, h.2.1.2, h.2.2⟩

/-- A function that the bridge takes, with the attributes of a site alone, is a site. -/
theorem semantic_of_verifySite {sourceFile : Bytes} (hverified : functionVerified dialect f = true)
    (h : verifySite sourceFile sites ordinal (.func f) = .ok site)
    (hattributes : f.attributes.Exact semanticFunctionFields) (hplain : f.isPlain = true) :
    ∃ (d : SiteData) (open' : SiteData.Freedom), f = d.semantic open' := by
  unfold verifySite at h
  dsimp only at h
  cases hidentity : siteIdentity sites ordinal f with
  | none =>
    rw [hidentity] at h
    cases h
  | some found =>
    rw [hidentity] at h
    cases hbody : siteBody f with
    | none =>
      rw [hbody] at h
      cases h
    | some body =>
      obtain ⟨block, gemm, last⟩ := body
      rw [hbody] at h
      rw [error_ite_eq_ok, error_ite_eq_ok, error_ite_eq_ok] at h
      obtain ⟨harguments, hops, hlocations, -⟩ := h
      simp only [Bool.not_eq_true, Bool.not_eq_false', List.all_eq_true, decide_eq_true_eq,
        Bool.or_eq_true, not_or, not_not, ne_eq] at harguments hops hlocations
      obtain ⟨⟨⟨⟨hgemm, hlast⟩, -⟩, hoperands⟩, hreturned⟩ := hops
      obtain ⟨hgemmLocation, hlastLocation⟩ := hlocations
      obtain ⟨hsite, hordinal, hname⟩ := siteIdentity_spec hidentity
      obtain ⟨hblocks, hblockOps, hlength⟩ := siteBody_spec hbody
      obtain ⟨hinputs, hverifiedOps⟩ := functionVerified_spec hblocks hverified
      rw [hblockOps] at hverifiedOps
      simp only [opsVerified, Bool.and_true, Bool.and_eq_true] at hverifiedOps
      obtain ⟨hgemmVerified, hlastVerified⟩ := hverifiedOps
      -- the types of the gemm and of the return are those of the function
      obtain ⟨a, b, c, m, k, n, hoperands', hlhs, hrhs, houtput, hresults⟩ :=
        (gemm_facts (opVerified_gemm hgemm hgemmVerified)).types
      have hregion := (gemm_facts (opVerified_gemm hgemm hgemmVerified)).region
      obtain ⟨hreturnedTypes, hlastResults, hlastRegion⟩ := opVerified_return hlast hlastVerified
      obtain ⟨rfl, rfl, rfl⟩ : a = 0 ∧ b = 1 ∧ c = 2 := by
        simpa [hoperands] using hoperands'.symm
      obtain ⟨lhs, rhs, output, htypes⟩ : ∃ lhs rhs output, f.inputs = [lhs, rhs, output] :=
        List.length_eq_three.1 (by rw [← hinputs, List.length_map, hlength])
      obtain rfl : output = .tensor ⟨[m, n], .f32, none⟩ := by simpa [htypes] using houtput
      have hfunctionResults : f.results = [.tensor ⟨[m, n], .f32, none⟩] := by
        rw [hreturned, htypes, hresults] at hreturnedTypes
        exact (List.map_injective_iff.2 (fun _ _ => Option.some.inj) hreturnedTypes).symm
      have hentry : block.arguments = entryArguments [lhs, rhs, .tensor ⟨[m, n], .f32, none⟩]
          f.location := by
        rw [← htypes, ← hinputs]
        exact eq_entryArguments fun argument hmem => harguments argument hmem
      obtain ⟨siteType, hsite⟩ := getString_eq_some.1 hsite
      have hordinal := getInteger_eq_some.1 hordinal
      let d : SiteData := ⟨found, ordinal, lhs, rhs, .tensor ⟨[m, n], .f32, none⟩, gemm.attributes,
        f.location⟩
      have hsame : f.attributes = d.semanticAttributes siteType := by
        refine Dictionary.eq_of_names hattributes (d.semanticAttributes_exact siteType) ?_
        intro name hmem
        rw [d.get_semanticAttributes]
        simp only [semanticFunctionFields, List.mem_cons, List.not_mem_nil, or_false] at hmem
        obtain rfl | rfl := hmem
        · rw [if_neg (by decide), if_pos rfl]
          exact hordinal
        · rw [if_pos rfl]
          exact hsite
      have hgemmOp : gemm = d.gemm :=
        Op.ext hgemm hoperands hresults rfl hregion hgemmLocation.symm
      have hlastOp : last = d.last last.attributes :=
        Op.ext hlast hreturned hlastResults rfl hlastRegion (hlastLocation.trans hgemmLocation.symm)
      have hblock : block = ⟨entryArguments d.inputs d.location,
          [d.gemm, d.last last.attributes]⟩ := by
        rw [Block.mk.injEq, ← hgemmOp, ← hlastOp]
        exact ⟨hentry, hblockOps⟩
      simp only [Function.isPlain, Bool.and_eq_true, Option.isNone_iff_eq_none,
        Bool.not_eq_true'] at hplain
      obtain ⟨⟨⟨hargAttrs, hresAttrs⟩, hnoInline⟩, hvisibility⟩ := hplain
      exact ⟨d, ⟨siteType, last.attributes⟩, Function.ext hname htypes hfunctionResults hsame
        hargAttrs hresAttrs hnoInline hvisibility rfl (by rw [hblocks, hblock]; rfl)⟩

end Matcore.Handoff
