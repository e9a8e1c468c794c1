import Matcore.Proof.SemanticFunction

/-!
# The functions of a structured module

The verifier takes what is written for a site and, up to locations, nothing else.
-/

namespace Matcore.Handoff

open List (mem_cons not_mem_nil map_cons map_nil)
open Bool (and_eq_true)
open Except (check_eq_ok ok_bind)
open Mlir (Bytes ascii)
open AttributeDict (Dictionary Entries)
open AttributeDict.Dictionary (get_setInteger get_setString get_empty eq_of_names get_set ext_get
  get_setFrom)

variable {dialect : List Ty → Op → Bool}

theorem verifyProfile_gemm : verifyProfile gemmCertificateProfile = .ok () := by
  simp [verifyProfile, gemmCertificateProfile]

theorem get_handoffAttribute (profile : Profile) (name : String) :
    (handoffAttribute profile).get name =
      if "version" = name then some (.integer 32 profile.version)
      else if "source_operation" = name then some (.string (ascii profile.sourceOperation) none)
      else if "destination" = name then some (.string (ascii profile.destinationRule) none)
      else if "authority" = name then some (.string (ascii profile.authority) none) else none := by
  unfold handoffAttribute
  rw [get_setInteger, get_setString, get_setString,
    get_setString, get_empty]

def handoffFields : List String := ["authority", "destination", "source_operation", "version"]

theorem handoffAttribute_exact (profile : Profile) :
    (handoffAttribute profile).Exact handoffFields := by
  refine exact_of_get fun name => ?_
  rw [get_handoffAttribute]
  simp only [handoffFields, mem_cons, not_mem_nil, or_false]
  split_ifs <;> simp_all [eq_comm]

/-- The attribute is the only one without types of its strings that its verifier takes. -/
theorem verifyHandoffAttribute_iff {handoff : Dict} {profile : Profile} (hstrings : Untyped handoff) :
    verifyHandoffAttribute handoff.entries profile = .ok () ↔ handoff = handoffAttribute profile := by
  unfold verifyHandoffAttribute
  rw [check_eq_ok, requireExactNames_eq_ok (by decide), require_eq_ok]
  simp only [and_eq_true, requireString_iff, requireInteger, decide_eq_true_eq]
  constructor
  · rintro ⟨hexact, ⟨⟨hauthority, hdestination⟩, hoperation⟩, hversion⟩
    refine eq_of_names hexact (handoffAttribute_exact profile) fun name hmem => ?_
    rw [get_handoffAttribute]
    simp only [mem_cons, not_mem_nil, or_false] at hmem
    obtain rfl | rfl | rfl | rfl := hmem
    · simpa using hstrings.get hauthority
    · simpa using hstrings.get hdestination
    · simpa using hstrings.get hoperation
    · exact (getInteger_eq_some.1 hversion).trans (if_pos rfl).symm
  · rintro rfl
    have hget := get_handoffAttribute profile
    refine ⟨handoffAttribute_exact profile, ⟨⟨?_, ?_⟩, ?_⟩, ?_⟩
    · exact getString_eq_some.2 ⟨none, (hget "authority").trans (by simp)⟩
    · exact getString_eq_some.2 ⟨none, (hget "destination").trans (by simp)⟩
    · exact getString_eq_some.2 ⟨none, (hget "source_operation").trans (by simp)⟩
    · exact getInteger_eq_some.2 ((hget "version").trans (by simp))

theorem handoffAttribute_untyped (profile : Profile) : Untyped (handoffAttribute profile) := by
  intro name value type h
  rw [get_handoffAttribute] at h
  split_ifs at h <;> simp_all

namespace SiteData

variable (d : SiteData)

theorem get_certificate (name : String) :
    d.certificate.get name =
      if "mdsl.structured_handoff" = name then some (handoffAttribute gemmCertificateProfile).attr
      else if "mdsl.semantic_contract" = name then some d.contract.attr
      else if "mdsl.source_semantic_symbol" = name then
        some (.string (ascii "__matcore_semantic_" ++ d.site) none)
      else if "mdsl.site_id" = name then some (.string d.site none)
      else if "mdsl.capture_ordinal" = name then some (.integer 64 d.ordinal) else none := by
  unfold certificate
  rw [get_set, get_set, get_setString, get_setString,
    get_setInteger, get_empty]

theorem certificate_exact : d.certificate.Exact structuredFunctionFields := by
  refine exact_of_get fun name => ?_
  rw [get_certificate]
  simp only [structuredFunctionFields, mem_cons, not_mem_nil, or_false]
  split_ifs <;> simp_all [eq_comm]

/-- What the certificate holds, and that its strings have no types. -/
structure Certified (f : Function) : Prop where
  exact : f.attributes.Exact structuredFunctionFields
  ordinal : f.attributes.get "mdsl.capture_ordinal" = some (.integer 64 d.ordinal)
  site : f.attributes.get "mdsl.site_id" = some (.string d.site none)
  symbol : f.attributes.get "mdsl.source_semantic_symbol" =
    some (.string (ascii "__matcore_semantic_" ++ d.site) none)
  contract : f.attributes.sub "mdsl.semantic_contract" = some d.contract
  handoff : f.attributes.sub "mdsl.structured_handoff" =
    some (handoffAttribute gemmCertificateProfile)

theorem certified_iff (f : Function) : d.Certified f ↔ f.attributes = d.certificate := by
  constructor
  · intro h
    refine eq_of_names h.exact d.certificate_exact fun name hmem => ?_
    rw [get_certificate]
    simp only [structuredFunctionFields, mem_cons, not_mem_nil, or_false] at hmem
    obtain rfl | rfl | rfl | rfl | rfl := hmem
    · simpa using h.ordinal
    · simpa using Dictionary.sub_eq_some_iff.1 h.contract
    · simpa using h.site
    · simpa using h.symbol
    · simpa using Dictionary.sub_eq_some_iff.1 h.handoff
  · intro h
    have hget (name : String) := (congrArg (Dictionary.get · name) h).trans (d.get_certificate name)
    refine ⟨h ▸ d.certificate_exact, ?_, ?_, ?_, Dictionary.sub_eq_some_iff.2 ?_,
      Dictionary.sub_eq_some_iff.2 ?_⟩
    · simpa using hget "mdsl.capture_ordinal"
    · simpa using hget "mdsl.site_id"
    · simpa using hget "mdsl.source_semantic_symbol"
    · simpa using hget "mdsl.semantic_contract"
    · simpa using hget "mdsl.structured_handoff"

end SiteData

/-- The strings of a function's attributes have no types. -/
structure Function.Untyped (f : Function) : Prop where
  attributes : Handoff.Untyped f.attributes
  handoff : ∀ handoff, f.attributes.sub "mdsl.structured_handoff" = some handoff →
    Handoff.Untyped handoff
  markers : ∀ block ∈ f.blocks, ∀ op ∈ block.ops, Handoff.Untyped op.attributes

variable {name : String}

theorem sub_of_getDictionary {d : Dict} {entries : Entries Ty}
    (h : getDictionary d.entries name = some entries) :
    ∃ e, d.sub name = some e ∧ e.entries = entries := by
  have hget : d.get name = some (.dictionary entries) := getDictionary_eq_some.1 h
  have hcanonical := Dictionary.get_canonical hget
  exact ⟨⟨entries, hcanonical.1, hcanonical.2⟩, Dictionary.sub_eq_some_iff.2 hget, rfl⟩

theorem getDictionary_of_sub {d e : Dict} (h : d.sub name = some e) :
    getDictionary d.entries name = some e.entries :=
  getDictionary_eq_some.2 (Dictionary.sub_eq_some_iff.1 h)

variable {f : Function}

theorem Function.isPublic_of_isPlain (h : f.isPlain = true) : f.isPublic = true := by
  unfold isPlain at h
  simp only [and_eq_true, Option.isNone_iff_eq_none] at h
  simp [isPublic, h.2]

variable {ordinal : ℕ}

theorem certified_of_verify {verified : VerifiedSite}
    (h : verifyStructuredHandoffSiteCertificateV1 dialect f ordinal gemmCertificateProfile =
      .ok verified) (huntyped : f.Untyped) :
    functionVerified dialect f = true ∧ f.isPlain = true ∧
      f.name = ascii "__matcore_structured_" ++ verified.siteId ∧
      verified.sourceSemanticSymbol = ascii "__matcore_semantic_" ++ verified.siteId ∧
      ∀ d : SiteData, d.site = verified.siteId → d.ordinal = ordinal →
        d.contract = verified.semanticContract → d.Certified f := by
  unfold verifyStructuredHandoffSiteCertificateV1 at h
  rw [check_eq_ok, check_eq_ok, check_eq_ok, check_eq_ok, require_eq_ok,
    requireExactNames_eq_ok (by decide), require_eq_ok] at h
  obtain ⟨-, hverified, hexact, hplain, h⟩ := h
  split at h
  · rename_i site symbol contract handoff hsite hsymbol hcontract hhandoff
    rw [check_eq_ok, check_eq_ok, check_eq_ok, require_eq_ok, require_eq_ok] at h
    obtain ⟨hidentity, hnames, hattribute, h⟩ := h
    obtain rfl := Except.ok.inj h
    simp only [and_eq_true, decide_eq_true_eq] at hidentity hnames
    obtain ⟨⟨⟨-, hordinal⟩, -⟩, -⟩ := hidentity
    obtain ⟨hname, rfl⟩ := hnames
    refine ⟨hverified, hplain, hname, rfl, ?_⟩
    intro d hd hdOrdinal hdContract
    obtain ⟨e, hsub, rfl⟩ := sub_of_getDictionary hhandoff
    rw [verifyHandoffAttribute_iff (huntyped.handoff e hsub)] at hattribute
    refine ⟨hexact, ?_, ?_, ?_, ?_, ?_⟩
    · rw [hdOrdinal]
      exact getInteger_eq_some.1 hordinal
    · rw [hd]
      exact huntyped.attributes.get hsite
    · rw [hd]
      exact huntyped.attributes.get hsymbol
    · rw [hdContract]
      exact hcontract
    · rw [hsub, hattribute]
  · cases h

variable {d : SiteData}

theorem SiteData.Certified.siteString (h : d.Certified f) :
    getString f.attributes.entries "mdsl.site_id" = some d.site :=
  getString_eq_some.2 ⟨none, h.site⟩

theorem SiteData.Certified.symbolString (h : d.Certified f) :
    getString f.attributes.entries "mdsl.source_semantic_symbol" =
      some (ascii "__matcore_semantic_" ++ d.site) :=
  getString_eq_some.2 ⟨none, h.symbol⟩

theorem verify_of_certified (hverified : functionVerified dialect f = true)
    (hplain : f.isPlain = true) (hname : f.name = ascii "__matcore_structured_" ++ d.site)
    (hsite : d.site ≠ []) (hcontract : d.contract.Exact gemmContractFields) (h : d.Certified f) :
    verifyStructuredHandoffSiteCertificateV1 dialect f d.ordinal gemmCertificateProfile =
      .ok ⟨d.site, ascii "__matcore_semantic_" ++ d.site, d.contract⟩ := by
  have hsiteString := h.siteString
  have hsymbolString := h.symbolString
  have hhandoff := getDictionary_of_sub h.handoff
  have hattribute : verifyHandoffAttribute (handoffAttribute gemmCertificateProfile).entries
      gemmCertificateProfile = .ok () :=
    (verifyHandoffAttribute_iff (handoffAttribute_untyped gemmCertificateProfile)).2 rfl
  have hordinal : getInteger f.attributes.entries "mdsl.capture_ordinal" =
      some (64, (d.ordinal : ℤ)) := getInteger_eq_some.2 h.ordinal
  have hnames : d.contract.names ≠ [] := by
    intro hempty
    have := (hcontract "site_id").2 (by decide)
    rw [hempty] at this
    cases this
  unfold verifyStructuredHandoffSiteCertificateV1
  rw [check_eq_ok, check_eq_ok, check_eq_ok, check_eq_ok, require_eq_ok,
    requireExactNames_eq_ok (by decide), require_eq_ok]
  refine ⟨verifyProfile_gemm, hverified, h.exact, hplain, ?_⟩
  rw [hsiteString, hsymbolString, h.contract, hhandoff]
  rw [check_eq_ok, check_eq_ok, check_eq_ok, require_eq_ok, require_eq_ok]
  refine ⟨?_, ?_, hattribute, rfl⟩
  · rw [hordinal, Function.isPublic_of_isPlain hplain]
    simp [hsite, hnames]
  · rw [hname]
    simp [gemmCertificateProfile]

theorem get_marker (site : Bytes) (role name : String) :
    (marker site role).get name =
      if "mdsl.structured_role" = name then some (.string (ascii role) none)
      else if "mdsl.site_id" = name then some (.string site none) else none := by
  unfold marker
  rw [get_setString, get_setString, get_empty]

theorem marker_untyped (site : Bytes) (role : String) : Untyped (marker site role) := by
  intro name value type h
  rw [get_marker] at h
  split_ifs at h <;> simp_all

def markerFields : List String := ["mdsl.site_id", "mdsl.structured_role"]

theorem marker_exact (site : Bytes) (role : String) : (marker site role).Exact markerFields := by
  refine exact_of_get fun name => ?_
  rw [get_marker]
  simp only [markerFields, mem_cons, not_mem_nil, or_false]
  split_ifs <;> simp_all [eq_comm]

variable {op : Op} {site : Bytes}

theorem hasExactMarker_iff {role : String} (h : Untyped op.attributes) :
    hasExactMarker op site role = .ok () ↔ op.attributes = marker site role := by
  unfold hasExactMarker
  rw [check_eq_ok, requireExactNames_eq_ok (by decide), require_eq_ok]
  simp only [and_eq_true, requireString_iff, decide_eq_true_eq]
  constructor
  · rintro ⟨hexact, hsite, hrole⟩
    refine eq_of_names hexact (marker_exact site role) fun name hmem => ?_
    rw [get_marker]
    simp only [mem_cons, not_mem_nil, or_false] at hmem
    obtain rfl | rfl := hmem
    · simpa using h.get hsite
    · simpa using h.get hrole
  · intro hattributes
    rw [hattributes]
    have hget := get_marker site role
    exact ⟨marker_exact site role, getString_eq_some.2 ⟨none, (hget "mdsl.site_id").trans (by simp)⟩,
      getString_eq_some.2 ⟨none, (hget "mdsl.structured_role").trans (by simp)⟩⟩

namespace SiteData

variable {d : SiteData}

theorem tensors (h : GemmOp.verify d.inputs d.gemm = true) :
    ∃ m k n, d.lhs = .tensor ⟨[m, k], .f32, none⟩ ∧ d.rhs = .tensor ⟨[k, n], .f32, none⟩ ∧
      d.output = .tensor ⟨[m, n], .f32, none⟩ := by
  obtain ⟨a, b, c, m, k, n, hoperands, hlhs, hrhs, houtput, -⟩ := (gemm_facts h).types
  obtain ⟨rfl, rfl, rfl⟩ : 0 = a ∧ 1 = b ∧ 2 = c := by simpa [gemm] using hoperands
  exact ⟨m, k, n, by simpa [inputs] using hlhs, by simpa [inputs] using hrhs,
    by simpa [inputs] using houtput⟩

end SiteData

variable {last constant fill matmul : Op}

theorem verifyStructuredOps_structured (hgemm : GemmOp.verify d.inputs d.gemm = true)
    (hlocation : f.location = d.location) (hresults : f.results = [d.output])
    (hconstant : constant.normal = zeroOp d.location)
    (hfill : fill.normal = fillOp d.site d.output d.location)
    (hmatmul : matmul.normal = matmulOp d.site d.output d.location)
    (hlast : last.normal = returnOp 5 d.location) :
    verifyStructuredOps f d.site d.inputs constant fill matmul last = .ok () := by
  obtain ⟨m, k, n, hlhs, hrhs, houtput⟩ := SiteData.tensors hgemm
  rw [Op.ext_iff] at hconstant hfill hmatmul hlast
  obtain ⟨hcKind, _, hcResults, hcAttributes, _, hcLocation⟩ := hconstant
  obtain ⟨hfKind, hfOperands, hfResults, hfAttributes, hfRegion, hfLocation⟩ := hfill
  obtain ⟨hmKind, hmOperands, hmResults, hmAttributes, hmRegion, hmLocation⟩ := hmatmul
  obtain ⟨hlKind, hlOperands, hlResults, hlAttributes, hlRegion, hlLocation⟩ := hlast
  simp only [Op.normal, zeroOp, fillOp, matmulOp, returnOp] at *
  rw [hfLocation] at hfRegion
  rw [hmLocation] at hmRegion
  have hfMarker : hasExactMarker fill d.site overwriteRole = .ok () :=
    (hasExactMarker_iff (hfAttributes ▸ marker_untyped d.site overwriteRole)).2 hfAttributes
  have hmMarker : hasExactMarker matmul d.site contractionRole = .ok () :=
    (hasExactMarker_iff (hmAttributes ▸ marker_untyped d.site contractionRole)).2 hmAttributes
  have hmaps : verifyDefaultMatmulMaps (d.inputs ++ constant.results ++ fill.results) matmul.operands
      .castSigned defaultMatmulMaps = .ok () := by
    rw [hcResults, hfResults, hmOperands]
    simp [verifyDefaultMatmulMaps, SiteData.inputs, hlhs, hrhs, houtput, Ty.asTensor, require,
      defaultMatmulMaps, matmulIterators, canonicalGemmTopology, ok_bind]
  unfold verifyStructuredOps
  rw [hcKind, hfKind, hmKind, hlKind]
  simp only [check_eq_ok, require_eq_ok]
  refine ⟨?_, ?_, ?_, hfMarker, ?_, hmMarker, ?_, ?_, plain_of_matmulRegion hmRegion,
    verify_of_fillRegion hfRegion, hmaps, verify_of_matmulRegion hmRegion⟩
  · rw [hcAttributes, hlAttributes]
    rfl
  · simp [hcResults]
  · simp [hfResults, hfOperands]
  · simp [hmResults, hmOperands]
  · simp [hlOperands, hmResults, hresults]
  · simp [hcLocation, hfLocation, hmLocation, hlLocation, hlocation]

/-- The contract of a site is all that the handoff asks for. -/
structure SiteData.Valid (d : SiteData) (sourceFile : Bytes) : Prop where
  verified : GemmOp.verify d.inputs d.gemm = true
  explicit : d.Explicit sourceFile
  exact : d.contract.Exact gemmContractFields
  untyped : d.contract.get "site_id" = some (.string d.site none)

theorem SiteData.site_ne (hgemm : GemmOp.verify d.inputs d.gemm = true)
    (h : getString d.contract.entries "site_id" = some d.site) : d.site ≠ [] := by
  obtain ⟨site, hsite, hcanonical⟩ := (gemm_facts hgemm).site
  have hsame : some site = some d.site := hsite.symm.trans h
  obtain rfl := Option.some.inj hsame
  intro hempty
  rw [hempty] at hcanonical
  simp [isCanonicalSiteId] at hcanonical

namespace SiteData.Valid

variable {d : SiteData} {sourceFile : Bytes}

theorem site_ne (h : d.Valid sourceFile) : d.site ≠ [] :=
  SiteData.site_ne h.verified h.explicit.site

theorem provenance (h : d.Valid sourceFile) (hf : d.Certified f) :
    verifyContractProvenance f d.contract.entries sourceFile (ascii explicitGemmF32Profile) = true := by
  have hsite : d.contract.entries.get "site_id" = f.attributes.get "mdsl.site_id" :=
    h.untyped.trans hf.site.symm
  unfold verifyContractProvenance
  rw [hsite, h.explicit.file.symm, h.explicit.profile.symm]
  simp [field]

end SiteData.Valid

section
variable {d : SiteData} {sourceFile : Bytes} {f : Function}

theorem ops_of_normal (h : f.normal = d.structured) :
    ∃ constant fill matmul last, f.blocks =
        [⟨entryArguments d.inputs d.location, [constant, fill, matmul, last]⟩] ∧
      constant.normal = zeroOp d.location ∧ fill.normal = fillOp d.site d.output d.location ∧
      matmul.normal = matmulOp d.site d.output d.location ∧ last.normal = returnOp 5 d.location := by
  have hblocks : f.blocks.map (fun block => (⟨block.arguments, block.ops.map (·.normal)⟩ : Block)) =
      [⟨entryArguments d.inputs d.location, structuredOps d.site d.inputs d.location⟩] :=
    congrArg Function.blocks h
  obtain ⟨⟨arguments, ops⟩, hf, hblock⟩ := List.map_eq_singleton_iff.1 hblocks
  rw [Block.mk.injEq] at hblock
  obtain ⟨rfl, hops⟩ := hblock
  match ops with
  | [constant, fill, matmul, last] =>
    simp only [map_cons, map_nil, structuredOps, List.cons.injEq, and_true] at hops
    exact ⟨constant, fill, matmul, last, hf, hops.1, hops.2.1, hops.2.2.1, hops.2.2.2⟩
  | [] | [_] | [_, _] | [_, _, _] | _ :: _ :: _ :: _ :: _ :: _ => simp [structuredOps] at hops

theorem functionVerified_structured (hdialect : Documented dialect)
    (hgemm : GemmOp.verify d.inputs d.gemm = true) (h : f.normal = d.structured) :
    functionVerified dialect f = true := by
  obtain ⟨constant, fill, matmul, last, hblocks, hconstant, hfill, hmatmul, hlast⟩ := ops_of_normal h
  obtain ⟨m, k, n, hlhs, hrhs, houtput⟩ := SiteData.tensors hgemm
  have hinputs : f.inputs = d.inputs := congrArg Function.inputs h
  have hresults : f.results = [d.output] := congrArg Function.results h
  have hcFields := Op.ext_iff.1 hconstant
  have hfFields := Op.ext_iff.1 hfill
  have hmFields := Op.ext_iff.1 hmatmul
  have hlFields := Op.ext_iff.1 hlast
  simp only [Op.normal, zeroOp, fillOp, matmulOp, returnOp, List.map_eq_nil_iff]
    at hcFields hfFields hmFields hlFields
  have hdialectFill : dialect (d.inputs ++ [.f32]) fill = true := by
    rw [houtput] at hfill
    exact hdialect.fill hfill (by simp [SiteData.inputs]) (by simp [SiteData.inputs, houtput]) rfl
  have hdialectMatmul : dialect (d.inputs ++ [.f32] ++ [d.output]) matmul = true := by
    have hfirst : (d.inputs ++ [.f32] ++ [d.output])[0]? = some (.tensor ⟨[m, k], .f32, none⟩) := by
      simp [SiteData.inputs, hlhs]
    have hsecond : (d.inputs ++ [.f32] ++ [d.output])[1]? = some (.tensor ⟨[k, n], .f32, none⟩) := by
      simp [SiteData.inputs, hrhs]
    have hthird : (d.inputs ++ [.f32] ++ [d.output])[4]? = some (.tensor ⟨[m, n], .f32, none⟩) := by
      simp [SiteData.inputs, houtput]
    rw [houtput] at hmatmul
    exact hdialect.matmul hmatmul hfirst hsecond hthird
  have harguments : (entryArguments d.inputs d.location).map Prod.fst = d.inputs := by
    simp [entryArguments, SiteData.inputs]
  unfold functionVerified
  rw [hblocks, hinputs, hresults]
  simp only [harguments, List.all_cons, List.all_nil, Bool.and_true, blockVerified, opsVerified,
    opVerified, hcFields, hfFields, hmFields, hlFields, hdialectFill, hdialectMatmul]
  simp [SiteData.inputs, Constant.type, OpKind.isTerminator, Ty.f32, hlFields]

/-- The verifier takes what is written for a site, whatever the locations inside its regions. -/
theorem verifyStructuredFunction_structured (hdialect : Documented dialect)
    (hvalid : d.Valid sourceFile) (h : f.normal = d.structured) :
    verifyStructuredFunction dialect sourceFile (ascii explicitGemmF32Profile) d.ordinal f =
      .ok () := by
  obtain ⟨constant, fill, matmul, last, hblocks, hconstant, hfill, hmatmul, hlast⟩ := ops_of_normal h
  have hcertified : d.Certified f := (d.certified_iff f).2 (congrArg Function.attributes h)
  have hinputs : f.inputs = d.inputs := congrArg Function.inputs h
  have hresults : f.results = [d.output] := congrArg Function.results h
  have hlocation : f.location = d.location := congrArg Function.location h
  have hplain : f.isPlain = true := (congrArg Function.isPlain h : f.normal.isPlain = _)
  have hname : f.name = ascii "__matcore_structured_" ++ d.site := congrArg Function.name h
  have hfunction := functionVerified_structured hdialect hvalid.verified h
  have hcertificate := verify_of_certified hfunction hplain hname hvalid.site_ne hvalid.exact hcertified
  have hops := verifyStructuredOps_structured hvalid.verified hlocation hresults hconstant hfill hmatmul
    hlast
  have harguments : (entryArguments d.inputs d.location).map Prod.fst = d.inputs := by
    simp [entryArguments, SiteData.inputs]
  unfold verifyStructuredFunction
  rw [hcertificate, ok_bind, check_eq_ok, require_eq_ok]
  refine ⟨by simp [hinputs, hresults, SiteData.inputs], ?_⟩
  rw [check_eq_ok, check_eq_ok, check_eq_ok, requireExactNames_eq_ok (by decide),
    require_eq_ok, hblocks]
  refine ⟨hvalid.exact, (gemm_facts hvalid.verified).storage, hvalid.provenance hcertified, ?_⟩
  rw [check_eq_ok, require_eq_ok, harguments]
  exact ⟨by simp [entryArguments, hlocation], hops⟩

end

/-- What the checks on the operations say of each. -/
structure CanonicalOps (f : Function) (site : Bytes) (constant fill matmul last : Op) : Prop where
  constantKind : constant.kind = .constant (.f32 0)
  fillKind : fill.kind = .fill 1
  matmulKind : matmul.kind = .matmul 2 .castSigned defaultMatmulMaps
  lastKind : last.kind = .funcReturn
  constantPlain : constant.attributes = .empty
  lastPlain : last.attributes = .empty
  constantResults : constant.results = [.f32]
  fillOperands : fill.operands = [3, 2]
  matmulOperands : matmul.operands = [0, 1, 4]
  lastOperands : last.operands = [5]
  fillMarker : fill.attributes = marker site overwriteRole
  matmulMarker : matmul.attributes = marker site contractionRole
  constantLocation : constant.location = f.location
  fillLocation : fill.location = f.location
  matmulLocation : matmul.location = f.location
  lastLocation : last.location = f.location
  plain : matmul.region.head?.all fun block => block.ops.all fun op => op.attributes.names.isEmpty
  fillRegion : verifyFillScalarRegion fill.region = .ok ()
  matmulRegion : verifyMatmulScalarRegion matmul.region = .ok ()

variable {scope : List Ty}

theorem canonicalOps_of_verify
    (h : verifyStructuredOps f site scope constant fill matmul last = .ok ())
    (hfill : Untyped fill.attributes) (hmatmul : Untyped matmul.attributes) :
    CanonicalOps f site constant fill matmul last := by
  unfold verifyStructuredOps at h
  split at h
  · rename_i value fillInputs matmulInputs cast maps hcKind hfKind hmKind hlKind
    simp only [check_eq_ok, require_eq_ok, hasExactMarker_iff hfill,
      hasExactMarker_iff hmatmul, and_eq_true, decide_eq_true_eq] at h
    obtain ⟨⟨hcPlain, hlPlain⟩, ⟨hcResults, rfl⟩, ⟨⟨rfl, -⟩, hfOperands⟩, hfMarker,
      ⟨⟨rfl, -⟩, hmOperands⟩, hmMarker, ⟨hlOperands, -⟩,
      ⟨⟨⟨hcLocation, hfLocation⟩, hmLocation⟩, hlLocation⟩, hplain, hfRegion, hmaps, hmRegion⟩ := h
    obtain ⟨rfl, rfl⟩ : maps = defaultMatmulMaps ∧ cast = .castSigned := by
      unfold verifyDefaultMatmulMaps at hmaps
      rw [check_eq_ok, check_eq_ok, require_eq_ok, require_eq_ok] at hmaps
      exact ⟨of_decide_eq_true hmaps.1, of_decide_eq_true hmaps.2.1⟩
    exact ⟨hcKind, hfKind, hmKind, hlKind, names_isEmpty hcPlain, names_isEmpty hlPlain, hcResults,
      hfOperands, hmOperands, hlOperands, hfMarker, hmMarker, hcLocation, hfLocation, hmLocation,
      hlLocation, hplain, hfRegion, hmRegion⟩
  · cases h

variable {results : List Ty}

theorem opVerified_constant {value : Constant} (hkind : op.kind = .constant value)
    (h : opVerified dialect results scope op = true) : op.operands = [] ∧ op.region = [] := by
  unfold opVerified at h
  rw [hkind] at h
  simp only [and_eq_true, decide_eq_true_eq, List.isEmpty_iff] at h
  exact ⟨h.2.1.1, h.2.2⟩

variable {inputs : ℕ}

theorem opVerified_structured (hkind : op.kind.inputs? = some inputs)
    (h : opVerified dialect results scope op = true) : dialect scope op = true := by
  unfold opVerified at h
  rw [and_eq_true] at h
  obtain ⟨-, h⟩ := h
  split at h
  case h_4 | h_5 | h_6 => exact h
  all_goals
    rename_i hop
    rw [hop] at hkind
    cases hkind

theorem results_of_ties (hdialect : Documented dialect) {output : ℕ} {type : Ty}
    (h : dialect scope op = true) (hkind : op.kind.inputs? = some inputs)
    (houtput : op.operands.drop inputs = [output]) (htype : scope[output]? = some type) :
    op.results = [type] := by
  have hties := hdialect.ties h hkind
  rw [houtput, List.map_singleton, htype] at hties
  exact List.map_injective_iff.2 (fun _ _ => Option.some.inj) hties

theorem region_f32 (hdialect : Documented dialect) (hgemm : GemmOp.verify d.inputs d.gemm = true)
    (h : dialect scope op = true) (hoperands : op.operands = [0, 1, 4])
    (hkind : op.kind.inputs? = some 2)
    (hscope : [scope[0]?, scope[1]?, scope[4]?] = [some d.lhs, some d.rhs, some d.output]) :
    ∀ block ∈ op.region, ∀ argument ∈ block.arguments, argument.1 = Ty.f32 := by
  obtain ⟨m, k, n, hlhs, hrhs, houtput⟩ := SiteData.tensors hgemm
  obtain ⟨hfirst, hsecond, hthird⟩ : scope[0]? = some d.lhs ∧ scope[1]? = some d.rhs ∧
      scope[4]? = some d.output := by simpa using hscope
  intro block hblock argument hargument
  have harguments := hdialect.arguments h hkind block hblock
  have hmem := List.mem_map_of_mem (f := fun argument => some argument.1) hargument
  rw [harguments, hoperands] at hmem
  simpa [hfirst, hsecond, hthird, hlhs, hrhs, houtput, Ty.elementType, Ty.f32] using hmem

theorem plain_of_head {region : List ScalarBlock} (h : verifyMatmulScalarRegion region = .ok ())
    (hplain : region.head?.all fun block => block.ops.all fun op => op.attributes.names.isEmpty) :
    ∀ block ∈ region, ∀ scalar ∈ block.ops, scalar.attributes.names.isEmpty = true := by
  match region with
  | [first] =>
    intro block hblock scalar hscalar
    rw [List.mem_singleton.1 hblock] at hscalar
    simp only [List.head?_cons, Option.all_some, List.all_eq_true] at hplain
    exact hplain scalar hscalar
  | [] | _ :: _ :: _ => cases h

theorem normal_of_canonicalOps (hdialect : Documented dialect)
    (h : CanonicalOps f d.site constant fill matmul last) (hlocation : f.location = d.location)
    (hverified : opsVerified dialect f.results d.inputs [constant, fill, matmul, last] = true) :
    f.results = [d.output] ∧ (GemmOp.verify d.inputs d.gemm = true →
      constant.normal = zeroOp d.location ∧ fill.normal = fillOp d.site d.output d.location ∧
      matmul.normal = matmulOp d.site d.output d.location ∧ last.normal = returnOp 5 d.location) := by
  simp only [opsVerified, Bool.and_true, and_eq_true] at hverified
  obtain ⟨hconstant, hfill, hmatmul, hlast⟩ := hverified
  have hfKind : fill.kind.inputs? = some 1 := by rw [h.fillKind]; rfl
  have hmKind : matmul.kind.inputs? = some 2 := by rw [h.matmulKind]; rfl
  obtain ⟨hcOperands, hcRegion⟩ := opVerified_constant h.constantKind hconstant
  have hfDialect := opVerified_structured hfKind hfill
  have hmDialect := opVerified_structured hmKind hmatmul
  obtain ⟨hlTypes, hlResults, hlRegion⟩ := opVerified_return h.lastKind hlast
  have hfResults : fill.results = [d.output] :=
    results_of_ties hdialect hfDialect hfKind (by rw [h.fillOperands]; rfl)
      (by simp [h.constantResults, SiteData.inputs])
  have hmResults : matmul.results = [d.output] :=
    results_of_ties hdialect hmDialect hmKind (by rw [h.matmulOperands]; rfl)
      (by simp [h.constantResults, hfResults, SiteData.inputs])
  have hresults : f.results = [d.output] := by
    rw [h.lastOperands] at hlTypes
    refine List.map_injective_iff.2 (fun _ _ => Option.some.inj) (hlTypes.symm.trans ?_)
    simp [h.constantResults, hfResults, hmResults, SiteData.inputs]
  refine ⟨hresults, fun hgemm => ⟨?_, ?_, ?_, ?_⟩⟩
  · refine Op.ext h.constantKind hcOperands h.constantResults h.constantPlain ?_
      (h.constantLocation.trans hlocation)
    change constant.region.map _ = []
    rw [hcRegion, map_nil]
  · refine Op.ext h.fillKind h.fillOperands hfResults h.fillMarker ?_ (h.fillLocation.trans hlocation)
    change fill.region.map (·.relocate fill.location) = fillRegion d.location
    rw [h.fillLocation, hlocation]
    refine fillRegion_of_verify d.location h.fillRegion fun block hblock hf32 scalar hscalar => ?_
    exact (hdialect.scalars hfDialect hfKind block hblock hf32 scalar hscalar).1
  · refine Op.ext h.matmulKind h.matmulOperands hmResults h.matmulMarker ?_
      (h.matmulLocation.trans hlocation)
    change matmul.region.map (·.relocate matmul.location) = matmulRegion d.location
    rw [h.matmulLocation, hlocation]
    have hscalars := region_f32 hdialect hgemm hmDialect h.matmulOperands hmKind
      (by simp [h.constantResults, hfResults, SiteData.inputs])
    refine matmulRegion_of_verify d.location h.matmulRegion hscalars ?_ ?_
    · exact plain_of_head h.matmulRegion h.plain
    · intro block hblock scalar hscalar
      exact hdialect.scalars hmDialect hmKind block hblock (hscalars block hblock) scalar hscalar
  · refine Op.ext h.lastKind h.lastOperands hlResults h.lastPlain ?_ (h.lastLocation.trans hlocation)
    change last.region.map _ = []
    rw [hlRegion, map_nil]

/-- The witness of a site is that site, without what the bridge leaves open. -/
theorem witnessFunction_of_certified (h : d.Certified f) (hinputs : f.inputs = d.inputs)
    (hresults : f.results = [d.output]) (hlocation : f.location = d.location) :
    witnessFunction f = .ok (d.semantic {}) := by
  have hsite := h.siteString
  have hsymbol := h.symbolString
  have hattributes : (Dictionary.empty.setFrom "mdsl.capture_ordinal" f.attributes
      "mdsl.capture_ordinal").setFrom "mdsl.site_id" f.attributes "mdsl.site_id" =
      d.semanticAttributes none := by
    refine ext_get fun name => ?_
    rw [d.get_semanticAttributes, get_setFrom, get_setFrom, h.site, h.ordinal,
      Option.some_or, Option.some_or, get_empty]
  unfold witnessFunction
  rw [hsite, hsymbol, h.contract]
  rw [hattributes, hinputs, hresults, hlocation]
  rfl

/-- A function that the verifier takes is a site up to locations, if its witness is one. -/
theorem normal_of_verifyStructuredFunction (hdialect : Documented dialect)
    {sourceFile profile : Bytes} (huntyped : f.Untyped)
    (h : verifyStructuredFunction dialect sourceFile profile ordinal f = .ok ()) :
    ∃ d : SiteData, d.ordinal = ordinal ∧ witnessFunction f = .ok (d.semantic {}) ∧
      d.contract.Exact gemmContractFields ∧ d.contract.get "site_id" = some (.string d.site none) ∧
      (GemmOp.verify d.inputs d.gemm = true → f.normal = d.structured) := by
  unfold verifyStructuredFunction at h
  obtain ⟨verified, hcertificate, h⟩ := Except.bind_eq_ok h
  obtain ⟨hverified, hplain, hname, -, hcertified⟩ := certified_of_verify hcertificate huntyped
  rw [check_eq_ok, require_eq_ok] at h
  obtain ⟨hcounts, h⟩ := h
  rw [check_eq_ok, check_eq_ok, check_eq_ok, requireExactNames_eq_ok (by decide),
    require_eq_ok] at h
  obtain ⟨hexact, -, hprovenance, h⟩ := h
  split at h
  · rename_i block hblocks
    split at h
    · rename_i constant fill matmul last hops
      rw [check_eq_ok, require_eq_ok] at h
      obtain ⟨hlocations, h⟩ := h
      obtain ⟨hinputs, hverifiedOps⟩ := functionVerified_spec hblocks hverified
      simp only [and_eq_true, decide_eq_true_eq] at hcounts
      obtain ⟨lhs, rhs, output, htypes⟩ := List.length_eq_three.1 hcounts.1
      let d : SiteData := ⟨verified.siteId, ordinal, lhs, rhs, output, verified.semanticContract,
        f.location⟩
      have hd : d.Certified f := hcertified d rfl rfl rfl
      have hfillUntyped : Untyped fill.attributes :=
        huntyped.markers block (by simp [hblocks]) fill (by simp [hops])
      have hmatmulUntyped : Untyped matmul.attributes :=
        huntyped.markers block (by simp [hblocks]) matmul (by simp [hops])
      -- locations apart, the four operations are those that lowering the site gives
      have hcanonical := canonicalOps_of_verify h hfillUntyped hmatmulUntyped
      have hdInputs : f.inputs = d.inputs := htypes
      rw [hops, hdInputs] at hverifiedOps
      obtain ⟨hresults, hnormal⟩ := normal_of_canonicalOps hdialect (d := d) hcanonical rfl hverifiedOps
      refine ⟨d, rfl, ?_, hexact, ?_, fun hgemm => ?_⟩
      · exact witnessFunction_of_certified hd hdInputs hresults rfl
      · unfold verifyContractProvenance at hprovenance
        simp only [and_eq_true, decide_eq_true_eq] at hprovenance
        exact hprovenance.1.1.trans hd.site
      · have hops' := hnormal hgemm
        have harguments : block.arguments = entryArguments d.inputs d.location := by
          rw [← hdInputs, ← hinputs]
          exact eq_entryArguments (by simpa using hlocations)
        simp only [Function.isPlain, and_eq_true, Option.isNone_iff_eq_none,
          Bool.not_eq_true'] at hplain
        obtain ⟨⟨⟨hargAttrs, hresAttrs⟩, hnoInline⟩, hvisibility⟩ := hplain
        refine Function.ext hname htypes hresults ((d.certified_iff f).1 hd) hargAttrs hresAttrs
          hnoInline hvisibility rfl ?_
        change f.blocks.map _ = _
        rw [hblocks, List.map_singleton, hops, harguments]
        simp only [map_cons, map_nil, hops'.1, hops'.2.1, hops'.2.2.1, hops'.2.2.2]
        rfl
    · cases h
  · cases h

end Matcore.Handoff
