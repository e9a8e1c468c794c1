import Matcore.Proof.StructuredModule

/-!
# The structured handoff is exact

What is derived, what its verifier takes and what the comparison takes are the structured modules of
the same sites.
-/

namespace Matcore.Handoff

open Except (check_eq_ok bind_eq_ok ok_bind ok)
open List (find?_eq_none mem_cons_self mem_cons_of_mem map_cons mem_map mem_singleton mem_cons
  all_map)
open Mlir (Bytes ascii)
open AttributeDict (Dictionary Entries)
open Prod (snd fst)

variable {dialect : List Ty → Op → Bool} {digest : Fingerprint → Bytes}

section
variable {d : SiteData} {open' : SiteData.Freedom}

theorem selectExact_eq_ok {names : List String} (hnames : names.Nodup) {operation : Op}
    {context : String} {contract : Dict} :
    selectExactSemanticContractV1 operation names context = .ok contract ↔
      operation.attributes.Exact names ∧ contract = operation.attributes := by
  unfold selectExactSemanticContractV1
  constructor
  · intro h
    split at h
    · cases h
    · rw [check_eq_ok, requireExactNames_eq_ok hnames] at h
      exact ⟨h.1, (ok.inj h.2).symm⟩
  · rintro ⟨hexact, rfl⟩
    have hfind : names.find? (fun name => (operation.attributes.get name).isNone) = none := by
      refine find?_eq_none.2 fun name hname => ?_
      obtain ⟨value, hvalue⟩ := get_isSome hexact hname
      simp [hvalue]
    rw [hfind]
    rw [check_eq_ok, requireExactNames_eq_ok hnames]
    exact ⟨hexact, rfl⟩

theorem siteCertificate_semantic :
    siteCertificate (d.semantic open') d.contract d.site gemmCertificateProfile = d.certificate := by
  refine Dictionary.ext_get fun name => ?_
  have hordinal : (d.semantic open').attributes.get "mdsl.capture_ordinal" =
      some (.integer 64 d.ordinal) := (d.get_semanticAttributes open'.siteType _).trans (by simp)
  rw [d.get_certificate]
  unfold siteCertificate
  rw [Dictionary.get_set, Dictionary.get_set, Dictionary.get_setString, Dictionary.get_setString,
    Dictionary.get_setFrom, hordinal, Option.some_or, Dictionary.get_empty]
  rfl

/-- A site is written as its structured function, if its contract is exact. -/
theorem appendSite_semantic (hsite : getString d.contract.entries "site_id" = some d.site)
    (hne : d.site ≠ []) {operation : TopLevel} :
    appendSite (.func (d.semantic open')) = .ok operation ↔
      d.contract.Exact gemmContractFields ∧ operation = .func d.structured := by
  have hattach : attachStructuredHandoffSiteCertificateV1 (d.semantic open') d.contract d.site
      gemmCertificateProfile = .ok d.certificate := by
    unfold attachStructuredHandoffSiteCertificateV1
    rw [check_eq_ok, check_eq_ok, check_eq_ok, require_eq_ok, require_eq_ok, SiteData.semantic_site]
    refine ⟨verifyProfile_gemm, by simpa using hne, ?_, ?_⟩
    · simp [Function.firstOp, SiteData.semantic, SiteData.gemm, OpKind.name, gemmCertificateProfile]
    · exact congrArg ok siteCertificate_semantic
  have hfirst : (d.semantic open').firstOp = some d.gemm := rfl
  have hcontract : d.gemm.attributes = d.contract := rfl
  unfold appendSite
  dsimp only
  rw [hfirst]
  dsimp only
  unfold appendStructuredFunction
  constructor
  · intro h
    obtain ⟨target, htarget, h⟩ := bind_eq_ok h
    obtain ⟨contract, hselected, htarget⟩ := bind_eq_ok htarget
    obtain ⟨hexact, rfl⟩ := (selectExact_eq_ok (by decide)).1 hselected
    rw [hcontract, hsite] at htarget
    dsimp only at htarget
    rw [Option.getD_some, hattach, ok_bind] at htarget
    obtain rfl := ok.inj htarget
    obtain rfl := ok.inj h
    exact ⟨hexact, rfl⟩
  · rintro ⟨hexact, rfl⟩
    rw [(selectExact_eq_ok (by decide)).2 ⟨hexact, rfl⟩, ok_bind, hcontract, hsite]
    dsimp only
    rw [Option.getD_some, hattach]
    rfl

end

/-- The structured module that is written for these sites. -/
def structuredModule (location : Location) (source : Dict) (sites : List SiteData) : Module :=
  ⟨location, certificateAttributes source gemmCertificateProfile,
    sites.map fun d => .func d.structured⟩

theorem mapM_appendSite {sites : List SiteData} {body : List TopLevel}
    (h : Sites IsSemantic sites body)
    (hsite : ∀ d ∈ sites, getString d.contract.entries "site_id" = some d.site ∧ d.site ≠ [])
    {target : List TopLevel} :
    body.mapM appendSite = .ok target ↔
      (∀ d ∈ sites, d.contract.Exact gemmContractFields) ∧
        target = sites.map fun d => .func d.structured := by
  unfold Sites at h
  induction h generalizing target with
  | nil =>
    constructor
    · exact fun hok => ⟨nofun, (ok.inj hok).symm⟩
    · rintro ⟨-, rfl⟩
      rfl
  | @cons d operation sites body hfirst _ ih =>
    obtain ⟨f, rfl, open', rfl⟩ := hfirst
    have hd := hsite d mem_cons_self
    have ih := @ih fun other hother => hsite other (mem_cons_of_mem _ hother)
    rw [List.mapM_cons, List.forall_mem_cons, map_cons]
    constructor
    · intro hok
      obtain ⟨first, hfirst, hok⟩ := bind_eq_ok hok
      obtain ⟨rest, hrest, hok⟩ := bind_eq_ok hok
      obtain ⟨hexact, rfl⟩ := (appendSite_semantic hd.1 hd.2).1 hfirst
      obtain ⟨hexacts, rfl⟩ := ih.1 hrest
      exact ⟨⟨hexact, hexacts⟩, (ok.inj hok).symm⟩
    · rintro ⟨⟨hexact, hexacts⟩, rfl⟩
      rw [(appendSite_semantic hd.1 hd.2).2 ⟨hexact, rfl⟩, ih.2 ⟨hexacts, rfl⟩]
      rfl

theorem structured_normal (d : SiteData) : d.structured.normal = d.structured := by
  simp [Function.normal, SiteData.structured, structuredOps, Op.normal, zeroOp, fillOp, matmulOp,
    returnOp, fillRegion, matmulRegion, ScalarBlock.relocate]

theorem structuredModule_structured (location : Location) (source : Dict) (sites : List SiteData) :
    StructuredModule (structuredModule location source sites) source sites := by
  refine ⟨rfl, ?_⟩
  unfold Sites
  rw [structuredModule, List.forall₂_map_right_iff]
  exact List.forall₂_same.2 fun d _ => ⟨_, rfl, structured_normal d⟩

theorem collectFields_ok {fields : List (String × Option Attr)}
    (h : ∀ field ∈ fields, field.2.isSome = true) : ∃ values, collectFields fields = .ok values := by
  induction fields with
  | nil => exact ⟨[], rfl⟩
  | cons field rest ih =>
    obtain ⟨name, value⟩ := field
    obtain ⟨value, rfl⟩ := Option.isSome_iff_exists.1 (h _ mem_cons_self)
    obtain ⟨values, hvalues⟩ := ih fun other hother => h other (mem_cons_of_mem _ hother)
    refine ⟨(name, value) :: values, ?_⟩
    rw [collectFields, hvalues]
    rfl

theorem computeSemanticFingerprint_ok {fields : List (String × Option Attr)}
    {values : List (String × Attr)} (h : collectFields fields = .ok values) {operation : String}
    (hoperation : operation ≠ "") {symbol : Bytes} (hsymbol : symbol ≠ []) {site : Bytes} {f : Function}
    {block : Block} (hblocks : f.blocks = [block])
    (hlength : block.arguments.length = f.inputs.length) {contract : Entries Ty} :
    computeSemanticFingerprint fields operation symbol (some site) f (some contract) =
      .ok ⟨values, operation, symbol, site, f.inputs, f.results, f.location,
        block.arguments.map snd, contract⟩ := by
  unfold computeSemanticFingerprint
  rw [hblocks, check_eq_ok, require_eq_ok]
  refine ⟨by simp [hoperation, hsymbol], ?_⟩
  rw [check_eq_ok, require_eq_ok, h]
  exact ⟨by simp [hlength], rfl⟩

section
variable {m t : Module} {sites : List SiteData} {d : SiteData} {f : Function}
  {open' : SiteData.Freedom}

/-- The fields that both fingerprints print. -/
def fingerprintFields (source : Dict) (d : SiteData) : List (String × Option Attr) :=
  moduleMap.map (fun field => (field.1, source.get field.1)) ++
    [("mdsl.capture_ordinal", some (.integer 64 d.ordinal))]

theorem fingerprintFields_isSome {source : Dict} (h : source.Exact semanticModuleFields) :
    ∀ field ∈ fingerprintFields source d, field.2.isSome = true := by
  intro field hmem
  obtain hmapped | hordinal := List.mem_append.1 hmem
  · obtain ⟨pair, hpair, rfl⟩ := mem_map.1 hmapped
    rw [← Dictionary.mem_names_iff, h, semanticModuleFields_perm.mem_iff]
    exact List.mem_map_of_mem hpair
  · rw [mem_singleton.1 hordinal]
    rfl

theorem fingerprint_semantic (hdialect : Documented dialect) (h : TransferableModule m sites)
    (ht : StructuredModule t m.attributes sites) (hf : IsStructured d f) :
    ∃ fingerprint, computeSourceSemanticFingerprintV1 dialect m (d.semantic open') d.contract
        gemmCertificateProfile.sourceOperation = .ok fingerprint ∧
      computeStructuredSemanticFingerprintV1 dialect t f gemmCertificateProfile.sourceOperation =
        .ok fingerprint := by
  obtain ⟨values, hvalues⟩ := collectFields_ok (fingerprintFields_isSome (d := d) h.exact)
  have hcertified : d.Certified f := (d.certified_iff f).2 (congrArg Function.attributes hf)
  have hoperation : gemmCertificateProfile.sourceOperation ≠ "" := by decide
  have hsymbol : ascii "__matcore_semantic_" ++ d.site ≠ [] := by
    intro hempty
    have := congrArg List.length hempty
    simp [ascii] at this
  obtain ⟨constant, fill, matmul, last, hblocks, -⟩ := ops_of_normal hf
  refine ⟨⟨values, gemmCertificateProfile.sourceOperation,
    ascii "__matcore_semantic_" ++ d.site, d.site,
    d.inputs, [d.output], d.location, (entryArguments d.inputs d.location).map snd,
    d.contract.entries⟩, ?_, ?_⟩
  · have henvelope : verifyStructuredHandoffSourceEnvelopeV1 dialect m = .ok () :=
      (semanticModule_iff.2 ⟨sites, h.toSemanticModule⟩).2
    have hordinal : (d.semantic open').attributes.get "mdsl.capture_ordinal" =
        some (.integer 64 d.ordinal) := (d.get_semanticAttributes open'.siteType _).trans (by simp)
    have hfirst : (d.semantic open').firstOp = some d.gemm := rfl
    unfold computeSourceSemanticFingerprintV1
    rw [henvelope, ok_bind, hfirst]
    rw [check_eq_ok, check_eq_ok, require_eq_ok, require_eq_ok, hordinal, SiteData.semantic_site]
    refine ⟨by simp [SiteData.gemm, OpKind.name, gemmCertificateProfile],
      by simp [SiteData.gemm], ?_⟩
    have hsemanticBlocks : (d.semantic open').blocks =
        [⟨entryArguments d.inputs d.location, [d.gemm, d.last open'.hints]⟩] := rfl
    exact computeSemanticFingerprint_ok hvalues hoperation hsymbol hsemanticBlocks
      (by simp [entryArguments, SiteData.semantic])
  · have hinputs : f.inputs = d.inputs := congrArg Function.inputs hf
    have hresults : f.results = [d.output] := congrArg Function.results hf
    have hlocation : f.location = d.location := congrArg Function.location hf
    have hsite := hcertified.siteString
    have hsymbolString := hcertified.symbolString
    have hhandoff : getString (handoffAttribute gemmCertificateProfile).entries "source_operation" =
        some (ascii gemmCertificateProfile.sourceOperation) :=
      getString_eq_some.2 ⟨none, (get_handoffAttribute gemmCertificateProfile _).trans (by simp)⟩
    have hfields : moduleMap.map (fun field => (field.1, t.attributes.get field.2)) =
        moduleMap.map fun field => (field.1, m.attributes.get field.1) := by
      refine List.map_congr_left fun field hfield => ?_
      rw [ht.attributes, get_certificateAttributes hfield]
    unfold computeStructuredSemanticFingerprintV1
    rw [check_eq_ok, check_eq_ok, require_eq_ok, requireExactNames_eq_ok (by decide)]
    refine ⟨moduleVerified_structured hdialect h ht, hcertified.exact, ?_⟩
    dsimp only
    rw [getDictionary_of_sub hcertified.handoff, Option.bind_some, hhandoff, check_eq_ok,
      require_eq_ok, hsite, hsymbolString, getDictionary_of_sub hcertified.contract, hfields,
      hcertified.ordinal, Option.getD_some]
    refine ⟨by simp, ?_⟩
    refine (computeSemanticFingerprint_ok hvalues hoperation hsymbol hblocks
      (by simp [entryArguments, hinputs])).trans ?_
    rw [hinputs, hresults, hlocation]

theorem selectSourceContract_semantic {contract : Dict} :
    selectSourceContract (d.semantic open') = .ok contract ↔
      d.contract.Exact gemmContractFields ∧ contract = d.contract := by
  have hfirst : (d.semantic open').firstOp = some d.gemm := rfl
  have hkind : d.gemm.kind = .gemm := rfl
  unfold selectSourceContract
  rw [hfirst]
  dsimp only
  rw [if_neg (not_not.2 hkind), selectExact_eq_ok (by decide)]
  rfl

theorem verifyExactEntryArgumentLocations_semantic (hf : IsStructured d f) :
    verifyExactEntryArgumentLocations (d.semantic open') f = .ok () := by
  obtain ⟨constant, fill, matmul, last, hblocks, -⟩ := ops_of_normal hf
  have hsemanticBlocks : (d.semantic open').blocks =
      [⟨entryArguments d.inputs d.location, [d.gemm, d.last open'.hints]⟩] := rfl
  unfold verifyExactEntryArgumentLocations
  rw [hblocks, hsemanticBlocks]
  dsimp only
  rw [if_neg (not_not.2 rfl), require_eq_ok]
  exact decide_eq_true rfl

section

variable (hdialect : Documented dialect)

include hdialect

theorem verifyPair_semantic (h : TransferableModule m sites)
    (ht : StructuredModule t m.attributes sites) (hd : d ∈ sites) (hf : IsStructured d f) :
    verifyPair dialect digest selectSourceContract gemmCertificateProfile m t d.ordinal
      (d.semantic open') f = .ok () := by
  obtain ⟨fingerprint, hsource, htarget⟩ := fingerprint_semantic hdialect h ht hf
  have hinputs : f.inputs = d.inputs := congrArg Function.inputs hf
  have hresults : f.results = [d.output] := congrArg Function.results hf
  have hlocation : f.location = d.location := congrArg Function.location hf
  unfold verifyPair
  rw [selectSourceContract_semantic.2 ⟨h.contract d hd, rfl⟩, ok_bind,
    certified_structured hdialect (h.valid d hd) hf, ok_bind, check_eq_ok,
    check_eq_ok, require_eq_ok, hsource, ok_bind, htarget, ok_bind, require_eq_ok]
  refine ⟨?_, verifyExactEntryArgumentLocations_semantic hf, decide_eq_true rfl⟩
  rw [SiteData.semantic_site, hinputs, hresults, hlocation]
  simp [SiteData.semantic]

variable {sourceFile : Bytes}

theorem eq_of_verifyPair {d' : SiteData}
    (hvalid : d'.Valid sourceFile) (hf : IsStructured d' f) (hordinal : d.ordinal = d'.ordinal)
    (h : verifyPair dialect digest selectSourceContract gemmCertificateProfile m t d'.ordinal
      (d.semantic open') f = .ok ()) : d = d' := by
  have hinputs : f.inputs = d'.inputs := congrArg Function.inputs hf
  have hlocation : f.location = d'.location := congrArg Function.location hf
  unfold verifyPair at h
  obtain ⟨contract, hcontract, h⟩ := bind_eq_ok h
  obtain ⟨-, rfl⟩ := selectSourceContract_semantic.1 hcontract
  rw [certified_structured hdialect hvalid hf, ok_bind, check_eq_ok, require_eq_ok,
    SiteData.semantic_site, hinputs, hlocation] at h
  obtain ⟨hidentity, -⟩ := h
  simp only [Bool.and_eq_true, decide_eq_true_eq, Option.some.injEq] at hidentity
  obtain ⟨⟨⟨⟨⟨hsite', -⟩, hinputs'⟩, -⟩, hlocation'⟩, hcontract'⟩ := hidentity
  have htypes : [d'.lhs, d'.rhs, d'.output] = [d.lhs, d.rhs, d.output] := hinputs'
  obtain ⟨site, ordinal, lhs, rhs, output, contract, location⟩ := d
  obtain ⟨site', ordinal', lhs', rhs', output', contract', location'⟩ := d'
  dsimp only at *
  obtain ⟨rfl, rfl, rfl⟩ := htypes
  subst hsite' hordinal hcontract'
  obtain rfl : location' = location := hlocation'
  rfl

variable {ordinal : ℕ}

theorem verifyPairs_sites (h : TransferableModule m sites)
    (ht : StructuredModule t m.attributes sites) {rest : List SiteData}
    (hrest : ∀ d ∈ rest, d ∈ sites) {sources targets : List TopLevel}
    (hsources : Sites IsSemantic rest sources) (htargets : Sites IsStructured rest targets)
    (hnumbered : Numbered ordinal rest) :
    verifyPairs dialect digest selectSourceContract gemmCertificateProfile m t ordinal sources targets =
      .ok () := by
  unfold Sites at hsources htargets
  induction hsources generalizing ordinal targets with
  | nil =>
    cases htargets
    rfl
  | @cons d _ _ _ hsource _ ih =>
    obtain ⟨_, rfl, open', rfl⟩ := hsource
    cases htargets with
    | cons htarget htargets =>
      obtain ⟨f, rfl, hf⟩ := htarget
      obtain ⟨rfl, hnumbered⟩ := hnumbered
      rw [verifyPairs, check_eq_ok]
      exact ⟨verifyPair_semantic hdialect h ht (hrest d mem_cons_self) hf,
        ih (fun other hother => hrest other (mem_cons_of_mem _ hother)) htargets hnumbered⟩

/-- The comparison goes through both lists at once, and takes no other number of sites. -/
theorem eq_of_verifyPairs {sites' : List SiteData}
    (hvalid : ∀ d ∈ sites', d.Valid sourceFile) {sources targets : List TopLevel}
    (hsources : Sites IsSemantic sites sources) (htargets : Sites IsStructured sites' targets)
    (hnumbered : Numbered ordinal sites) (hnumbered' : Numbered ordinal sites')
    (h : verifyPairs dialect digest selectSourceContract gemmCertificateProfile m t ordinal sources
      targets = .ok ()) : sites = sites' := by
  unfold Sites at hsources htargets
  induction hsources generalizing ordinal targets sites' with
  | nil =>
    cases htargets with
    | nil => rfl
    | cons htarget _ =>
      obtain ⟨f, rfl, -⟩ := htarget
      cases h
  | @cons d _ _ _ hsource _ ih =>
    obtain ⟨_, rfl, open', rfl⟩ := hsource
    cases htargets with
    | nil => cases h
    | @cons d' _ _ _ htarget htargets =>
      obtain ⟨f, rfl, hf⟩ := htarget
      obtain ⟨hordinal, hnumbered⟩ := hnumbered
      obtain ⟨rfl, hnumbered'⟩ := hnumbered'
      rw [verifyPairs, check_eq_ok] at h
      obtain rfl : d = d' := eq_of_verifyPair hdialect (hvalid d' mem_cons_self) hf hordinal h.1
      have hrest := ih (fun other hother => hvalid other (mem_cons_of_mem _ hother)) htargets
        hnumbered hnumbered' h.2
      rw [hrest]

theorem matches_structured (h : TransferableModule m sites)
    (ht : StructuredModule t m.attributes sites) :
    verifyStructuredGemmHandoffMatchesV1 dialect digest m t = .ok () := by
  obtain ⟨hbridge, henvelope⟩ :=
    (semanticModule_iff.2 ⟨sites, h.toSemanticModule⟩ : _ ∧
      verifyStructuredHandoffSourceEnvelopeV1 dialect m = .ok ())
  have hfind : moduleMap.find? (fun field =>
      m.attributes.get field.1 ≠ t.attributes.get field.2) = none := by
    refine find?_eq_none.2 fun field hfield => ?_
    rw [ht.attributes, get_certificateAttributes hfield]
    simp
  unfold verifyStructuredGemmHandoffMatchesV1
  rw [hbridge]
  rw [check_eq_ok, check_eq_ok]
  refine ⟨henvelope, verify_structured hdialect h ht, ?_⟩
  unfold verifyStructuredHandoffCertificateMatchesSourceV1
  rw [check_eq_ok, check_eq_ok, hfind]
  exact ⟨henvelope, envelope_structured hdialect h ht,
    verifyPairs_sites hdialect h ht (fun _ hd => hd) h.body ht.body h.numbered⟩

/-- What the comparison takes is the structured module of the source. -/
theorem structured_of_matches (huntyped : t.Untyped)
    (h : verifyStructuredGemmHandoffMatchesV1 dialect digest m t = .ok ()) :
    ∃ sites, TransferableModule m sites ∧ StructuredModule t m.attributes sites := by
  unfold verifyStructuredGemmHandoffMatchesV1 at h
  split at h
  · cases h
  · rename_i hbridge
    rw [check_eq_ok, check_eq_ok] at h
    obtain ⟨henvelope, hstructured, h⟩ := h
    obtain ⟨sites, hm⟩ := semanticModule_iff.1 ⟨hbridge, henvelope⟩
    obtain ⟨sites', hwitness, ht, -⟩ := structured_of_verify hdialect huntyped hstructured
    unfold verifyStructuredHandoffCertificateMatchesSourceV1 at h
    rw [check_eq_ok, check_eq_ok] at h
    obtain ⟨-, -, h⟩ := h
    split at h
    · cases h
    · rename_i hfind
      obtain rfl : sites = sites' := eq_of_verifyPairs hdialect hwitness.valid hm.body ht.body
        hm.numbered hwitness.numbered h
      have hsame : witnessAttributes t.attributes = m.attributes := by
        refine Dictionary.eq_of_names hwitness.exact hm.exact fun name hmem => ?_
        obtain ⟨field, hfield, rfl⟩ := mem_map.1 (semanticModuleFields_perm.mem_iff.1 hmem)
        have hfound : m.attributes.get field.1 = t.attributes.get field.2 := by
          simpa using find?_eq_none.1 hfind field hfield
        exact (get_witnessAttributes hfield).trans hfound.symm
      rw [hsame] at ht
      exact ⟨sites, ⟨hm, hwitness.nonempty, hwitness.contract, hwitness.untyped⟩, ht⟩

end

theorem structured_untyped (d : SiteData) : d.structured.Untyped := by
  have hcertified : d.Certified d.structured := (d.certified_iff _).2 rfl
  refine ⟨?_, ?_, ?_⟩
  · intro name value type h
    have h := (d.get_certificate name).symm.trans h
    split_ifs at h <;> simp_all [Dictionary.attr]
  · intro handoff h
    obtain rfl := Option.some.inj (hcertified.handoff.symm.trans h)
    exact handoffAttribute_untyped gemmCertificateProfile
  · intro block hblock op hop
    obtain rfl := mem_singleton.1 hblock
    simp only [structuredOps, mem_cons, List.not_mem_nil, or_false] at hop
    obtain rfl | rfl | rfl | rfl := hop
    · exact fun _ _ _ h => by cases h
    · exact marker_untyped d.site overwriteRole
    · exact marker_untyped d.site contractionRole
    · exact fun _ _ _ h => by cases h

/-- The verifier takes a written site only if its contract names the site without a type. -/
theorem contract_untyped (hdialect : Documented dialect) {profile : Bytes}
    (h : verifyStructuredFunction dialect sourceFile profile ordinal d.structured = .ok ()) :
    d.contract.get "site_id" = some (.string d.site none) := by
  obtain ⟨d', -, hwitness, -, hsite, -⟩ :=
    normal_of_verifyStructuredFunction hdialect (structured_untyped d) h
  have hsame : d.semantic {} = d'.semantic {} :=
    ok.inj ((witnessFunction_structured (structured_normal d)).symm.trans hwitness)
  have hgemm : some d.gemm = some d'.gemm := congrArg Function.firstOp hsame
  have hcontract : d.contract = d'.contract := congrArg Op.attributes (Option.some.inj hgemm)
  have hname : d.site = d'.site := List.append_cancel_left (congrArg Function.name hsame)
  rw [hcontract, hname]
  exact hsite

theorem exists_of_forSites {check : ℕ → TopLevel → Except String Unit} {body : List TopLevel}
    (h : forSites check ordinal body = .ok ()) {operation : TopLevel} (hmem : operation ∈ body) :
    ∃ ordinal, check ordinal operation = .ok () := by
  induction body generalizing ordinal with
  | nil => cases hmem
  | cons first rest ih =>
    rw [forSites, check_eq_ok] at h
    obtain rfl | hrest := mem_cons.1 hmem
    · exact ⟨ordinal, h.1⟩
    · exact ih h.2 hrest

theorem derive_iff (hdialect : Documented dialect) :
    deriveStructuredGemmHandoffV1 dialect digest m = .ok t ↔
      ∃ sites, TransferableModule m sites ∧ t = structuredModule m.location m.attributes sites := by
  unfold deriveStructuredGemmHandoffV1
  constructor
  · intro h
    split at h
    · cases h
    · rename_i hbridge
      rw [check_eq_ok, check_eq_ok, require_eq_ok] at h
      obtain ⟨henvelope, hnonempty, h⟩ := h
      obtain ⟨attributes, hattributes, h⟩ := bind_eq_ok h
      obtain ⟨body, hbody, h⟩ := bind_eq_ok h
      rw [check_eq_ok, check_eq_ok] at h
      obtain ⟨hverified, -, h⟩ := h
      obtain ⟨sites, hm⟩ := semanticModule_iff.1 ⟨hbridge, henvelope⟩
      have hsites (d : SiteData) (hd : d ∈ sites) :
          getString d.contract.entries "site_id" = some d.site ∧ d.site ≠ [] :=
        ⟨(hm.explicit d hd).site, SiteData.site_ne (hm.verified d hd) (hm.explicit d hd).site⟩
      obtain ⟨hexact, rfl⟩ := (mapM_appendSite hm.body hsites).1 hbody
      unfold initializeStructuredHandoffCertificateV1 at hattributes
      rw [check_eq_ok, check_eq_ok] at hattributes
      obtain rfl := ok.inj hattributes.2.2
      have hnonempty : sites ≠ [] := by
        intro hempty
        rw [hm.body.nonempty.2 hempty] at hnonempty
        cases hnonempty
      refine ⟨sites, ⟨hm, hnonempty, hexact, fun d hd => ?_⟩, (ok.inj h).symm⟩
      unfold verifyStructuredGemmHandoffV1 at hverified
      rw [check_eq_ok, check_eq_ok] at hverified
      obtain ⟨-, -, hverified⟩ := hverified
      rw [check_eq_ok, check_eq_ok] at hverified
      obtain ⟨ordinal, hfunction⟩ := exists_of_forSites hverified.2.1 (List.mem_map_of_mem hd)
      exact contract_untyped hdialect hfunction
  · rintro ⟨sites, h, rfl⟩
    obtain ⟨hbridge, henvelope⟩ :=
      (semanticModule_iff.2 ⟨sites, h.toSemanticModule⟩ : _ ∧
        verifyStructuredHandoffSourceEnvelopeV1 dialect m = .ok ())
    have hbody : m.body ≠ [] := fun hempty => h.nonempty (h.body.nonempty.1 hempty)
    have hsites (d : SiteData) (hd : d ∈ sites) :
        getString d.contract.entries "site_id" = some d.site ∧ d.site ≠ [] :=
      ⟨(h.explicit d hd).site, SiteData.site_ne (h.verified d hd) (h.explicit d hd).site⟩
    have hattributes : initializeStructuredHandoffCertificateV1 dialect m gemmCertificateProfile =
        .ok (certificateAttributes m.attributes gemmCertificateProfile) := by
      unfold initializeStructuredHandoffCertificateV1
      rw [verifyProfile_gemm, ok_bind, henvelope]
      rfl
    have ht := structuredModule_structured m.location m.attributes sites
    rw [hbridge]
    rw [check_eq_ok, check_eq_ok, require_eq_ok, hattributes, ok_bind,
      (mapM_appendSite h.body hsites).2 ⟨h.contract, rfl⟩, ok_bind]
    refine ⟨henvelope, by simpa using hbody, ?_⟩
    rw [check_eq_ok, check_eq_ok]
    exact ⟨verify_structured hdialect h ht, matches_structured hdialect h ht, rfl⟩

end

/-- What the handoff asks of a module beyond the bridge: its envelope, a site, and contracts of exactly
the known fields, whose site has no type. -/
structure Transferable (dialect : List Ty → Op → Bool) (m : Module) : Prop where
  envelope : verifyStructuredHandoffSourceEnvelopeV1 dialect m = .ok ()
  nonempty : m.body ≠ []
  contract : ∀ f ∈ m.functions, ∀ gemm, f.firstOp = some gemm →
    gemm.attributes.Exact gemmContractFields ∧ UntypedAt ["site_id"] gemm.attributes

/-- What the handoff does not keep is not there: a type of a site's string, attributes of a return. -/
structure Retained (m : Module) : Prop where
  site : ∀ f ∈ m.functions, UntypedAt ["mdsl.site_id"] f.attributes
  last : ∀ f ∈ m.functions, ∀ block ∈ f.blocks, ∀ op ∈ block.ops, op.kind = .funcReturn →
    op.attributes = .empty

/-- Equal but for the location of the module and the locations inside operation regions. -/
def Module.Same (m t : Module) : Prop :=
  m.attributes = t.attributes ∧ m.body.map (·.normal) = t.body.map (·.normal)

/-- A site goes to a site with its identity, its place and its contract. -/
structure CarriedOver (source target : Function) : Prop where
  site : getString target.attributes.entries "mdsl.site_id" =
    getString source.attributes.entries "mdsl.site_id"
  ordinal : target.attributes.get "mdsl.capture_ordinal" =
    source.attributes.get "mdsl.capture_ordinal"
  contract : target.attributes.sub "mdsl.semantic_contract" = source.firstOp.map (·.attributes)
  types : target.inputs = source.inputs ∧ target.results = source.results
  location : target.location = source.location

section
variable {m t : Module} {sites : List SiteData}

theorem transferable_iff (hbridge : verifyMatcoreV1BridgeModule dialect m = .ok ()) :
    (∃ sites, TransferableModule m sites) ↔ Transferable dialect m := by
  constructor
  · rintro ⟨sites, h⟩
    refine ⟨(semanticModule_iff.2 ⟨sites, h.toSemanticModule⟩).2,
      fun hempty => h.nonempty (h.body.nonempty.1 hempty), fun f hf gemm hgemm => ?_⟩
    obtain ⟨d, hd, open', rfl⟩ := exists_data h.body.functions hf
    obtain rfl : d.gemm = gemm := Option.some.inj hgemm
    refine ⟨h.contract d hd, fun name hname value type hget => ?_⟩
    obtain rfl := mem_singleton.1 hname
    have hsame := (h.untyped d hd).symm.trans hget
    simp only [Option.some.injEq, AttributeDict.Attr.string.injEq] at hsame
    exact hsame.2.symm
  · intro h
    obtain ⟨sites, hm⟩ := semanticModule_iff.1 ⟨hbridge, h.envelope⟩
    have hcontract (d : SiteData) (hd : d ∈ sites) :
        d.contract.Exact gemmContractFields ∧ UntypedAt ["site_id"] d.contract := by
      obtain ⟨f, hf, open', rfl⟩ := exists_function hm.body.functions hd
      exact h.contract _ hf d.gemm rfl
    exact ⟨sites, hm, fun hempty => h.nonempty (hm.body.nonempty.2 hempty),
      fun d hd => (hcontract d hd).1,
      fun d hd => (hcontract d hd).2.get mem_cons_self (hm.explicit d hd).site⟩

theorem body_eq_of_sites {body : List TopLevel} {g : SiteData → Function}
    (h : Sites (fun d f => f = g d) sites body) : body = sites.map fun d => .func (g d) := by
  unfold Sites at h
  induction h with
  | nil => rfl
  | cons hfirst _ ih =>
    obtain ⟨_, rfl, rfl⟩ := hfirst
    rw [map_cons, ih]

/-- The witness is the module itself if that holds nothing that is not kept. -/
theorem semanticModule_eq_iff (h : Sites IsSemantic sites m.body) :
    semanticModule m.location m.attributes sites = m ↔ Retained m := by
  constructor
  · intro heq
    have hfunction (f : Function) (hf : f ∈ m.functions) : ∃ d : SiteData, f = d.semantic {} := by
      rw [mem_functions, ← heq] at hf
      obtain ⟨d, -, hd⟩ := mem_map.1 hf
      exact ⟨d, (TopLevel.func.inj hd).symm⟩
    constructor
    · intro f hf name hname value type hget
      obtain ⟨d, rfl⟩ := hfunction f hf
      obtain rfl := mem_singleton.1 hname
      have hsame := (d.get_semanticAttributes none "mdsl.site_id").symm.trans hget
      simp only [if_true, Option.some.injEq, AttributeDict.Attr.string.injEq] at hsame
      exact hsame.2.symm
    · intro f hf block hblock op hop hkind
      obtain ⟨d, rfl⟩ := hfunction f hf
      obtain rfl := mem_singleton.1 hblock
      simp only [mem_cons, List.not_mem_nil, or_false] at hop
      obtain rfl | rfl := hop
      · cases hkind
      · rfl
  · intro hretained
    have hbody : m.body = sites.map fun d => .func (d.semantic {}) := by
      refine body_eq_of_sites (h.imp fun d _ f hmem hf => ?_)
      obtain ⟨⟨siteType, hints⟩, rfl⟩ := hf
      have hf := mem_functions.2 hmem
      obtain rfl : siteType = none := hretained.site _ hf _ mem_cons_self d.site siteType
        (d.get_semanticAttributes siteType "mdsl.site_id")
      obtain rfl : hints = .empty := hretained.last _ hf _ mem_cons_self (d.last hints)
        (mem_cons_of_mem _ mem_cons_self) rfl
      rfl
    exact Module.ext rfl rfl hbody.symm

theorem structured_iff_same {location : Location} {source : Dict} :
    StructuredModule t source sites ↔ (structuredModule location source sites).Same t := by
  have hbody : Sites IsStructured sites t.body ↔
      (structuredModule location source sites).body.map (·.normal) = t.body.map (·.normal) := by
    have hnormal : (structuredModule location source sites).body.map (·.normal) =
        sites.map fun d => .func d.structured := by
      rw [structuredModule, List.map_map]
      exact List.map_congr_left fun d _ => congrArg TopLevel.func (structured_normal d)
    rw [hnormal, ← List.forall₂_eq_eq_eq, List.forall₂_map_left_iff, List.forall₂_map_right_iff]
    constructor
    · refine List.Forall₂.imp ?_
      rintro d _ ⟨f, rfl, hf⟩
      exact congrArg TopLevel.func hf.symm
    · refine List.Forall₂.imp ?_
      intro d operation hoperation
      cases operation with
      | func f => exact ⟨f, rfl, (TopLevel.func.inj hoperation).symm⟩
      | other name => cases hoperation
  exact ⟨fun h => ⟨h.attributes.symm, hbody.1 h.body⟩, fun h => ⟨h.1.symm, hbody.2 h.2⟩⟩

theorem carriedOver_sites {sources targets : List Function}
    (hsources : List.Forall₂ IsSemantic sites sources)
    (htargets : List.Forall₂ IsStructured sites targets) :
    List.Forall₂ CarriedOver sources targets := by
  induction hsources generalizing targets with
  | nil =>
    cases htargets
    exact .nil
  | @cons d _ _ _ hsource _ ih =>
    cases htargets with
    | @cons _ f _ _ hf htargets =>
      obtain ⟨open', rfl⟩ := hsource
      have hcertified : d.Certified f := (d.certified_iff f).2 (congrArg Function.attributes hf)
      have hinputs : f.inputs = d.inputs := congrArg Function.inputs hf
      have hresults : f.results = [d.output] := congrArg Function.results hf
      have hlocation : f.location = d.location := congrArg Function.location hf
      refine .cons ⟨?_, ?_, hcertified.contract, ⟨hinputs, hresults⟩, hlocation⟩ (ih htargets)
      · exact hcertified.siteString.trans d.semantic_site.symm
      · exact hcertified.ordinal.trans
          ((d.get_semanticAttributes open'.siteType "mdsl.capture_ordinal").trans (by simp)).symm

end

/-- The handoff is exact and invertible, where the module has nothing that it does not keep. -/
theorem handoff_exact (hdialect : Documented dialect) :
    (∀ m, verifyMatcoreV1BridgeModule dialect m = .ok () →
      ((∃ t, deriveStructuredGemmHandoffV1 dialect digest m = .ok t ∧
        reconstructSemanticWitness t = .ok m) ↔ Transferable dialect m ∧ Retained m)) ∧
    (∀ t : Module, t.Untyped → verifyStructuredGemmHandoffV1 dialect t = .ok () →
      ∃ witness derived, reconstructSemanticWitness t = .ok witness ∧
        deriveStructuredGemmHandoffV1 dialect digest witness = .ok derived ∧
        derived.location = t.location ∧ derived.Same t) ∧
    (∀ m t : Module, t.Untyped →
      (verifyStructuredGemmHandoffMatchesV1 dialect digest m t = .ok () ↔
        ∃ derived, deriveStructuredGemmHandoffV1 dialect digest m = .ok derived ∧ derived.Same t)) ∧
    (∀ m t : Module, t.Untyped → verifyStructuredGemmHandoffMatchesV1 dialect digest m t = .ok () →
      List.Forall₂ CarriedOver m.functions t.functions ∧ (t.functions.map (·.name)).Nodup) := by
  refine ⟨fun m hbridge => ?_, fun t huntyped h => ?_, fun m t huntyped => ?_,
    fun m t huntyped h => ?_⟩
  · rw [← transferable_iff hbridge]
    constructor
    · rintro ⟨t, hderived, hwitness⟩
      obtain ⟨sites, h, rfl⟩ := (derive_iff hdialect).1 hderived
      have ht := structuredModule_structured m.location m.attributes sites
      rw [reconstructSemanticWitness_structured h.exact ht] at hwitness
      exact ⟨⟨sites, h⟩, (semanticModule_eq_iff h.body).1 (ok.inj hwitness)⟩
    · rintro ⟨⟨sites, h⟩, hretained⟩
      have ht := structuredModule_structured m.location m.attributes sites
      refine ⟨_, (derive_iff hdialect).2 ⟨sites, h, rfl⟩, ?_⟩
      rw [reconstructSemanticWitness_structured h.exact ht]
      exact congrArg ok ((semanticModule_eq_iff h.body).2 hretained)
  · obtain ⟨sites, hwitness, ht, hreconstruct⟩ := structured_of_verify hdialect huntyped h
    exact ⟨_, _, hreconstruct, (derive_iff hdialect).2 ⟨sites, hwitness, rfl⟩, rfl,
      structured_iff_same.1 ht⟩
  · constructor
    · intro h
      obtain ⟨sites, hm, ht⟩ := structured_of_matches hdialect huntyped h
      exact ⟨_, (derive_iff hdialect).2 ⟨sites, hm, rfl⟩, structured_iff_same.1 ht⟩
    · rintro ⟨derived, hderived, hsame⟩
      obtain ⟨sites, hm, rfl⟩ := (derive_iff hdialect).1 hderived
      exact matches_structured hdialect hm (structured_iff_same.2 hsame)
  · obtain ⟨sites, hm, ht⟩ := structured_of_matches hdialect huntyped h
    refine ⟨carriedOver_sites hm.body.functions ht.body.functions, ?_⟩
    have hnames : t.functions.map (·.name) =
        sites.map fun d => ascii "__matcore_structured_" ++ d.site :=
      forall₂_map ht.body.functions fun d f hf => congrArg Function.name hf
    rw [hnames]
    exact names_nodup hm.nodup "__matcore_structured_"

/-- What upstream checks of the operations of a site. -/
def linalgVerifier (scope : List Ty) (op : Op) : Bool :=
  match op.kind.inputs? with
  | some inputs =>
    op.results.map some = (op.operands.drop inputs).map (scope[·]?) &&
      op.region.all fun block =>
        block.arguments.map (fun argument => some argument.1) =
          op.operands.map (fun value => (scope[value]?).map Ty.elementType) &&
        block.ops.all fun scalar =>
          match scalar.name, scalar.operands.head? with
          | .yield, _ => scalar.results.isEmpty
          | .mulF _, some (.argument index) | .addF _, some (.argument index) =>
            scalar.results.map some = [(block.arguments[index]?).map fst]
          | _, _ => true
  | none => false

theorem linalgVerifier_normal (scope : List Ty) (op : Op) :
    linalgVerifier scope op.normal = linalgVerifier scope op := by
  have hblock (block : ScalarBlock) (index : ℕ) :
      ((block.relocate op.location).arguments[index]?).map fst =
        (block.arguments[index]?).map fst := by
    simp [ScalarBlock.relocate, Function.comp_def]
  have harguments (block : ScalarBlock) :
      (block.relocate op.location).arguments.map (fun argument => some argument.1) =
        block.arguments.map fun argument => some argument.1 := by
    simp [ScalarBlock.relocate]
  unfold linalgVerifier
  simp only [Op.normal, all_map, Function.comp_def, hblock, harguments]
  simp only [ScalarBlock.relocate, all_map, Function.comp_def]
  rfl

theorem linalgVerifier_documented : Documented linalgVerifier where
  fill := by
    intro scope op site type location h hvalue houtput helement
    rw [← linalgVerifier_normal, h]
    simp [linalgVerifier, fillOp, fillRegion, OpKind.inputs?, hvalue, houtput, helement, Ty.elementType,
      Ty.f32]
  matmul := by
    intro scope op site location m k n h hlhs hrhs houtput
    rw [← linalgVerifier_normal, h]
    simp [linalgVerifier, matmulOp, matmulRegion, OpKind.inputs?, hlhs, hrhs, houtput, Ty.elementType,
      Ty.f32]
  ties := by
    intro scope op inputs h hkind
    unfold linalgVerifier at h
    rw [hkind] at h
    simp only [Bool.and_eq_true, decide_eq_true_eq] at h
    exact h.1
  arguments := by
    intro scope op inputs h hkind block hblock
    unfold linalgVerifier at h
    rw [hkind] at h
    simp only [Bool.and_eq_true, decide_eq_true_eq, List.all_eq_true] at h
    exact (h.2 block hblock).1
  scalars := by
    intro scope op inputs h hkind block hblock hf32 scalar hscalar
    unfold linalgVerifier at h
    rw [hkind] at h
    simp only [Bool.and_eq_true, decide_eq_true_eq, List.all_eq_true] at h
    have hchecked := (h.2 block hblock).2 scalar hscalar
    constructor
    · intro hyield
      rw [hyield] at hchecked
      exact List.isEmpty_iff.1 hchecked
    · intro fastmath index hname hoperand
      have hresults : scalar.results.map some = [(block.arguments[index]?).map fst] := by
        rw [hoperand] at hchecked
        obtain hname | hname := hname
        · rw [hname] at hchecked
          exact of_decide_eq_true hchecked
        · rw [hname] at hchecked
          exact of_decide_eq_true hchecked
      obtain ⟨result, hresult, htype⟩ := List.map_eq_singleton_iff.1 hresults
      obtain ⟨argument, hargument, hsame⟩ := Option.map_eq_some_iff.1 htype.symm
      rw [hresult, ← hsame, hf32 argument (List.mem_of_getElem? hargument)]

def fields (values : List (String × Attr)) : Entries Ty :=
  values.foldr (fun field rest => .cons field.1 field.2 rest) .nil

def text (value : String) : Attr := .string (ascii value) none

def elements (values : List Attr) : AttributeDict.Elements Ty :=
  values.foldr (fun value rest => .cons value rest) .nil

/-- The attributes of a capture. -/
def captureAttributes : Dict where
  entries := fields [("mdsl.bridge_schema", text "matcore-mlir-semantic-v1"),
    ("mdsl.capture_schema", text "matcore-ir-v1"), ("mdsl.capture_version", .integer 32 1),
    ("mdsl.execution_intent", text "generic"),
    ("mdsl.numerical_profile", text explicitGemmF32Profile),
    ("mdsl.producer", text "clang-libtooling-v1"), ("mdsl.semantic_version", .integer 32 1),
    ("mdsl.source_file", text "gemm.mdsl"), ("mdsl.translation_unit", text "gemm.cpp")]
  sorted := by unfold Entries.Sorted; decide
  canonical := by simp [fields, text, Entries.Canonical, AttributeDict.Attr.Canonical]

def staticExtent (value : ℕ) : Attr :=
  .dictionary (fields [("kind", text "static"), ("value", .integer 64 value)])

def dynamicExtent (symbol : String) : Attr :=
  .dictionary (fields [("kind", text "dynamic"), ("symbol", text symbol)])

def tensorSemantics (role mutability expression : String) (rows columns : Attr) : Attr :=
  .dictionary (fields [("alignment_bytes", .integer 64 4),
    ("alignment_contract", text "required_precondition"), ("layout", text "row_major_contiguous"),
    ("memory_space", text "host"), ("mutability", text mutability), ("role", text role),
    ("shape", .array (elements [rows, columns])), ("source_expression", text expression),
    ("strides", .array (elements [columns, staticExtent 1]))])

def noAlias (second : String) : Attr :=
  .dictionary (fields [("contract", text "required_precondition"), ("first", text "output"),
    ("relation", text "no_alias"), ("second", text second)])

def range (first last : ℕ) : Attr :=
  .dictionary (fields [("begin", .integer 64 first), ("end", .integer 64 last)])

def smallContract : Dict where
  entries := fields [("accumulation_type", .type .f32),
    ("aliasing", .array (elements [noAlias "lhs", noAlias "rhs"])),
    ("effects", .dictionary (fields [("read_write", .array (elements [])),
      ("reads", .array (elements [text "lhs", text "rhs"])),
      ("writes", .array (elements [text "output"]))])),
    ("lhs_semantics", tensorSemantics "lhs" "read" "a" (dynamicExtent "m") (staticExtent 3)),
    ("numerical", .dictionary (fields [("accumulation_dtype", text "f32"),
      ("approximate_math", .integer 1 0), ("contraction", text "allowed"),
      ("derivation", text "explicit_edsl_contract"),
      ("exception_status", text "incoming_not_preserved_postcall_unspecified"),
      ("infinity", text "ieee_no_no_infs_assumption"), ("inplace", .integer 1 0),
      ("nan", text "preserve_classification_payload_order_unspecified"),
      ("profile", text "explicit-gemm-f32-v1"), ("reassociation", text "within_k_reduction"),
      ("reduction_order", text "implementation_defined_within_k"),
      ("rounding", text "nearest_ties_even"), ("signed_zero", text "relaxed"),
      ("subnormals", text "ieee_gradual_ftz_daz_forbidden"),
      ("trapping_exceptions", text "unsupported")])),
    ("origin", .dictionary (fields [("canonical_callee", text "matcore::mdsl::gemm"),
      ("kind", text "explicit_call"), ("version", .integer 32 1)])),
    ("output_semantics", tensorSemantics "output" "write" "c" (dynamicExtent "m") (staticExtent 2)),
    ("policy", .dictionary (fields [("fallback", text "error"), ("target", text "cpu")])),
    ("provenance", .dictionary (fields [("argument_ranges", .array (elements [range 45 46, range 48 49,
        range 51 52])), ("call_range", range 40 53), ("column", .integer 64 5),
      ("file", text "gemm.mdsl"), ("kind", text "explicit_call"), ("line", .integer 64 7),
      ("offset", .integer 64 40), ("version", .integer 32 1)])),
    ("rhs_semantics", tensorSemantics "rhs" "read" "b" (staticExtent 3) (staticExtent 2)),
    ("semantic_requirements", .array (elements [text "rank2_gemm", text "f32_arithmetic",
      text "host_addressable", text "synchronous_execution"])),
    ("site_id", text "mc_0123456789abcdef0123456789abcdef"), ("synchronization", text "synchronous")]
  sorted := by unfold Entries.Sorted; decide
  canonical := by
    simp only [fields, text, elements, range, noAlias, tensorSemantics, dynamicExtent, staticExtent,
      List.foldr_cons, List.foldr_nil, Entries.Canonical, AttributeDict.Attr.Canonical,
      AttributeDict.Elements.Canonical, and_true, true_and]
    unfold Entries.Sorted
    decide

def smallSite : SiteData :=
  ⟨ascii "mc_0123456789abcdef0123456789abcdef", 0, .tensor ⟨[none, some 3], .f32, none⟩,
    .tensor ⟨[some 3, some 2], .f32, none⟩, .tensor ⟨[none, some 2], .f32, none⟩, smallContract,
    .fileLineCol (ascii "gemm.mdsl") 7 5⟩

/-- A capture of one product. -/
def smallCapture (open' : SiteData.Freedom) : Module :=
  ⟨.other (ascii "gemm.mdsl"), captureAttributes, [.func (smallSite.semantic open')]⟩

theorem captureAttributes_metadata : Metadata captureAttributes :=
  ⟨by decide +kernel, by decide +kernel, by decide +kernel, by decide +kernel, by decide +kernel⟩

theorem smallCapture_transferable (open' : SiteData.Freedom) :
    TransferableModule (smallCapture open') [smallSite] where
  exact := fun _ => Iff.rfl
  metadata := captureAttributes_metadata
  body := .cons ⟨_, rfl, open', rfl⟩ .nil
  numbered := ⟨rfl, trivial⟩
  nodup := List.nodup_singleton _
  verified := by
    rw [List.forall_mem_singleton]
    decide +kernel
  explicit := by
    rw [List.forall_mem_singleton]
    exact ⟨rfl, rfl, rfl, rfl, rfl⟩
  nonempty := List.cons_ne_nil _ _
  contract := by
    rw [List.forall_mem_singleton]
    exact fun _ => Iff.rfl
  untyped := by
    rw [List.forall_mem_singleton]
    rfl

/-- A product is carried over and back. -/
theorem handoff_exact_small :
    ∃ t, deriveStructuredGemmHandoffV1 linalgVerifier (fun _ => []) (smallCapture {}) = .ok t ∧
      reconstructSemanticWitness t = .ok (smallCapture {}) := by
  have h := smallCapture_transferable {}
  have hbridge : verifyMatcoreV1BridgeModule linalgVerifier (smallCapture {}) = .ok () :=
    (semanticModule_iff.2 ⟨_, h.toSemanticModule⟩).1
  refine ((handoff_exact linalgVerifier_documented).1 (smallCapture {}) hbridge).2 ⟨?_, ?_⟩
  · exact (transferable_iff hbridge).1 ⟨_, h⟩
  · exact (semanticModule_eq_iff h.body).1 rfl

/-- A capture without sites. -/
def emptyCapture : Module := ⟨.other (ascii "gemm.mdsl"), captureAttributes, []⟩

/-- A return with attributes. -/
def hints : SiteData.Freedom := ⟨none, captureAttributes⟩

/-- A capture without sites is not carried over, and of a product the attributes of the return are
not. -/
theorem handoff_not_total :
    (verifyMatcoreV1BridgeModule linalgVerifier emptyCapture = .ok () ∧
      ∀ t, deriveStructuredGemmHandoffV1 linalgVerifier (fun _ => []) emptyCapture ≠ .ok t) ∧
    verifyMatcoreV1BridgeModule linalgVerifier (smallCapture hints) = .ok () ∧
      ∃ t, deriveStructuredGemmHandoffV1 linalgVerifier (fun _ => []) (smallCapture hints) = .ok t ∧
        reconstructSemanticWitness t ≠ .ok (smallCapture hints) := by
  have hempty : verifyMatcoreV1BridgeModule linalgVerifier emptyCapture = .ok () :=
    bridge_iff.2 ⟨rfl, captureAttributes_metadata, rfl⟩
  have h := smallCapture_transferable hints
  have ht := structuredModule_structured (smallCapture hints).location captureAttributes [smallSite]
  refine ⟨⟨hempty, fun t hderived => ?_⟩, (semanticModule_iff.2 ⟨_, h.toSemanticModule⟩).1, _,
    (derive_iff linalgVerifier_documented).2 ⟨_, h, rfl⟩, fun hwitness => ?_⟩
  · obtain ⟨sites, hsites, -⟩ := (derive_iff linalgVerifier_documented).1 hderived
    exact hsites.nonempty (hsites.body.nonempty.1 rfl)
  · have hsame := (reconstructSemanticWitness_structured h.exact ht).symm.trans hwitness
    have hretained := (semanticModule_eq_iff h.body).1 (ok.inj hsame)
    have hattributes := hretained.last (smallSite.semantic hints) (mem_functions.2 mem_cons_self) _
      mem_cons_self (smallSite.last captureAttributes)
      (mem_cons_of_mem _ mem_cons_self) rfl
    have hnames := congrArg Dictionary.names hattributes
    cases hnames

end Matcore.Handoff
