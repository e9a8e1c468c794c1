import Matcore.Proof.StructuredFunction

/-!
# Modules of the structured handoff

The attributes of the two modules determine each other, and both verifiers go through the same list of
sites.
-/

namespace Matcore.Handoff

open List (mem_map_of_mem mem_cons not_mem_nil mem_map map_map mem_cons_self mem_cons_of_mem
  map_cons all_eq_true)
open Except (check_eq_ok bind_eq_ok ok_bind forM_eq_ok)
open Mlir (Bytes ascii)
open AttributeDict (Dictionary)
open AttributeDict.Dictionary (get_copy_of_mem get_empty get_setInteger get_setString
  get_copy_of_notMem mem_names_iff eq_of_names)
open Bool (and_eq_true)

variable {dialect : List Ty → Op → Bool}

/-- The names that are not copied. -/
def ownFields : List String :=
  ["mdsl.analysis_only", "mdsl.producer", "mdsl.execution_authority",
    "mdsl.structured_handoff_schema", "mdsl.structured_handoff_version"]

theorem structuredModuleFields_perm :
    structuredModuleFields.Perm (ownFields ++ moduleMap.map Prod.snd) := by decide

theorem semanticModuleFields_perm : semanticModuleFields.Perm (moduleMap.map Prod.fst) := by decide

/-- The table of the witness is that of the certificate, read the other way. -/
theorem witnessMap_eq : witnessMap = moduleMap.map Prod.swap := rfl

variable {structured : Dict} {name' name : String}

theorem get_witnessAttributes (h : (name, name') ∈ moduleMap) :
    (witnessAttributes structured).get name = structured.get name' := by
  have hmem : (name', name) ∈ witnessMap := by
    rw [witnessMap_eq]
    exact mem_map_of_mem (f := Prod.swap) h
  rw [witnessAttributes, get_copy_of_mem (by decide) hmem, get_empty,
    Option.or_none]

variable {source : Dict}

theorem get_certificateAttributes {profile : Profile} (h : (name, name') ∈ moduleMap) :
    (certificateAttributes source profile).get name' = source.get name := by
  have hown : name' ∉ ownFields := by
    have hall : ∀ field ∈ moduleMap, field.2 ∉ ownFields := by decide
    exact hall _ h
  simp only [ownFields, mem_cons, not_mem_nil, or_false, not_or] at hown
  have hcopied := (get_copy_of_mem (by decide) h :
    (Dictionary.empty.copy source moduleMap).get name' = _)
  rw [get_empty, Option.or_none] at hcopied
  rw [certificateAttributes, get_setInteger, get_setString,
    get_setString, get_setString, get_setInteger, hcopied,
    if_neg (Ne.symm hown.2.2.2.2), if_neg (Ne.symm hown.2.2.2.1), if_neg (Ne.symm hown.2.2.1),
    if_neg (Ne.symm hown.2.1), if_neg (Ne.symm hown.1)]

theorem get_certificateAttributes_own (source : Dict) (profile : Profile) :
    (certificateAttributes source profile).get "mdsl.analysis_only" = some (.integer 1 1) ∧
      (certificateAttributes source profile).get "mdsl.producer" =
        some (.string (ascii profile.producer) none) ∧
      (certificateAttributes source profile).get "mdsl.execution_authority" =
        some (.string (ascii profile.authority) none) ∧
      (certificateAttributes source profile).get "mdsl.structured_handoff_schema" =
        some (.string (ascii profile.schema) none) ∧
      (certificateAttributes source profile).get "mdsl.structured_handoff_version" =
        some (.integer 32 profile.version) := by
  simp only [certificateAttributes, get_setInteger, get_setString]
  simp

theorem certificateAttributes_exact (profile : Profile) (h : source.Exact semanticModuleFields) :
    (certificateAttributes source profile).Exact structuredModuleFields := by
  refine exact_of_get fun name => ?_
  rw [structuredModuleFields_perm.mem_iff, List.mem_append]
  by_cases hown : name ∈ ownFields
  · simp only [hown, true_or, iff_true]
    obtain ⟨hanalysis, hproducer, hauthority, hschema, hversion⟩ :=
      get_certificateAttributes_own source profile
    simp only [ownFields, mem_cons, not_mem_nil, or_false] at hown
    obtain rfl | rfl | rfl | rfl | rfl := hown
    · rw [hanalysis]; rfl
    · rw [hproducer]; rfl
    · rw [hauthority]; rfl
    · rw [hschema]; rfl
    · rw [hversion]; rfl
  · simp only [hown, false_or]
    constructor
    · intro hsome
      by_contra hcopied
      have hget : (certificateAttributes source profile).get name = none := by
        simp only [ownFields, mem_cons, not_mem_nil, or_false, not_or] at hown
        rw [certificateAttributes, get_setInteger, get_setString,
          get_setString, get_setString, get_setInteger,
          get_copy_of_notMem hcopied, get_empty,
          if_neg (Ne.symm hown.2.2.2.2), if_neg (Ne.symm hown.2.2.2.1), if_neg (Ne.symm hown.2.2.1),
          if_neg (Ne.symm hown.2.1), if_neg (Ne.symm hown.1)]
      rw [hget] at hsome
      cases hsome
    · intro hcopied
      obtain ⟨field, hfield, rfl⟩ := mem_map.1 hcopied
      rw [get_certificateAttributes hfield, ← mem_names_iff, h,
        semanticModuleFields_perm.mem_iff]
      exact mem_map_of_mem hfield

theorem witnessAttributes_exact (h : structured.Exact structuredModuleFields) :
    (witnessAttributes structured).Exact semanticModuleFields := by
  refine exact_of_get fun name => ?_
  rw [semanticModuleFields_perm.mem_iff]
  constructor
  · intro hsome
    by_contra hmissing
    have hget : (witnessAttributes structured).get name = none := by
      refine (get_copy_of_notMem ?_).trans (get_empty name)
      rw [witnessMap_eq, map_map]
      exact hmissing
    rw [hget] at hsome
    cases hsome
  · intro hmem
    obtain ⟨field, hfield, rfl⟩ := mem_map.1 hmem
    rw [get_witnessAttributes hfield, ← mem_names_iff, h, structuredModuleFields_perm.mem_iff]
    exact List.mem_append_right _ (mem_map_of_mem hfield)

theorem witnessAttributes_certificate (profile : Profile) (h : source.Exact semanticModuleFields) :
    witnessAttributes (certificateAttributes source profile) = source := by
  refine eq_of_names (witnessAttributes_exact (certificateAttributes_exact profile h)) h
    fun name hmem => ?_
  obtain ⟨field, hfield, rfl⟩ := mem_map.1 (semanticModuleFields_perm.mem_iff.1 hmem)
  rw [get_witnessAttributes hfield, get_certificateAttributes hfield]

/-- What the verifier of a structured module asks of its attributes. -/
structure ModuleIdentity (d : Dict) : Prop where
  exact : d.Exact structuredModuleFields
  analysis : d.get "mdsl.analysis_only" = some (.integer 1 1)
  producer : d.get "mdsl.producer" = some (.string (ascii gemmCertificateProfile.producer) none)
  authority : d.get "mdsl.execution_authority" =
    some (.string (ascii gemmCertificateProfile.authority) none)
  schema : d.get "mdsl.structured_handoff_schema" =
    some (.string (ascii gemmCertificateProfile.schema) none)
  version : d.get "mdsl.structured_handoff_version" =
    some (.integer 32 gemmCertificateProfile.version)

theorem certificate_witnessAttributes (h : ModuleIdentity structured) :
    certificateAttributes (witnessAttributes structured) gemmCertificateProfile = structured := by
  refine eq_of_names
    (certificateAttributes_exact gemmCertificateProfile (witnessAttributes_exact h.exact)) h.exact
    fun name hmem => ?_
  obtain hown | hcopied := List.mem_append.1 (structuredModuleFields_perm.mem_iff.1 hmem)
  · obtain ⟨hanalysis, hproducer, hauthority, hschema, hversion⟩ :=
      get_certificateAttributes_own (witnessAttributes structured) gemmCertificateProfile
    simp only [ownFields, mem_cons, not_mem_nil, or_false] at hown
    obtain rfl | rfl | rfl | rfl | rfl := hown
    · rw [hanalysis, h.analysis]
    · rw [hproducer, h.producer]
    · rw [hauthority, h.authority]
    · rw [hschema, h.schema]
    · rw [hversion, h.version]
  · obtain ⟨field, hfield, rfl⟩ := mem_map.1 hcopied
    rw [get_certificateAttributes hfield, get_witnessAttributes hfield]

/-- What the bridge asks of the attributes of a module. -/
structure Metadata (d : Dict) : Prop where
  bridge : requireString d.entries "mdsl.bridge_schema" "matcore-mlir-semantic-v1" = true
  schema : requireString d.entries "mdsl.capture_schema" "matcore-ir-v1" = true
  intent : requireString d.entries "mdsl.execution_intent" "generic" = true
  profile : requireString d.entries "mdsl.numerical_profile" explicitGemmF32Profile = true
  capture : captureMetadata d.entries = true

variable {m : Module}

theorem requireModuleString_eq_ok {expected : String} :
    requireModuleString m name expected = .ok () ↔
      requireString m.attributes.entries name expected = true := by
  unfold requireModuleString
  rw [Except.ite_error_eq_ok, and_iff_left rfl]

theorem bridge_iff :
    verifyMatcoreV1BridgeModule dialect m = .ok () ↔
      moduleVerified dialect m = true ∧ Metadata m.attributes ∧
        verifySites ((getString m.attributes.entries "mdsl.source_file").getD []) [] 0 m.body =
          .ok () := by
  unfold verifyMatcoreV1BridgeModule
  rw [Except.error_ite_eq_ok, check_eq_ok, check_eq_ok, check_eq_ok,
    check_eq_ok, Except.error_ite_eq_ok]
  simp only [requireModuleString_eq_ok, Bool.not_eq_true, Bool.not_eq_false']
  constructor
  · rintro ⟨hverified, hbridge, hschema, hintent, hprofile, hcapture, hsites⟩
    exact ⟨by simpa using hverified, ⟨hbridge, hschema, hintent, hprofile, by simpa using hcapture⟩,
      hsites⟩
  · rintro ⟨hverified, hmetadata, hsites⟩
    exact ⟨by simpa using hverified, hmetadata.bridge, hmetadata.schema, hmetadata.intent,
      hmetadata.profile, by simpa using hmetadata.capture, hsites⟩

variable {d e : Dict}

theorem getString_congr (h : d.get name = e.get name') :
    getString d.entries name = getString e.entries name' := by
  unfold getString
  rw [show d.entries.get name = e.entries.get name' from h]

theorem getInteger_congr (h : d.get name = e.get name') :
    getInteger d.entries name = getInteger e.entries name' := by
  unfold getInteger
  rw [show d.entries.get name = e.entries.get name' from h]

theorem verifyStructuredModuleFields_certificate
    (hattributes : m.attributes = certificateAttributes source gemmCertificateProfile)
    (hexact : source.Exact semanticModuleFields) (hmetadata : Metadata source) :
    verifyStructuredModuleFields m gemmCertificateProfile = .ok () := by
  have hstring {name name' : String} (h : (name, name') ∈ moduleMap) :
      getString m.attributes.entries name' = getString source.entries name := by
    rw [hattributes]
    exact getString_congr (get_certificateAttributes h)
  have hinteger {name name' : String} (h : (name, name') ∈ moduleMap) :
      getInteger m.attributes.entries name' = getInteger source.entries name := by
    rw [hattributes]
    exact getInteger_congr (get_certificateAttributes h)
  obtain ⟨hanalysis, hproducer, hauthority, hschema, hversion⟩ :=
    get_certificateAttributes_own source gemmCertificateProfile
  rw [← hattributes] at hanalysis hproducer hauthority hschema hversion
  have hcapture := hmetadata.capture
  simp only [captureMetadata, and_eq_true, decide_eq_true_eq] at hcapture
  obtain ⟨⟨⟨⟨hcaptureVersion, hsemanticVersion⟩, hsourceProducer⟩, hfile⟩, hunit⟩ := hcapture
  unfold verifyStructuredModuleFields verifyStructuredModuleIdentityFields
  simp only [check_eq_ok, requireStringField, requireI32, require_eq_ok, and_eq_true,
    decide_eq_true_eq, requireString_iff, requireInteger]
  rw [requireExactNames_eq_ok (by decide), hattributes]
  refine ⟨certificateAttributes_exact gemmCertificateProfile hexact, ?_⟩
  rw [← hattributes, hstring (by decide : ("mdsl.producer", "mdsl.source_producer") ∈ moduleMap),
    hstring (by decide : ("mdsl.source_file", "mdsl.source_file") ∈ moduleMap),
    hstring (by decide : ("mdsl.translation_unit", "mdsl.translation_unit") ∈ moduleMap),
    hstring (by decide : ("mdsl.numerical_profile", "mdsl.numerical_profile") ∈ moduleMap),
    hstring (by decide : ("mdsl.capture_schema", "mdsl.capture_schema") ∈ moduleMap),
    hstring (by decide : ("mdsl.execution_intent", "mdsl.execution_intent") ∈ moduleMap),
    hstring (by decide : ("mdsl.bridge_schema", "mdsl.source_bridge_schema") ∈ moduleMap),
    hinteger (by decide : ("mdsl.capture_version", "mdsl.capture_version") ∈ moduleMap),
    hinteger (by decide : ("mdsl.semantic_version", "mdsl.source_semantic_version") ∈ moduleMap),
    requireString_iff.1 hmetadata.profile]
  refine ⟨⟨⟨⟨⟨?_, hsourceProducer⟩, hfile⟩, hunit⟩, ?_⟩, requireString_iff.1 hmetadata.schema,
    hcaptureVersion, requireString_iff.1 hmetadata.intent, ?_, ?_,
    requireString_iff.1 hmetadata.bridge, ?_, ?_, hsemanticVersion⟩
  · exact getInteger_eq_some.2 hanalysis
  · decide
  · exact getString_eq_some.2 ⟨none, hproducer⟩
  · exact getString_eq_some.2 ⟨none, hauthority⟩
  · exact getString_eq_some.2 ⟨none, hschema⟩
  · exact getInteger_eq_some.2 hversion

/-- No string of these names has a type of its own. -/
def UntypedAt (names : List String) (d : Dict) : Prop :=
  ∀ name ∈ names, ∀ value type, d.get name = some (.string value type) → type = none

theorem UntypedAt.get {names : List String} (h : UntypedAt names d) (hname : name ∈ names)
    {value : Bytes} (hget : getString d.entries name = some value) :
    d.get name = some (.string value none) := by
  obtain ⟨type, hget⟩ := getString_eq_some.1 hget
  obtain rfl := h name hname value type hget
  exact hget

theorem moduleIdentity_of_verify (huntyped : UntypedAt ownFields m.attributes)
    (h : verifyStructuredModuleFields m gemmCertificateProfile = .ok ()) :
    ModuleIdentity m.attributes := by
  unfold verifyStructuredModuleFields verifyStructuredModuleIdentityFields at h
  simp only [check_eq_ok, requireStringField, requireI32, require_eq_ok, and_eq_true,
    decide_eq_true_eq, requireString_iff, requireInteger] at h
  rw [requireExactNames_eq_ok (by decide)] at h
  obtain ⟨hexact, ⟨⟨⟨⟨hanalysis, -⟩, -⟩, -⟩, -⟩, -, -, -, hproducer, hauthority, -, hschema, hversion,
    -⟩ := h
  exact ⟨hexact, getInteger_eq_some.1 hanalysis, huntyped.get (by decide) hproducer,
    huntyped.get (by decide) hauthority, huntyped.get (by decide) hschema,
    getInteger_eq_some.1 hversion⟩

/-- The top level is one function for each of the data, with this relation to it. -/
def Sites (related : SiteData → Function → Prop) (sites : List SiteData) (body : List TopLevel) :
    Prop :=
  List.Forall₂ (fun d operation => ∃ f, operation = .func f ∧ related d f) sites body

def IsSemantic (d : SiteData) (f : Function) : Prop := ∃ open', f = d.semantic open'

def IsStructured (d : SiteData) (f : Function) : Prop := f.normal = d.structured

/-- The sites are numbered in their order. -/
def Numbered : ℕ → List SiteData → Prop
  | _, [] => True
  | ordinal, d :: rest => d.ordinal = ordinal ∧ Numbered (ordinal + 1) rest

variable {sites : List SiteData} {related : SiteData → Function → Prop}

theorem Sites.functions (h : Sites related sites m.body) :
    List.Forall₂ related sites m.functions := by
  unfold Sites at h
  unfold Module.functions
  generalize m.body = body at h
  induction h with
  | nil => exact .nil
  | cons hfirst _ ih =>
    obtain ⟨f, rfl, hf⟩ := hfirst
    exact .cons hf ih

variable {body : List TopLevel}

theorem Sites.imp {related' : SiteData → Function → Prop} (h : Sites related sites body)
    (himp : ∀ d ∈ sites, ∀ f, .func f ∈ body → related d f → related' d f) :
    Sites related' sites body := by
  unfold Sites at *
  induction h with
  | nil => exact .nil
  | cons hfirst _ ih =>
    obtain ⟨f, rfl, hf⟩ := hfirst
    exact .cons ⟨f, rfl, himp _ mem_cons_self f mem_cons_self hf⟩
      (ih fun d hd g hg => himp d (mem_cons_of_mem _ hd) g (mem_cons_of_mem _ hg))

theorem Sites.nonempty (h : Sites related sites body) : body = [] ↔ sites = [] := by
  cases h <;> simp

theorem verifySites_iff {sourceFile : Bytes} (h : Sites IsSemantic sites body) (seen : List Bytes)
    (ordinal : ℕ) :
    verifySites sourceFile seen ordinal body = .ok () ↔
      Numbered ordinal sites ∧ (sites.map (·.site)).Nodup ∧ (∀ d ∈ sites, d.site ∉ seen) ∧
        ∀ d ∈ sites, d.Explicit sourceFile := by
  unfold Sites at h
  induction h generalizing seen ordinal with
  | nil => simp [verifySites, Numbered]
  | @cons d operation sites body hfirst _ ih =>
    obtain ⟨f, rfl, open', rfl⟩ := hfirst
    rw [verifySites]
    constructor
    · intro hok
      obtain ⟨site, hsite, hrest⟩ := bind_eq_ok hok
      obtain ⟨rfl, hfresh, hordinal, hexplicit⟩ := d.verifySite_semantic.1 hsite
      obtain ⟨hnumbered, hnodup, hseen, hexplicits⟩ := (ih _ _).1 hrest
      refine ⟨⟨hordinal, hnumbered⟩, ?_, ?_, ?_⟩
      · rw [map_cons, List.nodup_cons]
        refine ⟨fun hmem => ?_, hnodup⟩
        obtain ⟨other, hother, hsame⟩ := mem_map.1 hmem
        exact hseen other hother (hsame ▸ mem_cons_self)
      · intro other hother
        obtain rfl | hmem := mem_cons.1 hother
        · exact hfresh
        · exact fun hin => hseen other hmem (mem_cons_of_mem _ hin)
      · intro other hother
        obtain rfl | hmem := mem_cons.1 hother
        · exact hexplicit
        · exact hexplicits other hmem
    · rintro ⟨⟨hordinal, hnumbered⟩, hnodup, hseen, hexplicit⟩
      rw [map_cons, List.nodup_cons] at hnodup
      have hsite : verifySite sourceFile seen ordinal (.func (d.semantic open')) = .ok d.site :=
        d.verifySite_semantic.2 ⟨rfl, hseen d mem_cons_self, hordinal,
          hexplicit d mem_cons_self⟩
      rw [hsite, ok_bind, ih]
      refine ⟨hnumbered, hnodup.2, fun other hother hmem => ?_,
        fun other hother => hexplicit other (mem_cons_of_mem _ hother)⟩
      obtain hsame | hin := mem_cons.1 hmem
      · exact hnodup.1 (hsame ▸ mem_map_of_mem hother)
      · exact hseen other (mem_cons_of_mem _ hother) hin

variable {ordinal : ℕ}

/-- The top level that the bridge and the envelope take is a list of sites. -/
theorem sites_of_verifySites {sourceFile : Bytes} {seen : List Bytes}
    (h : verifySites sourceFile seen ordinal body = .ok ())
    (hverified : ∀ f, .func f ∈ body → functionVerified dialect f = true)
    (henvelope : ∀ operation ∈ body, verifySourceFunction operation = .ok ()) :
    ∃ sites, Sites IsSemantic sites body := by
  induction body generalizing seen ordinal with
  | nil => exact ⟨[], .nil⟩
  | cons operation body ih =>
    rw [verifySites] at h
    obtain ⟨site, hsite, hrest⟩ := bind_eq_ok h
    obtain ⟨sites, hsites⟩ := ih hrest (fun f hf => hverified f (mem_cons_of_mem _ hf))
      (fun other hother => henvelope other (mem_cons_of_mem _ hother))
    cases operation with
    | other name => cases hsite
    | func f =>
      have hsource := henvelope (.func f) mem_cons_self
      unfold verifySourceFunction at hsource
      rw [check_eq_ok, requireExactNames_eq_ok (by decide), require_eq_ok] at hsource
      obtain ⟨d, open', hd⟩ := semantic_of_verifySite (hverified f mem_cons_self) hsite hsource.1
        hsource.2
      exact ⟨d :: sites, .cons ⟨f, rfl, open', hd⟩ hsites⟩

def Module.sourceFile (m : Module) : Bytes :=
  (getString m.attributes.entries "mdsl.source_file").getD []

/-- A semantic module of these sites. -/
structure SemanticModule (m : Module) (sites : List SiteData) : Prop where
  exact : m.attributes.Exact semanticModuleFields
  metadata : Metadata m.attributes
  body : Sites IsSemantic sites m.body
  numbered : Numbered 0 sites
  nodup : (sites.map (·.site)).Nodup
  verified : ∀ d ∈ sites, GemmOp.verify d.inputs d.gemm = true
  explicit : ∀ d ∈ sites, d.Explicit m.sourceFile

theorem names_nodup (h : (sites.map (·.site)).Nodup) (text : String) :
    (sites.map fun d => ascii text ++ d.site).Nodup := by
  have hmap : (sites.map fun d => ascii text ++ d.site) =
      (sites.map (·.site)).map (ascii text ++ ·) := by rw [map_map]; rfl
  rw [hmap]
  exact List.Nodup.map (fun _ _ heq => List.append_cancel_left heq) h

section
variable {related : SiteData → Function → Prop} {sites : List SiteData} {functions : List Function}

section

variable (h : List.Forall₂ related sites functions)

include h

theorem forall₂_map {β : Type} {first : SiteData → β}
    {second : Function → β} (heq : ∀ d f, related d f → second f = first d) :
    functions.map second = sites.map first := by
  induction h with
  | nil => rfl
  | cons hfirst _ ih => rw [map_cons, map_cons, heq _ _ hfirst, ih]

theorem exists_data {f : Function} (hf : f ∈ functions) :
    ∃ d ∈ sites, related d f := by
  induction h with
  | nil => cases hf
  | @cons d _ _ _ hfirst _ ih =>
    obtain rfl | hmem := mem_cons.1 hf
    · exact ⟨d, mem_cons_self, hfirst⟩
    · obtain ⟨d, hd, hrelated⟩ := ih hmem
      exact ⟨d, mem_cons_of_mem _ hd, hrelated⟩

theorem exists_function {d : SiteData} (hd : d ∈ sites) :
    ∃ f ∈ functions, related d f := by
  induction h with
  | nil => cases hd
  | @cons _ f _ _ hfirst _ ih =>
    obtain rfl | hmem := mem_cons.1 hd
    · exact ⟨f, mem_cons_self, hfirst⟩
    · obtain ⟨f, hf, hrelated⟩ := ih hmem
      exact ⟨f, mem_cons_of_mem _ hf, hrelated⟩

end

end

/-- MLIR verifies a module of sites if the names differ and it verifies each. -/
theorem moduleVerified_of_sites (h : Sites related sites m.body) (text : String)
    (hname : ∀ d f, related d f → f.name = ascii text ++ d.site)
    (hnodup : (sites.map (·.site)).Nodup)
    (hverified : ∀ d ∈ sites, ∀ f, related d f → functionVerified dialect f = true) :
    moduleVerified dialect m = true := by
  unfold moduleVerified
  rw [forall₂_map h.functions hname, and_eq_true, decide_eq_true_eq]
  refine ⟨names_nodup hnodup text, all_eq_true.2 fun f hf => ?_⟩
  obtain ⟨d, hd, hrelated⟩ := exists_data h.functions hf
  exact hverified d hd f hrelated

theorem mem_functions {f : Function} : f ∈ m.functions ↔ .func f ∈ m.body := by
  unfold Module.functions
  rw [List.mem_filterMap]
  constructor
  · rintro ⟨operation, hmem, heq⟩
    cases operation with
    | func g => exact Option.some.inj heq ▸ hmem
    | other name => cases heq
  · exact fun h => ⟨_, h, rfl⟩

variable {operation : TopLevel}

theorem verifySourceFunction_of_mem (h : Sites IsSemantic sites body) (hmem : operation ∈ body) :
    verifySourceFunction operation = .ok () := by
  unfold Sites at h
  induction h with
  | nil => cases hmem
  | @cons d _ _ _ hfirst _ ih =>
    obtain rfl | hrest := mem_cons.1 hmem
    · obtain ⟨f, rfl, open', rfl⟩ := hfirst
      unfold verifySourceFunction
      rw [check_eq_ok, requireExactNames_eq_ok (by decide), require_eq_ok]
      exact ⟨d.semanticAttributes_exact open'.siteType, rfl⟩
    · exact ih hrest

theorem envelope_iff :
    verifyStructuredHandoffSourceEnvelopeV1 dialect m = .ok () ↔
      moduleVerified dialect m = true ∧ m.attributes.Exact semanticModuleFields ∧
        requireString m.attributes.entries "mdsl.bridge_schema" "matcore-mlir-semantic-v1" = true ∧
        m.body.forM verifySourceFunction = .ok () := by
  unfold verifyStructuredHandoffSourceEnvelopeV1
  rw [check_eq_ok, check_eq_ok, check_eq_ok, require_eq_ok,
    requireExactNames_eq_ok (by decide), requireStringField, require_eq_ok]

theorem semanticModule_of_bridge (hbody : Sites IsSemantic sites m.body)
    (hexact : m.attributes.Exact semanticModuleFields)
    (h : verifyMatcoreV1BridgeModule dialect m = .ok ()) : SemanticModule m sites := by
  obtain ⟨hverified, hmetadata, hsites⟩ := bridge_iff.1 h
  rw [moduleVerified, and_eq_true, all_eq_true] at hverified
  obtain ⟨hnumbered, hnodup, -, hexplicit⟩ := (verifySites_iff hbody [] 0).1 hsites
  refine ⟨hexact, hmetadata, hbody, hnumbered, hnodup, fun d hd => ?_, hexplicit⟩
  obtain ⟨f, hf, open', rfl⟩ := exists_function hbody.functions hd
  rw [← d.functionVerified_semantic open']
  exact hverified.2 _ hf

theorem semanticModule_iff :
    (verifyMatcoreV1BridgeModule dialect m = .ok () ∧
      verifyStructuredHandoffSourceEnvelopeV1 dialect m = .ok ()) ↔
        ∃ sites, SemanticModule m sites := by
  constructor
  · rintro ⟨hbridge, henvelope⟩
    obtain ⟨hverified, -, hsites⟩ := bridge_iff.1 hbridge
    obtain ⟨-, hexact, -, hfunctions⟩ := envelope_iff.1 henvelope
    rw [moduleVerified, and_eq_true, all_eq_true] at hverified
    obtain ⟨sites, hbody⟩ := sites_of_verifySites hsites
      (fun f hf => hverified.2 f (mem_functions.2 hf)) (forM_eq_ok.1 hfunctions)
    exact ⟨sites, semanticModule_of_bridge hbody hexact hbridge⟩
  · rintro ⟨sites, h⟩
    rw [bridge_iff, envelope_iff]
    have hverified : moduleVerified dialect m = true := by
      refine moduleVerified_of_sites h.body "__matcore_semantic_" ?_ h.nodup ?_
      · rintro d f ⟨open', rfl⟩
        rfl
      · rintro d hd f ⟨open', rfl⟩
        rw [d.functionVerified_semantic]
        exact h.verified d hd
    refine ⟨⟨hverified, h.metadata, ?_⟩, hverified, h.exact, h.metadata.bridge, ?_⟩
    · exact (verifySites_iff h.body [] 0).2 ⟨h.numbered, h.nodup, fun _ _ => not_mem_nil,
        h.explicit⟩
    · exact forM_eq_ok.2 fun operation hmem => verifySourceFunction_of_mem h.body hmem

/-- A semantic module that the handoff can carry over. -/
structure TransferableModule (m : Module) (sites : List SiteData) : Prop
    extends SemanticModule m sites where
  nonempty : sites ≠ []
  contract : ∀ d ∈ sites, d.contract.Exact gemmContractFields
  untyped : ∀ d ∈ sites, d.contract.get "site_id" = some (.string d.site none)

theorem TransferableModule.valid (h : TransferableModule m sites) :
    ∀ d ∈ sites, d.Valid m.sourceFile :=
  fun d hd => ⟨h.verified d hd, h.explicit d hd, h.contract d hd, h.untyped d hd⟩

/-- A structured module of these sites, for a module with these attributes. -/
structure StructuredModule (m : Module) (source : Dict) (sites : List SiteData) : Prop where
  attributes : m.attributes = certificateAttributes source gemmCertificateProfile
  body : Sites IsStructured sites m.body

/-- The semantic module of these sites that leaves nothing open. -/
def semanticModule (location : Location) (attributes : Dict) (sites : List SiteData) : Module :=
  ⟨location, attributes, sites.map fun d => .func (d.semantic {})⟩

variable {check : ℕ → TopLevel → Except String Unit}

theorem forSites_of_sites (h : Sites related sites body) (hnumbered : Numbered ordinal sites)
    (hcheck : ∀ d ∈ sites, ∀ f, related d f → check d.ordinal (.func f) = .ok ()) :
    forSites check ordinal body = .ok () := by
  unfold Sites at h
  induction h generalizing ordinal with
  | nil => rfl
  | @cons d _ _ _ hfirst _ ih =>
    obtain ⟨f, rfl, hf⟩ := hfirst
    obtain ⟨rfl, hrest⟩ := hnumbered
    rw [forSites, check_eq_ok]
    exact ⟨hcheck d mem_cons_self f hf,
      ih hrest fun other hother => hcheck other (mem_cons_of_mem _ hother)⟩

theorem sites_of_forSites (h : forSites check ordinal body = .ok ())
    (hcheck : ∀ ordinal, ∀ operation ∈ body, check ordinal operation = .ok () →
      ∃ d f, operation = .func f ∧ d.ordinal = ordinal ∧ related d f) :
    ∃ sites, Sites related sites body ∧ Numbered ordinal sites := by
  induction body generalizing ordinal with
  | nil => exact ⟨[], .nil, trivial⟩
  | cons operation body ih =>
    rw [forSites, check_eq_ok] at h
    obtain ⟨d, f, rfl, hordinal, hf⟩ := hcheck ordinal operation mem_cons_self h.1
    obtain ⟨sites, hsites, hnumbered⟩ :=
      ih h.2 fun ordinal other hother => hcheck ordinal other (mem_cons_of_mem _ hother)
    exact ⟨d :: sites, .cons ⟨f, rfl, hf⟩ hsites, hordinal, hnumbered⟩

section
variable {m : Module} {sites : List SiteData} {t : Module}

theorem semanticModule_sites (sites : List SiteData) :
    Sites IsSemantic sites (sites.map fun d => .func (d.semantic {})) := by
  unfold Sites
  rw [List.forall₂_map_right_iff]
  exact List.forall₂_same.2 fun d _ => ⟨_, rfl, {}, rfl⟩

variable {f : Function}

theorem witnessFunction_structured {d : SiteData} (h : IsStructured d f) :
    witnessFunction f = .ok (d.semantic {}) :=
  witnessFunction_of_certified ((d.certified_iff f).2 (congrArg Function.attributes h))
    (congrArg Function.inputs h) (congrArg Function.results h) (congrArg Function.location h)

theorem mapM_witnessFunction {functions : List Function}
    (h : List.Forall₂ (fun d f => witnessFunction f = .ok (d.semantic {})) sites functions) :
    functions.mapM witnessFunction = .ok (sites.map fun d => d.semantic {}) := by
  induction h with
  | nil => rfl
  | cons hfirst _ ih =>
    rw [List.mapM_cons, hfirst, ih]
    rfl

theorem reconstructSemanticWitness_structured (hexact : m.attributes.Exact semanticModuleFields)
    (h : StructuredModule t m.attributes sites) :
    reconstructSemanticWitness t = .ok (semanticModule t.location m.attributes sites) := by
  have hfunctions := mapM_witnessFunction (h.body.functions.imp fun d f => witnessFunction_structured)
  unfold reconstructSemanticWitness
  rw [hfunctions, ok_bind, h.attributes, witnessAttributes_certificate _ hexact, map_map]
  rfl

theorem TransferableModule.witness (h : TransferableModule m sites) (location : Location) :
    TransferableModule (semanticModule location m.attributes sites) sites :=
  ⟨⟨h.exact, h.metadata, semanticModule_sites sites, h.numbered, h.nodup, h.verified, h.explicit⟩,
    h.nonempty, h.contract, h.untyped⟩

theorem certified_structured {d : SiteData} {sourceFile : Bytes} (hdialect : Documented dialect)
    (hvalid : d.Valid sourceFile) (h : IsStructured d f) :
    verifyStructuredHandoffSiteCertificateV1 dialect f d.ordinal gemmCertificateProfile =
      .ok ⟨d.site, ascii "__matcore_semantic_" ++ d.site, d.contract⟩ :=
  verify_of_certified (functionVerified_structured hdialect hvalid.verified h)
    (congrArg Function.isPlain h : f.normal.isPlain = _) (congrArg Function.name h) hvalid.site_ne
    hvalid.exact ((d.certified_iff f).2 (congrArg Function.attributes h))

section

variable (hdialect : Documented dialect) (h : TransferableModule m sites)
  (ht : StructuredModule t m.attributes sites)

include hdialect h ht

theorem moduleVerified_structured : moduleVerified dialect t = true := by
  refine moduleVerified_of_sites ht.body "__matcore_structured_" ?_ h.nodup ?_
  · exact fun d f hf => congrArg Function.name hf
  · exact fun d hd f hf => functionVerified_structured hdialect (h.verified d hd) hf

theorem envelope_structured :
    verifyStructuredHandoffCertificateEnvelopeV1 dialect t gemmCertificateProfile = .ok () := by
  have hbody : t.body ≠ [] := fun hempty => h.nonempty (ht.body.nonempty.1 hempty)
  unfold verifyStructuredHandoffCertificateEnvelopeV1
  rw [check_eq_ok, check_eq_ok, check_eq_ok, check_eq_ok, require_eq_ok,
    require_eq_ok]
  refine ⟨verifyProfile_gemm, moduleVerified_structured hdialect h ht,
    verifyStructuredModuleFields_certificate ht.attributes h.exact h.metadata, by simpa using hbody, ?_⟩
  refine forSites_of_sites ht.body h.numbered fun d hd f hf => ?_
  rw [verifyCertifiedSite, certified_structured hdialect (h.valid d hd) hf]
  rfl

end

theorem sourceFile_structured (ht : StructuredModule t m.attributes sites) :
    t.sourceFile = m.sourceFile := by
  unfold Module.sourceFile
  rw [ht.attributes]
  exact congrArg (Option.getD · []) (getString_congr (get_certificateAttributes (by decide)))

theorem Metadata.sourceFile_ne (h : Metadata m.attributes) : m.sourceFile ≠ [] := by
  have hcapture := h.capture
  simp only [captureMetadata, and_eq_true] at hcapture
  obtain ⟨file, hfile, hends⟩ := (Option.any_eq_true _ _).1 hcapture.1.2
  unfold Module.sourceFile
  rw [hfile, Option.getD_some]
  rintro rfl
  cases hends

/-- The verifier takes the structured module of a module that can be carried over. -/
theorem verify_structured (hdialect : Documented dialect) (h : TransferableModule m sites)
    (ht : StructuredModule t m.attributes sites) :
    verifyStructuredGemmHandoffV1 dialect t = .ok () := by
  have hbody : t.body ≠ [] := fun hempty => h.nonempty (ht.body.nonempty.1 hempty)
  have hprofile : getString t.attributes.entries "mdsl.numerical_profile" =
      some (ascii explicitGemmF32Profile) := by
    rw [ht.attributes]
    exact (getString_congr (get_certificateAttributes (by decide))).trans
      (requireString_iff.1 h.metadata.profile)
  have hfile : (getString t.attributes.entries "mdsl.source_file").getD [] = m.sourceFile :=
    sourceFile_structured ht
  have hbridge : verifyMatcoreV1BridgeModule dialect (semanticModule t.location m.attributes sites) =
      .ok () := (semanticModule_iff.2 ⟨sites, (h.witness t.location).toSemanticModule⟩).1
  unfold verifyStructuredGemmHandoffV1
  rw [check_eq_ok, check_eq_ok, require_eq_ok]
  refine ⟨moduleVerified_structured hdialect h ht, envelope_structured hdialect h ht, ?_⟩
  rw [hprofile, hfile, check_eq_ok, check_eq_ok, require_eq_ok]
  refine ⟨by simp [h.metadata.sourceFile_ne, hbody], ?_, ?_⟩
  · refine forSites_of_sites ht.body h.numbered fun d hd f hf => ?_
    exact verifyStructuredFunction_structured hdialect (h.valid d hd) hf
  · rw [reconstructSemanticWitness_structured h.exact ht, ok_bind, hbridge]

end

/-- The strings that a structured module has beside those of its source have no types. -/
structure Module.Untyped (m : Module) : Prop where
  attributes : UntypedAt ownFields m.attributes
  functions : ∀ f ∈ m.functions, f.Untyped

/-- What the verifier of a function says of it, before that of the witness. -/
structure HasWitness (d : SiteData) (f : Function) : Prop where
  witness : witnessFunction f = .ok (d.semantic {})
  contract : d.contract.Exact gemmContractFields
  untyped : d.contract.get "site_id" = some (.string d.site none)
  normal : GemmOp.verify d.inputs d.gemm = true → f.normal = d.structured

variable {t : Module}

theorem hasWitness_of_verify (hdialect : Documented dialect) (huntyped : t.Untyped)
    {sourceFile profile : Bytes} (hmem : operation ∈ t.body)
    (h : verifyStructuredSite dialect sourceFile profile ordinal operation = .ok ()) :
    ∃ d f, operation = .func f ∧ d.ordinal = ordinal ∧ HasWitness d f := by
  cases operation with
  | other name => cases h
  | func f =>
    obtain ⟨d, hordinal, hwitness, hcontract, huntypedSite, hnormal⟩ :=
      normal_of_verifyStructuredFunction hdialect (huntyped.functions f (mem_functions.2 hmem)) h
    exact ⟨d, f, rfl, hordinal, hwitness, hcontract, huntypedSite, hnormal⟩

/-- What the verifier takes is the structured module of its witness. -/
theorem structured_of_verify (hdialect : Documented dialect) (huntyped : t.Untyped)
    (h : verifyStructuredGemmHandoffV1 dialect t = .ok ()) :
    ∃ sites, TransferableModule
        (semanticModule t.location (witnessAttributes t.attributes) sites) sites ∧
      StructuredModule t (witnessAttributes t.attributes) sites ∧
      reconstructSemanticWitness t =
        .ok (semanticModule t.location (witnessAttributes t.attributes) sites) := by
  unfold verifyStructuredGemmHandoffV1 at h
  rw [check_eq_ok, check_eq_ok] at h
  obtain ⟨-, henvelope, h⟩ := h
  rw [check_eq_ok, check_eq_ok, require_eq_ok] at h
  obtain ⟨hidentity, hsites, h⟩ := h
  simp only [and_eq_true, Bool.not_eq_true', List.isEmpty_eq_false_iff] at hidentity
  unfold verifyStructuredHandoffCertificateEnvelopeV1 at henvelope
  rw [check_eq_ok, check_eq_ok, check_eq_ok] at henvelope
  have hmodule := moduleIdentity_of_verify huntyped.attributes henvelope.2.2.1
  obtain ⟨sites, hbody, -⟩ := sites_of_forSites hsites fun ordinal operation hmem hok =>
    hasWitness_of_verify hdialect huntyped hmem hok
  have hwitness : reconstructSemanticWitness t =
      .ok (semanticModule t.location (witnessAttributes t.attributes) sites) := by
    have hfunctions := mapM_witnessFunction (hbody.functions.imp fun d f hf => hf.witness)
    unfold reconstructSemanticWitness
    rw [hfunctions, ok_bind, map_map]
    rfl
  rw [hwitness, ok_bind] at h
  split at h
  · cases h
  · rename_i hbridge
    have hsemantic := semanticModule_of_bridge (semanticModule_sites sites)
      (witnessAttributes_exact hmodule.exact) hbridge
    have hnonempty : sites ≠ [] := fun hempty => hidentity.2 (hbody.nonempty.2 hempty)
    have hchecked (d : SiteData) (hd : d ∈ sites) : ∃ f, HasWitness d f := by
      obtain ⟨f, -, hf⟩ := exists_function hbody.functions hd
      exact ⟨f, hf⟩
    refine ⟨sites, ⟨hsemantic, hnonempty, ?_, ?_⟩, ⟨?_, ?_⟩, hwitness⟩
    · intro d hd
      obtain ⟨f, hf⟩ := hchecked d hd
      exact hf.contract
    · intro d hd
      obtain ⟨f, hf⟩ := hchecked d hd
      exact hf.untyped
    · exact (certificate_witnessAttributes hmodule).symm
    · exact hbody.imp fun d hd f _ hf => hf.normal (hsemantic.verified d hd)

end Matcore.Handoff
