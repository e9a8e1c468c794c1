import Matcore.Handoff.Structured

/-!
# One site of the structured handoff

A site of a verified semantic module and the function that is derived from it hold the same data: the
site, its place, its tensor types, its contract and its location. Each of the two forms is all that
its verifier accepts, up to what the verifier does not read.
-/

namespace Matcore.Handoff

open List (mem_cons_self map_map map_cons map_nil head?_cons)
open Bool (and_eq_true)
open Mlir (Bytes ascii)
open AttributeDict (Dictionary Entries)
open TwoGemm (TensorType)

section
variable {d : Entries Ty} {name : String}

theorem getString_eq_some {value : Bytes} :
    getString d name = some value ↔ ∃ type, d.get name = some (.string value type) := by
  unfold getString
  split
  · rename_i value' type h
    simp only [h, Option.some.injEq, AttributeDict.Attr.string.injEq]
    exact ⟨fun heq => ⟨type, heq, rfl⟩, fun ⟨_, heq, _⟩ => heq⟩
  · rename_i h
    simp only [reduceCtorEq, false_iff, not_exists]
    exact fun type heq => h _ _ heq

theorem getInteger_eq_some {width : ℕ} {value : ℤ} :
    getInteger d name = some (width, value) ↔ d.get name = some (.integer width value) := by
  unfold getInteger
  split
  · rename_i h
    simp [h]
  · rename_i h
    simp only [reduceCtorEq, false_iff]
    exact fun heq => h _ _ heq

theorem getDictionary_eq_some {entries : Entries Ty} :
    getDictionary d name = some entries ↔ d.get name = some (.dictionary entries) := by
  unfold getDictionary
  split
  · rename_i h
    simp [h]
  · rename_i h
    simp only [reduceCtorEq, false_iff]
    exact fun heq => h _ heq

theorem requireString_iff {expected : String} :
    requireString d name expected = true ↔ getString d name = some (ascii expected) :=
  decide_eq_true_iff

end

theorem require_eq_ok {condition : Bool} {message : String} :
    require condition message = .ok () ↔ condition = true := by
  unfold require
  cases condition <;> simp

variable {d : Dict}

theorem requireExactNames_eq_ok {expected : List String} (h : expected.Nodup) {context : String} :
    requireExactNames d.entries expected context = .ok () ↔ d.Exact expected := by
  unfold requireExactNames
  constructor
  · intro hok
    split at hok
    · cases hok
    · rename_i hlength
      split at hok
      · cases hok
      · rename_i hfind
        refine Dictionary.exact_of_length (not_not.1 hlength) fun name hname => ?_
        have := List.find?_eq_none.1 hfind name hname
        simpa using this
  · intro hexact
    have hlength : d.entries.names.length = expected.length := hexact.length h
    rw [if_neg (not_not.2 hlength)]
    have hfind : d.entries.names.find? (!expected.contains ·) = none := by
      refine List.find?_eq_none.2 fun name hname => ?_
      have := (hexact name).1 hname
      simpa using this
    rw [hfind]

/-- No string of the dictionary has a type of its own. -/
def Untyped (d : Dict) : Prop :=
  ∀ name value type, d.get name = some (.string value type) → type = none

variable {name : String}

theorem Untyped.get (h : Untyped d) {value : Bytes} (hget : getString d.entries name = some value) :
    d.get name = some (.string value none) := by
  obtain ⟨type, hget⟩ := getString_eq_some.1 hget
  obtain rfl := h name value type hget
  exact hget

theorem names_isEmpty (h : d.names.isEmpty = true) : d = .empty := by
  refine Dictionary.ext_get fun name => ?_
  rw [Dictionary.get_empty, ← Option.not_isSome_iff_eq_none, ← Dictionary.mem_names_iff,
    List.isEmpty_iff.1 h]
  exact List.not_mem_nil

variable {names : List String}

theorem exact_of_get (h : ∀ name, (d.get name).isSome ↔ name ∈ names) : d.Exact names :=
  fun name => (d.mem_names_iff name).trans (h name)

theorem get_isSome (h : d.Exact names) (hname : name ∈ names) : ∃ value, d.get name = some value :=
  Option.isSome_iff_exists.1 ((d.mem_names_iff name).1 ((h name).2 hname))

structure SiteData where
  site : Bytes
  ordinal : ℕ
  lhs : Ty
  rhs : Ty
  output : Ty
  contract : Dict
  location : Location

namespace SiteData

variable (d : SiteData)

def inputs : List Ty := [d.lhs, d.rhs, d.output]

def gemm : Op := ⟨.gemm, [0, 1, 2], [d.output], d.contract, [], d.location⟩

/-- What the bridge leaves open at a site: the type of the site's string and the attributes of the
return. -/
structure Freedom where
  siteType : Option Ty := none
  hints : Dict := .empty

def semanticAttributes (siteType : Option Ty) : Dict :=
  (Dictionary.empty.setInteger "mdsl.capture_ordinal" 64 d.ordinal).set "mdsl.site_id"
    (.string d.site siteType) (AttributeDict.Attr.string_canonical d.site siteType)

def last (hints : Dict) : Op := ⟨.funcReturn, [3], [], hints, [], d.location⟩

/-- The site in a semantic module. -/
def semantic (open' : Freedom) : Function where
  name := ascii "__matcore_semantic_" ++ d.site
  inputs := d.inputs
  results := [d.output]
  attributes := d.semanticAttributes open'.siteType
  argAttrs := none
  resAttrs := none
  noInline := false
  visibility := none
  location := d.location
  blocks := [⟨entryArguments d.inputs d.location, [d.gemm, d.last open'.hints]⟩]

def certificate : Dict :=
  ((((Dictionary.empty.setInteger "mdsl.capture_ordinal" 64 d.ordinal).setString
    "mdsl.site_id" d.site).setString
    "mdsl.source_semantic_symbol" (ascii "__matcore_semantic_" ++ d.site)).set
    "mdsl.semantic_contract" d.contract.attr d.contract.attr_canonical).set
    "mdsl.structured_handoff" (handoffAttribute gemmCertificateProfile).attr
    (handoffAttribute gemmCertificateProfile).attr_canonical

/-- The site in a structured module. -/
def structured : Function where
  name := ascii "__matcore_structured_" ++ d.site
  inputs := d.inputs
  results := [d.output]
  attributes := d.certificate
  argAttrs := none
  resAttrs := none
  noInline := false
  visibility := none
  location := d.location
  blocks := [⟨entryArguments d.inputs d.location, structuredOps d.site d.inputs d.location⟩]

end SiteData

def ScalarBlock.relocate (location : Location) (block : ScalarBlock) : ScalarBlock :=
  ⟨block.arguments.map fun argument => (argument.1, location),
    block.ops.map fun op => { op with location := location }⟩

/-- The operation with its own location throughout its region. -/
def Op.normal (op : Op) : Op :=
  { op with region := op.region.map (·.relocate op.location) }

def Function.normal (f : Function) : Function :=
  { f with blocks := f.blocks.map fun block => ⟨block.arguments, block.ops.map (·.normal)⟩ }

def TopLevel.normal : TopLevel → TopLevel
  | .func f => .func f.normal
  | .other name => .other name

def Ty.elementType : Ty → Ty
  | .tensor type => .scalar type.element
  | type => type

/-- The operation writes to outputs behind this many inputs. -/
def OpKind.inputs? : OpKind → Option ℕ
  | .fill inputs | .matmul inputs _ _ => some inputs
  | _ => none

/-- What MLIR documents of the verifiers of `linalg.fill`, `linalg.matmul` and the operations in
their regions. -/
structure Documented (dialect : List Ty → Op → Bool) : Prop where
  /-- A fill of `f32` elements with a `f32`. -/
  fill : ∀ {scope op site type location}, op.normal = fillOp site (.tensor type) location →
    scope[3]? = some .f32 → scope[2]? = some (.tensor type) → type.element = .f32 →
    dialect scope op = true
  /-- A product of `f32` matrices whose extents agree. -/
  matmul : ∀ {scope op site location m k n},
    op.normal = matmulOp site (.tensor ⟨[m, n], .f32, none⟩) location →
    scope[0]? = some (.tensor ⟨[m, k], .f32, none⟩) →
    scope[1]? = some (.tensor ⟨[k, n], .f32, none⟩) →
    scope[4]? = some (.tensor ⟨[m, n], .f32, none⟩) → dialect scope op = true
  /-- The results have the types of the outputs. -/
  ties : ∀ {scope op inputs}, dialect scope op = true → op.kind.inputs? = some inputs →
    op.results.map some = (op.operands.drop inputs).map (scope[·]?)
  /-- The arguments of the region have the element types of the operands. -/
  arguments : ∀ {scope op inputs}, dialect scope op = true → op.kind.inputs? = some inputs →
    ∀ block ∈ op.region, block.arguments.map (fun argument => some argument.1) =
      op.operands.map fun value => (scope[value]?).map Ty.elementType
  /-- A yield has no result, and arithmetic has that of its operands. -/
  scalars : ∀ {scope op inputs}, dialect scope op = true → op.kind.inputs? = some inputs →
    ∀ block ∈ op.region, (∀ argument ∈ block.arguments, argument.1 = .f32) → ∀ scalar ∈ block.ops,
      (scalar.name = .yield → scalar.results = []) ∧
      (∀ fastmath index, scalar.name = .mulF fastmath ∨ scalar.name = .addF fastmath →
        scalar.operands.head? = some (.argument index) → scalar.results = [.f32])

variable {region : List ScalarBlock}

theorem fillRegion_of_verify (location : Location) (h : verifyFillScalarRegion region = .ok ())
    (hresults : ∀ block ∈ region, (∀ argument ∈ block.arguments, argument.1 = .f32) →
      ∀ scalar ∈ block.ops, scalar.name = .yield → scalar.results = []) :
    region.map (·.relocate location) = fillRegion location := by
  unfold verifyFillScalarRegion at h
  split at h
  · rename_i block
    split at h
    · rename_i first second yield harguments hops
      rw [Except.check_eq_ok, require_eq_ok, require_eq_ok] at h
      simp only [and_eq_true, decide_eq_true_eq] at h
      obtain ⟨⟨rfl, rfl⟩, ⟨hname, hoperands⟩, hempty⟩ := h
      obtain ⟨arguments, ops⟩ := block
      subst hops
      have hf32 : ∀ argument ∈ arguments, argument.1 = Ty.f32 := by
        intro argument hmem
        have := List.mem_map_of_mem (f := Prod.fst) hmem
        rw [harguments] at this
        simpa using this
      have hyield := hresults _ mem_cons_self hf32 yield mem_cons_self hname
      have hrelocated : arguments.map (fun argument => (argument.1, location)) =
          [(Ty.f32, location), (Ty.f32, location)] := by
        have := congrArg (List.map fun type => (type, location)) harguments
        rwa [map_map] at this
      obtain ⟨name, operands, results, attributes, location'⟩ := yield
      dsimp only at hname hoperands hempty hyield
      subst hname hoperands hyield
      simp only [map_cons, map_nil, ScalarBlock.relocate, hrelocated,
        names_isEmpty hempty, fillRegion]
    · cases h
  · cases h

theorem verifyFillScalarRegion_relocate (region : List ScalarBlock) (location : Location) :
    verifyFillScalarRegion (region.map (·.relocate location)) = verifyFillScalarRegion region := by
  match region with
  | [] => rfl
  | _ :: _ :: _ => rfl
  | [⟨arguments, ops⟩] =>
    match arguments, ops with
    | [], _ | [_], _ | _ :: _ :: _ :: _, _ => rfl
    | [_, _], [] | [_, _], [_] | [_, _], _ :: _ :: _ => rfl

variable {location : Location}

theorem verify_of_fillRegion (h : region.map (·.relocate location) = fillRegion location) :
    verifyFillScalarRegion region = .ok () := by
  rw [← verifyFillScalarRegion_relocate region location, h]
  rfl

theorem matmulRegion_of_verify (location : Location) (h : verifyMatmulScalarRegion region = .ok ())
    (hf32 : ∀ block ∈ region, ∀ argument ∈ block.arguments, argument.1 = Ty.f32)
    (hplain : ∀ block ∈ region, ∀ scalar ∈ block.ops, scalar.attributes.names.isEmpty = true)
    (hresults : ∀ block ∈ region, ∀ scalar ∈ block.ops,
      (scalar.name = .yield → scalar.results = []) ∧
      (∀ fastmath index, scalar.name = .mulF fastmath ∨ scalar.name = .addF fastmath →
        scalar.operands.head? = some (.argument index) → scalar.results = [.f32])) :
    region.map (·.relocate location) = matmulRegion location := by
  unfold verifyMatmulScalarRegion at h
  split at h
  · rename_i block
    split at h
    · rename_i multiply add yield hops
      rw [Except.error_ite_eq_ok, require_eq_ok] at h
      obtain ⟨hlength, h⟩ := h
      simp only [and_eq_true, decide_eq_true_eq] at h
      obtain ⟨⟨⟨⟨⟨hmultiply, hadd⟩, hyield⟩, hmultiply'⟩, hadd'⟩, hyield'⟩ := h
      replace hf32 := hf32 _ mem_cons_self
      replace hplain := hplain _ mem_cons_self
      replace hresults := hresults _ mem_cons_self
      obtain ⟨arguments, ops⟩ := block
      subst hops
      have harguments : arguments.map (fun argument => (argument.1, location)) =
          [(Ty.f32, location), (Ty.f32, location), (Ty.f32, location)] := by
        match arguments with
        | [first, second, third] =>
          simp only [map_cons, map_nil, hf32 first (by simp), hf32 second (by simp),
            hf32 third (by simp)]
        | [] | [_] | [_, _] | _ :: _ :: _ :: _ :: _ => simp at hlength
      have hmultiplyResults := (hresults multiply (by simp)).2 0 0 (.inl hmultiply)
        (by rw [hmultiply', head?_cons])
      have haddResults := (hresults add (by simp)).2 0 2 (.inr hadd)
        (by rw [hadd', head?_cons])
      have hyieldResults := (hresults yield (by simp)).1 hyield
      have hmultiplyPlain := names_isEmpty (hplain multiply (by simp))
      have haddPlain := names_isEmpty (hplain add (by simp))
      have hyieldPlain := names_isEmpty (hplain yield (by simp))
      simp only [map_cons, map_nil, ScalarBlock.relocate, harguments, hmultiply, hmultiply',
        hmultiplyResults, hmultiplyPlain, hadd, hadd', haddResults, haddPlain, hyield, hyield',
        hyieldResults, hyieldPlain, matmulRegion]
    · cases h
  · cases h

theorem verifyMatmulScalarRegion_relocate (region : List ScalarBlock) (location : Location) :
    verifyMatmulScalarRegion (region.map (·.relocate location)) =
      verifyMatmulScalarRegion region := by
  match region with
  | [] => rfl
  | _ :: _ :: _ => rfl
  | [⟨arguments, ops⟩] =>
    match ops with
    | [] | [_] | [_, _] | _ :: _ :: _ :: _ :: _ => rfl
    | [_, _, _] =>
      simp only [verifyMatmulScalarRegion, map_cons, map_nil, ScalarBlock.relocate,
        List.length_map]

theorem verify_of_matmulRegion (h : region.map (·.relocate location) = matmulRegion location) :
    verifyMatmulScalarRegion region = .ok () := by
  rw [← verifyMatmulScalarRegion_relocate region location, h]
  rfl

theorem plain_of_matmulRegion (h : region.map (·.relocate location) = matmulRegion location) :
    region.head?.all fun block => block.ops.all fun op => op.attributes.names.isEmpty := by
  match region with
  | [] => rfl
  | block :: rest =>
    have hblock : block.ops.map (fun op => { op with location := location }) =
        (matmulRegion location).head?.elim [] (·.ops) := by
      rw [← h]
      rfl
    have hattributes := congrArg (List.map fun op => op.attributes.names.isEmpty) hblock
    rw [map_map] at hattributes
    simp only [head?_cons, Option.all_some, List.all_eq_true]
    intro op hop
    have hmem := List.mem_map_of_mem (f := fun op : ScalarOp => op.attributes.names.isEmpty) hop
    have heq : block.ops.map (fun op : ScalarOp => op.attributes.names.isEmpty) =
        [true, true, true] := hattributes
    rw [heq] at hmem
    simpa using hmem

variable {extent extent' : Option ℕ}

theorem verifyScalarExpression_unique {scalar : Entries Ty}
    (h : verifyScalarExpression scalar extent = true)
    (h' : verifyScalarExpression scalar extent' = true) : extent = extent' := by
  unfold verifyScalarExpression at h h'
  split_ifs at h h'
  · rw [and_eq_true] at h h'
    obtain ⟨-, h⟩ := h
    obtain ⟨-, h'⟩ := h'
    split at h
    · rename_i value extent hvalue
      rw [hvalue] at h'
      cases extent' with
      | none => cases h'
      | some extent' =>
        simp only [and_eq_true, decide_eq_true_eq] at h h'
        exact congrArg some (Int.natCast_inj.1 (h.2.symm.trans h'.2))
    · cases h
  · rw [and_eq_true] at h h'
    obtain ⟨-, h⟩ := h
    obtain ⟨-, h'⟩ := h'
    split at h
    · rename_i symbol hsymbol
      rw [hsymbol] at h'
      cases extent' with
      | none => rfl
      | some _ => cases h'
    · cases h

variable {stride shape : Attr}

theorem verifyDimension_spec (h : verifyDimension shape stride extent = true) :
    ∃ scalar, shape = .dictionary scalar ∧ verifyScalarExpression scalar extent = true := by
  unfold verifyDimension at h
  split at h
  · exact ⟨_, rfl, (Bool.and_eq_true_iff.1 h).1⟩
  · cases h

theorem verifyDimension_unique {stride' : Attr} (h : verifyDimension shape stride extent = true)
    (h' : verifyDimension shape stride' extent' = true) : extent = extent' := by
  obtain ⟨scalar, hshape, hscalar⟩ := verifyDimension_spec h
  obtain ⟨scalar', hshape', hscalar'⟩ := verifyDimension_spec h'
  obtain rfl : scalar = scalar' := by
    have := hshape.symm.trans hshape'
    injection this
  exact verifyScalarExpression_unique hscalar hscalar'

theorem tensorShape_spec {semantics : Entries Ty} {type : TensorType} {role mutability : String}
    {shape : Attr × Attr} (h : tensorShape semantics type role mutability = some shape) :
    ∃ rows columns leading minor, type.shape = [rows, columns] ∧ type.element = .f32 ∧
      verifyDimension shape.1 leading rows = true ∧ verifyDimension shape.2 minor columns = true := by
  unfold tensorShape at h
  split at h
  · rename_i hshape
    split_ifs at h with hcheck
    obtain rfl := Option.some.inj h
    simp only [and_eq_true, decide_eq_true_eq] at hcheck
    obtain ⟨⟨⟨⟨⟨⟨⟨-, helement⟩, hrows⟩, hcolumns⟩, -⟩, -⟩, -⟩, -⟩ := hcheck
    exact ⟨_, _, _, _, hshape, helement, hrows, hcolumns⟩
  · cases h

variable {lhs result rhs output : TensorType}

theorem verifyTensors_spec {d : Entries Ty} (h : verifyTensors d lhs rhs output result = true) :
    ∃ m k n, lhs = ⟨[m, k], .f32, none⟩ ∧ rhs = ⟨[k, n], .f32, none⟩ ∧
      output = ⟨[m, n], .f32, none⟩ ∧ result = output := by
  unfold verifyTensors at h
  simp only [and_eq_true, decide_eq_true_eq, Option.isNone_iff_eq_none] at h
  obtain ⟨⟨⟨⟨hlhs, hrhs⟩, houtput⟩, rfl⟩, h⟩ := h
  split at h
  · split at h
    · rename_i lhsShape rhsShape outputShape hl hr ho
      simp only [and_eq_true, decide_eq_true_eq] at h
      obtain ⟨⟨hm, hk⟩, hn⟩ := h
      obtain ⟨m, k, _, _, hlshape, hlelement, hlm, hlk⟩ := tensorShape_spec hl
      obtain ⟨k', n, _, _, hrshape, hrelement, hrk, hrn⟩ := tensorShape_spec hr
      obtain ⟨m', n', _, _, hoshape, hoelement, hom, hon⟩ := tensorShape_spec ho
      obtain rfl : m = m' := verifyDimension_unique hlm (hm ▸ hom)
      obtain rfl : k = k' := verifyDimension_unique hlk (hk ▸ hrk)
      obtain rfl : n = n' := verifyDimension_unique hrn (hn ▸ hon)
      obtain ⟨lshape, lelement, lencoding⟩ := lhs
      obtain ⟨rshape, relement, rencoding⟩ := rhs
      obtain ⟨oshape, oelement, oencoding⟩ := output
      subst hlshape hlelement hlhs hrshape hrelement hrhs hoshape hoelement houtput
      exact ⟨m, k, n, rfl, rfl, rfl, rfl⟩
    · cases h
  · cases h

theorem isSome_of_requireString {d : Entries Ty} {expected : String}
    (h : requireString d name expected = true) : (getString d name).isSome = true := by
  rw [requireString_iff.1 h]
  rfl

/-- A contract that passes has its dictionaries, and the other fields that the handoff asks for. -/
theorem storage_of_verify {d : Entries Ty} (htensors : verifyTensors d lhs rhs output result = true)
    (hcontract : verifyContract d location = true) (htype : (getType d "accumulation_type").isSome)
    (hsite : (getString d "site_id").isSome) : verifyGemmContractStorageTypes d = .ok () := by
  unfold verifyTensors at htensors
  unfold verifyContract at hcontract
  rw [and_eq_true] at htensors
  replace htensors := htensors.2
  split at htensors
  · rename_i hlhs hrhs houtput
    split at hcontract
    · rename_i horigin haliasing heffects hpolicy hnumerical hprovenance
      simp only [and_eq_true] at hcontract
      obtain ⟨⟨⟨⟨⟨⟨⟨-, hrequirements⟩, -⟩, -⟩, -⟩, -⟩, -⟩, hsynchronization⟩ := hcontract
      have hrequirements : (getArray d "semantic_requirements").isSome = true := by
        cases h : getArray d "semantic_requirements" with
        | some _ => rfl
        | none =>
          rw [h] at hrequirements
          cases hrequirements
      unfold verifyGemmContractStorageTypes
      simp [hlhs, hrhs, houtput, horigin, haliasing, heffects, hpolicy, hnumerical,
        hprovenance, htype, hsite, hrequirements, isSome_of_requireString hsynchronization,
        require_eq_ok]
    · cases hcontract
  · cases htensors

/-- What the handoff needs of a gemm that passes its verifier. -/
structure GemmFacts (scope : List Ty) (op : Op) : Prop where
  types : ∃ a b c m k n, op.operands = [a, b, c] ∧
    scope[a]? = some (.tensor ⟨[m, k], .f32, none⟩) ∧
    scope[b]? = some (.tensor ⟨[k, n], .f32, none⟩) ∧
    scope[c]? = some (.tensor ⟨[m, n], .f32, none⟩) ∧ op.results = [.tensor ⟨[m, n], .f32, none⟩]
  region : op.region = []
  site : ∃ site, getString op.attributes.entries "site_id" = some site ∧
    isCanonicalSiteId site = true
  storage : verifyGemmContractStorageTypes op.attributes.entries = .ok ()

theorem bind_asTensor {type : Option Ty} {tensor : TensorType}
    (h : type.bind Ty.asTensor = some tensor) : type = some (.tensor tensor) := by
  obtain ⟨type, rfl, h⟩ := Option.bind_eq_some_iff.1 h
  cases type <;> cases h
  rfl

theorem gemm_facts {scope : List Ty} {op : Op} (h : GemmOp.verify scope op = true) :
    GemmFacts scope op := by
  unfold GemmOp.verify at h
  split at h
  · rename_i lhs rhs output result hoperands hresults
    simp only [and_eq_true, decide_eq_true_eq, List.isEmpty_iff] at h
    obtain ⟨⟨⟨⟨hsite, htype⟩, hregion⟩, htensors⟩, hcontract⟩ := h
    obtain ⟨m, k, n, rfl, rfl, rfl, rfl⟩ := verifyTensors_spec htensors
    obtain ⟨a, b, c, hop⟩ : ∃ a b c, op.operands = [a, b, c] := by
      match hops : op.operands with
      | [a, b, c] => exact ⟨a, b, c, rfl⟩
      | [] | [_] | [_, _] | _ :: _ :: _ :: _ :: _ => simp [hops] at hoperands
    rw [hop] at hoperands
    simp only [map_cons, map_nil, List.cons.injEq, and_true] at hoperands
    obtain ⟨ha, hb, hc⟩ := hoperands
    obtain ⟨site, hsite, hcanonical⟩ := (Option.any_eq_true _ _).1 hsite
    exact ⟨⟨a, b, c, m, k, n, hop, bind_asTensor ha, bind_asTensor hb, bind_asTensor hc, hresults⟩,
      hregion, ⟨site, hsite, hcanonical⟩,
      storage_of_verify htensors hcontract (by rw [htype]; rfl) (by rw [hsite]; rfl)⟩
  · cases h

end Matcore.Handoff
