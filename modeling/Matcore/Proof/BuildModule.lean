import Matcore.Proof.BuildBody

/-!
# Built modules pass their checks

The generic verifier of MLIR is any function that accepts the well-formed modules of registered
operations.
-/

namespace Matcore.ClosedRegion

open Except (bind_eq_ok ok_bind)
open List (mem_cons mem_cons_self map_cons all_map)
open Bool (and_eq_true not_eq_true')
open Mlir (Entries Value ascii argumentScope)

variable {ctx : Context} {files : List SourceFile} {message : String}
variable {ids ids' : List Id} {indices indices' : List ℕ}

theorem bindArguments_of_not_mem {id : Id} {map : Id → Option Value} {argument : Value}
    (h : id ∉ ids) : bindArguments map argument ids id = map id := by
  induction ids generalizing map argument with
  | nil => rfl
  | cons first rest ih =>
    rw [mem_cons, not_or] at h
    rw [bindArguments, ih h.2, Function.update_of_ne h.1]

theorem bindArguments_of_mem {id : Id} (map : Id → Option Value) (argument : Value) (h : id ∈ ids) :
    ∃ i < ids.length, bindArguments map argument ids id = some (argument + i) := by
  induction ids generalizing map argument with
  | nil => simp at h
  | cons first rest ih =>
    by_cases hrest : id ∈ rest
    · obtain ⟨i, hi, heq⟩ := ih (Function.update map first (some argument))
        (argument + 1) hrest
      refine ⟨i + 1, by simpa using hi, ?_⟩
      rw [bindArguments, heq, Nat.add_assoc, Nat.add_comm 1 i]
    · have heq : id = first := by
        rcases mem_cons.1 h with heq | hmem
        · exact heq
        · exact absurd hmem hrest
      subst heq
      refine ⟨0, by simp, ?_⟩
      rw [bindArguments, bindArguments_of_not_mem hrest, Function.update_self]
      rfl

theorem verifyParameters_cons {id index : ℕ} {name : Text} {rest : List (Id × Text × ℕ)}
    (h : verifyParameters message ((id, name, index) :: rest) ids indices = .ok (ids', indices')) :
    0 < id ∧ name ≠ [] ∧ id ∉ ids ∧ index ∉ indices ∧
      verifyParameters message rest (id :: ids) (index :: indices) = .ok (ids', indices') := by
  unfold verifyParameters at h
  obtain ⟨hfields, h⟩ := require_then.1 h
  simp only [and_eq_true, not_eq_true', List.contains_eq_mem, decide_eq_false_iff_not,
    bne_iff_ne, ne_eq, List.isEmpty_eq_false_iff, and_assoc] at hfields
  obtain ⟨hid, -, hname, hids, -, hindices⟩ := hfields
  exact ⟨Nat.pos_of_ne_zero hid, hname, hids, hindices, h⟩

theorem pos_of_verifyParameters {entries : List (Id × Text × ℕ)} (hpos : ∀ id ∈ ids, 0 < id)
    (h : verifyParameters message entries ids indices = .ok (ids', indices')) :
    ∀ id ∈ ids', 0 < id := by
  induction entries generalizing ids indices with
  | nil =>
    cases h
    exact hpos
  | cons entry rest ih =>
    obtain ⟨hid, -, -, -, h⟩ := verifyParameters_cons h
    refine ih (fun id hmem => ?_) h
    rcases mem_cons.1 hmem with rfl | hmem
    · exact hid
    · exact hpos id hmem

variable {index : Value} {b : Bindings}

theorem resourceArgument_verified {resource : Resource} (hid : 0 < resource.id)
    (hname : resource.name ≠ []) (hnew : b.resources resource.id = none)
    (hindex : resource.parameterIndex ∉ b.parameterIds) :
    verifyArgument (resourceArgument resource) index b =
      .ok { b with
        resources := Function.update b.resources resource.id (some index)
        parameterIds := resource.parameterIndex :: b.parameterIds } := by
  simp [verifyArgument, verifyParameter, resourceArgument, Entries.ofList, ok_bind, require, hname,
    hnew, hindex, hid, pure, Except.pure]

theorem shapeArgument_verified {parameter : ShapeParameter} (hid : 0 < parameter.id)
    (hname : parameter.name ≠ []) (hnew : parameter.id ∉ b.shapeIds)
    (hindex : parameter.parameterIndex ∉ b.parameterIds) :
    verifyArgument (shapeArgument parameter) index b =
      .ok { b with
        shapeIds := parameter.id :: b.shapeIds
        parameterIds := parameter.parameterIndex :: b.parameterIds } := by
  simp [verifyArgument, verifyParameter, shapeArgument, Entries.ofList, ok_bind, require, hname,
    hnew, hindex, hid, pure, Except.pure]

theorem resources_verified {resources : List Resource} {more : List Argument}
    (hids : ∀ id, b.resources id ≠ none → id ∈ ids) (hindices : b.parameterIds = indices)
    (h : verifyParameters message (resources.map fun r => (r.id, r.name, r.parameterIndex))
      ids indices = .ok (ids', indices')) :
    verifyArguments index (resources.map resourceArgument ++ more) b =
      verifyArguments (index + resources.length) more
        { b with
          resources := bindArguments b.resources index (resources.map (·.id))
          parameterIds := indices' } := by
  induction resources generalizing index b ids indices with
  | nil =>
    cases h
    rw [← hindices]
    rfl
  | cons resource rest ih =>
    obtain ⟨hpos, hname, hnew, hindex, h⟩ := verifyParameters_cons h
    have hfree : b.resources resource.id = none := by
      by_contra hne
      exact hnew (hids _ hne)
    have hids' : ∀ id, Function.update b.resources resource.id (some index) id ≠ none →
        id ∈ resource.id :: ids := by
      intro id hne
      by_cases heq : id = resource.id
      · exact heq ▸ mem_cons_self
      · rw [Function.update_of_ne heq] at hne
        exact List.mem_cons_of_mem _ (hids id hne)
    rw [map_cons, List.cons_append, verifyArguments,
      resourceArgument_verified hpos hname hfree (hindices ▸ hindex), ok_bind,
      ih hids' (by rw [hindices]) h, List.length_cons, Nat.add_assoc, Nat.add_comm 1]
    rfl

theorem shapeParameters_verified {parameters : List ShapeParameter} (hids : b.shapeIds = ids)
    (hindices : b.parameterIds = indices)
    (h : verifyParameters message (parameters.map fun p => (p.id, p.name, p.parameterIndex))
      ids indices = .ok (ids', indices')) :
    verifyArguments index (parameters.map shapeArgument) b =
      .ok { b with shapeIds := ids', parameterIds := indices' } := by
  induction parameters generalizing index b ids indices with
  | nil =>
    cases h
    rw [← hindices, ← hids]
    rfl
  | cons parameter rest ih =>
    obtain ⟨hpos, hname, hnew, hindex, h⟩ := verifyParameters_cons h
    rw [map_cons, verifyArguments,
      shapeArgument_verified hpos hname (hids ▸ hnew) (hindices ▸ hindex), ok_bind]
    exact ih (by rw [hids]) (by rw [hindices]) h

theorem regionArguments_types (region : Region) :
    (regionArguments region).map (·.type) =
      List.replicate region.resources.length .descriptor ++
        List.replicate region.shapeParameters.length (.integer 64) := by
  simp [regionArguments, resourceArgument, shapeArgument, List.map_const', Function.comp_def]

/-- The block state in which the block of a region begins. -/
def regionEntry (region : Region) : BlockState :=
  entryState ((regionArguments region).map (·.type))
    (bindArguments (fun _ => none) 0 (region.resources.map (·.id)))

/-- The block state behind the `begin` of a region. -/
def regionState (region : Region) : BlockState :=
  let s := regionEntry region
  { s with
    scope := s.scope ++ beginOp.definitions
    state := { s.state with order := some s.scope.length } }

theorem begin_built (region : Region) :
    Piece files false 0 (.ofList [beginOp]) (regionEntry region) (regionState region) := by
  have hbegin : verifyOp files false beginOp .nil (regionEntry region) =
      .ok { regionEntry region with
        state := { (regionEntry region).state with
          order := some (regionEntry region).scope.length } } := rfl
  exact piece_op 0 rfl (by simp [beginOp]) rfl (fun _ => rfl) hbegin

variable {region : Region}

theorem tracks_region (hresources : ∀ id ∈ ctx.resources, 0 < id)
    (hmem : ∀ id ∈ ctx.resources, id ∈ region.resources.map (·.id))
    (hparameters : ∀ id ∈ ctx.parameters, id ∈ region.shapeParameters.map (·.id)) :
    Tracks ctx ⟨fun _ => none, []⟩ (initialState region) (regionState region) := by
  have hlength : (argumentScope ((regionArguments region).map (·.type)) : Definitions).length =
      region.resources.length + region.shapeParameters.length := by
    simp [argumentScope, regionArguments]
  refine ⟨?_, ?_, ?_, rfl, rfl, rfl, fun id hid => ?_, fun id hid => ?_, by simp, fun _ h => by cases h⟩
  · simp [regionState, regionEntry, entryState, initialState, hlength, beginOp, Mlir.Op.definitions]
  · simp [regionState, regionEntry, entryState, initialState, hlength]
  · have htoken : Mlir.Scope.type (argumentScope ((regionArguments region).map (·.type)) ++
        beginOp.definitions) ((argumentScope ((regionArguments region).map (·.type)) :
          Definitions).length + 0) = some .order := Mlir.Scope.type_result _ _ rfl
    rwa [hlength] at htoken
  · obtain ⟨i, hi, hbound⟩ := bindArguments_of_mem (fun _ => none) 0 (hmem id hid)
    refine ⟨hresources id hid, 0 + i, hbound, hbound, Mlir.Scope.type_append ?_⟩
    rw [List.length_map] at hi
    simp [Mlir.Scope.type, regionEntry, entryState, argumentScope, regionArguments_types, hi,
      List.getElem?_append]
  · obtain ⟨i, hi, hbound⟩ := bindArguments_of_mem (fun _ => none) region.resources.length
      (hparameters id hid)
    refine ⟨region.resources.length + i, hbound, Mlir.Scope.definition_append ?_⟩
    rw [List.length_map] at hi
    simp [regionEntry, entryState, argumentScope, regionArguments_types, hi]

theorem unused_entry (index : ℕ) :
    Unused (ascii "region" ++ ascii (toString index)) 0 [ascii "entry"] := by
  intro f hf j _ hu
  rw [List.mem_singleton] at hf
  obtain ⟨rest, heq, -⟩ := hu
  have hhead := congrArg List.head? (hf.symm.trans heq)
  rw [operationPath_eq] at hhead
  revert hhead
  simp [ascii]

/-- **The function built for an admitted region** passes its checks. -/
theorem function_built (index : ℕ) (hsite : siteValid region.site files = true)
    (hmain : region.site.fileId = 1) (h : verifyRegion files region = .ok ()) :
    ∃ function, buildFunction index region = some function ∧ function.name = region.name ∧
      verifyFunction files function = .ok () ∧ function.wellFormed = true := by
  unfold verifyRegion at h
  obtain ⟨⟨resources, indices⟩, hresources, h⟩ := bind_eq_ok h
  obtain ⟨⟨parameters, indices'⟩, hparameters, h⟩ := bind_eq_ok h
  obtain ⟨_, hdepth, h⟩ := bind_eq_ok h
  obtain ⟨after, hbody, -⟩ := bind_eq_ok h
  -- the arguments
  have hpos := pos_of_verifyParameters (by simp) hresources
  have htracks : Tracks ⟨resources, parameters, files⟩ ⟨fun _ => none, []⟩ (initialState region)
      (regionState region) :=
    tracks_region hpos (fun id hid => by simpa using mem_of_verifyParameters hresources hid)
      (fun id hid => by simpa using mem_of_verifyParameters hparameters hid)
  have hbindings : verifyArguments 0 (regionArguments region) {} = .ok
      ⟨bindArguments (fun _ => none) 0 (region.resources.map (·.id)), parameters, indices'⟩ := by
    unfold regionArguments
    rw [resources_verified (by simp) rfl hresources]
    exact shapeParameters_verified rfl rfl hparameters
  -- the block
  obtain ⟨ops, state, s, hbuild, hpiece, hafter, -⟩ :=
    body_built false hbody htracks (unused_entry index)
  obtain ⟨hrun, hwell⟩ :=
    block_built (some [.order]) ((begin_built region).append hpiece) hafter (fun _ => rfl)
  have hblock : verifyBlock files false 0
      (.cons beginOp .nil (ops.append (.ofList [returnOp state.order]))) (regionEntry region) =
        .ok { s with ended := true } := by
    unfold verifyBlock
    rw [hdepth, ok_bind]
    have hloop : verifyOps files false 0
        (.cons beginOp .nil (ops.append (.ofList [returnOp state.order]))) (regionEntry region) =
          .ok { s with ended := true } := hrun
    rw [hloop]
    rfl
  refine ⟨_, by rw [buildFunction, hbuild]; rfl, rfl, ?_, ?_⟩
  · unfold verifyFunction
    dsimp only
    rw [require_bind, require_bind, hbindings, ok_bind]
    · show (verifyBlock files false 0 _ (regionEntry region) >>= _) = _
      rw [hblock]
      rfl
    · simp [Entries.ofList, sourceAttr, hmain]
    · simp only [and_eq_true]
      refine ⟨⟨⟨⟨trivial, rfl⟩, ?_⟩,
        textIs_of_get (by simp [Entries.ofList, literalAttr])⟩, ?_⟩
      · have hget : Entries.get (.ofList [("mdsl_admission.source", sourceAttr region.site),
            ("mdsl_admission.aliasing", literalAttr "all_resources_may_alias")])
            "mdsl_admission.source" = some (sourceAttr region.site) := by simp [Entries.ofList]
        rw [hget, sourceValid_sourceAttr hsite]
      · exact attrsAre_set (by simp) (attrsAre_set (by simp) attrsAre_nil)
  · unfold Function.wellFormed
    simp only [and_eq_true]
    exact ⟨beq_self_eq_true _, hwell⟩

theorem functions_built {regions : List Region} {names : List Text} (index : ℕ)
    (h : verifyRegions files regions names = .ok ()) :
    ∃ functions : List Function, buildFunctions index regions = some (functions.map .function) ∧
      functions.map (·.name) = regions.map (·.name) ∧
      (regions.map (·.name)).Nodup ∧ (∀ name ∈ regions.map (·.name), name ∉ names) ∧
      verifyFunctions files (functions.map .function) = .ok () ∧
      ∀ function ∈ functions, function.wellFormed = true := by
  induction regions generalizing index names with
  | nil => exact ⟨[], rfl, rfl, List.nodup_nil, by simp, rfl, by simp⟩
  | cons region rest ih =>
    unfold verifyRegions at h
    obtain ⟨hfields, h⟩ := require_then.1 h
    obtain ⟨_, hregion, h⟩ := bind_eq_ok h
    simp only [and_eq_true, not_eq_true', List.contains_eq_mem, beq_iff_eq,
      decide_eq_false_iff_not, and_assoc] at hfields
    obtain ⟨-, hname, hmain, hsite⟩ := hfields
    obtain ⟨function, hbuild, hfunctionName, hverify, hwell⟩ :=
      function_built index hsite hmain hregion
    obtain ⟨functions, hbuilds, hnames, hnodup, hnew, hverifies, hall⟩ := ih (index + 1) h
    refine ⟨function :: functions, ?_, ?_, ?_, ?_, ?_, ?_⟩
    · rw [buildFunctions, hbuild, hbuilds]
      rfl
    · rw [map_cons, map_cons, hfunctionName, hnames]
    · rw [map_cons, List.nodup_cons]
      exact ⟨fun hmem => hnew _ hmem mem_cons_self, hnodup⟩
    · intro name hmem
      rcases mem_cons.1 hmem with rfl | hmem
      · exact hname
      · exact fun hold => hnew name hmem (List.mem_cons_of_mem _ hold)
    · rw [map_cons, verifyFunctions, hverify, ok_bind, hverifies]
    · intro f hf
      rcases mem_cons.1 hf with rfl | hf
      · exact hwell
      · exact hall f hf

theorem fileOf_fileAttr {file : SourceFile} (hid : 0 < file.id) (hsize : 0 < file.byteSize) :
    fileOf (fileAttr file) = some file := by
  simp [fileOf, fileAttr, Entries.ofList, hid, hsize]

theorem bounds_of_filesFrom {before rest : List SourceFile} (h : filesFrom before rest = true) :
    ∀ file ∈ rest, 0 < file.id ∧ 0 < file.byteSize := by
  induction rest generalizing before with
  | nil => simp
  | cons first rest ih =>
    rw [filesFrom, and_eq_true] at h
    obtain ⟨hfirst, hrest⟩ := h
    refine List.forall_mem_cons.2 ⟨?_, ih hrest⟩
    simp only [fileValid, and_eq_true, beq_iff_eq, bne_iff_ne, ne_eq, and_assoc] at hfirst
    obtain ⟨hid, -, -, -, -, hsize, -⟩ := hfirst
    exact ⟨hid ▸ Nat.succ_pos _, Nat.pos_of_ne_zero hsize⟩

theorem mapM_fileOf (h : ∀ file ∈ files, 0 < file.id ∧ 0 < file.byteSize) :
    (files.map fileAttr).mapM fileOf = some files := by
  induction files with
  | nil => rfl
  | cons first rest ih =>
    obtain ⟨hid, hsize⟩ := h first mem_cons_self
    have hrest := ih fun file hf => h file (List.mem_cons_of_mem _ hf)
    rw [map_cons, List.mapM_cons, fileOf_fileAttr hid hsize, hrest]
    rfl

theorem files_built {path hash : Text} {d : Entries} (h : filesValid files path hash = true)
    (hget : d.get "mdsl_admission.source_files" = some (.array (.ofList (files.map fileAttr)))) :
    verifyFiles d = .ok files := by
  have hfields := h
  unfold filesValid at hfields
  cases files with
  | nil => cases hfields
  | cons front rest =>
    simp only [and_eq_true, decide_eq_true_eq] at hfields
    obtain ⟨⟨⟨⟨hlength, -⟩, -⟩, hfrom⟩, -⟩ := hfields
    have hread : ((front :: rest).map fileAttr).mapM fileOf = some (front :: rest) :=
      mapM_fileOf (bounds_of_filesFrom hfrom)
    unfold verifyFiles
    rw [hget]
    simp only [Mlir.Elements.toList_ofList, hread]
    rw [require_bind (by simpa using hlength)]
    rfl

theorem text_built {d : Entries} {name : String} {value : Text} {valid : Text → Bool}
    (hget : d.get name = some (.string value)) (hvalid : valid value = true) :
    verifyText d name valid message = .ok value := by
  unfold verifyText
  rw [hget]
  exact require_bind hvalid

theorem contractIs_moduleAttributes (program : Program) :
    contractIs (moduleAttributes program) = true := by
  simp only [contractIs, and_eq_true]
  refine ⟨⟨⟨⟨?_, ?_⟩, ?_⟩, ?_⟩, ?_⟩
  on_goal 5 =>
    unfold moduleAttributes
    repeat refine attrsAre_set (by simp) ?_
    exact attrsAre_nil
  all_goals exact textIs_of_get (by simp [moduleAttributes, literalAttr])

theorem emitModule_verified (verify : Module → Bool)
    (hverify : ∀ module : Module, module.Admitted → module.wellFormed = true →
      verify module = true) {program : Program} (h : verifyProgram program = .ok ()) :
    ∃ module, emitModule program = some module ∧ verifyModule verify module = .ok () := by
  unfold verifyProgram at h
  obtain ⟨hfields, h⟩ := require_then.1 h
  obtain ⟨_, hfiles, hregions⟩ := bind_eq_ok h
  have hfiles := require_eq_ok.1 hfiles
  simp only [and_eq_true, not_eq_true', and_assoc] at hfields
  obtain ⟨hidentity, hsource, hheader, hcompiler, hnonempty⟩ := hfields
  obtain ⟨functions, hbuild, hnames, hnodup, -, hfunctions, hall⟩ := functions_built 0 hregions
  let module : Module := ⟨moduleAttributes program, functions.map .function⟩
  have hemit : emitModule program = some module := by
    rw [emitModule, hbuild]
    rfl
  have hwell : module.wellFormed = true := by
    unfold Module.wellFormed
    rw [and_eq_true, all_map, List.all_eq_true, List.filterMap_map]
    refine ⟨hall, decide_eq_true ?_⟩
    have hsymbols : (functions.map (·.name)).Nodup := hnames ▸ hnodup
    rw [← List.filterMap_eq_map] at hsymbols
    exact hsymbols
  have haccept : ∀ generic : Module → Bool, generic module = true →
      verifyModule generic module = .ok () := by
    intro generic hgeneric
    unfold verifyModule
    have hbody : (!(functions.map TopLevel.function).isEmpty) = true := by
      rw [List.isEmpty_eq_false_iff] at hnonempty
      rw [not_eq_true', List.isEmpty_eq_false_iff]
      intro hnil
      rw [List.map_eq_nil_iff] at hnil
      rw [hnil, List.map_nil] at hnames
      exact hnonempty (List.map_eq_nil_iff.1 hnames.symm)
    have hidentityOk : verifyText (moduleAttributes program) "mdsl_admission.source_identity"
        (!·.isEmpty) "module lacks source/compiler identity" = .ok program.sourceIdentity :=
      text_built (by simp [moduleAttributes]) (by rw [hidentity]; rfl)
    have hcompilerOk : verifyText (moduleAttributes program) "mdsl_admission.compiler_identity"
        (!·.isEmpty) "module lacks source/compiler identity" = .ok program.compilerIdentity :=
      text_built (by simp [moduleAttributes]) (by rw [hcompiler]; rfl)
    have hsourceOk : verifyText (moduleAttributes program) "mdsl_admission.source_sha256" digest
        "invalid source/header digest" = .ok program.sourceSha256 :=
      text_built (by simp [moduleAttributes]) hsource
    have hheaderOk : verifyText (moduleAttributes program) "mdsl_admission.header_sha256" digest
        "invalid source/header digest" = .ok program.headerSha256 :=
      text_built (by simp [moduleAttributes]) hheader
    have hfilesOk : verifyFiles (moduleAttributes program) = .ok program.sourceFiles :=
      files_built hfiles (by simp [moduleAttributes])
    rw [require_bind hgeneric, require_bind (contractIs_moduleAttributes program), hidentityOk,
      ok_bind, hcompilerOk, ok_bind, hsourceOk, ok_bind, hheaderOk, ok_bind, hfilesOk, ok_bind,
      require_bind hfiles, require_bind hbody]
    exact hfunctions
  exact ⟨module, hemit, haccept verify (hverify module (haccept _ rfl) hwell)⟩

theorem buildModule_eq {verify : Module → Bool} {program : Program} {module : Module}
    (h : verifyProgram program = .ok ()) (hemit : emitModule program = some module)
    (haccept : verifyModule verify module = .ok ()) : buildModule verify program = .ok module := by
  unfold buildModule
  rw [h, ok_bind, hemit]
  dsimp only
  rw [haccept]
  rfl

/-- **The builder and the two verifiers agree**: the module built for an accepted program passes
its checks. `verify`, the generic verifier of MLIR, accepts the well-formed modules among those that
pass the other checks. -/
theorem build_verified {verify : Module → Bool}
    (hverify : ∀ module : Module, module.Admitted → module.wellFormed = true →
      verify module = true) {program : Program} (h : verifyProgram program = .ok ()) :
    ∃ module, buildModule verify program = .ok module ∧ verifyModule verify module = .ok () := by
  obtain ⟨module, hemit, haccept⟩ := emitModule_verified verify hverify h
  exact ⟨module, buildModule_eq h hemit haccept, haccept⟩

theorem build_verified_twoLayer :
    ∃ module, buildModule Module.wellFormed twoLayerProgram = .ok module ∧
      verifyModule Module.wellFormed module = .ok () :=
  build_verified (fun _ _ h => h) verify_twoLayer

end Matcore.ClosedRegion
