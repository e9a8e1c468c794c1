import Matcore.Ir.ModuleJson
import Matcore.Proof.IrV1RoundTrip

/-!
# What a failed parse leaves

The reader of v1 fills a local module and assigns it last, so its failures leave the empty
module. The reader of v0 fills the caller's module as it goes, and empties it again only when the
verifier rejects it: a document whose walk stops in the middle leaves the fields read so far.
-/

namespace Matcore.Ir

def readProducer (document : Json) : Except String String := readString irName document "producer"

def readIdentity (document : Json) : Except String String := do
  let unit ← requiredUnit document
  readString irName unit "identity"

def readSourceFile (document : Json) : Except String String := do
  let unit ← requiredUnit document
  readString irName unit "source_file"

def readOperations (document : Json) : Except String (List Json) :=
  requiredMember irName document "operations" Json.asArray

/-- The walk reads all of the document, so that only the verifier may reject it. -/
def WellFormed (document : Json) : Prop :=
  ∃ producer identity sourceFile encoded operations,
    readProducer document = .ok producer ∧ readIdentity document = .ok identity ∧
    readSourceFile document = .ok sourceFile ∧ readOperations document = .ok encoded ∧
    encoded.mapM parseOperation = .ok operations

/-- All that the walk reads before it stops are empty strings. -/
def NothingRead (document : Json) : Prop :=
  ∀ producer, readProducer document = .ok producer → producer = "" ∧
    ∀ identity, readIdentity document = .ok identity → identity = "" ∧
      ∀ sourceFile, readSourceFile document = .ok sourceFile → sourceFile = "" ∧
        ∀ first rest, readOperations document = .ok (first :: rest) →
          ∀ operation, parseOperation first ≠ .ok operation

variable {encoded : List Json}

theorem parseOperations_ok {operations : List Operation}
    (h : encoded.mapM parseOperation = .ok operations) (module : Module) :
    parseOperations encoded module =
      (.ok (), { module with operations := module.operations ++ operations }) := by
  induction encoded generalizing module operations with
  | nil =>
    have hnil : operations = [] := (Except.ok.inj h).symm
    rw [hnil, List.append_nil]
    rfl
  | cons first rest ih =>
    rw [List.mapM_cons] at h
    obtain ⟨operation, hfirst, h⟩ := Except.bind_eq_ok h
    obtain ⟨more, hrest, h⟩ := Except.bind_eq_ok h
    cases h
    have hrun := ih hrest { module with operations := module.operations ++ [operation] }
    unfold parseOperations
    rw [hfirst]
    refine Eq.trans hrun ?_
    rw [List.append_assoc]
    rfl

theorem parseOperations_error (h : ∀ operations, encoded.mapM parseOperation ≠ .ok operations)
    (module : Module) :
    ∃ message kept, parseOperations encoded module =
        (.error message, { module with operations := module.operations ++ kept }) ∧
      (kept = [] ↔ ∀ first rest, encoded = first :: rest →
        ∀ operation, parseOperation first ≠ .ok operation) := by
  induction encoded generalizing module with
  | nil => exact absurd rfl (h [])
  | cons first rest ih =>
    cases hfirst : parseOperation first with
    | error message =>
      refine ⟨message, [], ?_, fun _ first' rest' heq operation hok => ?_, fun _ => rfl⟩
      · unfold parseOperations
        rw [hfirst, List.append_nil]
        rfl
      · cases heq
        rw [hfirst] at hok
        cases hok
    | ok operation =>
      have hrest : ∀ operations, rest.mapM parseOperation ≠ .ok operations := by
        intro operations hoperations
        refine h (operation :: operations) ?_
        rw [List.mapM_cons, hfirst, hoperations]
        rfl
      obtain ⟨message, kept, hrun, -⟩ :=
        ih hrest { module with operations := module.operations ++ [operation] }
      refine ⟨message, operation :: kept, ?_, ?_⟩
      · unfold parseOperations
        rw [hfirst]
        refine Eq.trans hrun ?_
        rw [List.append_assoc]
        rfl
      · refine ⟨fun hnil => absurd hnil (List.cons_ne_nil _ _), fun hno => ?_⟩
        exact absurd hfirst (hno first rest rfl operation)

variable {β : Type}

theorem run_lift {α : Type} (x : Except String α) (k : α → ParseM β) (module : Module) :
    ((liftM x : ParseM α) >>= k) module =
      match x with
      | .error message => (.error message, module)
      | .ok a => k a module := by
  cases x <;> rfl

theorem run_bind {α : Type} (m : ParseM α) (k : α → ParseM β) (module : Module) :
    (m >>= k) module =
      match m module with
      | (.error message, left) => (.error message, left)
      | (.ok a, left) => k a left := by
  change ExceptT.bindCont k (m module).1 (m module).2 = _
  rcases m module with ⟨_ | _, _⟩ <;> rfl

theorem run_modify (g : Module → Module) (k : Unit → ParseM β) (module : Module) :
    ((modify g : ParseM Unit) >>= k) module = k () (g module) := rfl

theorem fillModule_eq (document : Json) (module : Module) :
    fillModule document module =
      (do
        let producer ← liftM (readProducer document)
        modify fun module => { module with producer }
        let translationUnit ← liftM (readIdentity document)
        modify fun module => { module with translationUnit }
        let sourceFile ← liftM (readSourceFile document)
        modify fun module => { module with sourceFile }
        let operations ← liftM (readOperations document)
        parseOperations operations : ParseM Unit) module := by
  unfold fillModule readIdentity readSourceFile
  rw [run_lift, run_lift]
  unfold readProducer
  cases readString irName document "producer" with
  | error message => rfl
  | ok producer =>
    simp only [run_modify]
    rw [run_lift, run_lift]
    cases requiredUnit document with
    | error message => rfl
    | ok unit =>
      simp only [Except.ok_bind, run_lift]
      rfl

theorem fillModule_cases (document : Json) :
    (∃ parsed, fillModule document {} = (.ok (), parsed) ∧ WellFormed document) ∨
    ∃ message left, fillModule document {} = (.error message, left) ∧ ¬ WellFormed document ∧
      (left = {} ↔ NothingRead document) := by
  rw [fillModule_eq, run_lift]
  -- the first reader that fails, in the order of the source, decides what is left
  cases hproducer : readProducer document with
  | error message =>
    refine Or.inr ⟨message, _, rfl, ?_, by simp [NothingRead, hproducer]⟩
    rintro ⟨_, _, _, _, _, h, -⟩
    rw [hproducer] at h
    cases h
  | ok producer =>
  simp only [run_modify]
  rw [run_lift]
  cases hidentity : readIdentity document with
  | error message =>
    refine Or.inr ⟨message, _, rfl, ?_, by simp [NothingRead, hproducer, hidentity]⟩
    rintro ⟨_, _, _, _, _, -, h, -⟩
    rw [hidentity] at h
    cases h
  | ok identity =>
  simp only [run_modify]
  rw [run_lift]
  cases hsource : readSourceFile document with
  | error message =>
    refine Or.inr ⟨message, _, rfl, ?_, ?_⟩
    · rintro ⟨_, _, _, _, _, -, -, h, -⟩
      rw [hsource] at h
      cases h
    · simp [NothingRead, hproducer, hidentity, hsource, and_comm]
  | ok sourceFile =>
  simp only [run_modify]
  rw [run_lift]
  cases hoperations : readOperations document with
  | error message =>
    refine Or.inr ⟨message, _, rfl, ?_, ?_⟩
    · rintro ⟨_, _, _, _, _, -, -, -, h, -⟩
      rw [hoperations] at h
      cases h
    · simp [NothingRead, hproducer, hidentity, hsource, hoperations]
      tauto
  | ok encoded =>
  cases hencoded : encoded.mapM parseOperation with
  | ok operations =>
    refine Or.inl ⟨_, parseOperations_ok hencoded _, ?_⟩
    exact ⟨producer, identity, sourceFile, encoded, operations, hproducer, hidentity, hsource,
      hoperations, hencoded⟩
  | error message =>
    have hno : ∀ operations, encoded.mapM parseOperation ≠ .ok operations := by
      intro operations h
      rw [hencoded] at h
      cases h
    obtain ⟨message, kept, hrun, hkept⟩ := parseOperations_error hno
      { producer, translationUnit := identity, sourceFile }
    refine Or.inr ⟨message, _, hrun, ?_, ?_⟩
    · rintro ⟨_, _, _, encoded', operations, -, -, -, h, hmap⟩
      rw [hoperations] at h
      cases h
      exact hno operations hmap
    · simp [NothingRead, hproducer, hidentity, hsource, hoperations, hkept]
      tauto

variable {rapidjson : RapidJson}

/-- The outcome of an entry point is not a failure that leaves something. -/
def LeavesEmpty {M : Type} (empty : M) (outcome : Except String Unit × M) : Prop :=
  ∀ message, outcome.1 = .error message → outcome.2 = empty

theorem v1_leavesEmpty (json : Text) (before : V1.Module) :
    LeavesEmpty {} (V1.parseAndVerifyJson rapidjson json before) := by
  intro message h
  cases hparsed : V1.parseVerified rapidjson json with
  | error message => rw [V1.parseAndVerifyJson_of_error hparsed]
  | ok parsed =>
    rw [V1.parseAndVerifyJson_of_ok hparsed] at h
    cases h

variable {json : Text}

theorem parse_of_unread {message : String} (h : rapidjson.parse json = .error message)
    (before : Module) : parseAndVerifyJson rapidjson json before = (.error message, {}) := by
  unfold parseAndVerifyJson
  rw [h]
  rfl

theorem parse_of_badRoot {document : Json} {message : String}
    (h : rapidjson.parse json = .ok document) (hroot : checkRoot document = .error message)
    (before : Module) : parseAndVerifyJson rapidjson json before = (.error message, {}) := by
  unfold parseAndVerifyJson
  rw [h]
  change (liftM (checkRoot document) >>= _ : ParseM Unit) {} = _
  rw [hroot]
  rfl

/-- After the root the outcome is that of the walk, and the verifier's if the walk is complete. -/
theorem parse_of_root {document : Json} (h : rapidjson.parse json = .ok document)
    (hroot : checkRoot document = .ok ()) (before : Module) :
    parseAndVerifyJson rapidjson json before =
      match fillModule document {} with
      | (.error message, left) => (.error message, left)
      | (.ok (), parsed) =>
        match verify parsed with
        | .error message => (.error ("Matcore IR verifier rejected input: " ++ message), {})
        | .ok () => (.ok (), parsed) := by
  unfold parseAndVerifyJson
  rw [h]
  change (liftM (checkRoot document) >>= _ : ParseM Unit) {} = _
  rw [hroot]
  change (fillModule document >>= _ : ParseM Unit) {} = _
  rw [run_bind]
  rcases fillModule document {} with ⟨_ | _, left⟩
  · rfl
  · change (match verify left with
      | .error message => (do
          set ({} : Module)
          throw ("Matcore IR verifier rejected input: " ++ message) : ParseM Unit)
      | .ok () => pure ()) left = _
    cases hverify : verify left <;> simp only [hverify] <;> rfl

/-- The reader of v0 leaves nothing exactly when its walk is complete or read nothing. -/
theorem v0_leavesEmpty_iff (json : Text) (before : Module) :
    LeavesEmpty {} (parseAndVerifyJson rapidjson json before) ↔
      ∀ document, rapidjson.parse json = .ok document → checkRoot document = .ok () →
        WellFormed document ∨ NothingRead document := by
  cases hparse : rapidjson.parse json with
  | error message =>
    rw [parse_of_unread hparse]
    exact iff_of_true (fun _ _ => rfl) fun _ h => by cases h
  | ok document =>
  cases hroot : checkRoot document with
  | error message =>
    rw [parse_of_badRoot hparse hroot]
    refine iff_of_true (fun _ _ => rfl) fun document' h hok => ?_
    cases h
    rw [hroot] at hok
    cases hok
  | ok _ =>
  rw [parse_of_root hparse hroot]
  rcases fillModule_cases document with ⟨parsed, hfill, hwell⟩ | ⟨message, left, hfill, hno, hleft⟩
  · rw [hfill]
    refine iff_of_true (fun message h => ?_) fun document' heq _ => ?_
    · cases hverify : verify parsed with
      | error _ => simp only [hverify]
      | ok _ =>
        simp only [hverify] at h
        cases h
    · cases heq
      exact Or.inl hwell
  · rw [hfill]
    constructor
    · intro h document' heq _
      cases heq
      exact Or.inr (hleft.1 (h message rfl))
    · intro h message' _
      rcases h document rfl hroot with hwell | hnothing
      · exact absurd hwell hno
      · exact hleft.2 hnothing

/-- **Failed parses.** Both readers leave the empty module behind a failure exactly when the walk
of v0 does not stop in the middle with something read: the document is not JSON or fails the
checks before its producer, or it is rejected by the verifier alone, or all that was read before
the rejection are empty strings. -/
theorem failed_parse_leaves_empty_iff (rapidjson : RapidJson) (json : Text) (before : Module)
    (before' : V1.Module) :
    (LeavesEmpty {} (parseAndVerifyJson rapidjson json before) ∧
        LeavesEmpty {} (V1.parseAndVerifyJson rapidjson json before')) ↔
      ∀ document, rapidjson.parse json = .ok document → checkRoot document = .ok () →
        WellFormed document ∨ NothingRead document := by
  rw [v0_leavesEmpty_iff, and_iff_left (v1_leavesEmpty json before')]

/-- A v0 document whose translation unit is missing its fields. -/
def truncatedDocument : Json :=
  .object
    [("schema", .string "matcore.ir"), ("version", .uint 0),
      ("producer", .string "clang-libtooling-v1"), ("translation_unit", .object []),
      ("operations", .array [])]

/-- The v0 reader rejects the document and leaves its producer in the module. -/
theorem truncated_document_leaves_producer :
    let rapidjson := rapidjsonOn truncatedDocument
    ¬ LeavesEmpty {} (parseAndVerifyJson rapidjson (rapidjson.document truncatedDocument) {}) := by
  intro rapidjson h
  have hparse : rapidjson.parse (rapidjson.document truncatedDocument) = .ok truncatedDocument :=
    rapidjsonOn_faithful truncatedDocument
  rw [parse_of_root hparse (by rfl)] at h
  have hleft := h _ rfl
  revert hleft
  decide

end Matcore.Ir
