import Matcore.TwoGemm.Run

/-!
# The guard ledger as an attribute

A ledger that is built is accepted.
-/

namespace Matcore.TwoGemm

open Mlir (Attribute Entries Bytes ascii)
open Ir.V1 (ValueId)

theorem parse_name {κ : Type} {table : List κ} {name : κ → String}
    (h : (table.map fun key => ascii (name key)).Nodup) {key : κ} (hm : key ∈ table) :
    parse table name (some (.string (ascii (name key)))) = some key := by
  induction table with
  | nil => cases hm
  | cons first rest ih =>
    rw [List.map_cons, List.nodup_cons] at h
    rcases List.mem_cons.1 hm with rfl | hrest
    · simp [parse]
    · have hne : ascii (name first) ≠ ascii (name key) := by
        intro heq
        exact h.1 (List.mem_map.2 ⟨key, hrest, heq.symm⟩)
      have hskip : parse (first :: rest) name (some (.string (ascii (name key)))) =
          parse rest name (some (.string (ascii (name key)))) := by simp [parse, hne]
      rw [hskip]
      exact ih h.2 hrest

theorem parse_predicate (predicate : RegionGuardPredicate) :
    parse kPredicates (·.name) (some (.string (ascii predicate.name))) = some predicate :=
  parse_name (by decide +kernel) (by cases predicate <;> decide)

theorem parse_evidence (evidence : RegionGuardEvidence) :
    parse kEvidence (·.name) (some (.string (ascii evidence.name))) = some evidence :=
  parse_name (by decide +kernel) (by cases evidence <;> decide)

theorem parse_frontier (frontier : RegionGuardFrontier) :
    parse kFrontiers (·.name) (some (.string (ascii frontier.name))) = some frontier :=
  parse_name (by decide +kernel) (by cases frontier <;> decide)

theorem parse_subject (subject : ValueId) :
    parse kSubjects subjectName (some (.string (ascii (subjectName subject)))) = some subject :=
  parse_name (by decide +kernel) (by cases subject <;> decide)

/-- A row that the reader of a ledger takes. -/
structure RegionGuardEntry.Valid (entry : RegionGuardEntry) : Prop where
  length : entry.subjects.length ≤ 3
  nodup : entry.subjects.Nodup
  aligned : entry.predicate = .pointerAlignmentRequired →
    alignment (some (.integer 64 entry.alignmentBytes)) = some entry.alignmentBytes
  unaligned : entry.predicate ≠ .pointerAlignmentRequired → entry.alignmentBytes = 0

theorem decodeSubjects_map {found subjects : List ValueId} (h : (found ++ subjects).Nodup) :
    decodeSubjects found (subjects.map fun subject => .string (ascii (subjectName subject))) =
      .ok (found ++ subjects) := by
  induction subjects generalizing found with
  | nil => rw [List.append_nil, List.map_nil, decodeSubjects]
  | cons subject rest ih =>
    have hnew : subject ∉ found := by
      have hdisjoint := (List.nodup_append.1 h).2.2
      exact fun hm => hdisjoint subject hm subject List.mem_cons_self rfl
    have hrest : ((found ++ [subject]) ++ rest).Nodup := by
      rwa [List.append_assoc, List.singleton_append]
    rw [List.map_cons, decodeSubjects, parse_subject]
    simp only [if_neg hnew]
    rw [ih hrest, List.append_assoc, List.singleton_append]

theorem decodeEntry_encodeEntry {entry : RegionGuardEntry} (h : entry.Valid) :
    decodeEntry (encodeEntry entry) = .ok entry := by
  obtain ⟨predicate, evidence, frontier, subjects, bytes⟩ := entry
  have hlength : ¬ 3 < subjects.length := not_lt.2 h.length
  have hsubjects := @decodeSubjects_map [] subjects h.nodup
  by_cases hp : predicate = .pointerAlignmentRequired
  · have haligned := h.aligned hp
    simp [decodeEntry, encodeEntry, hp, asDictionary, Entries.get, Entries.names, parse_evidence,
      parse_frontier, parse_predicate, fields, asArray, hlength, hsubjects, haligned]
  · have hbytes := h.unaligned hp
    simp only at hbytes
    simp [decodeEntry, encodeEntry, hp, asDictionary, Entries.get, Entries.names, parse_evidence,
      parse_frontier, parse_predicate, fields, asArray, hlength, hsubjects, hbytes]

structure RegionGuardLedger.Valid (ledger : RegionGuardLedger) : Prop where
  siteId : ledger.siteId ≠ []
  stage : ledger.stage ≤ 1
  bindings : ∀ role, ledger.bindings.get role ≠ []
  nonempty : ledger.entries ≠ []
  entries : ∀ entry ∈ ledger.entries, entry.Valid

variable {text : Bytes}

theorem nonemptyString_string (h : text ≠ []) :
    nonemptyString (some (.string text)) = some text := by
  cases text with
  | nil => exact absurd rfl h
  | cons byte rest => rfl

variable {value : Option Attribute}

theorem nonemptyString_eq_some (h : nonemptyString value = some text) :
    asString value = some text ∧ text ≠ [] := by
  unfold nonemptyString at h
  cases hvalue : asString value with
  | none =>
    rw [hvalue] at h
    cases h
  | some found =>
    rw [hvalue] at h
    obtain ⟨hempty, hfound⟩ := Option.ite_none_left_eq_some.1 h
    have hsame : found = text := Option.some.inj hfound
    refine ⟨congrArg some hsame, ?_⟩
    rintro rfl
    exact hempty (by rw [hsame]; rfl)

variable {ledger : RegionGuardLedger}

/-- A well-formed ledger is read back as it was written. -/
theorem decode_encode (h : ledger.Valid) :
    decodeRegionGuardLedger (encode ledger) = .ok ledger := by
  obtain ⟨site, stage, bindings, entries⟩ := ledger
  have hsite := nonemptyString_string h.siteId
  have hstage : stage ≤ 1 := h.stage
  have hentries : (entries.map encodeEntry).mapM decodeEntry = .ok entries :=
    Except.mapM_map fun entry hm => decodeEntry_encodeEntry (h.entries entry hm)
  have hledger : ledgerStage (encode ⟨site, stage, bindings, entries⟩) = some stage := by
    simp [ledgerStage, encode, Entries.ofList, fields, integer, hstage]
  have hparts : ledgerParts (encode ⟨site, stage, bindings, entries⟩) =
      some (site, .ofList [("output", .string bindings.output), ("lhs", .string bindings.lhs),
        ("rhs", .string bindings.rhs)], entries.map encodeEntry) := by
    have hnonempty := h.nonempty
    simp [ledgerParts, encode, Entries.ofList, hsite, asArray, asDictionary, fields, hnonempty]
  have hbinding : ∀ role, decodeBinding (.ofList [("output", .string bindings.output),
      ("lhs", .string bindings.lhs), ("rhs", .string bindings.rhs)]) role =
      .ok (bindings.get role) := by
    intro role
    have hrole := nonemptyString_string (h.bindings role)
    cases role <;> simp [decodeBinding, subjectName, Entries.ofList, Roles.get] at hrole ⊢ <;>
      rw [hrole]
  unfold decodeRegionGuardLedger
  rw [hledger, hparts]
  simp only [hbinding, hentries, Except.ok_bind]
  rfl

/-- **A guard passes** when the rows that the runtime validates hold. -/
theorem guardHolds_encode (h : ledger.Valid) (floating : Bool) (views : Roles View) :
    guardHolds floating views (encode ledger) = true ↔
      ∀ entry ∈ ledger.entries, entry.evidence = .runtimeValidationRequired →
        entry.holds floating views = true := by
  unfold guardHolds
  rw [decode_encode h]
  simp only [List.all_eq_true, Bool.or_eq_true, decide_eq_true_eq, ne_eq]
  constructor
  · intro hall entry hm hevidence
    exact (hall entry hm).resolve_left fun hne => hne hevidence
  · intro hall entry hm
    by_cases hevidence : entry.evidence = .runtimeValidationRequired
    · exact Or.inr (hall entry hm hevidence)
    · exact Or.inl hevidence

variable {bytes : ℕ}

theorem alignment_eq_some (h : alignment value = some bytes) :
    alignment (some (.integer 64 bytes)) = some bytes := by
  unfold alignment at h
  cases hvalue : integer 64 value with
  | none =>
    rw [hvalue] at h
    cases h
  | some number =>
    rw [hvalue] at h
    obtain ⟨⟨hpos, hpower⟩, hbytes⟩ := Option.ite_none_right_eq_some.1 h
    have hnat : (bytes : ℤ) = number := by
      rw [← Option.some.inj hbytes]
      exact Int.toNat_of_nonneg (le_of_lt hpos)
    have hinteger : integer 64 (some (.integer 64 bytes)) = some (bytes : ℤ) := rfl
    unfold alignment
    rw [hinteger]
    simp only [hnat]
    rw [if_pos ⟨hpos, hpower⟩]
    exact hbytes

variable {contract : Entries} {bindings : List Attribute} {stage : ℕ} {role : ValueId}

theorem boundRole_eq_ok {descriptor : Bytes}
    (h : boundRole contract bindings stage role = .ok (descriptor, bytes)) :
    descriptor ≠ [] ∧ alignment (some (.integer 64 bytes)) = some bytes := by
  unfold boundRole at h
  simp only at h
  generalize (asDictionary _).getD .nil = binding at h
  split at h
  · rename_i found semantics hname _
    split at h
    · rename_i number hnumber
      obtain ⟨-, hfound⟩ := Except.ite_error_eq_ok.1 h
      cases hfound
      refine ⟨?_, alignment_eq_some hnumber⟩
      exact (nonemptyString_eq_some hname).2
    · cases h
  · cases h

theorem roleEntries_valid (h : alignment (some (.integer 64 bytes)) = some bytes) :
    ∀ entry ∈ roleEntries role bytes, entry.Valid := by
  intro entry hm
  simp only [roleEntries, List.mem_cons, List.not_mem_nil, or_false] at hm
  rcases hm with rfl | rfl | rfl | rfl
  all_goals exact ⟨by simp, by simp, by simp [h], by simp⟩

theorem requiredEntries_valid {alignments : Roles ℕ}
    (h : ∀ role, alignment (some (.integer 64 (alignments.get role))) =
      some (alignments.get role)) :
    ∀ entry ∈ requiredEntries alignments, entry.Valid := by
  intro entry hm
  have hplain : ∀ (predicate : RegionGuardPredicate) (evidence frontier) (subjects : List ValueId),
      predicate ≠ .pointerAlignmentRequired → subjects.length ≤ 3 → subjects.Nodup →
      RegionGuardEntry.Valid ⟨predicate, evidence, frontier, subjects, 0⟩ :=
    fun _ _ _ _ hne hlength hnodup => ⟨hlength, hnodup, fun heq => absurd heq hne, fun _ => rfl⟩
  simp only [requiredEntries, List.mem_append, List.mem_map, List.mem_cons, List.not_mem_nil,
    or_false] at hm
  rcases hm with (((((((⟨p, hp, rfl⟩ | ⟨p, hp, rfl⟩) | hm) | hm) | hm) | ⟨p, hp, rfl⟩) |
    ⟨p, hp, rfl⟩) | ⟨p, hp, rfl⟩) | ⟨p, hp, rfl⟩
  · rcases hp with rfl | rfl | rfl | rfl <;> exact hplain _ _ _ _ (by decide) (by decide) (by decide)
  · rcases hp with rfl | rfl | rfl <;> exact hplain _ _ _ _ (by decide) (by decide) (by decide)
  · exact roleEntries_valid (h .output) entry hm
  · exact roleEntries_valid (h .lhs) entry hm
  · exact roleEntries_valid (h .rhs) entry hm
  · rcases hp with rfl | rfl | rfl | rfl | rfl | rfl <;>
      exact hplain _ _ _ _ (by decide) (by decide) (by decide)
  · rcases hp with rfl | rfl | rfl | rfl | rfl | rfl <;>
      exact hplain _ _ _ _ (by decide) (by decide) (by decide)
  · rcases hp with rfl | rfl | rfl <;> exact hplain _ _ _ _ (by decide) (by decide) (by decide)
  · rcases hp with rfl | rfl <;> exact hplain _ _ _ _ (by decide) (by decide) (by decide)

theorem requiredLedger_valid (h : requiredLedger contract bindings stage = .ok ledger) :
    ledger.Valid ∧ ∃ alignments, ledger.entries = requiredEntries alignments := by
  unfold requiredLedger at h
  obtain ⟨hcount, h⟩ := Except.error_ite_eq_ok.1 h
  cases hsite : nonemptyString (contract.get "site_id") with
  | none =>
    rw [hsite] at h
    cases h
  | some site =>
    rw [hsite] at h
    obtain ⟨output, houtput, h⟩ := Except.bind_eq_ok h
    obtain ⟨lhs, hlhs, h⟩ := Except.bind_eq_ok h
    obtain ⟨rhs, hrhs, h⟩ := Except.bind_eq_ok h
    have hledger := Except.ok.inj h
    have hroles : ∀ role, Roles.get ⟨output.1, lhs.1, rhs.1⟩ role ≠ [] ∧
        alignment (some (.integer 64 (((⟨output.2, lhs.2, rhs.2⟩ : Roles ℕ).get role : ℕ) : ℤ))) =
          some (Roles.get ⟨output.2, lhs.2, rhs.2⟩ role) := by
      intro role
      cases role with
      | output => exact boundRole_eq_ok houtput
      | lhs => exact boundRole_eq_ok hlhs
      | rhs => exact boundRole_eq_ok hrhs
    rw [← hledger]
    refine ⟨⟨(nonemptyString_eq_some hsite).2, ?_, fun role => (hroles role).1, ?_,
      requiredEntries_valid fun role => (hroles role).2⟩, _, rfl⟩
    · simp only
      omega
    · exact List.append_ne_nil_of_right_ne_nil _ (by simp)

variable {encoded : Entries}

theorem verify_of_build (h : buildRegionGuardLedger contract bindings stage = .ok encoded) :
    verifyRegionGuardLedger encoded contract bindings stage = .ok () := by
  have hbuild := h
  unfold buildRegionGuardLedger at h
  cases hledger : requiredLedger contract bindings stage with
  | error message =>
    rw [hledger] at h
    cases h
  | ok ledger =>
    rw [hledger] at h
    have hencoded : encode ledger = encoded := Except.ok.inj h
    unfold verifyRegionGuardLedger
    rw [hbuild, ← hencoded, decode_encode (requiredLedger_valid hledger).1]
    simp only [Except.ok_bind, if_true]
    rfl

/-- What the runtime has validated of the operands of a call behind its guard. -/
structure Validated (views : Roles View) : Prop where
  positive : ∀ role, 0 < (views.get role).rows ∧ 0 < (views.get role).columns
  contracted : views.lhs.columns = views.rhs.rows
  rows : views.output.rows = views.lhs.rows
  columns : views.output.columns = views.rhs.columns

/-- **Behind its guard a call has operands that fit together.** -/
theorem validated_of_guardHolds {floating : Bool} {views : Roles View}
    (hbuild : buildRegionGuardLedger contract bindings stage = .ok encoded)
    (hpass : guardHolds floating views encoded = true) : Validated views := by
  unfold buildRegionGuardLedger at hbuild
  cases hledger : requiredLedger contract bindings stage with
  | error message =>
    rw [hledger] at hbuild
    cases hbuild
  | ok ledger =>
    rw [hledger] at hbuild
    have hencoded : encode ledger = encoded := Except.ok.inj hbuild
    obtain ⟨hvalid, alignments, hentries⟩ := requiredLedger_valid hledger
    rw [← hencoded, guardHolds_encode hvalid, hentries] at hpass
    have hrow : ∀ predicate subjects,
        (⟨predicate, .runtimeValidationRequired, .callValidationBeforeCompute, subjects, 0⟩ :
          RegionGuardEntry) ∈ requiredEntries alignments →
        (⟨predicate, .runtimeValidationRequired, .callValidationBeforeCompute, subjects, 0⟩ :
          RegionGuardEntry).holds floating views = true :=
      fun predicate subjects hm => hpass _ hm rfl
    refine ⟨?_, ?_, ?_, ?_⟩
    · intro role
      have := hrow .positiveDimensions [role]
        (by cases role <;> simp [requiredEntries, roleEntries])
      simpa [RegionGuardEntry.holds] using this
    · exact of_decide_eq_true
        (hrow .contractionDimensionEqual [.lhs, .rhs] (by simp [requiredEntries]))
    · exact of_decide_eq_true (hrow .outputRowsEqual [.output, .lhs] (by simp [requiredEntries]))
    · exact of_decide_eq_true
        (hrow .outputColumnsEqual [.output, .rhs] (by simp [requiredEntries]))

end Matcore.TwoGemm
