import Matcore.Lib.Except
import Matcore.Proof.HostInputs

/-!
# Runs of a capture and of its replays

`Inv` holds where a client takes over.
-/

namespace Matcore.Frontend.HostInputs

open Replay (Table transcript)
open InputFileSystem
open Except (bind_eq_ok)
open Option (isSome_map)

variable {machine : ℕ → Machine} {fs : InputFileSystem}

/-- What holds of a capture behind some queries, short of an error. -/
structure Inv (base : Records) (log : List (Query × Answer)) (fs : InputFileSystem) : Prop where
  capturing : Capturing fs
  cwd : fs.records.error = none → fs.records.cwd = base.cwd
  closed : fs.records.error = none → fs.records.Closed
  answers : fs.records.error = none →
    ∀ query answer, (query, answer) ∈ log → answerOf fs.records query = some answer
  has : fs.records.error = none → ∀ kind path, fs.records.Has kind path ↔
    base.Has kind path ∨ ∃ entry ∈ log, entry.1.Touches base.cwd kind path

variable {base : Records} {log : List (Query × Answer)}

variable (machine) in
theorem Inv.serve (h : Inv base log fs) (query : Query) :
    Inv base (log ++ [(query, (serve machine query fs).1)]) (serve machine query fs).2 := by
  obtain ⟨hsound, hanswer⟩ := serve_capture machine h.capturing h.closed query
  refine ⟨hsound.capturing, fun herror => ?_, fun herror => ?_, fun herror => ?_, fun herror => ?_⟩
  · exact (hsound.le herror).cwd.trans (h.cwd (hsound.error herror))
  · intro kind path hhas
    rw [hsound.has herror] at hhas ⊢
    rcases hhas with hhas | ⟨asked, lookup, hlookup, hpath, -⟩
    · exact .inl (h.closed (hsound.error herror) kind path hhas)
    · exact .inr ⟨asked, lookup, hlookup, hpath, .inr rfl⟩
  · intro query' answer hmem
    rcases List.mem_append.1 hmem with hmem | hmem
    · exact answerOf_mono (hsound.le herror) (h.answers (hsound.error herror) query' answer hmem)
    · cases List.mem_singleton.1 hmem
      exact hanswer herror
  · intro kind path
    rw [hsound.has herror, h.has (hsound.error herror), h.cwd (hsound.error herror)]
    simp only [List.mem_append, List.mem_singleton, or_and_right, exists_or, exists_eq_left]
    rw [or_assoc]

theorem isSome_lookup_assign {α : Type} (table : Table α) (key : String) (record : α) (k : String) :
    ((assign table key record).lookup k).isSome ↔ k = key ∨ (table.lookup k).isSome := by
  have hkeep : ∀ k, (List.lookup k (table.filter fun entry => entry.1 ≠ key)) =
      if k = key then none else table.lookup k := by
    intro k
    induction table with
    | nil => simp
    | cons entry table ih =>
      obtain ⟨key', record'⟩ := entry
      rw [List.filter_cons, Table.lookup_cons]
      by_cases hkey : key' = key
      · simp only [hkey, ne_eq, not_true, decide_false, Bool.false_eq_true, if_false, ih]
        split <;> simp [*]
      · simp only [hkey, ne_eq, not_false_iff, decide_true, if_true]
        rw [Table.lookup_cons, ih]
        by_cases hk : k = key'
        · simp [hk, hkey]
        · simp [hk]
  unfold assign
  rw [Table.lookup_emplace (by rw [hkeep, if_pos rfl]), hkeep]
  by_cases hk : k = key <;> simp [hk]

/-- Records that no query has touched. -/
structure Records.Fresh (cwd : String) (r : Records) : Prop where
  cwd : r.cwd = cwd
  error : r.error = none
  closed : r.Closed

variable {cwd : String} {r : Records}

theorem Records.Fresh.assignStatus (hr : r.Fresh cwd) (path : String) (record : StatusRecord)
    (owned : List String) (bytes : ℕ) :
    Records.Fresh cwd { r with status := assign r.status path record, owned, bytes } := by
  refine ⟨hr.cwd, hr.error, fun kind path' hhas => (isSome_lookup_assign _ _ _ _).2 ?_⟩
  cases kind with
  | status => exact (isSome_lookup_assign _ _ _ _).1 hhas
  | opens => exact .inr (hr.closed .opens path' hhas)
  | realPath => exact .inr (hr.closed .realPath path' hhas)
  | directory => exact .inr (hr.closed .directory path' hhas)
  | locality => exact .inr (hr.closed .locality path' hhas)

theorem Records.Fresh.assignOpen (hr : r.Fresh cwd) {path : String} (hstatus : r.Has .status path)
    (record : Except ErrorCode (Status × Bytes)) :
    Records.Fresh cwd { r with opens := assign r.opens path record } := by
  refine ⟨hr.cwd, hr.error, fun kind path' hhas => ?_⟩
  cases kind with
  | status => exact hhas
  | opens =>
    rcases (isSome_lookup_assign _ _ _ _).1 hhas with rfl | hhas
    · exact hstatus
    · exact hr.closed .opens path' hhas
  | realPath => exact hr.closed .realPath path' hhas
  | directory => exact hr.closed .directory path' hhas
  | locality => exact hr.closed .locality path' hhas

variable {ordinal' ordinal : ℕ} {r' : Records} {files : List (String × Bytes)}

theorem fresh_addFiles (hr : r.Fresh cwd) (h : addFiles files ordinal r = .ok (ordinal', r')) :
    r'.Fresh cwd := by
  induction files generalizing ordinal r with
  | nil =>
    cases h
    exact hr
  | cons file files ih =>
    obtain ⟨path, bytes⟩ := file
    unfold addFiles at h
    split at h
    · cases h
    · have hstatus := hr.assignStatus path
        { value := .ok (ownedStatus path ordinal bytes.length .regularFile), owned := true }
        (path :: r.owned) (r.bytes + bytes.length)
      exact ih (hstatus.assignOpen ((isSome_lookup_assign _ _ _ _).2 (.inl rfl)) _) h

variable {directory : String}

theorem fresh_addDirectory (hr : r.Fresh cwd)
    (h : addDirectory directory ordinal r = .ok (ordinal', r')) : r'.Fresh cwd := by
  unfold addDirectory at h
  split at h
  · split at h
    · split at h <;> cases h
      exact hr
    · cases h
  · cases h
    exact hr.assignStatus directory _ _ _

theorem fresh_addDirectories {room : ℕ} (hr : r.Fresh cwd)
    (h : addDirectories room directory ordinal r = .ok (ordinal', r')) : r'.Fresh cwd := by
  induction room generalizing directory ordinal r with
  | zero =>
    unfold addDirectories at h
    split at h <;> cases h
    exact hr
  | succ room ih =>
    unfold addDirectories at h
    split at h
    · cases h
      exact hr
    · obtain ⟨⟨ordinal₁, r₁⟩, hadded, h⟩ := bind_eq_ok h
      have hr₁ := fresh_addDirectory hr hadded
      simp only at h
      split at h
      · cases h
        exact hr₁
      · exact ih hr₁ h

theorem fresh_allDirectories {start stop : ℕ × Records} (hr : start.2.Fresh cwd)
    (h : files.foldlM (fun (ordinal, records) (path, _) =>
      addDirectories 16 (parentPath path) ordinal records) start = .ok stop) :
    stop.2.Fresh cwd := by
  induction files generalizing start with
  | nil =>
    cases h
    exact hr
  | cons file files ih =>
    rw [List.foldlM_cons] at h
    obtain ⟨next, hfirst, hrest⟩ := bind_eq_ok h
    exact ih (fresh_addDirectories hr hfirst) hrest

variable {owned : List (String × Bytes)}

theorem fresh_addOwnedFiles (hr : r.Fresh cwd) (h : addOwnedFiles owned r = .ok r') :
    r'.Fresh cwd := by
  unfold addOwnedFiles at h
  split at h
  · cases h
  · obtain ⟨start, hfiles, h⟩ := bind_eq_ok h
    obtain ⟨stop, hdirectories, h⟩ := bind_eq_ok h
    cases h
    exact fresh_allDirectories (fresh_addFiles hr hfiles) hdirectories

variable {prelude_ : HostInputPrelude} {binaries : List BinaryInput}

/-- **The start of a capture.** -/
theorem ownedRecords_fresh {input : String}
    (h : ownedRecords cwd input binaries owned prelude_ = .ok base) :
    base.Fresh cwd := by
  have hempty : Records.Fresh cwd { cwd, input := absoluteLookup input cwd, binaries } := by
    refine ⟨rfl, rfl, fun kind path hhas => ?_⟩
    cases kind <;> simp [Records.Has] at hhas
  obtain ⟨r, hr, h⟩ := bind_eq_ok h
  have hfresh : r.Fresh cwd := by
    cases prelude_ with
    | closedRegionFixture =>
      obtain ⟨r₁, hadded, hchecked⟩ := bind_eq_ok hr
      split at hchecked <;> cases hchecked
      exact fresh_addOwnedFiles hempty hadded
    | none =>
      simp only [addPrelude] at hr
      split at hr <;> cases hr
      exact hempty
  split at h <;> cases h
  exact hfresh

variable (machine) in
theorem inv_start {base : Records} (now : ℕ) (hcwd : base.cwd.toList.head? = some '/')
    (hbase : base.Fresh base.cwd) : Inv base [] (capturing machine base now) := by
  have hfs : Capturing ⟨base, some (now + 1), none⟩ := ⟨rfl, rfl, hcwd⟩
  unfold capturing
  split
  · refine ⟨hfs, fun _ => rfl, fun _ => hbase.closed, nofun, fun _ kind path => ?_⟩
    simp
  · obtain ⟨hcapturing, herror⟩ := fail_capturing hfs "cannot select capture working directory: "
    exact ⟨hcapturing, fun h => absurd h herror, fun h => absurd h herror, fun h => absurd h herror,
      fun h => absurd h herror⟩

variable {resources : String} {now : ℕ}

theorem prepare_eq (h : prepareHostInputs machine resources base now = .ok fs) : ∃ source,
      let first := (serve machine (.status resources) (capturing machine base now)).2
      let second := (serve machine (.status (resources ++ "/include")) first).2
      let third := (serve machine (.openFileForRead base.input) second).2
      fs = { third with records := { third.records with source } } := by
  unfold prepareHostInputs at h
  simp only at h
  split at h
  · cases h
  · split at h
    · cases h
    · split at h
      · cases h
      · rename_i status source g hopen
        split at h
        · cases h
        · split at h
          · cases h
          · cases h
            have hg : g = (openFileForRead machine base.input _).2 := (congrArg Prod.snd hopen).symm
            exact ⟨source, by rw [hg]; rfl⟩

theorem Inv.withSource (h : Inv base log fs) (source : Bytes) :
    Inv base log { fs with records := { fs.records with source } } := by
  obtain ⟨hcapturing, hcwd, hclosed, hanswers, hhas⟩ := h
  refine ⟨⟨hcapturing.physical, hcapturing.audit, hcapturing.cwd⟩, hcwd, ?_, ?_, ?_⟩
  · intro herror kind path hpath
    have hx := hclosed herror kind path
    cases kind <;> exact hx hpath
  · intro herror query answer hmem
    have hx := hanswers herror query answer hmem
    cases query <;> exact hx
  · intro herror kind path
    have hx := hhas herror kind path
    cases kind <;> exact hx

theorem prepare_inv (hcwd : base.cwd.toList.head? = some '/') (hbase : base.Fresh base.cwd)
    (h : prepareHostInputs machine resources base now = .ok fs) :
    ∃ log, log.map (·.1) = preparation resources base ∧ Inv base log fs := by
  obtain ⟨source, rfl⟩ := prepare_eq h
  have h₀ := inv_start machine now hcwd hbase
  have h₁ := h₀.serve machine (.status resources)
  have h₂ := h₁.serve machine (.status (resources ++ "/include"))
  have h₃ := h₂.serve machine (.openFileForRead base.input)
  refine ⟨_, ?_, h₃.withSource source⟩
  rfl

/-- A query was captured: its path is one of the compiler, or it was recorded by a query that was
asked. The working directory may be read, and set to itself. -/
def Captured (base : Records) (asked : List Query) (query : Query) : Prop :=
  (∀ kind lookup, query.lookup? = some (kind, lookup) →
    base.Has kind (absoluteLookup lookup base.cwd) ∨
      ∃ q ∈ asked, q.Touches base.cwd kind (absoluteLookup lookup base.cwd)) ∧
  ∀ path, query = .setCurrentWorkingDirectory path → absoluteLookup path base.cwd = base.cwd

/-- **Captured queries are those with an answer.** -/
theorem Inv.captured (h : Inv base log fs) (herror : fs.records.error = none) (query : Query) :
    (answerOf fs.records query).isSome ↔ Captured base (log.map (·.1)) query := by
  have hlookup : ∀ kind lookup, query.lookup? = some (kind, lookup) →
      (∀ path, query ≠ .setCurrentWorkingDirectory path) →
      (fs.records.Has kind (absoluteLookup lookup fs.records.cwd) ↔
        Captured base (log.map (·.1)) query) := by
    intro kind lookup hkind hother
    rw [h.has herror, h.cwd herror]
    simp [Captured, hkind, hother]
  cases query with
  | status lookup => simpa only [answerOf, isSome_map, Records.Has] using hlookup .status lookup rfl (by simp)
  | exists_ lookup => simpa only [answerOf, isSome_map, Records.Has] using hlookup .status lookup rfl (by simp)
  | openFileForRead lookup => simpa only [answerOf, isSome_map, Records.Has] using hlookup .opens lookup rfl (by simp)
  | dirBegin lookup => simpa only [answerOf, isSome_map, Records.Has] using hlookup .directory lookup rfl (by simp)
  | getRealPath lookup => simpa only [answerOf, isSome_map, Records.Has] using hlookup .realPath lookup rfl (by simp)
  | isLocal lookup => simpa only [answerOf, isSome_map, Records.Has] using hlookup .locality lookup rfl (by simp)
  | setCurrentWorkingDirectory path =>
    simp [answerOf, Captured, Query.lookup?, h.cwd herror]
  | getCurrentWorkingDirectory => simp [answerOf, Captured, Query.lookup?]

/-- The environment or the Clang are not those of a capture. -/
def Poisoned (now : Machine) : Prop := now.environment ≠ none ∨ now.clangExact = false

/-- What holds of a replay behind some queries. -/
structure Replayed (snapshot : Records) (now : Machine) (log : List (Query × Answer))
    (fs : InputFileSystem) : Prop where
  records : fs.records = snapshot
  physical : fs.physical = none
  audit : ∃ error, fs.audit = some error ∧
    (error ≠ none ↔ Poisoned now ∨ ∃ entry ∈ log, answerOf snapshot entry.1 = none)

theorem replayed_start (snapshot : Records) (now : Machine) :
    Replayed snapshot now [] (replay snapshot now) := by
  refine ⟨rfl, rfl, _, rfl, ?_⟩
  unfold Poisoned
  cases now.environment <;> cases now.clangExact <;> simp

variable {snapshot : Records}

theorem Replayed.serve {now : Machine} (h : Replayed snapshot now log fs) (query : Query) :
    Replayed snapshot now (log ++ [(query, (serve machine query fs).1)])
      (serve machine query fs).2 := by
  obtain ⟨error, haudit, herror⟩ := h.audit
  cases hanswer : answerOf fs.records query with
  | some answer =>
    rw [serve_recorded hanswer]
    refine ⟨h.records, h.physical, error, haudit, ?_⟩
    rw [h.records] at hanswer
    simp [herror, hanswer, or_and_right, exists_or]
  | none =>
    obtain ⟨refusal, message, hserve⟩ := serve_missed machine h.physical haudit hanswer
    rw [hserve]
    refine ⟨h.records, h.physical, _, rfl, ?_⟩
    rw [h.records] at hanswer
    cases error <;> simp [hanswer, or_and_right, exists_or]

/-- The same client hears from a replay what it heard from the capture, every answer of the capture
was the same all along, and a replay fails for the reasons given. -/
structure Repeats (base snapshot : Records) (later : Machine) (asked : List Query)
    (client : List Answer → Option Query) (rounds : ℕ) (log : List (Query × Answer)) : Prop where
  same : ∀ machine, transcript (serve machine) client rounds [] (replay snapshot later) =
    (log, replay snapshot later)
  stable : ∀ query answer answer', (query, answer) ∈ log → (query, answer') ∈ log → answer = answer'
  fails : ∀ machine client' rounds' log' fs',
    transcript (serve machine) client' rounds' [] (replay snapshot later) = (log', fs') →
      fs'.physical = none ∧
        (ok fs' = false ↔ Poisoned later ∨ ∃ entry ∈ log', ¬ Captured base asked entry.1)

/-- **Replay repeats the capture.** -/
theorem replay_repeats {cwd input resources : String} {owned : List (String × Bytes)}
    {base : Records} {now now' : ℕ} {fs₀ : InputFileSystem} (hcwd : cwd.toList.head? = some '/')
    (howned : ownedRecords cwd input binaries owned prelude_ = .ok base)
    (hprepared : prepareHostInputs machine resources base now = .ok fs₀)
    {client : List Answer → Option Query} {rounds : ℕ} {log : List (Query × Answer)}
    (hcapture : transcript (serve machine) client rounds [] fs₀ = (log, fs))
    (hfreeze : freeze machine fs now' = .ok snapshot) (later : Machine) :
    Repeats base snapshot later (preparation resources base ++ log.map (·.1)) client rounds log := by
  have hfresh := ownedRecords_fresh howned
  have hbase : base.Fresh base.cwd := by rw [hfresh.cwd]; exact hfresh
  obtain ⟨log₀, hlog₀, hinv₀⟩ := prepare_inv (hfresh.cwd ▸ hcwd) hbase hprepared
  have hinv : Inv base (log₀ ++ log) fs := by
    refine Replay.transcript_invariant (P := fun log fs => Inv base (log₀ ++ log) fs) ?_
      (fun log fs query h => ?_) hcapture
    · rwa [List.append_nil]
    · rw [← List.append_assoc]
      exact h.serve machine query
  obtain ⟨herror, rfl⟩ : fs.records.error = none ∧ fs.records = snapshot := by
    unfold freeze at hfreeze
    split at hfreeze
    · cases hfreeze
    · rename_i herror
      split at hfreeze <;> cases hfreeze
      exact ⟨herror, rfl⟩
  have hanswers : ∀ query answer, (query, answer) ∈ log →
      answerOf fs.records query = some answer := fun query answer hmem =>
    hinv.answers herror query answer (List.mem_append_right _ hmem)
  refine ⟨fun other => ?_, fun query answer answer' h h' => ?_, fun other client' rounds' log' fs' h => ?_⟩
  · exact Replay.transcript_repeat (fun query answer hmem =>
      serve_recorded (hanswers query answer hmem)) hcapture
  · exact Option.some.inj ((hanswers query answer h).symm.trans (hanswers query answer' h'))
  · obtain ⟨-, hphysical, error, haudit, hfails⟩ := Replay.transcript_invariant
      (replayed_start fs.records later) (fun log fs query h => h.serve query) h
    refine ⟨hphysical, ?_⟩
    have hcaptured : ∀ query, answerOf fs.records query = none ↔
        ¬ Captured base (preparation resources base ++ log.map (·.1)) query := by
      intro query
      rw [← hlog₀, ← List.map_append, ← hinv.captured herror, Option.not_isSome_iff_eq_none]
    simp only [hcaptured] at hfails
    rw [← hfails, ok, haudit]
    cases error <;> simp

/-- A machine that never changes: one source file, and directories. -/
def stillMachine : Machine where
  environment := none
  clangExact := true
  setCurrentWorkingDirectory _ := none
  captureFileSnapshot path := ({ normalizedPath := path, exists_ := true }, none)
  status path := .ok ⟨path, 0, 0, 0, 0, 0, 1,
    if path = "/work/main.cpp" then .regularFile else .directoryFile, 0⟩
  openFileForRead path := .ok ⟨.ok ⟨path, 0, 0, 0, 0, 0, 1, .regularFile, 0⟩, .ok [10], none⟩
  directory _ := ([], none)
  getRealPath path := .ok path
  isLocal _ := (true, none)
  binaryInput path := .error path

/-- A client that asks for a status twice. -/
def askTwice (answers : List Answer) : Option Query :=
  if answers.length < 2 then some (.status "include") else none

theorem stillMachine_captured : ∃ base fs₀ log fs snapshot,
    ownedRecords "/work" "main.cpp" [] [] .none = .ok base ∧
      prepareHostInputs (fun _ => stillMachine) "/clang" base 0 = .ok fs₀ ∧
      transcript (serve fun _ => stillMachine) askTwice 3 [] fs₀ = (log, fs) ∧
      freeze (fun _ => stillMachine) fs 0 = .ok snapshot ∧ log.length = 2 :=
  ⟨_, _, _, _, _, rfl, rfl, rfl, rfl, rfl⟩

/-- Asking twice. -/
theorem replay_repeats_twice : ∃ base snapshot log,
    ownedRecords "/work" "main.cpp" [] [] .none = .ok base ∧ log.length = 2 ∧
      Repeats base snapshot stillMachine (preparation "/clang" base ++ log.map (·.1)) askTwice 3
        log := by
  obtain ⟨base, fs₀, log, fs, snapshot, howned, hprepared, hcapture, hfreeze, hlength⟩ :=
    stillMachine_captured
  exact ⟨base, snapshot, log, howned, hlength,
    replay_repeats (by decide) howned hprepared hcapture hfreeze stillMachine⟩

/-- The machine, with a variable in the environment that Clang reads. -/
def poisonedMachine : Machine :=
  { stillMachine with environment := some "inherited host-context input is forbidden: CPATH" }

/-- A replay that no client asked anything, and that is not `ok`. -/
theorem poisoned_replay_not_ok : ∃ base fs₀ log fs snapshot,
    ownedRecords "/work" "main.cpp" [] [] .none = .ok base ∧
      prepareHostInputs (fun _ => stillMachine) "/clang" base 0 = .ok fs₀ ∧
      transcript (serve fun _ => stillMachine) askTwice 3 [] fs₀ = (log, fs) ∧
      freeze (fun _ => stillMachine) fs 0 = .ok snapshot ∧
      transcript (serve fun _ => poisonedMachine) (fun _ => none) 1 []
        (replay snapshot poisonedMachine) = ([], replay snapshot poisonedMachine) ∧
      ok (replay snapshot poisonedMachine) = false := by
  obtain ⟨base, fs₀, log, fs, snapshot, howned, hprepared, hcapture, hfreeze, -⟩ :=
    stillMachine_captured
  exact ⟨base, fs₀, log, fs, snapshot, howned, hprepared, hcapture, hfreeze, rfl, rfl⟩

end Matcore.Frontend.HostInputs
