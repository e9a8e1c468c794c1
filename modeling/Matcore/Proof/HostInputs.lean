import Matcore.Frontend.HostInputs

/-!
# Replay repeats the capture

A replay gives the recorded answer, or enters a message.
-/

namespace Matcore.Frontend.HostInputs

open Option (map_eq_some_iff)
open Replay (Table)
open InputFileSystem

variable {machine : ℕ → Machine}

/-- What the records say to a query. -/
def answerOf (r : Records) : Query → Option Answer
  | .status lookup => (r.status.lookup (absoluteLookup lookup r.cwd)).map (.status ·.value)
  | .exists_ lookup => (r.status.lookup (absoluteLookup lookup r.cwd)).map (.exists_ ·.value.isOk)
  | .openFileForRead lookup =>
    (r.opens.lookup (absoluteLookup lookup r.cwd)).map .openFileForRead
  | .dirBegin lookup => (r.directories.lookup (absoluteLookup lookup r.cwd)).map
    (.dirBegin ·.listing)
  | .getRealPath lookup => (r.realpaths.lookup (absoluteLookup lookup r.cwd)).map .getRealPath
  | .isLocal lookup => (r.locality.lookup (absoluteLookup lookup r.cwd)).map fun record =>
    .isLocal (some record.isLocal, record.error)
  | .setCurrentWorkingDirectory path =>
    if absoluteLookup path r.cwd = r.cwd then some (.setCurrentWorkingDirectory none) else none
  | .getCurrentWorkingDirectory => some (.getCurrentWorkingDirectory r.cwd)

/-- Nothing that the records say is lost. -/
structure Records.Le (r r' : Records) : Prop where
  cwd : r'.cwd = r.cwd
  status : ∀ p v, r.status.lookup p = some v → r'.status.lookup p = some v
  opens : ∀ p v, r.opens.lookup p = some v → r'.opens.lookup p = some v
  realpaths : ∀ p v, r.realpaths.lookup p = some v → r'.realpaths.lookup p = some v
  directories : ∀ p v, r.directories.lookup p = some v → r'.directories.lookup p = some v
  locality : ∀ p v, r.locality.lookup p = some v → r'.locality.lookup p = some v

theorem Records.Le.refl (r : Records) : r.Le r :=
  ⟨rfl, fun _ _ h => h, fun _ _ h => h, fun _ _ h => h, fun _ _ h => h, fun _ _ h => h⟩

theorem Records.Le.trans {r₁ r₂ r₃ : Records} (h : r₁.Le r₂) (h' : r₂.Le r₃) : r₁.Le r₃ where
  cwd := h'.cwd.trans h.cwd
  status p v hp := h'.status p v (h.status p v hp)
  opens p v hp := h'.opens p v (h.opens p v hp)
  realpaths p v hp := h'.realpaths p v (h.realpaths p v hp)
  directories p v hp := h'.directories p v (h.directories p v hp)
  locality p v hp := h'.locality p v (h.locality p v hp)

section

variable {ρ : Type} {column : Column ρ} {lookup : String} {fs : InputFileSystem}
  {take : String → InputFileSystem → Option ρ × InputFileSystem}

variable (column) in
theorem record_found {found : ρ}
    (h : (column.get fs.records).lookup (absoluteLookup lookup fs.records.cwd) = some found) :
    record column take lookup fs = (some found, fs) := by
  unfold record key
  simp only [h]

variable (column) in
theorem record_missing (hphysical : fs.physical = none)
    (h : (column.get fs.records).lookup (absoluteLookup lookup fs.records.cwd) = none) :
    record column take lookup fs =
      (none, fs.miss column.operation (absoluteLookup lookup fs.records.cwd)) := by
  unfold record key
  simp [h, hphysical]

end

/-- The five tables. -/
inductive Kind where
  | status
  | opens
  | realPath
  | directory
  | locality
  deriving DecidableEq

/-- A path has a record of a kind. -/
def Records.Has (r : Records) : Kind → String → Prop
  | .status, path => (r.status.lookup path).isSome
  | .opens, path => (r.opens.lookup path).isSome
  | .realPath, path => (r.realpaths.lookup path).isSome
  | .directory, path => (r.directories.lookup path).isSome
  | .locality, path => (r.locality.lookup path).isSome

/-- What a query looks up. -/
def Query.lookup? : Query → Option (Kind × String)
  | .status lookup | .exists_ lookup => some (.status, lookup)
  | .openFileForRead lookup => some (.opens, lookup)
  | .dirBegin lookup => some (.directory, lookup)
  | .getRealPath lookup => some (.realPath, lookup)
  | .isLocal lookup => some (.locality, lookup)
  | .setCurrentWorkingDirectory _ => none
  | .getCurrentWorkingDirectory => none

/-- A record of any kind comes with a status. -/
def Records.Closed (r : Records) : Prop := ∀ kind path, r.Has kind path → r.Has .status path

/-- A column is the table of its kind. -/
structure InputFileSystem.Column.Lawful {ρ : Type} (column : Column ρ) (kind : Kind) : Prop where
  get_set : ∀ r t, column.get (column.set r t) = t
  has : ∀ r path, r.Has kind path ↔ ((column.get r).lookup path).isSome
  has_set : ∀ r t other path, other ≠ kind → ((column.set r t).Has other path ↔ r.Has other path)
  le : ∀ r t, (∀ p v, (column.get r).lookup p = some v → t.lookup p = some v) → r.Le (column.set r t)
  error : ∀ r t, (column.set r t).error = r.error
  cwd : ∀ r t, (column.set r t).cwd = r.cwd

theorem columns_lawful : statusColumn.Lawful .status ∧ openColumn.Lawful .opens ∧
    realPathColumn.Lawful .realPath ∧ directoryColumn.Lawful .directory ∧
    localityColumn.Lawful .locality := by
  refine ⟨?_, ?_, ?_, ?_, ?_⟩
  all_goals
    refine ⟨fun _ _ => rfl, fun _ _ => Iff.rfl, fun r t other path h => ?_, fun r t h => ?_,
      fun _ _ => rfl, fun _ _ => rfl⟩
    · cases other <;> first | exact absurd rfl h | exact Iff.rfl
    · constructor <;> first | exact rfl | exact h | exact fun _ _ h => h

/-- A capture, in an absolute working directory. -/
structure Capturing (fs : InputFileSystem) : Prop where
  physical : fs.physical.isSome
  audit : fs.audit = none
  cwd : fs.records.cwd.toList.head? = some '/'

variable {path : String}

theorem absoluteLookup_idem {cwd : String} (hcwd : cwd.toList.head? = some '/') :
    absoluteLookup (absoluteLookup path cwd) cwd = absoluteLookup path cwd := by
  have hroot : (absoluteLookup path cwd).toList.head? = some '/' := by
    unfold absoluteLookup
    split
    · assumption
    · split <;> simp [String.toList_append, List.head?_append, hcwd]
  exact if_pos hroot

/-- What a part of a capture does, short of an error: records are kept, and some added. -/
structure Sound (fs fs' : InputFileSystem) (added : Kind → String → Prop) : Prop where
  capturing : Capturing fs'
  error : fs'.records.error = none → fs.records.error = none
  le : fs'.records.error = none → fs.records.Le fs'.records
  has : fs'.records.error = none → ∀ kind path,
    fs'.records.Has kind path ↔ fs.records.Has kind path ∨ added kind path

variable {fs g fs' : InputFileSystem} {added added' : Kind → String → Prop}

theorem Sound.trans (h : Sound fs g added) (h' : Sound g fs' added') :
    Sound fs fs' fun kind path => added kind path ∨ added' kind path where
  capturing := h'.capturing
  error herror := h.error (h'.error herror)
  le herror := (h.le (h'.error herror)).trans (h'.le herror)
  has herror kind path := by
    rw [h'.has herror, h.has (h'.error herror), or_assoc]

theorem Sound.congr (h : Sound fs g added)
    (hadded : ∀ kind path, added kind path ↔ added' kind path) : Sound fs g added' :=
  ⟨h.capturing, h.error, h.le, fun herror kind path => by
    rw [h.has herror, hadded]⟩

theorem Sound.stay (h : Capturing fs)
    (hadded : fs.records.error = none → ∀ kind path, added kind path → fs.records.Has kind path) :
    Sound fs fs added where
  capturing := h
  error herror := herror
  le _ := Records.Le.refl _
  has herror kind path := (or_iff_left_of_imp (hadded herror kind path)).symm

theorem Sound.refused (h : Capturing g) (herror : g.records.error ≠ none) : Sound fs g added :=
  ⟨h, fun hnone => absurd hnone herror, fun hnone => absurd hnone herror,
    fun hnone => absurd hnone herror⟩

theorem fail_capturing (h : Capturing fs) (message : String) :
    Capturing (fs.fail message) ∧ (fs.fail message).records.error ≠ none := by
  unfold fail
  rw [h.audit]
  refine ⟨⟨h.physical, rfl, h.cwd⟩, ?_⟩
  cases fs.records.error <;> simp

variable {ρ : Type}

theorem observe_sound (h : Capturing fs) (action : Look ρ) :
    Sound fs (fs.observe action).2 (fun _ _ => False) ∧
      ((fs.observe action).1 = none → (fs.observe action).2.records.error ≠ none) := by
  unfold observe
  rcases action.run (fs.physical.getD 0) with ⟨⟨message⟩ | ⟨found⟩, now⟩
  · have hmoved : Capturing { fs with physical := some now } := ⟨rfl, h.audit, h.cwd⟩
    obtain ⟨hcapturing, herror⟩ := fail_capturing hmoved message
    exact ⟨.refused hcapturing herror, fun _ => herror⟩
  · refine ⟨⟨⟨rfl, h.audit, h.cwd⟩, fun herror => herror, fun _ => Records.Le.refl _, ?_⟩, nofun⟩
    exact fun _ kind path => (or_false _).to_iff.symm

theorem budget_sound (h : Capturing fs) :
    (fs.budget.1 = true ∧ fs.budget.2 = fs) ∨
      (fs.budget.1 = false ∧ Capturing fs.budget.2 ∧ fs.budget.2.records.error ≠ none) := by
  unfold budget
  split
  · exact .inr ⟨rfl, fail_capturing h _⟩
  · cases herror : fs.records.error with
    | none => exact .inl ⟨rfl, rfl⟩
    | some message => exact .inr ⟨rfl, h, by simp⟩

/-- The physical part of a lookup records a status at most. -/
def Takes {ρ : Type} (kind : Kind) (take : String → InputFileSystem → Option ρ × InputFileSystem) :
    Prop :=
  ∀ path fs, Capturing fs → absoluteLookup path fs.records.cwd = path →
    Sound fs (take path fs).2
        (fun other path' => kind ≠ .status ∧ other = .status ∧ path' = path) ∧
      ((take path fs).1 = none → (take path fs).2.records.error ≠ none)

variable {kind : Kind} {column : Column ρ}

theorem put_sound (hlaw : column.Lawful kind)
    (h : Sound fs g fun other path' => kind ≠ .status ∧ other = .status ∧ path' = path)
    (hunrecorded : ¬ fs.records.Has kind path) (found : ρ) : let fs' : InputFileSystem := { g with
      records := column.set g.records ((column.get g.records).emplace path found) }
    Sound fs fs' (fun other path' => path' = path ∧ (other = kind ∨ other = .status)) ∧
      (fs'.records.error = none → (column.get fs'.records).lookup path = some found) := by
  intro fs'
  have herror : fs'.records.error = g.records.error := hlaw.error _ _
  have hnew : g.records.error = none → (column.get g.records).lookup path = none := by
    intro hnone
    have hnot : ¬ g.records.Has kind path := by
      rw [h.has hnone]
      rintro (hbefore | ⟨hother, rfl, -⟩)
      · exact hunrecorded hbefore
      · exact hother rfl
    rw [hlaw.has, Bool.not_eq_true, Option.isSome_eq_false_iff, Option.isNone_iff_eq_none] at hnot
    exact hnot
  have hlookup : g.records.error = none → ∀ path', (column.get fs'.records).lookup path' =
      if path' = path then some found else (column.get g.records).lookup path' := by
    intro hnone path'
    rw [hlaw.get_set]
    exact Table.lookup_emplace (hnew hnone) path'
  have hle : g.records.error = none → g.records.Le fs'.records := by
    refine fun hnone => hlaw.le _ _ fun path' found' hfound => ?_
    rw [Table.lookup_emplace (hnew hnone), if_neg, hfound]
    rintro rfl
    rw [hnew hnone] at hfound
    cases hfound
  refine ⟨⟨⟨h.capturing.physical, h.capturing.audit, ?_⟩, ?_, ?_, ?_⟩, ?_⟩
  · rw [hlaw.cwd]
    exact h.capturing.cwd
  · exact fun hnone => h.error (herror ▸ hnone)
  · exact fun hnone => (h.le (herror ▸ hnone)).trans (hle (herror ▸ hnone))
  · intro hnone other path'
    have hnone : g.records.error = none := herror ▸ hnone
    by_cases hother : other = kind
    · subst hother
      rw [hlaw.has, hlookup hnone]
      by_cases hpath : path' = path
      · simp [hpath]
      · rw [if_neg hpath, ← hlaw.has, h.has hnone]
        tauto
    · rw [hlaw.has_set _ _ _ _ hother, h.has hnone]
      have hstatus : other = .status → kind ≠ .status := fun ho hk => hother (ho.trans hk.symm)
      tauto
  · intro hnone
    rw [hlookup (herror ▸ hnone), if_pos rfl]

variable {take : String → InputFileSystem → Option ρ × InputFileSystem}

theorem record_sound (hlaw : column.Lawful kind) (htake : Takes kind take) (h : Capturing fs)
    (lookup : String) (hclosed : fs.records.error = none → fs.records.Has kind (fs.key lookup) →
      fs.records.Has .status (fs.key lookup)) :
    Sound fs (record column take lookup fs).2
        (fun other path => path = fs.key lookup ∧ (other = kind ∨ other = .status)) ∧
      ((record column take lookup fs).2.records.error = none → ∃ found,
        (record column take lookup fs).1 = some found ∧
          (column.get (record column take lookup fs).2.records).lookup (fs.key lookup) =
            some found) := by
  have hkey : absoluteLookup (fs.key lookup) fs.records.cwd = fs.key lookup :=
    absoluteLookup_idem h.cwd
  unfold record
  cases hfound : (column.get fs.records).lookup (fs.key lookup) with
  | some found =>
    simp only [hfound]
    have hhas : fs.records.Has kind (fs.key lookup) := (hlaw.has _ _).2 (by rw [hfound]; rfl)
    refine ⟨.stay h ?_, fun _ => ⟨found, rfl, rfl⟩⟩
    rintro herror other path ⟨rfl, rfl | rfl⟩
    · exact hhas
    · exact hclosed herror hhas
  | none =>
    have hphysical : ¬ fs.physical.isNone = true := by
      rw [Option.isNone_iff_eq_none]
      exact Option.isSome_iff_ne_none.1 h.physical
    have hunrecorded : ¬ fs.records.Has kind (fs.key lookup) := by
      rw [hlaw.has, hfound]
      exact Bool.false_ne_true
    simp only [hfound, if_neg hphysical]
    -- over the budget nothing is looked at, and the records have an error
    rcases hbudget : fs.budget with ⟨allowed, g⟩
    rcases budget_sound h with ⟨hallowed, hsame⟩ | ⟨hallowed, hcapturing, herror⟩
    · have hsame : fs = g := by rw [← hsame, hbudget]
      subst hsame
      obtain rfl : allowed = true := by rw [← hallowed, hbudget]
      obtain ⟨hsound, hrefused⟩ := htake (fs.key lookup) fs h hkey
      rcases htaken : take (fs.key lookup) fs with ⟨taken, t⟩
      rw [htaken] at hsound hrefused
      simp only [htaken]
      cases taken with
      | none =>
        have herror := hrefused rfl
        exact ⟨.refused hsound.capturing herror, fun hnone => absurd hnone herror⟩
      | some found =>
        obtain ⟨hput, hlookup⟩ := put_sound hlaw hsound hunrecorded found
        exact ⟨hput, fun herror => ⟨found, rfl, hlookup herror⟩⟩
    · rw [hbudget] at hallowed hcapturing herror
      obtain rfl : allowed = false := hallowed
      exact ⟨.refused hcapturing herror, fun hnone => absurd hnone herror⟩

variable (machine) in
theorem captureStatus_takes : Takes .status fun path fs => fs.observe (captureStatus machine path) := by
  intro path fs h _
  obtain ⟨hsound, hrefused⟩ := observe_sound h (captureStatus machine path)
  exact ⟨hsound.congr fun other path' => by simp, hrefused⟩

variable (machine) in
theorem status_sound (h : Capturing fs) (lookup : String) :
    Sound fs (status machine lookup fs).2
        (fun other path => path = fs.key lookup ∧ other = .status) ∧
      ((status machine lookup fs).2.records.error = none → ∃ found,
        (status machine lookup fs).1 = found.value ∧
          (status machine lookup fs).2.records.status.lookup (fs.key lookup) = some found) := by
  obtain ⟨hsound, hfound⟩ := record_sound columns_lawful.1
    (captureStatus_takes machine) h lookup fun _ hhas => hhas
  refine ⟨hsound.congr fun other path => by simp, fun herror => ?_⟩
  obtain ⟨found, hanswer, hlookup⟩ := hfound herror
  exact ⟨found, by simp only [status, hanswer]; rfl, hlookup⟩

variable (machine) in
theorem takes_of_status (htake : ∀ path fs, Capturing fs →
      Sound (status machine path fs).2 (take path fs).2 (fun _ _ => False) ∧
        ((take path fs).1 = none → (take path fs).2.records.error ≠ none)) (hkind : kind ≠ .status) :
    Takes kind take := by
  intro path fs h hpath
  have hstatus := (status_sound machine h path).1
  have hkey : fs.key path = path := hpath
  obtain ⟨hsound, hrefused⟩ := htake path fs h
  refine ⟨(hstatus.trans hsound).congr fun other path' => ?_, hrefused⟩
  rw [hkey]
  tauto

variable (machine) in
theorem takeOpen_takes : Takes .opens (takeOpen machine) := by
  refine takes_of_status machine (fun path fs h => ?_) (by decide)
  have hstatus := (status_sound machine h path).1.capturing
  unfold takeOpen
  rcases hanswer : status machine path fs with ⟨expected, g⟩
  rw [hanswer] at hstatus
  simp only
  split
  · rename_i herror
    have herror : g.records.error ≠ none := Option.isSome_iff_ne_none.1 herror
    exact ⟨.refused hstatus herror, fun _ => herror⟩
  · obtain ⟨hsound, hrefused⟩ := observe_sound hstatus (captureOpen machine expected g.records path)
    refine ⟨⟨⟨hsound.capturing.physical, hsound.capturing.audit, hsound.capturing.cwd⟩,
      hsound.error, fun herror => ?_, fun herror kind path' => ?_⟩, hrefused⟩
    · have hle := hsound.le herror
      exact ⟨hle.cwd, hle.status, hle.opens, hle.realpaths, hle.directories, hle.locality⟩
    · have hhas := hsound.has herror kind path'
      cases kind <;> exact hhas

theorem owned_or_observed {owned : Prop} [Decidable owned] (h : Capturing fs) (found : ρ)
    (action : Look ρ) :
    Sound fs (if owned then (some found, fs) else fs.observe action).2 (fun _ _ => False) ∧
      ((if owned then (some found, fs) else fs.observe action).1 = none →
        (if owned then (some found, fs) else fs.observe action).2.records.error ≠ none) := by
  split
  · exact ⟨.stay h fun _ _ _ => False.elim, nofun⟩
  · exact observe_sound h action

variable (machine) in
theorem takeDirectory_takes : Takes .directory (takeDirectory machine) :=
  takes_of_status machine (fun path _ h =>
    owned_or_observed (status_sound machine h path).1.capturing _ _) (by decide)

variable (machine) in
theorem takeRealPath_takes : Takes .realPath (takeRealPath machine) :=
  takes_of_status machine (fun path _ h =>
    owned_or_observed (status_sound machine h path).1.capturing _ _) (by decide)

variable (machine) in
theorem takeLocality_takes : Takes .locality (takeLocality machine) :=
  takes_of_status machine (fun path _ h =>
    owned_or_observed (status_sound machine h path).1.capturing _ _) (by decide)

/-- A query records a path in a kind. -/
def Query.Touches (query : Query) (cwd : String) (kind : Kind) (path : String) : Prop :=
  ∃ asked lookup, query.lookup? = some (asked, lookup) ∧ path = absoluteLookup lookup cwd ∧
    (kind = asked ∨ kind = .status)

/-- A query that looks a path up in a column, and gives what is there. -/
structure Query.Looks (query : Query) (column : Column ρ) (kind : Kind)
    (take : (ℕ → Machine) → String → InputFileSystem → Option ρ × InputFileSystem)
    (lookup : String) (give : Option ρ → Answer) : Prop where
  looks : query.lookup? = some (kind, lookup)
  lawful : column.Lawful kind
  takes : ∀ machine, Takes kind (take machine)
  mono : ∀ {r r' : Records}, r.Le r' →
    ∀ p v, (column.get r).lookup p = some v → (column.get r').lookup p = some v
  serves : ∀ machine fs,
    serve machine query fs = (record column (take machine) lookup fs).map give id
  answers : ∀ r, answerOf r query =
    ((column.get r).lookup (absoluteLookup lookup r.cwd)).map fun found => give (some found)

theorem Query.looks_or (query : Query) :
    (∃ (ρ : Type) (column : Column ρ) (kind : Kind) (take : _) (lookup : String)
      (give : Option ρ → Answer), query.Looks column kind take lookup give) ∨
    (∃ path, query = .setCurrentWorkingDirectory path) ∨ query = .getCurrentWorkingDirectory := by
  obtain ⟨hstatus, hopen, hreal, hdirectory, hlocal⟩ := columns_lawful
  cases query with
  | status lookup =>
    exact .inl ⟨_, _, _, _, lookup, fun found => .status (orDenied (found.map (·.value))), rfl,
      hstatus, captureStatus_takes, Records.Le.status, fun _ _ => rfl, fun _ => rfl⟩
  | exists_ lookup =>
    exact .inl ⟨_, _, _, _, lookup, fun found => .exists_ (orDenied (found.map (·.value))).isOk,
      rfl, hstatus, captureStatus_takes, Records.Le.status, fun _ _ => rfl, fun _ => rfl⟩
  | openFileForRead lookup =>
    exact .inl ⟨_, _, _, _, lookup, fun found => .openFileForRead (orDenied found), rfl, hopen,
      takeOpen_takes, Records.Le.opens, fun _ _ => rfl, fun _ => rfl⟩
  | dirBegin lookup =>
    exact .inl ⟨_, _, _, _, lookup, fun found => .dirBegin (orDenied (found.map (·.listing))), rfl,
      hdirectory, takeDirectory_takes, Records.Le.directories, fun _ _ => rfl, fun _ => rfl⟩
  | getRealPath lookup =>
    exact .inl ⟨_, _, _, _, lookup, fun found => .getRealPath (orDenied found), rfl, hreal,
      takeRealPath_takes, Records.Le.realpaths, fun _ _ => rfl, fun _ => rfl⟩
  | isLocal lookup =>
    exact .inl ⟨_, _, _, _, lookup, fun found => .isLocal
      (found.elim (none, some denied) fun record => (some record.isLocal, record.error)), rfl,
      hlocal, takeLocality_takes, Records.Le.locality, fun machine fs => by
        rw [serve, InputFileSystem.isLocal]
        rcases record localityColumn (takeLocality machine) lookup fs with ⟨_ | _, _⟩ <;> rfl,
      fun _ => rfl⟩
  | setCurrentWorkingDirectory path => exact .inr (.inl ⟨path, rfl⟩)
  | getCurrentWorkingDirectory => exact .inr (.inr rfl)

variable {query : Query} {answer : Answer}

/-- **Answers last.** -/
theorem answerOf_mono {r r' : Records} (h : r.Le r') (hanswer : answerOf r query = some answer) :
    answerOf r' query = some answer := by
  obtain ⟨_, _, _, _, _, _, hlooks⟩ | ⟨path, rfl⟩ | rfl := query.looks_or
  · rw [hlooks.answers] at hanswer ⊢
    obtain ⟨found, hfound, rfl⟩ := map_eq_some_iff.1 hanswer
    rw [h.cwd, hlooks.mono h _ _ hfound]
    rfl
  all_goals
    simp only [answerOf, h.cwd] at hanswer ⊢
    exact hanswer

/-- **A recorded answer is given**, in a capture and in a replay. -/
theorem serve_recorded (h : answerOf fs.records query = some answer) :
    serve machine query fs = (answer, fs) := by
  obtain ⟨_, column, _, _, _, _, hlooks⟩ | ⟨path, rfl⟩ | rfl := query.looks_or
  · rw [hlooks.answers] at h
    obtain ⟨found, hfound, rfl⟩ := map_eq_some_iff.1 h
    rw [hlooks.serves, record_found column hfound]
    rfl
  · simp only [answerOf] at h
    split at h
    · rename_i hsame
      cases h
      simp [serve, setCurrentWorkingDirectory, key, hsame]
    · cases h
  · cases h
    rfl

variable (machine) in
/-- **What is not recorded is not answered**, and enters a message in the audit. -/
theorem serve_missed {error : Option String} (hphysical : fs.physical = none)
    (haudit : fs.audit = some error) (h : answerOf fs.records query = none) : ∃ refusal message,
      serve machine query fs = (refusal, { fs with audit := some (error.or (some message)) }) := by
  obtain ⟨_, column, _, _, _, _, hlooks⟩ | ⟨path, rfl⟩ | rfl := query.looks_or
  · rw [hlooks.answers] at h
    rw [hlooks.serves, record_missing column hphysical (Option.map_eq_none_iff.1 h)]
    simp only [miss, fail, haudit]
    exact ⟨_, _, rfl⟩
  · have hother : fs.key path ≠ fs.records.cwd := fun hsame => by
      unfold key at hsame
      rw [answerOf, if_pos hsame] at h
      cases h
    simp only [serve, setCurrentWorkingDirectory, if_pos hother, fail, haudit]
    exact ⟨_, _, rfl⟩
  · cases h

variable (machine) in
/-- A query of a capture without an error records its answer and keeps the others. -/
theorem serve_capture (h : Capturing fs) (hclosed : fs.records.error = none → fs.records.Closed)
    (query : Query) :
    Sound fs (serve machine query fs).2 (query.Touches fs.records.cwd) ∧
      ((serve machine query fs).2.records.error = none →
        answerOf (serve machine query fs).2.records query = some (serve machine query fs).1) := by
  obtain ⟨_, _, _, _, lookup, give, hlooks⟩ | ⟨path, rfl⟩ | rfl := query.looks_or
  · obtain ⟨hsound, hfound⟩ := record_sound hlooks.lawful (hlooks.takes machine) h lookup
      fun herror hhas => hclosed herror _ _ hhas
    rw [hlooks.serves, hlooks.answers]
    refine ⟨hsound.congr fun kind path => ?_, fun herror => ?_⟩
    · simp [Query.Touches, hlooks.looks, key]
    · obtain ⟨found, hanswer, hlookup⟩ := hfound herror
      simp only [Prod.map, id, (hsound.le herror).cwd, hanswer]
      exact congrArg (Option.map fun found => give (some found)) hlookup
  · have hnone : ∀ kind path', (Query.setCurrentWorkingDirectory path).Touches fs.records.cwd kind
        path' → fs.records.Has kind path' := by
      rintro kind path' ⟨asked, lookup, hlookup, -⟩
      cases hlookup
    by_cases hother : fs.key path = fs.records.cwd
    · have hstay : serve machine (.setCurrentWorkingDirectory path) fs =
          (.setCurrentWorkingDirectory none, fs) := by
        simp [serve, setCurrentWorkingDirectory, hother]
      rw [hstay]
      exact ⟨.stay h fun _ => hnone, fun _ => if_pos hother⟩
    · obtain ⟨hcapturing, herror⟩ := fail_capturing h
        ("changing the authenticated working directory is forbidden: " ++ path)
      simp only [serve, setCurrentWorkingDirectory, Prod.map, id, if_pos hother, ne_eq]
      exact ⟨.refused hcapturing herror, fun hnone => absurd hnone herror⟩
  · refine ⟨.stay h ?_, fun _ => rfl⟩
    rintro - kind path ⟨asked, lookup, hlookup, -⟩
    cases hlookup

end Matcore.Frontend.HostInputs
