import Matcore.Lib.Replay

/-!
# Captured host inputs

`ClosedRegionHostInputs.cpp`: a compilation reads the host through a file system that records every
answer, and is repeated from the records. What the physical machine answers may change from one
look to the next: each look has a moment of its own. An empty error text is `none`. `configure`
looks at options and the toolchain only and is left out, as is the identity of a snapshot.
-/

namespace Matcore.Frontend.HostInputs

open Replay (Table)

def maximumQueries : ℕ := 32768
def maximumFileBytes : ℕ := 16 * 1024 * 1024
def maximumTotalBytes : ℕ := 64 * 1024 * 1024

inductive ErrorCode where
  | operationNotPermitted
  | notADirectory
  | valueTooLarge
  | other (category : String) (value : ℤ)
  deriving DecidableEq

def denied : ErrorCode := .operationNotPermitted

inductive FileType where
  | regularFile
  | directoryFile
  | other (code : ℕ)
  deriving DecidableEq

/-- `vfs::Status`. `sameStatus` compares every field. -/
structure Status where
  name : String
  device : ℕ
  file : ℕ
  lastModificationTime : ℤ
  user : ℕ
  group : ℕ
  size : ℕ
  type : FileType
  permissions : ℕ
  deriving DecidableEq

inductive FileIdentityKind where
  | unavailable
  | posixDeviceInode
  | windowsVolumeFileId
  deriving DecidableEq

structure FileIdentity where
  kind : FileIdentityKind := .unavailable
  words : ℕ × ℕ := (0, 0)
  deriving DecidableEq

structure PathComponentSnapshot where
  identity : FileIdentity
  metadataWords : List ℕ
  symbolicLinkTarget : String
  deriving DecidableEq

/-- `FileSnapshotV1`. `sameSnapshot` compares every field. -/
structure FileSnapshot where
  version : ℕ := 1
  normalizedPath : String := ""
  exists_ : Bool := false
  regularFile : Bool := false
  sizeBytes : ℕ := 0
  lastWriteTimeTicks : ℤ := 0
  identity : FileIdentity := {}
  pathIdentityChain : List PathComponentSnapshot := []
  deriving DecidableEq

abbrev Bytes := List UInt8

structure Entry where
  path : String
  type : FileType
  deriving DecidableEq

/-- An opened file. -/
structure File where
  status : Except ErrorCode Status
  buffer : Except ErrorCode Bytes
  close : Option ErrorCode

structure BinaryInput where
  path : String
  snapshot : FileSnapshot
  sha256 : String

/-- What one look at the machine may show. -/
structure Machine where
  /-- the message of `environmentOkay` -/
  environment : Option String
  /-- the loaded Clang is the configured one -/
  clangExact : Bool
  setCurrentWorkingDirectory : String → Option ErrorCode
  /-- a snapshot, and a message if it is not complete -/
  captureFileSnapshot : String → FileSnapshot × Option String
  status : String → Except ErrorCode Status
  openFileForRead : String → Except ErrorCode File
  /-- the entries up to the end or to an error -/
  directory : String → List Entry × Option ErrorCode
  getRealPath : String → Except ErrorCode String
  isLocal : String → Bool × Option ErrorCode
  binaryInput : String → Except String BinaryInput

/-- Looks at the machine from a moment on, which may end in a message. -/
abbrev Look := ExceptT String (StateM ℕ)

variable (machine : ℕ → Machine) {α : Type}

/-- One look. -/
def look (f : Machine → α) : Look α := fun now => (.ok (f (machine now)), now + 1)

/-- A path without its last component, `fs::path::parent_path`. -/
def parentPath (path : String) : String :=
  let parent := ((path.toList.reverse.dropWhile (· ≠ '/')).dropWhile (· = '/')).reverse
  if parent = [] ∧ path.toList.head? = some '/' then "/" else String.ofList parent

def absoluteLookup (path cwd : String) : String :=
  if path.toList.head? = some '/' then path
  else if cwd.toList.getLast? = some '/' then cwd ++ path
  else cwd ++ "/" ++ path

structure StatusRecord where
  value : Except ErrorCode Status
  snapshot : FileSnapshot := {}
  owned : Bool := false
  absentAncestors : List FileSnapshot := []

structure DirectoryRecord where
  entries : List Entry
  error : Option ErrorCode
  deriving DecidableEq

/-- What an iterator steps through. -/
def DirectoryRecord.listing (record : DirectoryRecord) : Except ErrorCode (List Entry) :=
  match record.error with
  | some error => .error error
  | none => .ok record.entries

structure LocalRecord where
  isLocal : Bool
  error : Option ErrorCode

structure Records where
  cwd : String
  input : String
  source : Bytes := []
  binaries : List BinaryInput := []
  status : Table StatusRecord := []
  opens : Table (Except ErrorCode (Status × Bytes)) := []
  realpaths : Table (Except ErrorCode String) := []
  directories : Table DirectoryRecord := []
  locality : Table LocalRecord := []
  owned : List String := []
  error : Option String := none
  bytes : ℕ := 0

/-- The ancestors of an absent path, from a parent on, with the message that is in `error` then. A
snapshot clears the message before it. -/
def absentAncestors : ℕ → String → Option String → Look (List FileSnapshot × Option String)
  | room, parent, error =>
    if parent = "" then pure ([], error)
    else match room with
      | 0 => pure ([], some "negative lookup exceeds the bounded path-ancestry depth")
      | room + 1 => do
        let (snapshot, error) ← look machine (·.captureFileSnapshot parent)
        if error.isSome then return ([], error)
        if parentPath parent = parent then return ([snapshot], none)
        let (rest, error) ← absentAncestors room (parentPath parent) none
        return (if error.isSome then [] else snapshot :: rest, error)

/-- What `sameAncestors` compares. -/
def traversal (snapshot : FileSnapshot) :
    String × Bool × Bool × FileIdentity × List PathComponentSnapshot :=
  (snapshot.normalizedPath, snapshot.exists_, snapshot.regularFile, snapshot.identity,
    snapshot.pathIdentityChain)

def sameAncestors (a b : List FileSnapshot) : Bool := a.map traversal = b.map traversal

/-- The listing of a directory on the machine. -/
def readDirectory (path : String) : Look DirectoryRecord := do
  let (entries, error) ← look machine (·.directory path)
  if maximumQueries < entries.length then
    return ⟨entries.take maximumQueries, some .valueTooLarge⟩
  return ⟨entries, error⟩

/-- The identity of a snapshot is that of a status. -/
def identityMatches (observed : Except ErrorCode Status) (after : FileSnapshot) : Bool :=
  match observed with
  | .error _ => true
  | .ok status => after.identity.kind ≠ .posixDeviceInode ||
      after.identity.words = (status.device, status.file)

/-- The physical part of `status`. -/
def captureStatus (path : String) : Look StatusRecord := do
  let (before, error) ← look machine (·.captureFileSnapshot path)
  if let some message := error then throw (message ++ ": " ++ path)
  let (ancestors, error) ← if before.exists_ then pure ([], none)
    else absentAncestors machine 128 (parentPath path) none
  if let some message := error then throw (message ++ ": " ++ path)
  let observed ← look machine (·.status path)
  let (after, error) ← look machine (·.captureFileSnapshot path)
  let (laterAncestors, error) ← if after.exists_ then pure ([], error)
    else absentAncestors machine 128 (parentPath path) error
  if error.isSome || before ≠ after || !sameAncestors ancestors laterAncestors ||
      observed.isOk ≠ after.exists_ || !identityMatches observed after then
    throw ("path changed during status capture: " ++ path)
  return { value := observed, snapshot := after, absentAncestors := ancestors }

/-- The physical part of `openFileForRead`, behind the status of the file. -/
def captureOpen (expected : Except ErrorCode Status) (records : Records) (path : String) :
    Look (Except ErrorCode (Status × Bytes)) := do
  let outside := "file-open identity/type/size is outside captured context: " ++ path
  match ← look machine (·.openFileForRead path) with
  | .error error => return .error error
  | .ok file =>
    match expected, file.status with
    | .ok expected, .ok actual =>
      if actual.type ≠ .regularFile ∨ expected ≠ actual ∨ maximumFileBytes < actual.size ∨
          maximumTotalBytes - records.bytes < actual.size then
        throw outside
      match file.buffer, file.close with
      | .ok buffer, none =>
        if buffer.length ≠ actual.size then
          throw ("file failed or changed during source read: " ++ path)
        let (after, error) ← look machine (·.captureFileSnapshot path)
        if error.isSome || (records.status.lookup path).map (·.snapshot) ≠ some after then
          throw ("file changed during source read: " ++ path)
        return .ok (actual, buffer)
      | _, _ => throw ("file failed or changed during source read: " ++ path)
    | _, _ => throw outside

/-- The file system of a capture, or of a replay. -/
structure InputFileSystem where
  records : Records
  /-- the moment of the next look, in a capture -/
  physical : Option ℕ
  /-- the message in the audit, in a replay -/
  audit : Option (Option String)

namespace InputFileSystem

def key (fs : InputFileSystem) (lookup : String) : String := absoluteLookup lookup fs.records.cwd

def fail (fs : InputFileSystem) (message : String) : InputFileSystem :=
  match fs.audit with
  | some error => { fs with audit := some (error.or (some message)) }
  | none =>
    { fs with records := { fs.records with error := fs.records.error.or (some message) } }

def miss (fs : InputFileSystem) (operation path : String) : InputFileSystem :=
  fs.fail ("uncaptured replay " ++ operation ++ " lookup: " ++ path)

def budget (fs : InputFileSystem) : Bool × InputFileSystem :=
  if maximumQueries ≤ fs.records.status.length + fs.records.opens.length +
      fs.records.realpaths.length + fs.records.directories.length + fs.records.locality.length then
    (false, fs.fail "host-context filesystem query budget exceeded")
  else (fs.records.error.isNone, fs)

/-- Looks at the machine below. A message is a failure of the capture. -/
def observe {ρ : Type} (fs : InputFileSystem) (action : Look ρ) : Option ρ × InputFileSystem :=
  match action.run (fs.physical.getD 0) with
  | (.ok record, now) => (some record, { fs with physical := some now })
  | (.error message, now) => (none, { fs with physical := some now }.fail message)

/-- One of the five tables. -/
structure Column (ρ : Type) where
  operation : String
  get : Records → Table ρ
  set : Records → Table ρ → Records

def statusColumn : Column StatusRecord := ⟨"status", (·.status), fun r t => { r with status := t }⟩
def openColumn : Column (Except ErrorCode (Status × Bytes)) :=
  ⟨"open", (·.opens), fun r t => { r with opens := t }⟩
def realPathColumn : Column (Except ErrorCode String) :=
  ⟨"realpath", (·.realpaths), fun r t => { r with realpaths := t }⟩
def directoryColumn : Column DirectoryRecord :=
  ⟨"directory", (·.directories), fun r t => { r with directories := t }⟩
def localityColumn : Column LocalRecord :=
  ⟨"locality", (·.locality), fun r t => { r with locality := t }⟩

/-- What the five lookups have in common: a record that is there, or one that is taken from the
machine below within the budget. -/
def record {ρ : Type} (column : Column ρ)
    (take : String → InputFileSystem → Option ρ × InputFileSystem) (lookup : String)
    (fs : InputFileSystem) : Option ρ × InputFileSystem :=
  let path := fs.key lookup
  match (column.get fs.records).lookup path with
  | some record => (some record, fs)
  | none =>
    if fs.physical.isNone then (none, fs.miss column.operation path)
    else
      match fs.budget with
      | (false, fs) => (none, fs)
      | (true, fs) =>
        match take path fs with
        | (none, fs) => (none, fs)
        | (some record, fs) =>
          let table := (column.get fs.records).emplace path record
          (some record, { fs with records := column.set fs.records table })

/-- An answer that was refused. -/
def orDenied (answer : Option (Except ErrorCode α)) : Except ErrorCode α :=
  answer.getD (.error denied)

def status (lookup : String) (fs : InputFileSystem) : Except ErrorCode Status × InputFileSystem :=
  let (found, fs) := record statusColumn (fun path fs => fs.observe (captureStatus machine path))
    lookup fs
  (orDenied (found.map (·.value)), fs)

def exists_ (lookup : String) (fs : InputFileSystem) : Bool × InputFileSystem :=
  let (answer, fs) := status machine lookup fs
  (answer.isOk, fs)

def takeOpen (path : String) (fs : InputFileSystem) :
    Option (Except ErrorCode (Status × Bytes)) × InputFileSystem :=
  let (expected, fs) := status machine path fs
  if fs.records.error.isSome then (none, fs)
  else
    let (taken, fs) := fs.observe (captureOpen machine expected fs.records path)
    let read := match taken with
      | some (.ok (_, buffer)) => buffer.length
      | _ => 0
    (taken, { fs with records := { fs.records with bytes := fs.records.bytes + read } })

/-- The answer stands for the file, with the status and the bytes that it gives. -/
def openFileForRead (lookup : String) (fs : InputFileSystem) :
    Except ErrorCode (Status × Bytes) × InputFileSystem :=
  let (found, fs) := record openColumn (takeOpen machine) lookup fs
  (orDenied found, fs)

/-- The children of a directory of the compiler. -/
def ownedEntries (records : Records) (path : String) : DirectoryRecord :=
  match (records.status.lookup path).map StatusRecord.value with
  | some (.ok status) =>
    if status.type ≠ .directoryFile then ⟨[], some .notADirectory⟩
    else ⟨records.status.filterMap fun (child, record) =>
      match record.value with
      | .ok status =>
        if record.owned ∧ parentPath child = path then some ⟨child, status.type⟩ else none
      | .error _ => none, none⟩
  | _ => ⟨[], some .notADirectory⟩

def takeDirectory (path : String) (fs : InputFileSystem) :
    Option DirectoryRecord × InputFileSystem :=
  let (_, fs) := status machine path fs
  if path ∈ fs.records.owned then (some (ownedEntries fs.records path), fs)
  else fs.observe (readDirectory machine path)

/-- The answer stands for the iterator, with the entries that it steps through. -/
def dirBegin (lookup : String) (fs : InputFileSystem) :
    Except ErrorCode (List Entry) × InputFileSystem :=
  let (found, fs) := record directoryColumn (takeDirectory machine) lookup fs
  (orDenied (found.map DirectoryRecord.listing), fs)

def takeRealPath (path : String) (fs : InputFileSystem) :
    Option (Except ErrorCode String) × InputFileSystem :=
  let (_, fs) := status machine path fs
  if path ∈ fs.records.owned then (some (.ok path), fs)
  else fs.observe (look machine (·.getRealPath path))

def getRealPath (lookup : String) (fs : InputFileSystem) :
    Except ErrorCode String × InputFileSystem :=
  let (found, fs) := record realPathColumn (takeRealPath machine) lookup fs
  (orDenied found, fs)

def takeLocality (path : String) (fs : InputFileSystem) :
    Option LocalRecord × InputFileSystem :=
  let (_, fs) := status machine path fs
  if path ∈ fs.records.owned then (some ⟨true, none⟩, fs)
  else fs.observe do
    let (isLocal, error) ← look machine (·.isLocal path)
    return ⟨isLocal, error⟩

/-- A refusal leaves the result of the caller alone. -/
def isLocal (lookup : String) (fs : InputFileSystem) :
    (Option Bool × Option ErrorCode) × InputFileSystem :=
  let (found, fs) := record localityColumn (takeLocality machine) lookup fs
  (match found with
    | some record => (some record.isLocal, record.error)
    | none => (none, some denied), fs)

def setCurrentWorkingDirectory (path : String) (fs : InputFileSystem) :
    Option ErrorCode × InputFileSystem :=
  if fs.key path ≠ fs.records.cwd then
    (some denied, fs.fail ("changing the authenticated working directory is forbidden: " ++ path))
  else (none, fs)

def getCurrentWorkingDirectory (fs : InputFileSystem) : String := fs.records.cwd

end InputFileSystem

inductive Query where
  | status (lookup : String)
  | exists_ (lookup : String)
  | openFileForRead (lookup : String)
  | dirBegin (lookup : String)
  | getRealPath (lookup : String)
  | isLocal (lookup : String)
  | setCurrentWorkingDirectory (path : String)
  | getCurrentWorkingDirectory

inductive Answer where
  | status (answer : Except ErrorCode Status)
  | exists_ (answer : Bool)
  | openFileForRead (answer : Except ErrorCode (Status × Bytes))
  | dirBegin (answer : Except ErrorCode (List Entry))
  | getRealPath (answer : Except ErrorCode String)
  | isLocal (answer : Option Bool × Option ErrorCode)
  | setCurrentWorkingDirectory (answer : Option ErrorCode)
  | getCurrentWorkingDirectory (answer : String)

open InputFileSystem in
def serve (query : Query) (fs : InputFileSystem) : Answer × InputFileSystem :=
  match query with
  | .status lookup => (status machine lookup fs).map .status id
  | .exists_ lookup => (exists_ machine lookup fs).map .exists_ id
  | .openFileForRead lookup => (openFileForRead machine lookup fs).map .openFileForRead id
  | .dirBegin lookup => (dirBegin machine lookup fs).map .dirBegin id
  | .getRealPath lookup => (getRealPath machine lookup fs).map .getRealPath id
  | .isLocal lookup => (isLocal machine lookup fs).map .isLocal id
  | .setCurrentWorkingDirectory path =>
    (setCurrentWorkingDirectory path fs).map .setCurrentWorkingDirectory id
  | .getCurrentWorkingDirectory =>
    (.getCurrentWorkingDirectory (getCurrentWorkingDirectory fs), fs)

/-- `lexically_normal` leaves an absolute path alone. -/
def isLexicallyNormal (path : String) : Bool :=
  let components := path.toList.splitOn '/'
  components.tail.dropLast.all (· ≠ []) && components.all fun c => c ≠ ['.'] && c ≠ ['.', '.']

/-- `operator[]` on a table. -/
def assign (table : Table α) (key : String) (record : α) : Table α :=
  Table.emplace (table.filter fun entry => entry.1 ≠ key) key record

def ownedStatus (path : String) (ordinal size : ℕ) (type : FileType) : Status :=
  ⟨path, 2 ^ 64 - 1, ordinal, 0, 0, 0, size, type, 0o444⟩

/-- The files of the compiler, with the number of the next one. -/
def addFiles : List (String × Bytes) → ℕ → Records → Except String (ℕ × Records)
  | [], ordinal, records => .ok (ordinal, records)
  | (path, bytes) :: files, ordinal, records =>
    if !("/__mdsl_private__/".toList.isPrefixOf path.toList) || maximumFileBytes < bytes.length ||
        maximumTotalBytes - records.bytes < bytes.length || !isLexicallyNormal path ||
        path ∈ records.owned || path.toList.contains '\x00' then
      .error "invalid compiler-owned virtual input"
    else
      let status := ownedStatus path ordinal bytes.length .regularFile
      addFiles files (ordinal + 1) { records with
        status := assign records.status path { value := .ok status, owned := true }
        opens := assign records.opens path (.ok (status, bytes))
        owned := path :: records.owned
        bytes := records.bytes + bytes.length }

/-- A directory of the compiler. -/
def addDirectory (directory : String) (ordinal : ℕ) (records : Records) :
    Except String (ℕ × Records) :=
  if directory ∈ records.owned then
    match (records.status.lookup directory).map StatusRecord.value with
    | some (.ok status) =>
      if status.type ≠ .directoryFile then
        .error "compiler-owned file/directory identity collision"
      else .ok (ordinal, records)
    | _ => .error "compiler-owned file/directory identity collision"
  else
    let status := ownedStatus directory ordinal 0 .directoryFile
    .ok (ordinal + 1, { records with
      status := assign records.status directory { value := .ok status, owned := true }
      owned := directory :: records.owned })

/-- The directories above a file of the compiler, from one on. -/
def addDirectories : ℕ → String → ℕ → Records → Except String (ℕ × Records)
  | room, directory, ordinal, records =>
    if directory = "/" then .ok (ordinal, records)
    else match room with
      | 0 => .error "compiler-owned header nesting exceeds its bound"
      | room + 1 => do
        let (ordinal, records) ← addDirectory directory ordinal records
        if directory = "/__mdsl_private__" then .ok (ordinal, records)
        else addDirectories room (parentPath directory) ordinal records

def addOwnedFiles (owned : List (String × Bytes)) (records : Records) : Except String Records := do
  if owned = [] ∨ 4 < owned.length then
    .error "compiler-owned virtual input count is outside the bounded contract"
  else
    let start ← addFiles owned 1 records
    let (_, records) ← owned.foldlM (fun (ordinal, records) (path, _) =>
      addDirectories 16 (parentPath path) ordinal records) start
    .ok records

inductive HostInputPrelude where
  | closedRegionFixture
  | none

/-- The prelude: the files of the compiler, or none. -/
def addPrelude (prelude_ : HostInputPrelude) (owned : List (String × Bytes)) (records : Records) :
    Except String Records :=
  match prelude_ with
  | .closedRegionFixture => do
    let records ← addOwnedFiles owned records
    if "/__mdsl_private__/fixture.h" ∈ records.owned then .ok records
    else .error "the fixed compiler-owned declaration header is required"
  | .none =>
    if owned ≠ [] then
      .error "original host capture cannot inject compiler-owned virtual inputs"
    else .ok records

/-- The records that a capture starts from. -/
def ownedRecords (cwd input : String) (binaries : List BinaryInput) (owned : List (String × Bytes))
    (prelude_ : HostInputPrelude) : Except String Records := do
  let records ← addPrelude prelude_ owned { cwd, input := absoluteLookup input cwd, binaries }
  if records.input ∈ records.owned then
    .error "physical main source cannot alias a compiler-owned virtual input"
  else .ok records

/-- The constructor of a capture. -/
def capturing (records : Records) (now : ℕ) : InputFileSystem :=
  let fs : InputFileSystem := ⟨records, some (now + 1), none⟩
  match (machine now).setCurrentWorkingDirectory records.cwd with
  | none => fs
  | some _ => fs.fail "cannot select capture working directory: "

/-- What the preparation of a capture asks. -/
def preparation (resources : String) (records : Records) : List Query :=
  [.status resources, .status (resources ++ "/include"), .openFileForRead records.input]

def isDirectory : Except ErrorCode Status → Bool
  | .ok status => status.type = .directoryFile
  | .error _ => false

/-- `prepareHostInputs` behind `configure`, at a moment. -/
def prepareHostInputs (resources : String) (records : Records) (now : ℕ) :
    Except String InputFileSystem :=
  let (first, fs) := (capturing machine records now).status machine resources
  if !isDirectory first || fs.records.error.isSome then
    .error (fs.records.error.getD "configured resource directory is unavailable")
  else
    let (second, fs) := fs.status machine (resources ++ "/include")
    if !isDirectory second || fs.records.error.isSome then
      .error (fs.records.error.getD "configured resource directory is unavailable")
    else
      let unreadable := "main source is unreadable or exceeds the admission byte limit"
      match fs.openFileForRead machine records.input with
      | (.error _, fs) => .error (fs.records.error.getD unreadable)
      | (.ok (_, source), fs) =>
        if fs.records.error.isSome || 1024 * 1024 < source.length then
          .error (fs.records.error.getD unreadable)
        else if source.contains 0 then .error "main source contains a NUL byte"
        else .ok { fs with records := { fs.records with source } }

/-- A recheck that ends with a message. -/
def recheck (same : Bool) (message : String) : Look Unit := if same then pure () else throw message

def binaryUnchanged (binary : BinaryInput) (now : Except String BinaryInput) : Bool :=
  match now with
  | .ok now => binary.snapshot = now.snapshot && binary.sha256 = now.sha256
  | .error _ => false

def statusUnchanged (records : Table StatusRecord) : Look Unit :=
  records.forM fun (path, record) => do
    if record.owned then return
    let (now, error) ← look machine (·.captureFileSnapshot path)
    recheck (error.isNone && record.snapshot = now)
      ("captured path identity or metadata changed: " ++ path)
    if !record.snapshot.exists_ then
      let (ancestors, error) ← absentAncestors machine 128 (parentPath path) none
      recheck (error.isNone && sameAncestors record.absentAncestors ancestors)
        ("captured negative-lookup path ancestry changed: " ++ path)
    let status ← look machine (·.status path)
    let same := match record.value, status with
      | .ok value, .ok status => value = status
      | .error value, .error error => value = error
      | _, _ => false
    recheck same ("captured filesystem status outcome changed: " ++ path)

def opensUnchanged (records : Records) : Look Unit :=
  records.opens.forM fun (path, record) => do
    if path ∈ records.owned then return
    let opened ← look machine (·.openFileForRead path)
    match record, opened with
    | .error value, .error error =>
      recheck (value = error) ("captured file-open outcome changed: " ++ path)
    | .error _, .ok _ => throw ("captured file-open outcome changed: " ++ path)
    | .ok _, .error _ => throw ("captured file cannot be reopened: " ++ path)
    | .ok (status, bytes), .ok file =>
      let same := match file.status, file.buffer, file.close with
        | .ok actual, .ok buffer, none => status = actual && buffer = bytes
        | _, _, _ => false
      recheck same ("captured source bytes or open identity changed: " ++ path)
      let (after, error) ← look machine (·.captureFileSnapshot path)
      recheck (error.isNone && (records.status.lookup path).map (·.snapshot) = some after)
        ("captured source changed during final recheck: " ++ path)

def recordsUnchanged (records : Records) : Look Unit := do
  if let some message ← look machine (·.environment) then throw message
  if (← look machine (·.setCurrentWorkingDirectory records.cwd)).isSome then
    throw "cannot recheck captured working directory: "
  statusUnchanged machine records.status
  opensUnchanged machine records
  records.realpaths.forM fun (path, record) => do
    if path ∈ records.owned then return
    let now ← look machine (·.getRealPath path)
    let same := match record, now with
      | .ok value, .ok output => value = output
      | .error value, .error error => value = error
      | _, _ => false
    recheck same ("captured realpath lookup changed: " ++ path)
  records.directories.forM fun (path, record) => do
    if path ∈ records.owned then return
    let now ← readDirectory machine path
    recheck (record = now) ("captured directory lookup changed: " ++ path)
  records.locality.forM fun (path, record) => do
    if path ∈ records.owned then return
    let (isLocal, error) ← look machine (·.isLocal path)
    recheck (record.error = error && (error.isSome || record.isLocal = isLocal))
      ("captured locality lookup changed: " ++ path)
  records.binaries.forM fun binary => do
    let now ← look machine (·.binaryInput binary.path)
    recheck (binaryUnchanged binary now) ("configured compiler input changed: " ++ binary.path)

/-- `HostInputCapture::freeze`: the records of the snapshot. -/
def freeze (fs : InputFileSystem) (now : ℕ) : Except String Records :=
  match fs.records.error with
  | some message => .error message
  | none =>
    match ((recordsUnchanged machine fs.records).run now).1 with
    | .error message => .error message
    | .ok () => .ok fs.records

/-- `HostInputSnapshot::replay`. -/
def replay (snapshot : Records) (now : Machine) : InputFileSystem where
  records := snapshot
  physical := none
  audit := some (now.environment.or
    (if now.clangExact then none else some "replay Clang runtime is not the configured exact tuple"))

/-- `HostInputReplay::ok`. -/
def ok (fs : InputFileSystem) : Bool := fs.audit = some none

end Matcore.Frontend.HostInputs
