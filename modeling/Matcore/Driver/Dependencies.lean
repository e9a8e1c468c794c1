import Matcore.Support.ArgumentFile

/-!
# Dependency files

`ReadMakeDependencyPaths` and `MergeDependencyFiles`. A path is its bytes: 92 is the backslash,
36 `$`, 35 `#`, 58 the colon.
-/

namespace Matcore.Driver

open Support (Bytes validUtf8)

def pathFromUtf8 (value : Bytes) : Except String Bytes :=
  if Support.containsNul value then .error "UTF-8 path contains NUL"
  else
    match validUtf8 value with
    | .ok true => .ok value
    | _ => .error "path is not well-formed UTF-8"

def pathArgument (path : Bytes) : Bytes :=
  match validUtf8 path with
  | .ok true => path
  | _ => []

/-- What follows the separator of the rule. -/
def behindSeparator : (escaped : Bool) → Bytes → Option Bytes
  | _, [] => none
  | true, _ :: rest => behindSeparator false rest
  | false, character :: rest =>
    if character = 92 then behindSeparator true rest
    else if character = 58 && rest.head?.all ([32, 9, 10, 13].contains ·) then some rest
    else if character = 10 || character = 13 then none
    else behindSeparator false rest

/-- The loop over the paths. -/
structure Scan where
  paths : List Bytes := []
  token : Bytes := []
  failure : Option String := none

namespace Scan

def finishToken (s : Scan) : Scan :=
  if s.token = [] then s
  else
    match pathFromUtf8 s.token with
    | .ok path => { s with paths := s.paths ++ [path], token := [] }
    | .error message =>
      { s with token := [], failure := some ("dependency path is not valid UTF-8: " ++ message) }

def put (s : Scan) (character : UInt8) : Scan := { s with token := s.token ++ [character] }

def result (s : Scan) : Except String (List Bytes) :=
  match s.failure with
  | some message => .error message
  | none =>
    if s.paths = [] then .error "dependency scan output contains no input files" else .ok s.paths

def run : Bytes → Scan → Except String (List Bytes)
  | [], s => s.finishToken.result
  | [92], _ => .error "dependency scan output ends in an escape"
  | 92 :: 10 :: rest, s => run rest s
  | 92 :: 13 :: 10 :: rest, s => run rest s
  | 92 :: next :: rest, s => run rest (s.put next)
  | 36 :: 36 :: rest, s => run rest (s.put 36)
  | character :: rest, s =>
    if character = 32 || character = 9 then run rest s.finishToken
    else if character = 10 || character = 13 || character = 35 then s.finishToken.result
    else run rest (s.put character)

end Scan

/-- The file is its contents, or the message when it cannot be opened or read. -/
def readMakeDependencyPaths (file : Except String Bytes) : Except String (List Bytes) := do
  match behindSeparator false (← file) with
  | none => throw "dependency scan output has no Make rule separator"
  | some rest => Scan.run rest {}

def escapeCharacter (character : UInt8) : Bytes :=
  if character = 36 then [36, 36]
  else if [32, 9, 35, 58, 92].contains character then [92, character]
  else [character]

def escapeMakePath (path : Bytes) : Bytes := path.flatMap escapeCharacter

/-- What `std::filesystem` does to paths; `absolute` may fail. -/
structure Paths where
  isRelative : Bytes → Bool
  absolute : Bytes → Option Bytes
  same : Bytes → Bytes → Bool

namespace Paths

variable (fs : Paths) (excludedPaths : List Bytes)

def identity (path : Bytes) : Option Bytes :=
  if fs.isRelative path then fs.absolute path else some path

def generated (identity : Bytes) : Bool :=
  excludedPaths.any fun excluded => (fs.identity excluded).any (fs.same · identity)

/-- The loop over the paths of one file. -/
def collect : List Bytes → List Bytes × List Bytes → Option (List Bytes × List Bytes)
  | [], found => some found
  | dependency :: rest, (identities, dependencies) => do
    let identity ← fs.identity dependency
    if fs.generated excludedPaths identity || identities.any (fs.same · identity) then
      collect rest (identities, dependencies)
    else collect rest (identities ++ [identity], dependencies ++ [dependency])

/-- The text that is written, if nothing fails. -/
def mergeDependencyFiles (dependencyFiles : List (Except String Bytes)) (objectTarget : Bytes) :
    Option Bytes := do
  let (_, dependencies) ← dependencyFiles.foldlM (fun found file => do
    fs.collect excludedPaths (← (readMakeDependencyPaths file).toOption) found) ([], [])
  return escapeMakePath (pathArgument objectTarget) ++ [58] ++
    (dependencies.flatMap fun dependency =>
      [32, 92, 10, 32, 32] ++ escapeMakePath (pathArgument dependency)) ++ [10]

end Paths

end Matcore.Driver
