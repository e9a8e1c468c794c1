import Mathlib.Data.Int.Notation
import Matcore.Lib.Except

/-!
# Argument files

`write_argument_file_v1` and `read_argument_file_v1` (`platform_support_common.cpp`) with the
UTF-8 check and the 64-bit integers they use, and `wide_arguments_to_utf8_v1`. Positions are the
64-bit `size_t` of the code, and an access outside of a string is an outcome of its own.
-/

namespace Matcore.Support

abbrev Bytes := List UInt8

inductive Failure where
  /-- A character past the end of a string, or `substr` behind it. -/
  | outOfRange
  /-- A loop that does not end. -/
  | diverges
  /-- The error that the code reports. -/
  | message (text : String)

def size (text : Bytes) : UInt64 := UInt64.ofNat text.length

def byteAt (text : Bytes) (index : UInt64) : Except Failure UInt8 :=
  match text[index.toNat]? with
  | some byte => .ok byte
  | none => .error .outOfRange

/-- `std::string::substr`. -/
def substr (text : Bytes) (position count : UInt64) : Except Failure Bytes :=
  if position > size text then .error .outOfRange
  else .ok ((text.drop position.toNat).take count.toNat)

def containsNul (text : Bytes) : Bool := text.contains 0

/-- Length, smallest code point and payload of a sequence that starts with a byte above 0x7f. -/
def leadByte (first : UInt8) : Option (UInt64 × UInt32 × UInt32) :=
  if first ≥ 0xc2 && first ≤ 0xdf then some (2, 0x80, (first &&& 0x1f).toUInt32)
  else if first ≥ 0xe0 && first ≤ 0xef then some (3, 0x800, (first &&& 0x0f).toUInt32)
  else if first ≥ 0xf0 && first ≤ 0xf4 then some (4, 0x10000, (first &&& 0x07).toUInt32)
  else none

/-- The loop over the continuation bytes, of which `remaining` are left. -/
def continuations (value : Bytes) (offset : UInt64) :
    ℕ → UInt64 → UInt32 → Except Failure (Option UInt32)
  | 0, _, codePoint => .ok (some codePoint)
  | remaining + 1, index, codePoint => do
    let continuation ← byteAt value (offset + index)
    if continuation &&& 0xc0 ≠ 0x80 then return none
    continuations value offset remaining (index + 1)
      ((codePoint <<< 6) ||| (continuation &&& 0x3f).toUInt32)

/-- The code point at `offset` and the offset behind it. -/
def decodeUtf8CodePoint (value : Bytes) (offset : UInt64) :
    Except Failure (Option (UInt32 × UInt64)) := do
  let first ← byteAt value offset
  if first ≤ 0x7f then return some (first.toUInt32, offset + 1)
  match leadByte first with
  | none => return none
  | some (length, minimum, payload) =>
    if offset + length > size value then return none
    match ← continuations value offset (length.toNat - 1) 1 payload with
    | none => return none
    | some codePoint =>
      if codePoint < minimum || codePoint > 0x10ffff ||
          (codePoint ≥ 0xd800 && codePoint ≤ 0xdfff) then return none
      return some (codePoint, offset + length)

/-- The loop of `valid_utf8`. Every turn moves forward, so one turn a byte is enough. -/
def validUtf8From (value : Bytes) : ℕ → UInt64 → Except Failure Bool
  | 0, _ => .error .diverges
  | turns + 1, offset => do
    if offset < size value then
      match ← decodeUtf8CodePoint value offset with
      | none => return false
      | some (_, next) => validUtf8From value turns next
    else return true

def validUtf8 (value : Bytes) : Except Failure Bool := validUtf8From value (value.length + 1) 0

/-- A byte with its marker. -/
def marked (marker bits : UInt32) : UInt8 := (marker ||| bits).toUInt8

/-- `append_utf8`. -/
def appendUtf8 (codePoint : UInt32) (output : Bytes) : Bytes :=
  output ++
    if codePoint ≤ 0x7f then [codePoint.toUInt8]
    else if codePoint ≤ 0x7ff then
      [marked 0xc0 (codePoint >>> 6), marked 0x80 (codePoint &&& 0x3f)]
    else if codePoint ≤ 0xffff then
      [marked 0xe0 (codePoint >>> 12), marked 0x80 ((codePoint >>> 6) &&& 0x3f),
        marked 0x80 (codePoint &&& 0x3f)]
    else
      [marked 0xf0 (codePoint >>> 18), marked 0x80 ((codePoint >>> 12) &&& 0x3f),
        marked 0x80 ((codePoint >>> 6) &&& 0x3f), marked 0x80 (codePoint &&& 0x3f)]

def unpairedSurrogate : Failure :=
  .message "process argument contains an unpaired UTF-16 surrogate"

/-- The loop over the cells of an argument, with the bytes so far, where `wchar_t` has two bytes. -/
def wideToUtf8 : List UInt16 → Bytes → Except Failure Bytes
  | [], _ => .error .outOfRange
  | unit :: rest, encoded =>
    if unit = 0 then .ok encoded
    else if unit ≥ 0xd800 && unit ≤ 0xdbff then
      match rest with
      | [] => .error .outOfRange
      | trailing :: rest =>
        if trailing < 0xdc00 || trailing > 0xdfff then .error unpairedSurrogate
        else
          let high : UInt32 := (unit.toUInt32 - 0xd800) <<< (10 : UInt32)
          wideToUtf8 rest (appendUtf8 (0x10000 + high + (trailing.toUInt32 - 0xdc00)) encoded)
    else if unit ≥ 0xdc00 && unit ≤ 0xdfff then .error unpairedSurrogate
    else wideToUtf8 rest (appendUtf8 unit.toUInt32 encoded)

/-- The loop over the arguments, of which `remaining` are left. -/
def wideArguments : ℕ → List (Option (List UInt16)) → Except Failure (List Bytes)
  | 0, _ => .ok []
  | _ + 1, [] => .error .outOfRange
  | _ + 1, none :: _ => .error (.message "wide process argument is null")
  | remaining + 1, some cells :: rest => do
    let encoded ← wideToUtf8 cells []
    return encoded :: (← wideArguments remaining rest)

/-- `wide_arguments_to_utf8_v1`. -/
def wideArgumentsToUtf8 (argc : ℤ) (argv : Option (List (Option (List UInt16)))) :
    Except Failure (List Bytes) :=
  if argc < 0 || (argc ≠ 0 && argv.isNone) then
    .error (.message "wide process argument vector is malformed")
  else wideArguments argc.toNat (argv.getD [])

/-- The shifts of the loops over the bytes of an integer. -/
def shifts : List UInt64 := [0, 8, 16, 24, 32, 40, 48, 56]

def appendU64 (value : UInt64) (output : Bytes) : Bytes :=
  output ++ shifts.map fun shift => ((value >>> shift) &&& 0xff).toUInt8

/-- The loop of `take_u64`, with the value so far. -/
def takeBytes (input : Bytes) : List UInt64 → UInt64 → UInt64 → Except Failure (UInt64 × UInt64)
  | [], offset, value => .ok (value, offset)
  | shift :: rest, offset, value => do
    let byte ← byteAt input offset
    takeBytes input rest (offset + 1) (value ||| (byte.toUInt64 <<< shift))

/-- The integer at `offset` and the offset behind it. -/
def takeU64 (input : Bytes) (offset : UInt64) : Except Failure (Option (UInt64 × UInt64)) := do
  if size input - min (size input) offset < 8 then return none
  return some (← takeBytes input shifts offset 0)

/-- `MDSLC-ARGV-V1`, a carriage return and a line feed. -/
def argumentFileMagic : Bytes := [77, 68, 83, 76, 67, 45, 65, 82, 71, 86, 45, 86, 49, 13, 10]

def maximumArgumentFileBytes : UInt64 := 64 * 1024 * 1024
def maximumArgumentCount : UInt64 := 1024 * 1024

/-- The values that an argument file may hold, NUL-free and well-formed UTF-8. -/
def validValue (argument : Bytes) : Except Failure Bool := do
  if containsNul argument then return false
  validUtf8 argument

/-- The loop over the arguments. -/
def appendArguments : List Bytes → Bytes → Except Failure Bytes
  | [], contents => .ok contents
  | argument :: rest, contents => do
    if !(← validValue argument) then
      throw (.message "argument-file values must be NUL-free well-formed UTF-8")
    if size contents > maximumArgumentFileBytes - 8 ||
        size argument > maximumArgumentFileBytes - 8 - size contents then
      throw (.message "argument-file payload exceeds the v1 byte limit")
    appendArguments rest (appendU64 (size argument) contents ++ argument)

/-- What the file system answers when the file is written. -/
structure OutputFile where
  opens : Bool
  writes : Bool

/-- The bytes that are in the file afterwards. -/
def writeArgumentFile (output : OutputFile) (arguments : List Bytes) : Except Failure Bytes := do
  if arguments.length > maximumArgumentCount.toNat then
    throw (.message "argument-file count exceeds the v1 limit")
  let contents ← appendArguments arguments
    (appendU64 (UInt64.ofNat arguments.length) argumentFileMagic)
  if !output.opens then throw (.message "cannot open argument file for writing")
  if !output.writes then throw (.message "cannot write argument file")
  return contents

inductive FileIdentityKind where
  | unavailable
  | posixDeviceInode
  | windowsVolumeFileId
  deriving DecidableEq

structure FileIdentity where
  kind : FileIdentityKind
  words : UInt64 × UInt64
  deriving DecidableEq

structure PathComponentSnapshot where
  identity : FileIdentity
  metadataWords : List UInt64
  symbolicLinkTarget : Bytes
  deriving DecidableEq

structure FileSnapshot where
  normalizedPath : Bytes
  fileExists : Bool
  regularFile : Bool
  sizeBytes : UInt64
  lastWriteTimeTicks : Int64
  identity : FileIdentity
  pathIdentityChain : List PathComponentSnapshot

/-- What the file system answers when the file is read: the snapshots before and after, or the
errors of taking them, and the bytes in between. -/
structure InputFile where
  before : Except String FileSnapshot
  opens : Bool
  contents : Bytes
  readFails : Bool
  after : Except String FileSnapshot

/-- The loop over the values of a file, of which `remaining` are left. -/
def readArguments (contents : Bytes) :
    ℕ → UInt64 → List Bytes → Except Failure (List Bytes × UInt64)
  | 0, offset, arguments => .ok (arguments, offset)
  | remaining + 1, offset, arguments => do
    match ← takeU64 contents offset with
    | none => throw (.message "argument file has a truncated value")
    | some (length, start) =>
      if length > size contents - min (size contents) start then
        throw (.message "argument file has a truncated value")
      let argument ← substr contents start length
      if !(← validValue argument) then
        throw (.message "argument file contains malformed UTF-8 or NUL")
      readArguments contents remaining (start + length) (arguments ++ [argument])

/-- The part of the reader behind the last snapshot. -/
def parseArgumentFile (contents : Bytes) : Except Failure (List Bytes) := do
  if !argumentFileMagic.isPrefixOf contents then
    throw (.message "argument file has an invalid v1 signature")
  match ← takeU64 contents (size argumentFileMagic) with
  | none => throw (.message "argument file has an invalid count")
  | some (count, start) =>
    if count > maximumArgumentCount then throw (.message "argument file has an invalid count")
    let (arguments, past) ← readArguments contents count.toNat start []
    if past ≠ size contents then throw (.message "argument file contains trailing bytes")
    return arguments

/-- `capture_file_snapshot_v1` reports an error with its text. -/
def captureFileSnapshot (answer : Except String FileSnapshot) : Except Failure FileSnapshot :=
  answer.mapError .message

def readArgumentFile (input : InputFile) : Except Failure (List Bytes) := do
  let before ← captureFileSnapshot input.before
  if !before.fileExists || !before.regularFile || before.identity.kind = .unavailable then
    throw (.message "argument file is not a regular file")
  if before.sizeBytes > maximumArgumentFileBytes then
    throw (.message "argument-file payload exceeds the v1 byte limit")
  if !input.opens then throw (.message "cannot open argument file")
  if input.readFails then throw (.message "cannot read argument file")
  let after ← captureFileSnapshot input.after
  if before.identity ≠ after.identity || before.pathIdentityChain ≠ after.pathIdentityChain ||
      before.sizeBytes ≠ after.sizeBytes ||
      before.lastWriteTimeTicks ≠ after.lastWriteTimeTicks ||
      before.normalizedPath ≠ after.normalizedPath then
    throw (.message "argument file changed while it was read")
  parseArgumentFile input.contents

end Matcore.Support
