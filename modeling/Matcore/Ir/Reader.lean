import Matcore.Ir.Module

/-!
# Reading JSON documents

The readers that both versions of the IR define for themselves, alike up to the name of the IR in
their messages. RapidJSON is a pair of parameters: its reader and its writer.
-/

namespace Matcore.Ir

/-- The bytes of a document. -/
abbrev Text := List UInt8

/-- RapidJSON, as far as the IR uses it: `Document::Parse` with its error text, and
`PrettyWriter`. -/
structure RapidJson where
  parse : Text → Except String Json
  print : Json → Text

/-- The document that a serializer returns: the printed value and one newline. -/
def RapidJson.document (rapidjson : RapidJson) (value : Json) : Text :=
  rapidjson.print value ++ [10]

/-- The reader recovers the value from its printed document. -/
def RapidJson.FaithfulOn (rapidjson : RapidJson) (value : Json) : Prop :=
  rapidjson.parse (rapidjson.document value) = .ok value

section PrettyWriter

/-- One character in a printed string. -/
def escaped (value : Char) : String :=
  match value.toNat with
  | 34 => "\\\""
  | 92 => "\\\\"
  | 8 => "\\b"
  | 9 => "\\t"
  | 10 => "\\n"
  | 12 => "\\f"
  | 13 => "\\r"
  | code =>
    if code < 32 then
      "\\u00" ++ toString (code / 16) ++ (code % 16).digitChar.toUpper.toString
    else value.toString

def quoted (text : String) : String := "\"" ++ String.join (text.toList.map escaped) ++ "\""

/-- Lines of an array or of an object that begins `depth` deep. -/
def bracketed (depth : Nat) (first last : String) (lines : List String) : String :=
  let indent depth := String.ofList (List.replicate (2 * depth) ' ')
  if lines.isEmpty then first ++ last
  else
    first ++ "\n" ++ ",\n".intercalate (lines.map (indent (depth + 1) ++ ·)) ++ "\n" ++
      indent depth ++ last

mutual

/-- What `PrettyWriter` prints with `SetIndent(' ', 2)`. -/
def pretty (depth : Nat) : Json → String
  | .null => "null"
  | .bool value => toString value
  | .uint value => toString value
  | .number text => text
  | .string value => quoted value
  | .array items => bracketed depth "[" "]" (prettyItems (depth + 1) items)
  | .object members => bracketed depth "\x7b" "\x7d" (prettyMembers (depth + 1) members)

def prettyItems (depth : Nat) : List Json → List String
  | [] => []
  | item :: rest => pretty depth item :: prettyItems depth rest

def prettyMembers (depth : Nat) : List (String × Json) → List String
  | [] => []
  | (name, value) :: rest => (quoted name ++ ": " ++ pretty depth value) :: prettyMembers depth rest

end

/-- RapidJSON with its printer, and its reader on the document of one value: with or without a
blank before it. -/
def rapidjsonOn (value : Json) : RapidJson where
  parse json :=
    let document := (pretty 0 value).toUTF8.toList ++ [10]
    if json = document ∨ json = 32 :: document then .ok value
    else .error "malformed JSON at byte 0: Invalid value."
  print value := (pretty 0 value).toUTF8.toList

theorem rapidjsonOn_faithful (value : Json) : (rapidjsonOn value).FaithfulOn value :=
  if_pos (.inl rfl)

end PrettyWriter

section Readers

variable (ir : String)

/-- `read` is the type test of `requiredMember`, with the value that the caller then takes. -/
def requiredMember {α : Type} (object : Json) (name : String) (read : Json → Option α) :
    Except String α :=
  if !object.isObject then .error ("expected a JSON object while reading " ++ name)
  else
    match (object.member name).bind read with
    | some value => .ok value
    | none => .error ("missing or invalid " ++ ir ++ " field: " ++ name)

/-- The first of `names` that `object` does not have. -/
def missingName (object : Json) (names : List String) : Option String :=
  names.find? fun name => (object.member name).isNone

def exactMembers (object : Json) (names : List String) (context : String) : Except String Unit :=
  match object with
  | .object members =>
    if members.length ≠ names.length then
      .error (context ++ " has unexpected or missing fields")
    else
      match missingName object names with
      | some name => .error (context ++ " is missing field: " ++ name)
      | none => .ok ()
  | _ => .error (context ++ " has unexpected or missing fields")

def readString (object : Json) (name : String) : Except String String :=
  requiredMember ir object name Json.asString

def readUint64 (object : Json) (name : String) : Except String UInt64 :=
  match (object.member name).bind Json.asUint with
  | some value => .ok value
  | none => .error ("missing or invalid " ++ ir ++ " integer field: " ++ name)

def parseRange (encoded : Json) : Except String SourceRange := do
  exactMembers encoded ["begin", "end"] "source range"
  let first ← readUint64 ir encoded "begin"
  let past ← readUint64 ir encoded "end"
  return { first, past }

end Readers

section Members

variable {ir : String} {object : Json} {name : String}

theorem requiredMember_of_member {α : Type} {read : Json → Option α} {value : Json} {a : α}
    (h : object.member name = some value) (hread : read value = some a) :
    requiredMember ir object name read = .ok a := by
  unfold requiredMember
  have hobject : object.isObject = true := by
    cases object <;> first | rfl | cases h
  rw [hobject, h, Option.bind_some, hread]
  rfl

theorem readString_of_member {value : String} (h : object.member name = some (.string value)) :
    readString ir object name = .ok value :=
  requiredMember_of_member h rfl

theorem readUint64_of_member {value : UInt64} (h : object.member name = some (.uint value)) :
    readUint64 ir object name = .ok value := by
  unfold readUint64
  rw [h]
  rfl

end Members

def writeRange (range : SourceRange) : Json :=
  .object [("begin", .uint range.first), ("end", .uint range.past)]

theorem parseRange_writeRange (ir : String) (range : SourceRange) :
    parseRange ir (writeRange range) = .ok range := by
  simp [parseRange, writeRange, exactMembers, missingName, readUint64, List.lookup_cons]
  rfl

end Matcore.Ir
