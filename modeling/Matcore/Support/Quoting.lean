import Matcore.Lib.Except

/-!
# Quoting

`quote_windows_command_line_argument_v1`, `build_windows_command_line_v1` and
`encode_response_file_utf8_v1` (`platform_support_common.cpp`).
-/

namespace Matcore.Support.Quoting

abbrev Argument := List UInt8

/-- `std::isspace` in the C locale. -/
def isspace (ch : UInt8) : Bool := ch = 32 || (9 ≤ ch && ch ≤ 13)

/-- The loop over the characters of an argument, with the backslashes seen so far: a double quote
(34) or the end of the argument doubles them. -/
def windowsBody : ℕ → Argument → List UInt8
  | backslashes, [] => List.replicate (backslashes * 2) 92
  | backslashes, ch :: rest =>
    if ch = 92 then windowsBody (backslashes + 1) rest
    else if ch = 34 then List.replicate (backslashes * 2 + 1) 92 ++ 34 :: windowsBody 0 rest
    else List.replicate backslashes 92 ++ ch :: windowsBody 0 rest

def quoteWindowsCommandLineArgument (argument : Argument) : List UInt8 :=
  let requiresQuotes := argument.isEmpty || argument.any fun ch => isspace ch || ch = 34
  if !requiresQuotes then argument else [34] ++ windowsBody 0 argument ++ [34]

/-- The arguments with one space between them. -/
def buildWindowsCommandLine : List Argument → List UInt8
  | [] => []
  | [argument] => quoteWindowsCommandLineArgument argument
  | argument :: rest =>
    quoteWindowsCommandLineArgument argument ++ 32 :: buildWindowsCommandLine rest

def quoteGnuResponseArgument (argument : Argument) : List UInt8 :=
  if argument.isEmpty then [34, 34]
  else
    let needsQuotes := argument.any fun ch => isspace ch || ch = 92 || ch = 34 || ch = 39
    if !needsQuotes then argument
    else
      [34] ++ (argument.flatMap fun ch => if ch = 92 || ch = 34 then [92, ch] else [ch]) ++ [34]

inductive ResponseFileSyntax where
  | gnu
  | windows

def responseArgumentValid (argument : Argument) : Except String Unit :=
  if argument.contains 0 then .error "response-file arguments cannot contain NUL bytes"
  else if argument.contains 13 || argument.contains 10 then
    .error "response-file arguments cannot contain line breaks"
  else .ok ()

/-- The loop over the arguments of a response file for GNU tools: one line each. -/
def gnuLines : List Argument → Except String (List UInt8)
  | [] => .ok []
  | argument :: rest => do
    responseArgumentValid argument
    let lines ← gnuLines rest
    return quoteGnuResponseArgument argument ++ 10 :: lines

/-- The loop for Windows tools: all on one line, `first` says that none precedes. -/
def windowsLine (first : Bool) : List Argument → Except String (List UInt8)
  | [] => .ok []
  | argument :: rest => do
    responseArgumentValid argument
    let line ← windowsLine false rest
    return (if first then [] else [32]) ++ quoteWindowsCommandLineArgument argument ++ line

/-- An enumerator outside the two makes the code fail; the type here has no others. -/
def encodeResponseFile (arguments : List Argument) (syntaxOf : ResponseFileSyntax) :
    Except String (List UInt8) :=
  match syntaxOf with
  | .gnu => gnuLines arguments
  | .windows => do
    let line ← windowsLine true arguments
    return line ++ [10]

end Matcore.Support.Quoting
