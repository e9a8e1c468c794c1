import Mathlib.Data.List.Basic

/-!
# Direct compilation

Without the CPU pipeline the driver hands its arguments to the compiler as they are, and puts
`-x c++` and `-x none` between them so that `.mdsl` inputs are compiled as C++.
-/

namespace Matcore.Driver

inductive CompilerFlavor where
  | clangGnu
  | clangCl

structure CompilerToolchain where
  flavor : CompilerFlavor
  compiler : String

/-- What the command is built from. -/
structure WrapperArguments where
  saveTemps : Bool
  compilerArguments : List String

def hasMdslExtension (argument : String) : Bool := ".mdsl".toList.isSuffixOf argument.toList

/-- The options of `OptionConsumesNextArgument`. -/
def optionsWithValue : List String :=
  ["-o", "-I", "-L", "-B", "-D", "-U", "-l", "-x", "-arch", "-target", "--target", "--sysroot",
    "-isysroot", "--gcc-toolchain", "-gcc-toolchain", "-isystem", "-iquote", "-idirafter",
    "-include", "-imacros", "-iprefix", "-iwithprefix", "-iwithprefixbefore", "-MF", "-MT", "-MQ",
    "-Xclang", "-Xlinker", "-Xassembler", "-Xpreprocessor", "-mllvm", "/I", "/D", "/U", "/Fo",
    "/Fe"]

def optionConsumesNextArgument (argument : String) : Bool := optionsWithValue.contains argument

/-- `argument.starts_with('-')`. -/
def startsWithDash (argument : String) : Bool := argument.toList.head? = some '-'

/-- An option behind its slash or dash. -/
def windowsOptionBody (argument : String) : List Char :=
  match argument.toList with
  | mark :: body => if body = [] || (mark ≠ '/' && mark ≠ '-') then [] else body
  | [] => []

/-- The flags of the loop over the arguments. -/
structure Flags where
  previousOptionConsumesArgument : Bool := false
  injectedCppLanguageIsActive : Bool := false

/-- The loop over the arguments. Behind `--` it only copies. -/
def directArguments : List String → Flags → List String
  | [], _ => []
  | argument :: rest, flags =>
    if !flags.previousOptionConsumesArgument && argument = "--" then
      (if rest.any hasMdslExtension then ["-x", "c++"] else []) ++ argument :: rest
    else
      let positional := !flags.previousOptionConsumesArgument && !startsWithDash argument
      let active := flags.injectedCppLanguageIsActive
      let (injected, active) :=
        if positional && hasMdslExtension argument then
          if !active then (["-x", "c++"], true) else ([], active)
        else if positional && active then (["-x", "none"], false)
        else ([], active)
      injected ++ argument :: directArguments rest
        { injectedCppLanguageIsActive :=
            if !flags.previousOptionConsumesArgument && argument = "-x" then false else active
          previousOptionConsumesArgument :=
            if flags.previousOptionConsumesArgument then false
            else optionConsumesNextArgument argument }

def buildDirectCommand (arguments : WrapperArguments) (toolchain : CompilerToolchain) :
    List String :=
  match toolchain.flavor with
  | .clangCl =>
    toolchain.compiler :: "--driver-mode=cl" :: "--no-default-config" ::
      (if arguments.saveTemps then ["/clang:-save-temps=obj"] else []) ++
      (if arguments.compilerArguments.any fun argument =>
        windowsOptionBody argument = "TP".toList then [] else ["/TP"]) ++
      arguments.compilerArguments
  | .clangGnu =>
    toolchain.compiler :: (if arguments.saveTemps then ["-save-temps=obj"] else []) ++
      directArguments arguments.compilerArguments {}

end Matcore.Driver
