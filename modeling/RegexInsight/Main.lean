import RegexInsight.Command
import RegexInsight.Dialect.Builtin

/-! # Main

    The program: it reads the files that the arguments may name, runs the
    command line, writes files and prints.  No engine is linked, so every
    probe is reported as rejected. -/

namespace RegexInsight

/-- The paths that an argument may name: itself, or what follows its equals
    sign. -/
def pathsIn (arg : String) : List String :=
  [arg.toList, (arg.toList.dropWhile (· != '=')).drop 1].map normalizedPath

/-- The files that the arguments name, with their contents. -/
def readFiles (args : List String) : IO (List (String × Text)) := do
  let mut files := []
  for path in args.flatMap pathsIn do
    try
      let text ← IO.FS.readFile path
      files := (path, text.toList) :: files
    catch _ => pure ()
  return files

/-- Whether a path is that of a folder: it can be opened, but it holds no
    text. -/
def isFolder (path : String) : IO Bool := do
  match ← (IO.FS.Handle.mk path .read).toBaseIO with
  | .error _ => return false
  | .ok handle =>
    match ← handle.getLine.toBaseIO with
    | .error _ => return true
    | .ok _ => return false

/-- The folders that the arguments name or write to. -/
def findFolders (args : List String) : IO (List String) :=
  let paths := args.flatMap pathsIn
  (paths ++ paths.map folderOf).filterM isFolder

/-- The settings that the environment holds. -/
def readEnvironment : IO Environment := do
  let entries ← Environment.settingNames.filterMapM fun name => do
    return (← IO.getEnv name).map fun value => (name, value)
  return ⟨entries⟩

/-- Runs the command line on the files and the environment at hand. -/
def runCommandLine (args : List String) : IO UInt32 := do
  let surroundings : Surroundings :=
    { files := ← readFiles args
      folders := ← findFolders args
      environment := ← readEnvironment
      registry := .builtin
      prober := fun _ => .error "no engine is linked" }
  let outcome := surroundings.run (args.map String.toList)
  for (name, text) in outcome.written do
    IO.FS.writeFile name (String.ofList text)
  IO.print (String.ofList outcome.output)
  IO.eprint (String.ofList outcome.errors)
  return outcome.exitCode.toUInt32

end RegexInsight

def main (args : List String) : IO UInt32 :=
  RegexInsight.runCommandLine args
