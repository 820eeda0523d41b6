import RegexInsight.Command.Arguments
import RegexInsight.Config.Environment
import RegexInsight.Explanation.Attempt
import RegexInsight.Report.Console
import RegexInsight.Report.Sheet

/-! # Command Line

    The commands `analyze`, `validate`, `portability`, `explain`, `infer`
    and `batch` as functions of their arguments, the files at hand and the
    environment.  A command answers with an exit code, with what it
    prints, and with the files that it writes.

    Only a validation has a console form of its own; all other reports are
    shown as JSON in either format. -/

namespace RegexInsight

/-! ## Section 1: Surroundings -/

/-- What a command finds. -/
structure Surroundings where
  /-- The files at hand by name. -/
  files : List (String × Text)
  /-- The folders at hand by path. -/
  folders : List String
  environment : Environment
  registry : Registry
  prober : Prober

/-- What a command does. -/
structure CommandOutcome where
  exitCode : Nat
  output : Text
  errors : Text
  /-- The files written, by name. -/
  written : List (String × Text)
  deriving DecidableEq, Repr

/-- Why a command stops. -/
inductive CommandError where
  /-- The arguments do not fit the command. -/
  | usage
  /-- An error with a message for the user. -/
  | reported (message : List CodePoint)
  /-- The surroundings or the pattern cannot be used at all. -/
  | unusable
  deriving DecidableEq, Repr

/-- The outcome of a command that may stop. -/
abbrev Running := Except CommandError

namespace CommandError

/-- An error with a plain message. -/
def message (text : String) : CommandError :=
  reported (pointsOf text.toList)

/-- The outcome of a command that stops. -/
def outcome : CommandError → CommandOutcome
  | usage => ⟨2, [], [], []⟩
  | unusable => ⟨1, [], [], []⟩
  | reported message =>
    ⟨1, [], "Error: ".toList ++ Console.readable message ++ ['\n'], []⟩

/-- An error of the settings of a budget. -/
def ofBudget : BudgetError → CommandError
  | .config error => message error.message
  | .duration _ => unusable

/-- An error of an analysis. -/
def ofAnalysis : AnalysisError → CommandError
  | .dialect error => message error.message
  | .parse (.malformed error) => reported error.summary
  | .parse (.numeral _) => unusable
  | .inconsistent violation => message violation.message
  | .budget error => ofBudget error
  | .oversize _ => unusable

end CommandError

/-! ## Section 2: Files and configuration -/

/-- A path without empty and single-dot parts. -/
def normalizedPath (path : Text) : String :=
  let text := String.ofList path
  let parts := (text.splitOn "/").filter fun part => !part.isEmpty && part != "."
  let joined := "/".intercalate parts
  if path.head? = some '/' then "/" ++ joined
  else if joined.isEmpty then "." else joined

/-- The folder that holds what a path names. -/
def folderOf (path : String) : String :=
  normalizedPath (path.toList.reverse.dropWhile (· != '/')).reverse

/-- The extension of a path with its dot, in lower case; a name that begins
    or ends with its only dot has none. -/
def extension (path : String) : String :=
  let name := (path.toList.reverse.takeWhile (· != '/')).reverse
  let after := (name.reverse.takeWhile (· != '.')).reverse
  let hasStem := after.length + 1 < name.length
  if after.isEmpty || !hasStem then ""
  else String.ofList (lowercase ('.' :: after))

/-- Characters that end a line. -/
def isLineEnd (c : Char) : Bool :=
  ['\n', '\r', '\x0b', '\x0c', '\x1c', '\x1d', '\x1e', '\u0085', '\u2028', '\u2029'].contains c

/-- Joins a character to the lines of the text after it. -/
def addToLines (c : Char) (lines : List Text) : List Text :=
  if isLineEnd c then [] :: lines
  else
    match lines with
    | [] => [[c]]
    | first :: rest => (c :: first) :: rest

/-- The lines of a text that are not empty. -/
def filledLines (text : Text) : List Text :=
  (text.foldr addToLines [[]]).filter fun line => !line.isEmpty

namespace Surroundings

/-- The filled lines of a file; a folder has no lines to read. -/
def lines (s : Surroundings) (path : Text) : Running (List Text) :=
  let name := normalizedPath path
  match s.files.lookup name with
  | some text => .ok (filledLines text)
  | none =>
    if s.folders.contains name then .error .unusable
    else .error (.message ("File not found: " ++ name))

/-- The configuration: that of the environment, or with a configuration file
    the standard one.  The file has to exist but is not read. -/
def config (s : Surroundings) (args : Arguments) : Running AnalysisConfig :=
  match (args.value? "config").map normalizedPath with
  | none => (AnalysisConfig.ofEnvironment s.environment).mapError fun _ => .unusable
  | some name =>
    if (s.files.lookup name).isSome then .ok .standard
    else .error (.message ("Config file not found: " ++ name))

end Surroundings

/-! ## Section 3: Output -/

/-- Shows a report in the requested format. -/
def emit (args : Arguments) (report : ReportValue) (console : Option Text) : Running Text :=
  let json := report.document ++ ['\n']
  match (args.value? "format").map String.ofList with
  | none | some "console" => .ok (console.getD json)
  | some "json" => .ok json
  | some other => .error (.message
      ("Unknown format '" ++ other ++ "' (use console or json)"))

/-- Prints a text and exits. -/
def printed (exitCode : Nat) (output : Text) : CommandOutcome :=
  ⟨exitCode, output, [], []⟩

/-! ## Section 4: Commands -/

/-- The dialects asked for, in one or several lists divided by commas. -/
def requestedDialects (args : Arguments) : Option (List String) :=
  match args.values "dialect" with
  | [] => none
  | lists =>
    let names := (lists.flatMap fun text => (String.ofList text).splitOn ",").map
      fun name => String.ofList (trimmed name.toList)
    some (names.filter fun name => !name.isEmpty)

/-- A value that the arguments have to provide. -/
def required {α : Type} : Option α → Running α
  | some a => .ok a
  | none => .error .usage

def formatOption : OptionSpec := ⟨"format", some 'f', true⟩

def dialectOption : OptionSpec := ⟨"dialect", some 'd', true⟩

def configOption : OptionSpec := ⟨"config", some 'c', true⟩

def noProbeOption : OptionSpec := ⟨"no-probe", none, false⟩

def strictOption : OptionSpec := ⟨"strict", none, false⟩

/-- A command: the options that it knows, and what it does. -/
structure Command where
  name : String
  options : List OptionSpec
  run : Surroundings → Arguments → Running CommandOutcome

/-- Whether a verdict is catastrophic. -/
def isCatastrophic (verdict : Option (BacktrackVerdict Float)) : Bool :=
  verdict.any fun v => v.risk = .catastrophic

/-- Features, engine, portability and backtracking risk of a pattern. -/
def analyzeCommand : Command where
  name := "analyze"
  options := [dialectOption, ⟨"seed", none, true⟩, ⟨"budget", some 'b', true⟩, noProbeOption,
    ⟨"thorough", none, false⟩, configOption, formatOption, strictOption]
  run := fun s args => do
    let pattern ← required args.only?
    let budget ← required (args.number? "budget" NumberText.readFloat?)
    let config ← s.config args
    let request : AnalysisRequest :=
      { dialects := requestedDialects args
        probe := !args.has "no-probe"
        seed := pointsOf ((args.value? "seed").getD [])
        budget := budget
        config := if args.has "thorough" then { config with probe := .strict } else config }
    let analysis ← (request.run s.registry s.prober pattern).mapError .ofAnalysis
    let output ← emit args analysis.report none
    let fails := args.has "strict" && isCatastrophic analysis.backtracking
    return printed (if fails then 1 else 0) output

/-- Whether a pattern can be read and a dialect supports it. -/
def validateCommand : Command where
  name := "validate"
  options := [dialectOption, formatOption]
  run := fun s args => do
    let pattern ← required args.only?
    let dialect := (args.value? "dialect").map String.ofList
    let validation ← (s.registry.validate dialect pattern).mapError .ofAnalysis
    let output ← emit args validation.report (some (Console.validation validation))
    return printed (if validation.isValid then 0 else 1) output

/-- The dialects that support a pattern. -/
def portabilityCommand : Command where
  name := "portability"
  options := [dialectOption, formatOption]
  run := fun s args => do
    let pattern ← required args.only?
    let report ← (s.registry.checkText (requestedDialects args) pattern).mapError .ofAnalysis
    let output ← emit args (portabilitySummary pattern report) none
    return printed 0 output

/-- The parts of a pattern in words. -/
def explainCommand : Command where
  name := "explain"
  options := [formatOption]
  run := fun _ args => do
    let pattern ← required args.only?
    let p ← (Pattern.parse pattern).mapError fun failure => .ofAnalysis (.parse failure)
    let explanation ← p.tryExplain.mapError fun _ => .unusable
    let output ← emit args explanation.report none
    return printed 0 output

/-- The examples of an inference: the arguments, and the lines of a file. -/
def gatherExamples (s : Surroundings) (args : Arguments) : Running (List Text) :=
  match args.value? "file" with
  | none => .ok args.positionals
  | some path => (s.lines path).map fun lines => args.positionals ++ lines

/-- The settings of the inference with a limit on the candidates, if one is
    given. -/
def limitedInference (config : InferenceConfig) (limit : Option Int) :
    Running InferenceConfig :=
  match limit with
  | none => .ok config
  | some n => (config.withMaxCandidates n).mapError fun error =>
      CommandError.message error.message

/-- Candidate patterns for examples. -/
def inferCommand : Command where
  name := "infer"
  options := [⟨"file", none, true⟩, ⟨"negative", some 'n', true⟩, ⟨"max", some 'm', true⟩,
    configOption, formatOption]
  run := fun s args => do
    let limit ← required (args.number? "max" NumberText.readInt?)
    let examples ← gatherExamples s args
    let config ← s.config args
    let settings ← limitedInference config.inference limit
    let candidates ← (infer settings ⟨examples, args.values "negative"⟩).mapError
      fun error => CommandError.message error.message
    let output ← emit args (candidatesReport candidates) none
    return printed 0 output

/-- The text of a batch for a file, by the extension of the file. -/
def batchFile (rows : List BatchRow) (path : String) : Running Text :=
  match extension path with
  | ".json" => .ok (batchReport rows).document
  | ".csv" => .ok (Console.readable (Sheet.ofRows rows))
  | other => .error (.message ("Unsupported output format: " ++ other))

/-- The analyses of all patterns in a file. -/
def batchCommand : Command where
  name := "batch"
  options := [⟨"output", some 'o', true⟩, noProbeOption, ⟨"workers", some 'w', true⟩,
    configOption, formatOption, strictOption]
  run := fun s args => do
    let path ← required args.only?
    let workers ← required (args.number? "workers" NumberText.readInt?)
    let patterns ← s.lines path
    let config ← s.config args
    let request : BatchRequest :=
      { probe := !args.has "no-probe", workers := workers.getD 4, config := config }
    let rows ← (request.run s.registry s.prober patterns).mapError .ofAnalysis
    let fails := args.has "strict" && rows.any fun row => isCatastrophic row.verdict?
    let exitCode := if fails then 1 else 0
    match (args.value? "output").map normalizedPath with
    | none => return printed exitCode (← emit args (batchReport rows) none)
    | some target =>
      let text ← batchFile rows target
      if !s.folders.contains (folderOf target) then throw .unusable
      return ⟨exitCode, ("Results written to " ++ target ++ "\n").toList, [], [(target, text)]⟩

/-- All commands. -/
def commands : List Command :=
  [analyzeCommand, validateCommand, portabilityCommand, explainCommand, inferCommand,
   batchCommand]

/-- Whether an argument before the command asks for debug logging, which
    changes no output. -/
def isVerbosity (arg : Text) : Bool :=
  arg == "--verbose".toList || arg == "-v".toList

/-- Runs the command that the first argument names, apart from switches before
    it. -/
def Surroundings.execute (s : Surroundings) (args : List Text) : Running CommandOutcome := do
  match args.dropWhile isVerbosity with
  | [] => throw .usage
  | name :: rest =>
    let command ← required (commands.find? fun c => c.name.toList == name)
    command.run s (← required (Arguments.read command.options rest))

/-- Runs a command line. -/
def Surroundings.run (s : Surroundings) (args : List Text) : CommandOutcome :=
  match s.execute args with
  | .ok outcome => outcome
  | .error error => error.outcome

end RegexInsight
