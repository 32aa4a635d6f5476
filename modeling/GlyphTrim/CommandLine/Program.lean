import GlyphTrim.CommandLine.Reader
import GlyphTrim.Report.Summary

/-!
# The program

The commands of the program, what is asked of them, and what the program writes for it: warnings
and errors go to one stream, results and help to the other.
-/

namespace GlyphTrim.CommandLine

/-! ## Commands -/

/-- The flag that asks for help. -/
def helpFlag : OptionSpec := ⟨"help", "Print help", .flag (some 'h') .help⟩

/-- The option for the root of a project. -/
def rootOption (about : String) : OptionSpec :=
  ⟨"root", about, .value { placeholder := "ROOT", initial := some "." }⟩

/-- The options of the commands that analyze a project. -/
def projectOptions : List OptionSpec := [
  rootOption "Project root; configured paths are relative to it",
  ⟨"config", "Configuration file (default: <root>/react-unused-icon-purge.json)",
    .value { placeholder := "CONFIG" }⟩,
  ⟨"verbose", "Enable verbose output", .flag (some 'v') .ordinary⟩]

/-- The variable of the environment that can name the program that makes fonts smaller. -/
def subsetterVariable : String := "ICON_PURGE_SUBSETTER"

/-- The option for the program that makes fonts smaller. -/
def subsetterOption : OptionSpec :=
  ⟨"subsetter", "pyftsubset-compatible executable used to subset the font",
    .value
      { placeholder := "SUBSETTER"
        mayBeEmpty := true
        initial := some defaultSubsetter
        environment := some subsetterVariable }⟩

/-- The options that the commands which analyze a project share. -/
def projectGroup : List String := projectOptions.map (·.name)

/-- The command that writes the smaller font and the pruned stylesheet. -/
def purgeCommand : CommandSpec where
  words := "icon-purge purge"
  about := "Subset the icon font and stylesheet to the classes the code uses"
  options := projectOptions ++ [subsetterOption, helpFlag]
  group := projectGroup

/-- The command that writes nothing. -/
def scanCommand : CommandSpec where
  words := "icon-purge scan"
  about := "Report used icon classes without writing anything"
  options := projectOptions ++ [helpFlag]
  group := projectGroup

/-- The command that makes a configuration. -/
def initCommand : CommandSpec where
  words := "icon-purge init"
  about := "Initialize a new react-unused-icon-purge.json configuration file"
  options := [rootOption "Directory to create the configuration file in", helpFlag]
  group := ["root"]

/-- The command that tells about commands. -/
def helpCommand : CommandSpec where
  words := "icon-purge help"
  about := "Print this message or the help of the given subcommand(s)"
  options := []
  operands := some "[COMMAND]..."
  operandsAbout := some "Print help for the subcommand(s)"

/-- The program. -/
def program : ProgramSpec where
  main :=
    { words := "icon-purge"
      about :=
        "Shrink an icon font and its stylesheet to the glyphs a React codebase actually uses"
      options := [helpFlag, ⟨"version", "Print version", .flag (some 'V') .version⟩]
      operands := some "[COMMAND]" }
  version := "icon-purge 0.1.0"
  commands :=
    [("purge", purgeCommand), ("scan", scanCommand), ("init", initCommand), ("help", helpCommand)]

/-! ## What is asked -/

/-- What a command that analyzes a project is asked. -/
structure ProjectRequest where
  root : Path
  config : Option Path
  verbose : Bool

/-- What the program is asked. -/
inductive Request
  | purge (r : ProjectRequest) (subsetter : String)
  | scan (r : ProjectRequest)
  | init (root : Path)

/-- The root of the project that a request is about. -/
def Request.root : Request → Path
  | purge r _ | scan r => r.root
  | init root => root

/-- The value of an option: as given, from the environment, or the initial one. -/
def valueOf (environment : String → Option String) (given : Given) (o : OptionSpec) :
    Option String :=
  match given.find? (·.1 == o.name), o.form with
  | some (_, value), _ => value
  | none, .value v => ((v.environment.bind environment).or v.initial)
  | none, .flag .. => none

/-- What a project command is asked by the options given. -/
def projectRequest (value : String → Option String) (given : Given) : ProjectRequest :=
  { root := ⟨(value "root").getD "."⟩
    config := (value "config").map (⟨·⟩)
    verbose := given.any (·.1 == "verbose") }

/-- What a command is asked by the options given. -/
def request (environment : String → Option String) (name : String) (c : CommandSpec)
    (given : Given) : Option Request :=
  let value (name : String) : Option String :=
    (c.option? name).bind (valueOf environment given)
  match name with
  | "purge" => some (.purge (projectRequest value given) ((value "subsetter").getD ""))
  | "scan" => some (.scan (projectRequest value given))
  | "init" => some (.init ⟨(value "root").getD "."⟩)
  | _ => none

/-! ## What is written -/

/-- What the program writes, and the number that it returns. -/
structure Output where
  code : Nat
  stdout : String := ""
  stderr : String := ""
  deriving Repr, DecidableEq

/-- A text that was asked for. -/
def asked (text : String) : Output := { code := 0, stdout := text }

/-- The output of a command that came to its end. -/
def finished (s : Summary) (verbose : Bool) : Output :=
  { code := s.status.code
    stdout :=
      (match s.analysis?, verbose with
        | some a, true => Report.details a
        | _, _ => "") ++ Report.summary s
    stderr := ((s.analysis?).map Report.warnings).getD "" }

/-- The output of a command that did not come to its end. -/
def aborted (e : RunError) : Output :=
  { code := ExitStatus.error.code, stderr := s!"{Severity.error.text}: {e.message}\n" }

/-- The output of a command. -/
def outputOf (result : Except RunError Summary) (verbose : Bool) : Output :=
  match result with
  | .ok s => finished s verbose
  | .error e => aborted e

/-- The output for a fault in the arguments of a command. -/
def misused (fault : UsageFault) (usage : String) (more : Bool) : Output :=
  { code := ExitStatus.error.code, stderr := fault.text usage more }

/-- The help of the whole program. -/
def programHelp (environment : String → Option String) : String :=
  program.main.help program.commands environment

/-- The help of the command that words lead to. -/
def helpOn (environment : String → Option String) : List String → Output
  | [] => asked (programHelp environment)
  | name :: rest =>
    match program.commands.lookup name, rest with
    | none, _ => misused (.unrecognized name []) program.main.usage true
    | some c, [] => asked (c.help [] environment)
    | some c, word :: _ => misused (.unrecognized word []) c.usage (c.option? "help").isSome

/-- The output for arguments whose reading ended early. -/
def stopped (environment : String → Option String) (c : CommandSpec)
    (commands : List (String × CommandSpec)) : Stop → Output
  | .help => asked (c.help commands environment)
  | .version => asked (program.version ++ "\n")
  | .wrong fault usage => misused fault usage true

/-! ## Running -/

/-- What the arguments ask, or what is written at once. -/
def read (environment : String → Option String) (arguments : List String) :
    Except Output Request :=
  match readArguments program.main program.commands false {} arguments with
  | .error s => .error (stopped environment program.main program.commands s)
  | .ok (_, none) => .error (asked (programHelp environment))
  | .ok (_, some ("help", words)) => .error (helpOn environment words)
  | .ok (_, some (name, rest)) =>
    match program.commands.lookup name with
    | none => .error (asked (programHelp environment))
    | some c =>
      match readArguments c [] false {} rest with
      | .error s => .error (stopped environment c [] s)
      | .ok (given, _) =>
        match request environment name c given with
        | some r => .ok r
        | none => .error (asked (programHelp environment))

/-- Does what is asked. -/
def perform (launch : Launcher) (disk : Disk) : Request → Output × Disk
  | .purge r subsetter =>
    let (result, bench) :=
      Project.runPurge (Subsetter.ofProgram launch subsetter) r.root r.config ⟨disk, ()⟩
    (outputOf result r.verbose, bench.disk)
  | .scan r => (outputOf (Project.runScan disk r.root r.config) r.verbose, disk)
  | .init root =>
    let (result, disk) := Project.runInit disk root
    (outputOf result false, disk)

/-- Runs the program. -/
def run (environment : String → Option String) (launch : Launcher) (arguments : List String)
    (disk : Disk) : Output × Disk :=
  match read environment arguments with
  | .error output => (output, disk)
  | .ok r => perform launch disk r

end GlyphTrim.CommandLine
