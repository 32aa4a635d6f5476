import GlyphTrim.Text.Blank

/-!
# Descriptions of commands

A command is described by its options; from the description come the text of its help and the line
that shows how it is used.
-/

namespace GlyphTrim.CommandLine

/-- What a flag is for. -/
inductive Role
  | ordinary
  /-- It asks for the help text. -/
  | help
  /-- It asks for the version. -/
  | version
  deriving DecidableEq

/-- The value that an option takes. -/
structure ValueSpec where
  placeholder : String
  /-- Whether a text without characters is a value. -/
  mayBeEmpty : Bool := false
  /-- The value if none is given. -/
  initial : Option String := none
  /-- The environment variable that gives a value if the option does not. -/
  environment : Option String := none

/-- What comes with the name of an option. -/
inductive OptionForm
  | flag (short : Option Char) (role : Role)
  | value (v : ValueSpec)

/-- An option. -/
structure OptionSpec where
  name : String
  about : String
  form : OptionForm

/-- A command. -/
structure CommandSpec where
  /-- The words that call it. -/
  words : String
  about : String
  options : List OptionSpec
  /-- The options that are shown together once one of them is used, by name. -/
  group : List String := []
  /-- What may follow the options, as it is shown. -/
  operands : Option String := none
  /-- The help of what follows the options. -/
  operandsAbout : Option String := none

/-- A program: what it does without a command, and its commands by name. -/
structure ProgramSpec where
  main : CommandSpec
  version : String
  commands : List (String × CommandSpec)

namespace OptionSpec

/-- The option as it is shown. -/
def shown (o : OptionSpec) : String :=
  match o.form with
  | .flag .. => "--" ++ o.name
  | .value v => s!"--{o.name} <{v.placeholder}>"

/-- Whether the option is neither for the help nor for the version. -/
def isOrdinary (o : OptionSpec) : Bool :=
  match o.form with
  | .flag _ role => role == .ordinary
  | .value _ => true

/-- Whether the option is a flag with a letter. -/
def hasShort (o : OptionSpec) (c : Char) : Bool :=
  match o.form with
  | .flag short _ => short == some c
  | .value _ => false

/-- The option with its letter, in a list of options. -/
def label (o : OptionSpec) : String :=
  match o.form with
  | .flag (some c) _ => String.ofList ['-', c, ',', ' '] ++ o.shown
  | _ => "    " ++ o.shown

/-- The help of an option. The environment gives the values of variables. -/
def help (o : OptionSpec) (environment : String → Option String) : String :=
  match o.form with
  | .flag .. => o.about
  | .value v =>
    let settings := v.environment.toList.map fun name =>
      " [env: " ++ name ++ "=" ++ (environment name).getD "" ++ "]"
    let initial := v.initial.toList.map fun value => s!" [default: {value}]"
    o.about ++ String.join settings ++ String.join initial

end OptionSpec

namespace CommandSpec

/-- The option with a name. -/
def option? (c : CommandSpec) (name : String) : Option OptionSpec :=
  c.options.find? (·.name == name)

/-- How the command is used. -/
def usage (c : CommandSpec) : String :=
  c.words ++ (if c.options.any OptionSpec.isOrdinary then " [OPTIONS]" else "") ++
    String.join (c.operands.toList.map (" " ++ ·))

/-- How the command was used, with some options. If an option of the group was used, the group
stands for its options. -/
def usageWith (c : CommandSpec) (used : List String) (group : Bool) : String :=
  if used.isEmpty && !group then c.usage
  else
    let alone := used.eraseDups.filter fun n => !(group && c.group.contains n)
    let shown (names : List String) := (names.filterMap c.option?).map OptionSpec.shown
    c.words ++ String.join ((shown alone).map (" " ++ ·)) ++
      (if group then " <" ++ "|".intercalate (shown c.group) ++ ">" else "")

/-- Labels in a column, with the text of each beside it. -/
def columns (rows : List (String × String)) : List String :=
  let width := (rows.map (·.1.length)).foldl max 0
  rows.map fun (label, text) =>
    "  " ++ label ++ String.ofList (List.replicate (width - label.length + 2) ' ') ++ text

/-- A head with lines under it, if there are any. -/
def block (head : String) (lines : List String) : List String :=
  if lines.isEmpty then [] else "" :: head :: lines

/-- The help of a command, in lines. -/
def helpLines (c : CommandSpec) (commands : List (String × CommandSpec))
    (environment : String → Option String) : List String :=
  [c.about, "", "Usage: " ++ c.usage] ++
    block "Commands:" (columns (commands.map fun (name, sub) => (name, sub.about))) ++
    block "Arguments:" (columns ((c.operands.toList.zip c.operandsAbout.toList))) ++
    block "Options:" (columns (c.options.map fun o => (o.label, o.help environment)))

/-- The help of a command. -/
def help (c : CommandSpec) (commands : List (String × CommandSpec))
    (environment : String → Option String) : String :=
  String.join ((c.helpLines commands environment).map (· ++ "\n"))

end CommandSpec

end GlyphTrim.CommandLine
