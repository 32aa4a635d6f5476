import GlyphTrim.CommandLine.Similar
import GlyphTrim.CommandLine.Spec

/-!
# Reading arguments

The arguments of a command are read from the first to the last. An option that takes a value waits
for it, and is accepted when the next option or the end comes; so of two things that are wrong with
the arguments, what is wrong with an argument that stands for nothing is told first.
-/

namespace GlyphTrim.CommandLine

/-- What is wrong with arguments. -/
inductive UsageFault
  /-- An argument that stands for nothing. The tips tell what may be meant. -/
  | unexpected (argument : String) (tips : List String)
  /-- A word that is no command, and the commands that are similar to it. -/
  | unrecognized (word : String) (similar : List String)
  | repeated (option : String)
  | valueMissing (option : String)
  | valueUnneeded (value option : String)

/-- Why the reading of arguments ends early. -/
inductive Stop
  | help
  | version
  | wrong (fault : UsageFault) (usage : String)

/-- The options that were given, with their values, in order. -/
abbrev Given := List (String × Option String)

/-- What has been read. -/
structure Reading where
  given : Given := []
  /-- Whether an option of the group has been used. -/
  group : Bool := false
  /-- An option that takes a value, and the value if it has come. -/
  waiting : Option (OptionSpec × Option String) := none

namespace Reading

/-- Accepts an option. An option is accepted once, and with a value if it takes one. -/
def accept (c : CommandSpec) (r : Reading) (o : OptionSpec) (value : Option String) :
    Except UsageFault Unit × Reading :=
  let missing : UsageFault := .valueMissing o.shown
  let isEmpty := value == some ""
  match o.form, value with
  | .value _, none => (.error missing, r)
  | form, value =>
    if r.given.any (·.1 == o.name) then
      (.error (.repeated o.shown), { r with given := r.given.filter (·.1 != o.name) })
    else
      let r :=
        { r with given := r.given ++ [(o.name, value)]
                 group := r.group || c.group.contains o.name }
      match form with
      | .value v => if isEmpty && !v.mayBeEmpty then (.error missing, r) else (.ok (), r)
      | .flag .. => (.ok (), r)

/-- Accepts the option that waits, if there is one. -/
def settle (c : CommandSpec) (r : Reading) : Except UsageFault Unit × Reading :=
  match r.waiting with
  | none => (.ok (), r)
  | some (o, value) => accept c { r with waiting := none } o value

/-- The names of the options that were used. -/
def used (r : Reading) : List String := r.given.map (·.1)

/-- Goes on after the option that waits is accepted. -/
def settled (c : CommandSpec) (r : Reading) : Except Stop Reading :=
  match r.settle c with
  | (.ok (), r) => .ok r
  | (.error e, _) => .error (.wrong e c.usage)

/-- Goes on after an option is accepted. -/
def accepted (c : CommandSpec) (r : Reading) (o : OptionSpec) (value : Option String) :
    Except Stop Reading := do
  match (← r.settled c).accept c o value with
  | (.ok (), r) => return r
  | (.error e, _) => throw (.wrong e c.usage)

/-- Goes on after a flag. -/
def flagged (c : CommandSpec) (r : Reading) (o : OptionSpec) (role : Role) :
    Except Stop Reading :=
  match role with
  | .ordinary => r.accepted c o none
  | .help => do
    let _ ← r.settled c
    throw .help
  | .version => do
    let _ ← r.settled c
    throw .version

/-- Goes on after flags that are given by their letters. -/
def letters (c : CommandSpec) (r : Reading) : List Char → Except Stop Reading
  | [] => .ok r
  | l :: more =>
    match c.options.find? (·.hasShort l) with
    | some o =>
      match o.form with
      | .flag _ role => do letters c (← r.flagged c o role) more
      | .value _ => .ok r
    | none => .error (.wrong (.unexpected (String.ofList ['-', l]) []) c.usage)

end Reading

/-- What may be meant by an option that is not known: an option of this command, or of a command
that follows. -/
def meant (c : CommandSpec) (commands : List (String × CommandSpec)) (name : String)
    (rest : List String) : Option (String × Option String) :=
  match similarWords name (c.options.map (·.name)) with
  | n :: _ => some (n, none)
  | [] =>
    let found := commands.filterMap fun (word, sub) =>
      match (similarWords name (sub.options.map (·.name))).head?, rest.findIdx? (· == word) with
      | some n, some place => some (place, n, word)
      | _, _ => none
    let first := found.foldl (fun (best : Option (Nat × String × String)) e =>
      match best with
      | some b => if e.1 < b.1 then some e else some b
      | none => some e) none
    first.map fun (_, n, word) => (n, some word)

/-- The stop at an option that is not known. -/
def unknownOption (c : CommandSpec) (commands : List (String × CommandSpec)) (r : Reading)
    (name : String) (rest : List String) : Stop :=
  let (_, r) := r.settle c
  let argument := "--" ++ name
  match meant c commands name rest with
  | some (n, none) =>
    .wrong (.unexpected argument [s!"a similar argument exists: '--{n}'"])
      (c.usageWith (r.used ++ [n]) (r.group || c.group.contains n))
  | some (n, some word) =>
    .wrong (.unexpected argument [s!"'{word} --{n}' exists"]) (c.usageWith r.used r.group)
  | none => .wrong (.unexpected argument []) (c.usageWith r.used r.group)

/-- The stop at an argument that is neither an option nor a command. -/
def unknownWord (c : CommandSpec) (commands : List (String × CommandSpec)) (trailing : Bool)
    (word : String) : Stop :=
  let names := commands.map (·.1)
  if trailing && names.contains word then
    .wrong (.unexpected word [s!"subcommand '{word}' exists; to use it, remove the '--' before it"])
      c.usage
  else
    match similarWords word names with
    | [] =>
      if names.isEmpty then .wrong (.unexpected word []) c.usage
      else .wrong (.unrecognized word []) c.usage
    | similar => .wrong (.unrecognized word similar) c.usage

/-- The name and the value of an option as it is written. -/
def splitValue (cs : List Char) : String × Option String :=
  match cs.dropWhile (· != '=') with
  | _ :: value => (String.ofList (cs.takeWhile (· != '=')), some (String.ofList value))
  | [] => (String.ofList cs, none)

/-- Goes on after an option that is given by its name. -/
def readOption (c : CommandSpec) (commands : List (String × CommandSpec)) (r : Reading)
    (text : List Char) (rest : List String) : Except Stop Reading :=
  let (name, value) := splitValue text
  match c.option? name with
  | none => .error (unknownOption c commands r name rest)
  | some o =>
    match o.form, value with
    | .value _, some v => r.accepted c o (some v)
    | .value _, none => do return { ← r.settled c with waiting := some (o, none) }
    | .flag .., some v =>
      .error (.wrong (.valueUnneeded v o.shown) (c.usageWith (r.used ++ [name]) r.group))
    | .flag _ role, none => r.flagged c o role

/-- Reads arguments up to their end or to the name of a command, which is returned with the
arguments behind it. After two hyphens alone no argument is an option. -/
def readArguments (c : CommandSpec) (commands : List (String × CommandSpec)) (trailing : Bool)
    (r : Reading) : List String → Except Stop (Given × Option (String × List String))
  | [] => do return ((← r.settled c).given, none)
  | a :: rest =>
    if trailing then .error (unknownWord c commands true a)
    else if commands.any (·.1 == a) then do return ((← r.settled c).given, some (a, rest))
    else
      match a.toList with
      | ['-', '-'] => readArguments c commands true r rest
      | '-' :: '-' :: text => do
        readArguments c commands false (← readOption c commands r text rest) rest
      | '-' :: l :: more => do readArguments c commands false (← r.letters c (l :: more)) rest
      | _ =>
        match r.waiting with
        | some (o, none) =>
          readArguments c commands false { r with waiting := some (o, some a) } rest
        | _ => .error (unknownWord c commands false a)

/-! ## Words -/

namespace UsageFault

/-- The fault in words. -/
def message : UsageFault → String
  | unexpected argument _ => s!"unexpected argument '{argument}' found"
  | unrecognized word _ => s!"unrecognized subcommand '{word}'"
  | repeated option => s!"the argument '{option}' cannot be used multiple times"
  | valueMissing option => s!"a value is required for '{option}' but none was supplied"
  | valueUnneeded value option =>
    s!"unexpected value '{value}' for '{option}' found; no more were expected"

/-- What may be meant. -/
def tips : UsageFault → List String
  | unexpected _ tips => tips
  | unrecognized _ [] => []
  | unrecognized _ [one] => [s!"a similar subcommand exists: '{one}'"]
  | unrecognized _ many =>
    ["some similar subcommands exist: " ++ ", ".intercalate (many.map fun n => s!"'{n}'")]
  | _ => []

/-- Whether the line that shows the usage helps. -/
def showsUsage : UsageFault → Bool
  | valueMissing _ => false
  | _ => true

/-- The text of a fault, with the usage, and with where to find more if there is more. -/
def text (f : UsageFault) (usage : String) (more : Bool) : String :=
  "error: " ++ f.message ++ (if f.tips.isEmpty then "" else "\n") ++
    String.join (f.tips.map ("\n  tip: " ++ ·)) ++
    (if f.showsUsage then "\n\nUsage: " ++ usage else "") ++
    (if more then "\n\nFor more information, try '--help'.\n" else "\n")

end UsageFault

end GlyphTrim.CommandLine
