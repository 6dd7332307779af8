import CharacterRules.Text.Basic

/-!
The arguments of the command line. Options may stand before the name of the command, if they apply
to all commands, and anywhere behind it; the value of an option follows it or is attached to it.
-/

namespace CharacterRules.CommandLine

/-- The actions with their own arguments. -/
inductive Action where
  | check
  | sheet (file : String)
  | validate (file : String)
  | repair (file : String) (seed : UInt64) (output : Option String)
  | random (category input : Option String) (seed : UInt64) (output : Option String)
  | notes (name : String)

/-- What the arguments ask for. -/
inductive Request where
  | run (catalog : Option String) (action : Action)
  /-- The version, of a command if one was given. -/
  | version (command : Option String)
  | help
  /-- The arguments are not understood. -/
  | misuse

/-- What an option takes. -/
inductive OptionKind where
  /-- Nothing. -/
  | flag
  /-- A path, which is not empty. -/
  | path
  | text
  /-- A number of 64 bits. -/
  | seed
  /-- Nothing; the version is asked for. -/
  | version
  /-- Nothing; help is asked for. -/
  | help
  deriving DecidableEq

structure OptionSpec where
  long : String
  short : Option Char
  kind : OptionKind

def commonOptions : List OptionSpec :=
  [⟨"catalog", some 'c', .path⟩, ⟨"verbose", some 'v', .flag⟩, ⟨"help", some 'h', .help⟩,
    ⟨"version", some 'V', .version⟩]

/-- A command: its name, the argument that must follow, and its own options. -/
structure CommandSpec where
  name : String
  operand : Option OptionKind
  options : List OptionSpec

def seedOption : OptionSpec := ⟨"seed", some 's', .seed⟩

def outputOption : OptionSpec := ⟨"output", some 'o', .path⟩

def commands : List CommandSpec :=
  [⟨"check", none, []⟩, ⟨"show", some .path, []⟩, ⟨"validate", some .path, []⟩,
    ⟨"repair", some .path, [seedOption, outputOption]⟩,
    ⟨"random", none,
      [⟨"category", none, .text⟩, ⟨"input", some 'i', .path⟩, seedOption, outputOption]⟩,
    ⟨"notes", some .text, []⟩]

/-- Reads an unsigned number of 64 bits. -/
def readSeed? (text : String) : Option UInt64 :=
  let digits := match text.toList with
    | '+' :: rest => rest
    | rest => rest
  if digits.isEmpty || !digits.all Char.isDigit then none
  else
    let n := digits.foldl (fun n c => n * 10 + (c.toNat - '0'.toNat)) 0
    if n < 2 ^ 64 then some (UInt64.ofNat n) else none

def OptionKind.accepts (kind : OptionKind) (value : String) : Bool :=
  match kind with
  | .path => value != ""
  | .seed => (readSeed? value).isSome
  | _ => true

/-- Why the reading of arguments ends early. -/
inductive Halt where
  | misuse
  | version
  | help

/-- The options and operands read so far. -/
structure Reading where
  options : List (String × String) := []
  operands : List String := []

namespace Reading

def option? (r : Reading) (long : String) : Option String := r.options.lookup long

/-- Adds an option, which may be given once. -/
def addOption (r : Reading) (o : OptionSpec) (value : String) : Except Halt Reading :=
  match o.kind with
  | .version => .error .version
  | .help => .error .help
  | kind =>
    if (r.option? o.long).isSome || !kind.accepts value then .error .misuse
    else .ok { r with options := r.options ++ [(o.long, value)] }

def addOperand (r : Reading) (kind : Option OptionKind) (value : String) : Except Halt Reading :=
  match kind with
  | some kind =>
    if r.operands.isEmpty && kind.accepts value then .ok { r with operands := [value] }
    else .error .misuse
  | none => .error .misuse

end Reading

def OptionKind.takesValue : OptionKind → Bool
  | .path | .text | .seed => true
  | _ => false

def isOption (argument : String) : Bool := Text.startsWith argument "-" && argument != "-"

/-- The value in the next argument, and the arguments behind it. -/
def nextValue : List String → Except Halt (String × List String)
  | value :: rest => if isOption value then .error .misuse else .ok (value, rest)
  | [] => .error .misuse

def readLong (options : List OptionSpec) (r : Reading) (text : List Char) (rest : List String) :
    Except Halt (Reading × List String) := do
  let name := String.ofList (text.takeWhile (· != '='))
  let attached := text.dropWhile (· != '=')
  match options.find? fun o => o.long == name with
  | none => throw .misuse
  | some o =>
    match o.kind.takesValue, attached with
    | true, _ :: value => return (← r.addOption o (String.ofList value), rest)
    | true, [] =>
      let (value, rest) ← nextValue rest
      return (← r.addOption o value, rest)
    | false, [] => return (← r.addOption o "", rest)
    | false, _ :: _ => throw .misuse

/-- Reads options by their letters. -/
def readShort (options : List OptionSpec) (r : Reading) (rest : List String) :
    List Char → Except Halt (Reading × List String)
  | [] => .ok (r, rest)
  | letter :: more =>
    match options.find? fun o => o.short == some letter with
    | none => .error .misuse
    | some o =>
      if o.kind.takesValue then
        match more with
        | [] => do
          let (value, rest) ← nextValue rest
          return (← r.addOption o value, rest)
        | '=' :: value => do return (← r.addOption o (String.ofList value), rest)
        | value => do return (← r.addOption o (String.ofList value), rest)
      else do
        let r ← r.addOption o ""
        readShort options r rest more

def readOption (options : List OptionSpec) (r : Reading) (argument : String)
    (rest : List String) : Except Halt (Reading × List String) :=
  match argument.toList with
  | '-' :: '-' :: text => readLong options r text rest
  | _ :: letters => readShort options r rest letters
  | [] => .error .misuse

/-- Reads the arguments of a command, `fuel` of them at most. -/
def readCommand (c : CommandSpec) : Nat → Reading → List String → Except Halt Reading
  | 0, _, _ :: _ => .error .misuse
  | _, r, [] => .ok r
  | fuel + 1, r, argument :: rest =>
    if argument == "--" then rest.foldlM (fun r operand => r.addOperand c.operand operand) r
    else if isOption argument then do
      let (r, rest) ← readOption (commonOptions ++ c.options) r argument rest
      readCommand c fuel r rest
    else do
      let r ← r.addOperand c.operand argument
      readCommand c fuel r rest

def action? (c : CommandSpec) (r : Reading) : Option Action :=
  let seed := ((r.option? "seed").bind readSeed?).getD 42
  match c.name, r.operands with
  | "check", [] => some .check
  | "show", [file] => some (.sheet file)
  | "validate", [file] => some (.validate file)
  | "repair", [file] => some (.repair file seed (r.option? "output"))
  | "random", [] =>
    some (.random (r.option? "category") (r.option? "input") seed (r.option? "output"))
  | "notes", [name] => some (.notes name)
  | _, _ => none

/-- The request of a command; `before` holds the options in front of its name. -/
def requestOf (before : Reading) (c : CommandSpec) (arguments : List String) : Request :=
  match readCommand c arguments.length {} arguments with
  | .error .version => .version (some c.name)
  | .error .help => .help
  | .error .misuse => .misuse
  | .ok r =>
    match action? c r with
    | some action => .run ((r.option? "catalog").or (before.option? "catalog")) action
    | none => .misuse

/-- Reads arguments up to the name of the command, `fuel` of them at most. -/
def readArguments : Nat → Reading → List String → Request
  | 0, _, _ => .misuse
  | _, _, [] => .misuse
  | fuel + 1, r, argument :: rest =>
    if isOption argument then
      if argument == "--" then .misuse
      else
        match readOption commonOptions r argument rest with
        | .ok (r, rest) => readArguments fuel r rest
        | .error .version => .version none
        | .error .help => .help
        | .error .misuse => .misuse
    else if argument == "help" then .help
    else
      match commands.find? fun c => c.name == argument with
      | some c => requestOf r c rest
      | none => .misuse

def request (arguments : List String) : Request := readArguments arguments.length {} arguments

end CharacterRules.CommandLine
