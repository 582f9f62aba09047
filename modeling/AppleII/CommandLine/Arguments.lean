import AppleII.Host.Basic
import AppleII.Text.Blank
import AppleII.Text.Quoted

/-!
# Command lines

The grammar of command lines.  A long option stands after two dashes, with its value after an equals
sign or in the next word; short options stand together after one dash, and what follows one that takes
a value is its value.  After two dashes alone all words are operands.  An option is given once, unless
it may be repeated.
-/

namespace AppleII.CommandLine

/-- An option of a command whose options make up a value of type `α`. -/
structure OptionSpec (α : Type) where
  long : String
  short : Option Char := none
  /-- The name of its value; a flag takes none. -/
  valueName : Option String := none
  repeatable : Bool := false
  required : Bool := false
  help : String
  /-- What the help shows as its default. -/
  defaultText : Option String := none
  /-- The options with a value put in; `none` refuses the value. -/
  store : String → α → Option α

structure OperandSpec (α : Type) where
  name : String
  help : String
  store : String → α → α

structure Grammar (α : Type) where
  name : String
  version : Option String := none
  about : String
  operand : Option (OperandSpec α) := none
  options : List (OptionSpec α)
  /-- The options when none is given. -/
  start : α

/-- What is wrong with a command line. -/
inductive UsageError where
  | unknown (word : String)
  | missingValue (option : String)
  | unneededValue (option value : String)
  | invalidValue (option value : String)
  | repeated (option : String)
  | missing (argument : String)
  deriving DecidableEq, Repr

/-- The text of an error. -/
def UsageError.message : UsageError → String
  | .unknown word => s!"unexpected argument '{word}' found"
  | .missingValue option => s!"a value is required for '{option}' but none was supplied"
  | .unneededValue option value => s!"unexpected value '{value}' for '{option}' found; no more were expected"
  | .invalidValue option value => s!"invalid value '{value}' for '{option}'"
  | .repeated option => s!"the argument '{option}' cannot be used multiple times"
  | .missing argument => s!"the following required arguments were not provided: {argument}"

/-- Why a command is not run. -/
inductive Refusal where
  | help
  | version
  | usage (e : UsageError)
  deriving DecidableEq, Repr

variable {α : Type}

namespace OptionSpec

/-- An option as it is written. -/
def usage (o : OptionSpec α) : String :=
  match o.valueName with
  | some v => "--" ++ o.long ++ " <" ++ v ++ ">"
  | none => "--" ++ o.long

end OptionSpec

/-! ## Reading -/

/-- How far the words of a command line were read. -/
structure Reading (α : Type) where
  options : α
  /-- The long names of the options that were given. -/
  given : List String := []
  /-- The option whose value is the next word. -/
  pending : Option (OptionSpec α) := none
  hasOperand : Bool := false
  /-- All words from here on are operands. -/
  onlyOperands : Bool := false

namespace Reading

/-- An option given, with its value; a flag has an empty one. -/
def put (r : Reading α) (o : OptionSpec α) (value : String) : Except Refusal (Reading α) :=
  if !o.repeatable && r.given.contains o.long then .error (.usage (.repeated o.usage))
  else
    match o.store value r.options with
    | some options => .ok { r with options, given := o.long :: r.given, pending := none }
    | none => .error (.usage (.invalidValue o.usage value))

def putOperand (r : Reading α) (g : Grammar α) (word : String) : Except Refusal (Reading α) :=
  match g.operand with
  | some o =>
    if r.hasOperand then .error (.usage (.unknown word))
    else .ok { r with options := o.store word r.options, hasOperand := true }
  | none => .error (.usage (.unknown word))

/-- A long option, with the value after its equals sign if there is one. -/
def putLong (r : Reading α) (g : Grammar α) (name : String) (value : Option String) :
    Except Refusal (Reading α) :=
  match g.options.find? (·.long == name) with
  | some o =>
    match o.valueName, value with
    | some _, some v => r.put o v
    | some _, none => .ok { r with pending := some o }
    | none, some v => .error (.usage (.unneededValue o.usage v))
    | none, none => r.put o ""
  | none =>
    match value with
    | some v =>
      if name = "help" ∨ (name = "version" ∧ g.version.isSome) then
        .error (.usage (.unneededValue ("--" ++ name) v))
      else .error (.usage (.unknown ("--" ++ name)))
    | none =>
      if name = "help" then .error .help
      else if name = "version" ∧ g.version.isSome then .error .version
      else .error (.usage (.unknown ("--" ++ name)))

/-- Short options that stand together. -/
def putShort (r : Reading α) (g : Grammar α) : List Char → Except Refusal (Reading α)
  | [] => .ok r
  | c :: rest =>
    match g.options.find? (·.short == some c) with
    | some o =>
      match o.valueName, rest with
      | none, _ => do (← r.put o "").putShort g rest
      | some _, [] => .ok { r with pending := some o }
      | some _, '=' :: value => r.put o (.ofList value)
      | some _, value => r.put o (.ofList value)
    | none =>
      if c = 'h' then .error .help
      else if c = 'V' ∧ g.version.isSome then .error .version
      else .error (.usage (.unknown (.ofList ['-', c])))

def step (g : Grammar α) (r : Reading α) (word : String) : Except Refusal (Reading α) :=
  if r.onlyOperands then r.putOperand g word
  else
    match r.pending, word.toList with
    | some o, '-' :: _ :: _ => .error (.usage (.missingValue o.usage))
    | some o, _ => r.put o word
    | none, ['-', '-'] => .ok { r with onlyOperands := true }
    | none, '-' :: '-' :: body =>
      let name := body.takeWhile (· != '=')
      let value := (body.dropWhile (· != '=')).tail?
      r.putLong g (.ofList name) (value.map .ofList)
    | none, '-' :: c :: rest => r.putShort g (c :: rest)
    | none, _ => r.putOperand g word

/-- The options, when nothing is missing. -/
def finish (g : Grammar α) (r : Reading α) : Except Refusal α :=
  match r.pending with
  | some o => .error (.usage (.missingValue o.usage))
  | none =>
    match g.options.find? fun o => o.required && !r.given.contains o.long with
    | some o => .error (.usage (.missing o.usage))
    | none =>
      match g.operand with
      | some o => if r.hasOperand then .ok r.options else .error (.usage (.missing ("<" ++ o.name ++ ">")))
      | none => .ok r.options

end Reading

namespace Grammar

/-- The options of a command line. -/
def parse (g : Grammar α) (words : List String) : Except Refusal α := do
  (← words.foldlM (Reading.step g) { options := g.start }).finish g

/-! ## Help -/

def usage (g : Grammar α) : String :=
  "Usage: " ++ " ".intercalate ([g.name, "[OPTIONS]"] ++
    (g.options.filter (·.required)).map OptionSpec.usage ++
    g.operand.toList.map fun o => "<" ++ o.name ++ ">")

/-- Lines of two columns. -/
def columns (rows : List (String × String)) : List String :=
  let width := rows.foldl (fun w r => max w r.1.length) 0
  rows.map fun (left, right) =>
    "  " ++ left ++ .ofList (List.replicate (width - left.length + 2) ' ') ++ right

def optionRow (short : Option Char) (usage help : String) : String × String :=
  ((match short with
    | some c => .ofList ['-', c, ',', ' ']
    | none => "    ") ++ usage, help)

/-- A default as the help shows it: between quotes when it is empty or holds a blank. -/
def shownDefault (text : String) : String :=
  if text.isEmpty || text.toList.any Text.isBlank then Text.quoted text else text

def help (g : Grammar α) : List String :=
  let operands := match g.operand with
    | some o => ["Arguments:"] ++ columns [("<" ++ o.name ++ ">", o.help)] ++ [""]
    | none => []
  let rows := g.options.map fun o =>
    optionRow o.short o.usage (o.help ++ match o.defaultText with
      | some d => " [default: " ++ shownDefault d ++ "]"
      | none => "")
  let version := g.version.toList.map fun _ => optionRow (some 'V') "--version" "Print version"
  [g.about, "", g.usage, ""] ++ operands ++ ["Options:"] ++
    columns (rows ++ [optionRow (some 'h') "--help" "Print help"] ++ version)

/-- A command run with its options: the exit code.  Help and version are printed instead when they are
asked for, and a wrong command line is refused with the exit code 2. -/
def execute {m : Type → Type} [Monad m] [Host m] (g : Grammar α) (run : α → m UInt32)
    (words : List String) : m UInt32 := do
  match g.parse words with
  | .ok options => run options
  | .error .help =>
    g.help.forM Host.print
    return 0
  | .error .version =>
    Host.print (g.name ++ " " ++ g.version.getD "")
    return 0
  | .error (.usage e) =>
    Host.warn ("error: " ++ e.message)
    Host.warn ""
    Host.warn g.usage
    Host.warn ""
    Host.warn "For more information, try '--help'."
    return 2

end Grammar

end AppleII.CommandLine
