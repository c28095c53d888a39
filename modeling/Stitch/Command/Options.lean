/-
Command lines: a command, its options and its operands.

Options have a long name after two hyphens and may have a letter after one.
Letters of options without a value may be written together.  A value follows as
the next argument, or after an equals sign, or right after the letter.  After
two hyphens alone all that follows are operands.

`Reading.step` reads one argument after the other, `Grammar.read` all of them.
-/
import Stitch.Text.Split

namespace Stitch

/-- What the value of an option or an operand may be. -/
inductive ValueKind where
  | text
  /-- A path, which may not be empty. -/
  | path
  /-- A signed integer of 64 bits. -/
  | integer
  /-- An unsigned integer of 64 bits. -/
  | natural
  deriving DecidableEq, Repr, Inhabited

namespace ValueKind

/-- The number that digits alone make. -/
def digits? (cs : List Char) : Option Nat :=
  if cs.isEmpty || !cs.all Char.isDigit then none else some (Nat.ofDigitChars 10 cs 0)

def natural? (value : String) : Option Nat :=
  let digits := match value.toList with
    | '+' :: rest => rest
    | all => all
  (digits? digits).filter (· < 18446744073709551616)

def integer? (value : String) : Option Int :=
  match value.toList with
  | '-' :: rest => ((digits? rest).filter (· ≤ 9223372036854775808)).map fun n => -(n : Int)
  | '+' :: rest => ((digits? rest).filter (· < 9223372036854775808)).map fun n => (n : Int)
  | all => ((digits? all).filter (· < 9223372036854775808)).map fun n => (n : Int)

def accepts (kind : ValueKind) (value : String) : Bool :=
  match kind with
  | text => true
  | path => !value.isEmpty
  | integer => (integer? value).isSome
  | natural => (natural? value).isSome

end ValueKind

structure OptionRule where
  name : String
  letter : Option Char := none
  /-- What the value may be, for an option that has one. -/
  value : Option ValueKind := none
  /-- Whether the option may be given more than once. -/
  repeats : Bool := false
  deriving DecidableEq, Repr, Inhabited

/-- How many operands a command has. -/
inductive Operands where
  | none
  | one (kind : ValueKind)
  | many (kind : ValueKind)
  deriving DecidableEq, Repr, Inhabited

namespace Operands

/-- Whether another operand may follow some that were given. -/
def accepts (o : Operands) (given : List String) (operand : String) : Bool :=
  match o with
  | none => false
  | one kind => given.isEmpty && kind.accepts operand
  | many kind => kind.accepts operand

end Operands

structure CommandRule where
  name : String
  options : List OptionRule := []
  operands : Operands := .none
  /-- Whether all that follows the name is operands. -/
  literal : Bool := false
  deriving DecidableEq, Repr, Inhabited

structure Grammar where
  /-- The options that every command has, before or after its name. -/
  shared : List OptionRule
  commands : List CommandRule
  deriving Repr, Inhabited

/-- What was given on a command line. -/
structure Given where
  /-- The options with their values, in order; empty texts for those without. -/
  options : List (String × String) := []
  operands : List String := []
  deriving DecidableEq, Repr, Inhabited

namespace Given

def has (g : Given) (name : String) : Bool := g.options.any fun o => o.1 == name

/-- The values of an option. -/
def values (g : Given) (name : String) : List String :=
  (g.options.filter fun o => o.1 == name).map (·.2)

/-- The value that was given last. -/
def value? (g : Given) (name : String) : Option String := (g.values name).getLast?

end Given

/-- Why a command line is not run. -/
inductive Refusal where
  /-- Help is asked for. -/
  | help
  /-- The arguments do not follow the rules. -/
  | misuse
  deriving DecidableEq, Repr, Inhabited

/-- What has been read of a command line. -/
structure Reading where
  command : Option CommandRule := none
  given : Given := {}
  /-- The shared options that were given before the command. -/
  before : Given := {}
  /-- An option that waits for its value. -/
  pending : Option OptionRule := none
  /-- Only operands follow. -/
  literal : Bool := false
  deriving Inhabited

namespace Reading

/-- The options that may be given. -/
def options (r : Reading) (g : Grammar) : List OptionRule :=
  g.shared ++ (r.command.map (·.options)).getD []

/-- Adds an option with its value.  Most options may be given once only. -/
def give (r : Reading) (o : OptionRule) (value : String) : Except Refusal Reading :=
  if r.given.has o.name && !o.repeats then .error .misuse
  else if o.value.all (·.accepts value) then
    .ok { r with
      given := { r.given with options := r.given.options ++ [(o.name, value)] }, pending := none }
  else .error .misuse

/-- Reads an option by its long name, with or without a value. -/
def longOption (g : Grammar) (r : Reading) (text : List Char) : Except Refusal Reading :=
  let (name, value) := match Text.cut '=' text with
    | some (name, value) => (String.ofList name, some (String.ofList value))
    | none => (String.ofList text, none)
  match (r.options g).find? fun o => o.name == name with
  | none => if name = "help" && value.isNone then .error .help else .error .misuse
  | some o =>
    match o.value, value with
    | none, none => r.give o ""
    | none, some _ => .error .misuse
    | some _, some value => r.give o value
    | some _, none => .ok { r with pending := some o }

/-- Reads the letters of options that are written together. -/
def letters (g : Grammar) (r : Reading) : List Char → Except Refusal Reading
  | [] => .ok r
  | c :: cs =>
    match (r.options g).find? fun o => o.letter == some c with
    | none => if c = 'h' then .error .help else .error .misuse
    | some o =>
      match o.value, cs with
      | none, _ => r.give o "" >>= fun r => letters g r cs
      | some _, [] => .ok { r with pending := some o }
      | some _, '=' :: value => r.give o (String.ofList value)
      | some _, value => r.give o (String.ofList value)

/-- Reads the name of the command. -/
def name (g : Grammar) (r : Reading) (text : String) : Except Refusal Reading :=
  match g.commands.find? fun c => c.name == text with
  | some c =>
    .ok { r with command := some c, before := r.given, given := {}, literal := c.literal }
  | none => .error .misuse

def operand (r : Reading) (c : CommandRule) (text : String) : Except Refusal Reading :=
  if c.operands.accepts r.given.operands text then
    .ok { r with given := { r.given with operands := r.given.operands ++ [text] } }
  else .error .misuse

/-- Whether a text is a number with a minus sign. -/
def isNegative (text : List Char) : Bool :=
  match text with
  | '-' :: digits => !digits.isEmpty && digits.all Char.isDigit
  | _ => false

/-- Reads one more argument. -/
def step (g : Grammar) (r : Reading) (argument : String) : Except Refusal Reading :=
  match r.pending, argument.toList with
  | some o, text =>
    if text.head? ≠ some '-' ∨ text = ['-'] ∨ (o.value = some .integer ∧ isNegative text) then
      r.give o argument
    else .error .misuse
  | none, text =>
    match r.literal, text, r.command with
    | true, _, some c => r.operand c argument
    | true, _, none => .error .misuse
    | false, ['-', '-'], _ => .ok { r with literal := true }
    | false, '-' :: '-' :: rest, _ => longOption g r rest
    | false, '-' :: c :: rest, _ => letters g r (c :: rest)
    | false, _, some c => r.operand c argument
    | false, _, none => name g r argument

end Reading

/-- A command line that follows the rules. -/
structure CommandLine where
  command : String
  given : Given
  /-- The shared options before the command. -/
  before : Given
  deriving DecidableEq, Repr, Inhabited

namespace CommandLine

/-- The value of a shared option; after the command it counts more. -/
def shared? (l : CommandLine) (name : String) : Option String :=
  (l.given.value? name).orElse fun _ => l.before.value? name

end CommandLine

/-- Reads a command line. -/
def Grammar.read (g : Grammar) (arguments : List String) : Except Refusal CommandLine := do
  let r ← arguments.foldlM (Reading.step g) {}
  match r.command, r.pending with
  | some c, none => return { command := c.name, given := r.given, before := r.before }
  | _, _ => throw .misuse

end Stitch
