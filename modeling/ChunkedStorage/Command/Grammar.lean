import ChunkedStorage.Size

/-!
# Arguments

How the words of a command line are split into the values of named arguments. A word with two dashes names an option,
one with a single dash starts with its letter, and the value is attached or the next word. What follows `--` is no
option. The value of an argument is looked at when the next argument begins, so that of two faults the first is found.
-/

namespace ChunkedStorage

/-- What a command line that names no command to run is answered with. -/
inductive UsageAnswer where
  | help
  | version
  /-- Help, since there are no arguments. -/
  | nothingGiven
  | missingCommand
  | unknownCommand
  | unknownArgument
  | missingArgument
  | missingValue
  | surplusValue
  | unusableValue
  /-- Arguments that exclude each other, or one given twice. -/
  | conflict
deriving DecidableEq

/-- The exit code of the program. -/
def UsageAnswer.exitCode : UsageAnswer → Nat
  | help | version => 0
  | _ => 2

inductive ValueKind where
  | path
  | size
  | text

/-- An argument with a value. -/
structure Argument where
  name : String
  kind : ValueKind
  letter? : Option Char := none

/-- What one level of a command line consists of. -/
structure Grammar where
  options : List Argument
  positionals : List Argument := []
  commands : List String := []
  hasVersion : Bool := false

/-- The values of arguments by name. -/
abbrev Values := List (String × String)

/-- Adds the value of an argument that was not given before. -/
def Argument.accept (a : Argument) (text : String) (values : Values) : Except UsageAnswer Values :=
  if (values.lookup a.name).isSome then .error .conflict
  else
    match a.kind, text with
    | .path, "" => .error .missingValue
    | .size, text =>
      match Size.parse text with
      | .ok _ => .ok (values ++ [(a.name, text)])
      | .error _ => .error .unusableValue
    | _, text => .ok (values ++ [(a.name, text)])

/-! ### Words -/

inductive Word where
  | doubleDash
  | option (name : String) (value? : Option String)
  | letter (letter : Char) (rest : List Char)
  | plain

def Word.ofText (text : String) : Word :=
  match text.toList with
  | ['-', '-'] => .doubleDash
  | '-' :: '-' :: rest =>
    let value? := if '=' ∈ rest then some (String.ofList ((rest.dropWhile (· ≠ '=')).drop 1)) else none
    .option (String.ofList (rest.takeWhile (· ≠ '='))) value?
  | '-' :: c :: rest => .letter c rest
  | _ => .plain

/-- The value that is attached to the letter of an option, with or without an equals sign. -/
def attached : List Char → Option String
  | [] => none
  | '=' :: rest => some (String.ofList rest)
  | rest => some (String.ofList rest)

/-! ### Scanning -/

/-- What is known after some words of a level. -/
structure Scan where
  values : Values
  /-- The argument that began last, with its value once that is known. -/
  last? : Option (Argument × Option String)
  /-- The positional arguments that are still to come. -/
  positionals : List Argument

namespace Scan

def start (g : Grammar) : Scan := ⟨[], none, g.positionals⟩

/-- Whether the next word is the value of an option. -/
def awaitsValue (s : Scan) : Bool :=
  match s.last? with
  | some (_, none) => true
  | _ => false

/-- Looks at the value of the argument that began last. -/
def settle (s : Scan) : Except UsageAnswer Scan :=
  match s.last? with
  | none => .ok s
  | some (_, none) => .error .missingValue
  | some (a, some text) => (a.accept text s.values).map fun values => { s with values, last? := none }

def beginOption (s : Scan) (a : Argument) (value? : Option String) : Except UsageAnswer Scan := do
  let s ← s.settle
  match value? with
  | none => return { s with last? := some (a, none) }
  | some text => return { s with values := ← a.accept text s.values }

/-- Answers a request once the arguments before it are in order. -/
def answer (s : Scan) (a : UsageAnswer) : Except UsageAnswer Scan := s.settle.bind fun _ => .error a

/-- Takes an option by its name. -/
def takeOption (s : Scan) (g : Grammar) (name : String) (value? : Option String) : Except UsageAnswer Scan :=
  let request? :=
    if name = "help" then some UsageAnswer.help
    else if name = "version" ∧ g.hasVersion then some .version
    else none
  match request?, value? with
  | some _, some _ => .error .surplusValue
  | some a, none => s.answer a
  | none, _ =>
    match g.options.find? fun a => a.name == name with
    | some a => s.beginOption a value?
    | none => .error .unknownArgument

/-- Takes an option by its letter. -/
def takeLetter (s : Scan) (g : Grammar) (c : Char) (rest : List Char) : Except UsageAnswer Scan :=
  if c = 'h' then s.answer .help
  else if c = 'V' ∧ g.hasVersion then s.answer .version
  else
    match g.options.find? fun a => a.letter? == some c with
    | some a => s.beginOption a (attached rest)
    | none => .error .unknownArgument

/-- Takes a word that is no option. -/
def takePlain (s : Scan) (g : Grammar) (dashed : Bool) (word : String) : Except UsageAnswer Scan :=
  match s.positionals with
  | a :: positionals => s.settle.map fun s => { s with last? := some (a, some word), positionals }
  | [] =>
    if g.commands = [] ∨ dashed ∧ word ∈ g.commands then .error .unknownArgument else .error .unknownCommand

def take (s : Scan) (g : Grammar) (word : String) : Except UsageAnswer Scan :=
  match Word.ofText word, s.last? with
  | .option name value?, _ => s.takeOption g name value?
  | .letter c rest, _ => s.takeLetter g c rest
  | _, some (a, none) => .ok { s with last? := some (a, some word) }
  | _, _ => s.takePlain g false word

/-- Takes words up to the name of a command, which is given with the words behind it. After `--` there are only plain
words. -/
def run (g : Grammar) : (dashed : Bool) → Scan → List String → Except UsageAnswer (Scan × Option (String × List String))
  | _, s, [] => .ok (s, none)
  | true, s, word :: rest => (s.takePlain g true word).bind fun s => run g true s rest
  | false, s, word :: rest =>
    if !s.awaitsValue && g.commands.contains word then .ok (s, some (word, rest))
    else if word = "--" then run g true s rest
    else (s.take g word).bind fun s => run g false s rest

end Scan

/-- The values in the words of a level without commands. -/
def Grammar.values (g : Grammar) (words : List String) : Except UsageAnswer Values := do
  let (s, _) ← Scan.run g false (.start g) words
  return (← s.settle).values

end ChunkedStorage
