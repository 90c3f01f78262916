/-!
# JSON values and their texts

Values with the members of objects in a fixed order, written without blanks or indented by two spaces a level.
-/

namespace ChunkedStorage.Json

inductive Value where
  | null
  | boolean (value : Bool)
  | number (value : Nat)
  | text (value : String)
  | list (values : List Value)
  | object (members : List (String × Value))

/-- The two hexadecimal digits of a control character. -/
def controlDigits (n : Nat) : List Char := [Nat.digitChar (n / 16), Nat.digitChar (n % 16)]

/-- One character inside a string. -/
def escaped (c : Char) : List Char :=
  match c with
  | '"' => ['\\', '"']
  | '\\' => ['\\', '\\']
  | '\x08' => ['\\', 'b']
  | '\x0c' => ['\\', 'f']
  | '\n' => ['\\', 'n']
  | '\r' => ['\\', 'r']
  | '\t' => ['\\', 't']
  | c => if c.toNat < 32 then ['\\', 'u', '0', '0'] ++ controlDigits c.toNat else [c]

def quote (s : String) : List Char := '"' :: s.toList.flatMap escaped ++ ['"']

namespace Value

def boolText (b : Bool) : List Char := if b then ['t', 'r', 'u', 'e'] else ['f', 'a', 'l', 's', 'e']

mutual

/-- The text of a value without blanks. -/
def compact : Value → List Char
  | null => ['n', 'u', 'l', 'l']
  | boolean b => boolText b
  | number n => Nat.toDigits 10 n
  | text s => quote s
  | list vs => '[' :: compactList vs
  | object ms => '\x7b' :: compactMembers ms

def compactList : List Value → List Char
  | [] => [']']
  | [v] => compact v ++ [']']
  | v :: w :: vs => compact v ++ ',' :: compactList (w :: vs)

def compactMembers : List (String × Value) → List Char
  | [] => ['\x7d']
  | [(k, v)] => quote k ++ ':' :: compact v ++ ['\x7d']
  | (k, v) :: m :: ms => quote k ++ ':' :: compact v ++ ',' :: compactMembers (m :: ms)

end

/-- The start of a line at a depth. -/
def newLine (depth : Nat) : List Char := '\n' :: List.replicate (2 * depth) ' '

mutual

/-- The text of a value with each element and each member on a line of its own. -/
def indented (depth : Nat) : Value → List Char
  | null => ['n', 'u', 'l', 'l']
  | boolean b => boolText b
  | number n => Nat.toDigits 10 n
  | text s => quote s
  | list [] => ['[', ']']
  | list (v :: vs) => '[' :: indentedList depth (v :: vs)
  | object [] => ['\x7b', '\x7d']
  | object (m :: ms) => '\x7b' :: indentedMembers depth (m :: ms)

def indentedList (depth : Nat) : List Value → List Char
  | [] => newLine depth ++ [']']
  | [v] => newLine (depth + 1) ++ indented (depth + 1) v ++ newLine depth ++ [']']
  | v :: w :: vs => newLine (depth + 1) ++ indented (depth + 1) v ++ ',' :: indentedList depth (w :: vs)

def indentedMembers (depth : Nat) : List (String × Value) → List Char
  | [] => newLine depth ++ ['\x7d']
  | [(k, v)] =>
    newLine (depth + 1) ++ quote k ++ ':' :: ' ' :: indented (depth + 1) v ++ newLine depth ++ ['\x7d']
  | (k, v) :: m :: ms =>
    newLine (depth + 1) ++ quote k ++ ':' :: ' ' :: indented (depth + 1) v ++ ',' :: indentedMembers depth (m :: ms)

end

def render (v : Value) : String := String.ofList v.compact

def pretty (v : Value) : String := String.ofList (v.indented 0)

end Value

end ChunkedStorage.Json
