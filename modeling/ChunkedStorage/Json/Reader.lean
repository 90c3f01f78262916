import ChunkedStorage.Json.Lexer

/-!
# Reading values of a wanted form

Readers of single values, lists and records. They check the text as they go, so of several faults the one that is read
first is reported. A record is written as an object, or as the list of its fields in their order.
-/

namespace ChunkedStorage.Json

abbrev Reader (α : Type) := Source → Result α

/-! ### Single values -/

/-- What the text, which starts with no blank, holds next. -/
def found : Source → Result Found
  | [] => .error .ended
  | none :: _ => .error .malformed
  | some 'n' :: rest => (literal ['u', 'l', 'l'] rest).map fun rest => (.null, rest)
  | some 't' :: rest => (literal ['r', 'u', 'e'] rest).map fun rest => (.boolean true, rest)
  | some 'f' :: rest => (literal ['a', 'l', 's', 'e'] rest).map fun rest => (.boolean false, rest)
  | some '"' :: rest => (string rest).map fun (s, rest) => (.text s, rest)
  | some '[' :: rest => .ok (.list, rest)
  | some '\x7b' :: rest => .ok (.object, rest)
  | some c :: rest =>
    if startsNumber c then
      match number (some c :: rest) with
      | .error fault => .error fault
      | .ok (.integer i, rest) => .ok (.integer i, rest)
      | .ok (.decimal x, rest) => .ok (.decimal (Decimal.ofFloat x), rest)
    else .error .malformed

/-- The fault of a value that is not of the wanted kind. -/
def refuse {α : Type} (expected : String) (s : Source) : Result α :=
  match found s with
  | .error fault => .error fault
  | .ok (value, _) => .error (.wrongType value expected)

def text (expected : String) : Reader String := fun s =>
  match skipBlank s with
  | some '"' :: rest => string rest
  | s => refuse expected s

/-- A whole number that is a word. -/
def word (expected : String) : Reader Nat := fun s =>
  match found (skipBlank s) with
  | .error fault => .error fault
  | .ok (.integer i, rest) => if i < 0 then .error (.wrongValue (.integer i) expected) else .ok (i.toNat, rest)
  | .ok (value, _) => .error (.wrongType value expected)

def boolean : Reader Bool := fun s =>
  match found (skipBlank s) with
  | .error fault => .error fault
  | .ok (.boolean b, rest) => .ok (b, rest)
  | .ok (value, _) => .error (.wrongType value "a boolean")

/-- A value or `null`. -/
def nullable {α : Type} (read : Reader α) : Reader (Option α) := fun s =>
  match skipBlank s with
  | some 'n' :: rest => (literal ['u', 'l', 'l'] rest).map fun rest => (none, rest)
  | s => (read s).map fun (a, rest) => (some a, rest)

/-! ### Lists and maps -/

/-- What stands before an element or a member: its first character, or the closing bracket. -/
inductive Step where
  | item (s : Source)
  | closed (rest : Source)

/-- Goes to the next element of a list. -/
def nextElement (first : Bool) (s : Source) : Except Fault Step :=
  match skipBlank s with
  | [] => .error .ended
  | some ']' :: rest => .ok (.closed rest)
  | c :: rest =>
    if first then .ok (.item (c :: rest))
    else if c = some ',' then
      match skipBlank rest with
      | [] => .error .ended
      | some ']' :: _ => .error .malformed
      | s => .ok (.item s)
    else .error .malformed

/-- Goes to the text of the next key of an object, behind its opening quote. -/
def nextKey (first : Bool) (s : Source) : Except Fault Step :=
  match skipBlank s with
  | [] => .error .ended
  | some '\x7d' :: rest => .ok (.closed rest)
  | c :: rest =>
    if first then
      if c = some '"' then .ok (.item rest) else .error .malformed
    else if c = some ',' then
      match skipBlank rest with
      | [] => .error .ended
      | some '"' :: rest => .ok (.item rest)
      | _ => .error .malformed
    else .error .malformed

def colon (s : Source) : Except Fault Source :=
  match skipBlank s with
  | [] => .error .ended
  | some ':' :: rest => .ok rest
  | _ => .error .malformed

def elements {α : Type} (read : Reader α) : (fuel : Nat) → (first : Bool) → Reader (List α)
  | 0, _, _ => .error .ended
  | fuel + 1, first, s =>
    match nextElement first s with
    | .error fault => .error fault
    | .ok (.closed rest) => .ok ([], rest)
    | .ok (.item s) =>
      match read s with
      | .error fault => .error fault
      | .ok (a, s) => (elements read fuel false s).map fun (as, rest) => (a :: as, rest)

def list {α : Type} (read : Reader α) : Reader (List α) := fun s =>
  match skipBlank s with
  | some '[' :: rest => elements read (rest.length + 1) true rest
  | s => refuse "a sequence" s

/-- Sets the value of a key, which keeps its place if it has one. -/
def put (key value : String) : List (String × String) → List (String × String)
  | [] => [(key, value)]
  | (k, v) :: rest => if k = key then (key, value) :: rest else (k, v) :: put key value rest

def members : (fuel : Nat) → (first : Bool) → List (String × String) → Reader (List (String × String))
  | 0, _, _, _ => .error .ended
  | fuel + 1, first, known, s =>
    match nextKey first s with
    | .error fault => .error fault
    | .ok (.closed rest) => .ok (known, rest)
    | .ok (.item s) =>
      match string s with
      | .error fault => .error fault
      | .ok (key, s) =>
        match colon s with
        | .error fault => .error fault
        | .ok s =>
          match text "a string" s with
          | .error fault => .error fault
          | .ok (value, s) => members fuel false (put key value known) s

/-- An object of strings; of two values for one key the last holds. -/
def textMap : Reader (List (String × String)) := fun s =>
  match skipBlank s with
  | some '\x7b' :: rest => members (rest.length + 1) true [] rest
  | s => refuse "a map" s

/-! ### Records -/

/-- A field of a record that is built up in a value of type `ρ`. -/
structure Field (ρ : Type) where
  name : String
  /-- Whether an object may lack the field. -/
  absentFromObject : Bool
  /-- Whether a list may end before the field. -/
  absentFromList : Bool
  read : ρ → Reader ρ

/-- A field that may be left out everywhere. -/
def Field.optional {ρ α : Type} (name : String) (read : Reader α) (set : ρ → α → ρ) : Field ρ where
  name
  absentFromObject := true
  absentFromList := true
  read := fun r s => (read s).map fun (a, rest) => (set r a, rest)

/-- A field that may be left out only where the record is an object. -/
def Field.nullable {ρ α : Type} (name : String) (read : Reader α) (set : ρ → α → ρ) : Field ρ where
  name
  absentFromObject := true
  absentFromList := false
  read := fun r s => (read s).map fun (a, rest) => (set r a, rest)

/-- A field that has to be there. -/
def Field.required {ρ α : Type} (name : String) (read : Reader α) (set : ρ → α → ρ) : Field ρ where
  name
  absentFromObject := false
  absentFromList := false
  read := fun r s => (read s).map fun (a, rest) => (set r a, rest)

/-- A record that messages call by its title. -/
structure Shape (ρ : Type) where
  title : String
  fields : List (Field ρ)

/-- The fields of a record that is written as a list. -/
def Shape.ofList {ρ : Type} (shape : Shape ρ) : List (Field ρ) → (index : Nat) → ρ → Reader ρ
  | [], _, r, s =>
    match skipBlank s with
    | [] => .error .ended
    | some ']' :: rest => .ok (r, rest)
    | _ => .error .malformed
  | f :: fs, index, r, s =>
    match nextElement (index == 0) s with
    | .error fault => .error fault
    | .ok (.closed _) =>
      if f.absentFromList then shape.ofList fs (index + 1) r s
      else .error (.wrongLength index s!"{shape.title} with {shape.fields.length} elements")
    | .ok (.item s) =>
      match f.read r s with
      | .error fault => .error fault
      | .ok (r, s) => shape.ofList fs (index + 1) r s

/-- The first field that may not be absent and is. -/
def Shape.missing? {ρ : Type} (shape : Shape ρ) (seen : List String) : Option (Field ρ) :=
  shape.fields.find? fun f => !f.absentFromObject && !seen.contains f.name

/-- The fields of a record that is written as an object. -/
def Shape.ofObject {ρ : Type} (shape : Shape ρ) : (fuel : Nat) → (seen : List String) → (first : Bool) → ρ → Reader ρ
  | 0, _, _, _, _ => .error .ended
  | fuel + 1, seen, first, r, s =>
    match nextKey first s with
    | .error fault => .error fault
    | .ok (.closed rest) =>
      match shape.missing? seen with
      | some f => .error (.missingField f.name)
      | none => .ok (r, rest)
    | .ok (.item s) =>
      match string s with
      | .error fault => .error fault
      | .ok (key, s) =>
        match shape.fields.find? (·.name == key) with
        | none =>
          match (colon s).bind skip with
          | .error fault => .error fault
          | .ok s => shape.ofObject fuel seen false r s
        | some f =>
          if key ∈ seen then .error (.duplicateField key)
          else
            match colon s with
            | .error fault => .error fault
            | .ok s =>
              match f.read r s with
              | .error fault => .error fault
              | .ok (r, s) => shape.ofObject fuel (key :: seen) false r s

/-- Reads a record, starting from the values of the fields that may be absent. -/
def Shape.read {ρ : Type} (shape : Shape ρ) (start : ρ) : Reader ρ := fun s =>
  match skipBlank s with
  | some '[' :: rest => shape.ofList shape.fields 0 start rest
  | some '\x7b' :: rest => shape.ofObject (rest.length + 1) [] true start rest
  | s => refuse shape.title s

/-! ### Whole texts -/

/-- Reads a text that holds one value and nothing else. -/
def readAll {α : Type} (read : Reader α) (s : Source) : Except Fault α :=
  match read s with
  | .error fault => .error fault
  | .ok (a, rest) => if skipBlank rest = [] then .ok a else .error .malformed

end ChunkedStorage.Json
