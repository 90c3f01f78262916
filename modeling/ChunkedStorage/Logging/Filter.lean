import ChunkedStorage.Logging.Record

/-!
# Log filters

A filter is written as directives with commas between them. Each names a target, fields and a level, any of which may
be left out. Of the directives that a record matches the most specific one decides; a record that matches none is not
wanted.
-/

namespace ChunkedStorage

structure LogDirective where
  /-- How the targets of the records start. -/
  target? : Option String
  /-- The fields that the records have. -/
  fields : List String
  verbosity : Verbosity

namespace LogDirective

/-! ### Reading -/

/-- Drops the marks that close lists of fields from the start of a reversed text. -/
def dropClosing : List Char → List Char
  | ']' :: '\x7d' :: rest => dropClosing rest
  | rest => rest

/-- Reads the part before the equals sign. -/
def head? (text : String) : Option (String × List String) :=
  match text.splitOn "[\x7b" with
  | [target] => some (target, [])
  | [target, fields] =>
    if fields.endsWith "\x7d]" then
      let name := String.ofList (dropClosing fields.toList.reverse).reverse
      some (target, if name = "" then [] else [name])
    else none
  | _ => none

/-- Reads a directive. A text without an equals sign is a level, or else a target of which everything is wanted. -/
def parse? (text : String) : Option LogDirective :=
  match text.splitOn "=" with
  | [only] =>
    match Verbosity.parse? only with
    | some verbosity => some ⟨none, [], verbosity⟩
    | none => some ⟨some only, [], some .trace⟩
  | [head, level] => do
    let (target, fields) ← head? head
    return ⟨some target, fields, ← Verbosity.parse? level⟩
  | _ => none

/-! ### Matching -/

/-- Whether a directive is for what comes from a target. Records have fields to match, spans have none. -/
def isMatch (d : LogDirective) (target : String) (names? : Option (List String)) : Bool :=
  (d.target?.all fun start => target.startsWith start) && names?.all fun names => d.fields.all (· ∈ names)

/-- Whether two directives are for the same records. -/
def isSame (a b : LogDirective) : Bool := a.target? == b.target? && a.fields == b.fields

/-- How specific a directive is: first the length of its target counts, then the number of its fields. -/
def specificity (d : LogDirective) : Nat × Nat :=
  ((d.target?.map fun target => target.utf8ByteSize + 1).getD 0, d.fields.length)

/-- Whether a directive is looked at before another one. Those that are equally specific go by the alphabet. -/
def isBefore (a b : LogDirective) : Bool :=
  let (lengthA, countA) := a.specificity
  let (lengthB, countB) := b.specificity
  if lengthA ≠ lengthB then lengthB < lengthA
  else if countA ≠ countB then countB < countA
  else if a.target? ≠ b.target? then b.target?.getD "" < a.target?.getD ""
  else b.fields < a.fields

end LogDirective

/-- Directives, the most specific ones first. -/
structure LogFilter where
  directives : List LogDirective

namespace LogFilter

/-- Adds a directive to those in front of which it may belong; it replaces one for the same records. -/
def insert (d : LogDirective) : List LogDirective → List LogDirective
  | [] => [d]
  | e :: rest => if d.isSame e then d :: rest else if d.isBefore e then d :: e :: rest else e :: insert d rest

def ofDirectives (directives : List LogDirective) : LogFilter :=
  ⟨directives.foldl (fun sorted d => insert d sorted) []⟩

def parse? (text : String) : Option LogFilter := ((text.splitOn ",").mapM LogDirective.parse?).map ofDirectives

/-- The verbosity for what comes from a target. -/
def verbosity (f : LogFilter) (target : String) (names? : Option (List String)) : Verbosity :=
  (f.directives.find? fun d => d.isMatch target names?).bind LogDirective.verbosity

/-- Whether a record is wanted. -/
def admits (f : LogFilter) (r : LogRecord) : Bool := (f.verbosity r.target (some r.fieldNames)).admits r.level

/-- Whether a span is mentioned. -/
def admitsSpan (f : LogFilter) (s : LogSpan) : Bool := (f.verbosity s.target none).admits s.level

end LogFilter

end ChunkedStorage
