import ChunkedStorage.Text.Quoted

/-!
# Unusable JSON texts

A text that does not describe a value of the wanted form either ends too early, is no JSON text, or holds other data
than wanted. Only faults of the last kind have a message.
-/

namespace ChunkedStorage.Json

/-- What stands where another kind of value is wanted. -/
inductive Found where
  | null
  | boolean (value : Bool)
  | integer (value : Int)
  | decimal (shown : String)
  | text (value : String)
  | list
  | object
deriving DecidableEq

def Found.describe : Found → String
  | null => "null"
  | boolean value => s!"boolean `{value}`"
  | integer value => s!"integer `{value}`"
  | decimal shown => s!"floating point `{shown}`"
  | text value => s!"string {Text.quoted value}"
  | list => "sequence"
  | object => "map"

inductive Fault where
  | ended
  | malformed
  | wrongType (found : Found) (expected : String)
  | wrongValue (found : Found) (expected : String)
  | missingField (name : String)
  | duplicateField (name : String)
  | wrongLength (count : Nat) (expected : String)
  | rejected (reason : String)
deriving DecidableEq

inductive Category where
  | malformed
  | ended
  | data
deriving DecidableEq

namespace Fault

def category : Fault → Category
  | ended => .ended
  | malformed => .malformed
  | _ => .data

def message? : Fault → Option String
  | ended | malformed => none
  | wrongType found expected => some s!"invalid type: {found.describe}, expected {expected}"
  | wrongValue found expected => some s!"invalid value: {found.describe}, expected {expected}"
  | missingField name => some s!"missing field `{name}`"
  | duplicateField name => some s!"duplicate field `{name}`"
  | wrongLength count expected => some s!"invalid length {count}, expected {expected}"
  | rejected reason => some reason

end Fault

end ChunkedStorage.Json
