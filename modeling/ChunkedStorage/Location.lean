import ChunkedStorage.Duration
import ChunkedStorage.Failure

/-!
# Locations of objects

Where the bytes of a stored object can be fetched from, for a while. A template makes the location of an object by
putting its reference into a URL.
-/

namespace ChunkedStorage

/-- A location that is resolved right before one transfer and used once. -/
structure AccessLocation where
  url : String
  expiry? : Option Timestamp
deriving DecidableEq

/-- Whether the location can no longer be used; it can be used until just before its expiry. -/
def AccessLocation.isExpiredAt (l : AccessLocation) (now : Timestamp) : Bool :=
  match l.expiry? with
  | some expiry => expiry.nanos ≤ now.nanos
  | none => false

/-! ### Locations of files -/

/-- The location of a file, which never expires. -/
def AccessLocation.ofFile (path : String) : AccessLocation := ⟨String.ofList (fileScheme ++ path.toList), none⟩
where
  fileScheme : List Char := ['f', 'i', 'l', 'e', ':', '/', '/']

/-- The path of the file that a location names; a location without a scheme is a path itself. -/
def AccessLocation.path (l : AccessLocation) : String :=
  match l.url.toList with
  | 'f' :: 'i' :: 'l' :: 'e' :: ':' :: '/' :: '/' :: rest => String.ofList rest
  | _ => l.url

/-! ### Templates -/

/-- Stands in a template where the reference goes. -/
def placeholder : List Char := ['\x7b', 'r', 'e', 'f', '\x7d']

/-- Whether the placeholder stands somewhere in a text. -/
def hasPlaceholder : List Char → Bool
  | [] => false
  | c :: rest => placeholder.isPrefixOf (c :: rest) || hasPlaceholder rest

/-- Puts a reference in the place of each placeholder, from left to right; `skip` characters belong to the last one. -/
def fillFrom (ref : List Char) : (skip : Nat) → List Char → List Char
  | _, [] => []
  | skip + 1, _ :: rest => fillFrom ref skip rest
  | 0, c :: rest =>
    if placeholder.isPrefixOf (c :: rest) then ref ++ fillFrom ref (placeholder.length - 1) rest
    else c :: fillFrom ref 0 rest

/-- A URL with placeholders, and the time for which the locations made from it can be used. -/
structure UrlTemplate where
  template : List Char
  ttl? : Option Duration
  hasPlaceholder_template : hasPlaceholder template = true

namespace UrlTemplate

def create (template : String) (ttl? : Option Duration) : Except Failure UrlTemplate :=
  if h : hasPlaceholder template.toList = true then .ok ⟨template.toList, ttl?, h⟩
  else .error (.configuration (.noPlaceholder template))

def url (t : UrlTemplate) (ref : String) : String := String.ofList (fillFrom ref.toList 0 t.template)

/-- The location of an object; fails if its expiry would lie after the end of time. -/
def resolve (t : UrlTemplate) (ref : String) (now : Timestamp) : Except Cause AccessLocation :=
  match t.ttl? with
  | none => .ok ⟨t.url ref, none⟩
  | some ttl =>
    match now.add? ttl with
    | some expiry => .ok ⟨t.url ref, some expiry⟩
    | none => .error (.stated "expiry lies beyond the last point in time")

end UrlTemplate

end ChunkedStorage
