import ChunkedStorage.Body
import ChunkedStorage.Config
import ChunkedStorage.Location

/-!
# Ranged requests over HTTP

A client whose headers are checked once, and the request for a span of an object. A server may answer with the span
alone or with the whole object.
-/

namespace ChunkedStorage

/-! ### Headers -/

namespace Header

/-- The characters of a header name. -/
def isNameChar (c : Char) : Bool := c.isAlphanum || "!#$%&'*+-.^_`|~".toList.contains c

/-- The longest header name. -/
def nameLimit : Nat := 65535

/-- The name in lowercase letters, if it is one. -/
def name? (text : String) : Option String :=
  if text ≠ "" ∧ text.toList.all isNameChar ∧ text.utf8ByteSize ≤ nameLimit then
    some (String.ofList (text.toList.map Char.toLower))
  else none

/-- Values hold no control characters but tabs. -/
def isValue (text : String) : Bool := text.toList.all fun c => c == '\t' || (' ' ≤ c && c ≠ '\x7f')

/-- Sets the value of a name in lowercase letters. -/
def set (name value : String) (headers : List (String × String)) : List (String × String) :=
  (name, value) :: headers.filter fun h => h.1 ≠ name

end Header

/-! ### Clients -/

structure HttpRequest where
  url : String
  headers : List (String × String)

structure HttpResponse where
  status : Nat
  pieces : List (Except String Bytes)

/-- What every request of a client is sent with. -/
structure HttpClient where
  headers : List (String × String)
  timeout : Duration
  connectTimeout : Duration

namespace HttpClient

/-- Adds configured headers to those that are sent anyway. -/
def addHeaders : List (String × String) → List (String × String) → Except Failure (List (String × String))
  | headers, [] => .ok headers
  | headers, (given, value) :: rest =>
    match Header.name? given with
    | none => .error (.configuration (.headerName given))
    | some name =>
      if Header.isValue value then addHeaders (Header.set name value headers) rest
      else .error (.configuration (.headerValue name))

def create (config : TransportConfig) : Except Failure HttpClient :=
  let usual := [("accept", "*/*"), ("accept-encoding", "identity"), ("user-agent", config.userAgent)]
  match addHeaders usual config.headers with
  | .error failure => .error failure
  | .ok headers =>
    if Header.isValue config.userAgent then .ok ⟨headers, config.timeout, config.connectTimeout⟩
    else .error (.client "failed to parse header value")

/-- The request for a span that is not empty; its own range wins over a configured one. -/
def request (client : HttpClient) (location : AccessLocation) (s : Span) : HttpRequest :=
  ⟨location.url, Header.set "range" s!"bytes={s.start}-{s.stop - 1}" client.headers⟩

/-- The body of a response to the request for a span. -/
def bodyOf (location : AccessLocation) (s : Span) (response : HttpResponse) : Except TransferFault Body :=
  if response.status = 206 then .ok (.response (.ofPieces response.pieces 0 s.length))
  else if response.status = 200 then .ok (.response (.ofPieces response.pieces s.start s.length))
  else .error (.status response.status location.url)

/-- Opens a span of an object. An empty span needs no request. -/
def openBody {σ : Type} (client : HttpClient) (exchange : HttpRequest → σ → Except String HttpResponse × σ)
    (location : AccessLocation) (s : Span) (world : σ) : Except TransferFault Body × σ :=
  if s.stop ≤ s.start then (.ok (.memory ⟨[]⟩), world)
  else
    match exchange (client.request location s) world with
    | (.error detail, world) => (.error (.network detail), world)
    | (.ok response, world) => (bodyOf location s response, world)

end HttpClient

end ChunkedStorage
