import BasicWebserver.Http.Message

/-!
# Response framing

`src/response.rs`: the application supplies a status, header fields and a body; the host owns how
the message is framed. `applicationParts` checks what the application supplied and puts one
`Content-Length` of its own in the place of the application's; `finalizeResponse` checks every
response, from whatever source, just before it is sent.
-/

namespace BasicWebserver.Response

open Ascii Http

def connectionSpecificFields : List Bytes :=
  [ascii "connection", ascii "http2-settings", ascii "keep-alive", ascii "proxy-connection",
    ascii "te", ascii "transfer-encoding", ascii "upgrade"]

def unsupportedTrailerField : Bytes := ascii "trailer"

structure RequestSemantics where
  method : Method
  version : Version
  deriving DecidableEq

def RequestSemantics.protocolName (request : RequestSemantics) : String :=
  match request.version with
  | .http2 => "HTTP/2"
  | .http10 | .http11 => "HTTP/1"
  | .http09 | .http3 => "HTTP"

/-! ## Errors -/

inductive ResponseError
  | invalidStatus (rawStatus : ℕ)
  | invalidName (rawName : Bytes)
  | invalidValue (rawName : Bytes)
  | unsupportedField (request : RequestSemantics) (name : HeaderName)
  | hostUnsupportedField (name : HeaderName)
  | informational
  | connectTunnel
  | lengthNotAscii
  | invalidLength (text : Bytes)
  | conflictingLengths
  | forbidsContent (status : StatusCode)
  | resetForbidsContent
  | forbidsLength (status : StatusCode)
  | representationMismatch (supplied length : ℕ)
  | bodyMismatch (supplied length : ℕ)
  | unknownLength
  deriving DecidableEq

/-- The text of an error, given how texts are quoted and how a status is shown. -/
def ResponseError.detail (quote : Bytes → String) (display : StatusCode → String) :
    ResponseError → String
  | invalidStatus rawStatus => s!"invalid response status {rawStatus}"
  | invalidName rawName => s!"invalid response header name {quote rawName}"
  | invalidValue rawName => s!"invalid value for response header {quote rawName}"
  | unsupportedField request name =>
    s!"{request.protocolName} response field {quote name.bytes} controls unsupported " ++
      "connection framing or trailers"
  | hostUnsupportedField name =>
    "host response contained unsupported connection framing or trailer field " ++ quote name.bytes
  | informational =>
    "ordinary responses cannot be informational because no final response would follow"
  | connectTunnel => "a successful CONNECT requires an unsupported tunnel outcome"
  | lengthNotAscii => "Content-Length is not valid ASCII"
  | invalidLength text => s!"invalid Content-Length value {quote text}"
  | conflictingLengths => "conflicting Content-Length field values"
  | forbidsContent status => s!"status {display status} forbids response content"
  | resetForbidsContent => "status 205 Reset Content forbids response content"
  | forbidsLength status => s!"status {display status} forbids Content-Length"
  | representationMismatch supplied length =>
    s!"Content-Length {supplied} does not match the {length}-byte response representation"
  | bodyMismatch supplied length =>
    s!"Content-Length {supplied} does not match the {length}-byte response body"
  | unknownLength =>
    "Content-Length cannot frame a response body with an unknown encoded length"

/-! ## Content-Length -/

inductive LengthRule
  | forbidden
  | representation
  deriving DecidableEq

def lengthRule (status : StatusCode) (request : RequestSemantics) :
    Except ResponseError LengthRule :=
  if status.isInformational then .error .informational
  else if request.method = .connect && status.isSuccess then .error .connectTunnel
  else if status = StatusCode.noContent || status = StatusCode.notModified then .ok .forbidden
  else .ok .representation

def isConnectionSpecific (name : HeaderName) : Bool :=
  connectionSpecificFields.any fun forbidden => name.bytes = forbidden

/-- A field the host refuses to send. -/
def isUnsupported (name : HeaderName) : Bool :=
  isConnectionSpecific name || name.bytes = unsupportedTrailerField

/-- Digits whose value fits in a machine word. -/
def parseLength (text part : Bytes) : Except ResponseError ℕ :=
  let digits := trimMatches (fun b => b = 32 || b = 9) part
  if digits = [] || !digits.all isDigit then .error (.invalidLength text)
  else (parseU64 digits).elim (.error (.invalidLength text)) .ok

def parseContentLengthValue (value : Bytes) : Except ResponseError (List ℕ) :=
  if !isUtf8 value then .error .lengthNotAscii
  else (value.splitOn 44).mapM (parseLength value)

def oneContentLength : List ℕ → Except ResponseError (Option ℕ)
  | [] => .ok none
  | first :: rest =>
    if rest.any (· ≠ first) then .error .conflictingLengths else .ok (some first)

def setContentLength (headers : HeaderMap) (length : ℕ) : HeaderMap :=
  (headers.remove HeaderName.contentLength).insert HeaderName.contentLength
    (HeaderValue.ofNat length)

/-! ## The application's status and fields -/

/-- A header field as the application gives it. -/
structure RawHeader where
  name : Bytes
  value : Bytes
  deriving DecidableEq

/-- One turn of the loop over the application's fields: the lengths it supplies are set aside. -/
def addField (request : RequestSemantics) (parts : HeaderMap × List ℕ) (raw : RawHeader) :
    Except ResponseError (HeaderMap × List ℕ) := do
  let name ← (HeaderName.fromBytes raw.name).elim (.error (.invalidName raw.name)) .ok
  let value ← (HeaderValue.fromStr raw.value).elim (.error (.invalidValue raw.name)) .ok
  if isUnsupported name then .error (.unsupportedField request name)
  else if name = HeaderName.contentLength then do
    let lengths ← parseContentLengthValue value.bytes
    .ok (parts.1, parts.2 ++ lengths)
  else .ok (parts.1.append name value, parts.2)

def applicationParts (rawStatus : ℕ) (rawHeaders : List RawHeader) (representationLength : ℕ)
    (request : RequestSemantics) : Except ResponseError (StatusCode × HeaderMap) := do
  let status ← (StatusCode.fromU16 rawStatus).elim (.error (.invalidStatus rawStatus)) .ok
  let rule ← lengthRule status request
  if (rule = .forbidden || status = StatusCode.resetContent) && representationLength ≠ 0 then
    .error (.forbidsContent status)
  else do
    let (headers, suppliedLengths) ← rawHeaders.foldlM (addField request) (.empty, [])
    let suppliedLength ← oneContentLength suppliedLengths
    match rule, suppliedLength with
    | .forbidden, some _ => .error (.forbidsLength status)
    | .forbidden, none => .ok (status, headers)
    | .representation, none => .ok (status, setContentLength headers representationLength)
    | .representation, some supplied =>
      if supplied ≠ representationLength then
        .error (.representationMismatch supplied representationLength)
      else .ok (status, setContentLength headers representationLength)

/-! ## Every response -/

section Finalize

variable {β : Type} [Body β]

/-- The representation length that a response to `HEAD` announces. -/
def headLength (suppliedLength bodyLength : Option ℕ) : Except ResponseError (Option ℕ) :=
  match suppliedLength, bodyLength with
  | some length, some 0 => .ok (some length)
  | some length, some bodyLength =>
    if length = bodyLength then .ok (some length)
    else .error (.representationMismatch length bodyLength)
  | some _, none => .error .unknownLength
  | none, some 0 | none, none => .ok none
  | none, some bodyLength => .ok (some bodyLength)

/-- The length that another response announces. -/
def framedLength (suppliedLength bodyLength : Option ℕ) : Except ResponseError (Option ℕ) :=
  match suppliedLength, bodyLength with
  | some length, some bodyLength =>
    if length ≠ bodyLength then .error (.bodyMismatch length bodyLength)
    else .ok (some bodyLength)
  | some _, none => .error .unknownLength
  | none, some bodyLength => .ok (some bodyLength)
  | none, none => .ok none

def announce (headers : HeaderMap) : Option ℕ → HeaderMap
  | some length => setContentLength headers length
  | none => headers.remove HeaderName.contentLength

/-- The lengths in the `Content-Length` fields of a response. -/
def suppliedLengths (headers : HeaderMap) : Except ResponseError (List ℕ) := do
  let lengths ← (headers.getAll HeaderName.contentLength).mapM fun value =>
    parseContentLengthValue value.bytes
  .ok lengths.flatten

def finalizeResponse (response : Http.Response β) (request : RequestSemantics) :
    Except ResponseError (Http.Response β) := do
  let rule ← lengthRule response.status request
  match response.headers.keys.find? isUnsupported with
  | some name => .error (.hostUnsupportedField name)
  | none => do
    let suppliedLength ← oneContentLength (← suppliedLengths response.headers)
    let bodyLength := Body.sizeHint response.body
    if response.status = StatusCode.resetContent && bodyLength ≠ some 0 then
      .error .resetForbidsContent
    else match rule with
    | .forbidden =>
      if suppliedLength.isSome then .error (.forbidsLength response.status)
      else if bodyLength ≠ some 0 then .error (.forbidsContent response.status)
      else .ok { response with headers := response.headers.remove HeaderName.contentLength }
    | .representation =>
      if request.method = .head then do
        let length ← headLength suppliedLength bodyLength
        .ok { response with headers := announce response.headers length, body := Body.empty }
      else do
        let length ← framedLength suppliedLength bodyLength
        .ok { response with headers := announce response.headers length }

end Finalize

end BasicWebserver.Response
