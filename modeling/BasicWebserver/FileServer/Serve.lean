import BasicWebserver.FileServer.Paths
import BasicWebserver.FileServer.Representation
import BasicWebserver.FileServer.Transfer
import BasicWebserver.Response.Lengths

/-!
# File responses

`prepare_and_stream` of `src/file_server.rs`: open the file that a plan names, decide on a coding, a
precondition status and a range, and stream the selected bytes. `file_response_framed` says that
what these decisions put in the status, the header fields and the body agrees, for every request and
every file.
-/

namespace BasicWebserver.FileServer

open Ascii Http Compression Response

/-! ## Plans and roots -/

structure FilePlan where
  rootId : Bytes
  relative : Bytes
  encodedUriPath : Bool
  disposition : Disposition
  cache : Option CachePolicy

/-- The plan of an application. -/
def FilePlan.authorized (rootId relative : Bytes) (disposition : Disposition)
    (cache : Option CachePolicy) : FilePlan :=
  { rootId, relative, encodedUriPath := false, disposition, cache }

/-- The plan of a native route. -/
def FilePlan.native (rootId relative : Bytes) (encodedUriPath : Bool)
    (cache : Option CachePolicy) : FilePlan :=
  { rootId, relative, encodedUriPath, disposition := .inline, cache }

def FilePlan.segments (plan : FilePlan) : Except PathError (List Bytes) :=
  pathSegments plan.encodedUriPath plan.relative

/-- A file that does not change while it is served. -/
structure RegularFile where
  content : Bytes
  modified : Option ℤ
  bound : content.length < 2 ^ 64

def RegularFile.length (file : RegularFile) : ℕ := file.content.length

inductive Opened
  | regular (file : RegularFile)
  /-- Something else, or its metadata cannot be read. -/
  | other

structure FileRoot where
  openRelativeFile : List Bytes → Option Opened
  cache : CachePolicy

/-! ## Prepared responses -/

structure Prepared where
  status : StatusCode
  headers : HeaderMap
  body : Option FileBody

instance : Body (Option FileBody) where
  sizeHint
    | none => some 0
    | some body => body.remaining
  empty := none

def Prepared.intoResponse (prepared : Prepared) : Http.Response (Option FileBody) :=
  ⟨prepared.status, prepared.headers, prepared.body⟩

def zeroLength : HeaderValue := ⟨ascii "0", by decide⟩

def notFound : Prepared :=
  ⟨StatusCode.notFound, Multimap.insert .empty HeaderName.contentLength zeroLength, none⟩

/-- The bytes of a file that follow a response. -/
structure Job where
  file : RegularFile
  start : ℕ
  length : ℕ
  contentCoding : Option ContentCoding

/-- What is said about the file: the header fields, the validator and the coding. -/
structure Selected where
  headers : HeaderMap
  etag : Bytes
  contentCoding : Option ContentCoding

section Prepare

variable (dates : HttpDate) (root : FileRoot) (plan : FilePlan) (method : Method)
  (requestHeaders : HeaderMap)

/-- The compressibility of a file does not depend on its validator. -/
def compressionEligible (headers : HeaderMap) (length : ℕ) : Bool :=
  !requestHeaders.contains HeaderName.range &&
    responseIsCompressible StatusCode.ok (headers.remove HeaderName.etag) length

def selectRepresentation (segments : List Bytes) (file : RegularFile) : Option Selected := do
  let etag := weakEtag file.length file.modified
  let headers ← representationHeaders dates (← segments.getLast?) file.length file.modified etag
    (plan.cache.getD root.cache) plan.disposition
  if compressionEligible requestHeaders headers file.length then
    let headers := varyOnAcceptEncoding headers
    match (AcceptedEncodings.fromHeaders requestHeaders).preferred with
    | none => some ⟨headers, etag, none⟩
    | some coding => do
      let etag := encodedEtag etag coding
      let headers ← put headers HeaderName.etag etag
      some ⟨applyContentCoding (headers.remove HeaderName.acceptRanges) coding none, etag,
        some coding⟩
  else some ⟨headers, etag, none⟩

/-- The response to a request whose precondition does not hold. -/
def preconditionResponse (status : StatusCode) (headers : HeaderMap) : Prepared :=
  let headers :=
    if status = StatusCode.notModified then
      ((headers.remove HeaderName.contentLength).remove HeaderName.contentType).remove
        HeaderName.contentDisposition
    else
      (headers.remove HeaderName.contentEncoding).insert HeaderName.contentLength zeroLength
  ⟨status, headers, none⟩

def unsatisfiableResponse (headers : HeaderMap) (length : ℕ) : Option Prepared := do
  let headers ← put headers HeaderName.contentRange (ascii "bytes */" ++ decimal length)
  some ⟨StatusCode.rangeNotSatisfiable, headers.insert HeaderName.contentLength zeroLength, none⟩

def contentRange (start stop length : ℕ) : Bytes :=
  ascii "bytes " ++ decimal start ++ ascii "-" ++ decimal stop ++ ascii "/" ++ decimal length

/-- The length of an encoded body is not known. -/
def remainingBytes (contentCoding : Option ContentCoding) (responseLength : ℕ) : Option ℕ :=
  match contentCoding with
  | none => some responseLength
  | some _ => none

/-- The selected bytes of the file, in a body unless the method is `HEAD` or there are none. -/
def selectedResponse (env : Surroundings) (selected : Selected) (file : RegularFile)
    (status : StatusCode) (headers : HeaderMap) (start responseLength : ℕ) :
    Option (Prepared × Option Job) := do
  let headers ← match selected.contentCoding with
    | none => put headers HeaderName.contentLength (decimal responseLength)
    | some _ => some headers
  if method = .head || responseLength = 0 then some (⟨status, headers, none⟩, none)
  else if !env.seekSucceeds then some (notFound, none)
  else
    some (⟨status, headers, some ⟨remainingBytes selected.contentCoding responseLength⟩⟩,
      some ⟨file, start, responseLength, selected.contentCoding⟩)

def prepareFile (env : Surroundings) (selected : Selected) (file : RegularFile) :
    Option (Prepared × Option Job) :=
  match preconditionStatus dates requestHeaders selected.etag file.modified method with
  | some status => some (preconditionResponse status selected.headers, none)
  | none =>
    let selectedRange :=
      if ifRangeAllows dates requestHeaders selected.etag file.modified then
        parseRange requestHeaders file.length
      else .ignore
    match selectedRange with
    | .ignore =>
      selectedResponse method env selected file StatusCode.ok selected.headers 0 file.length
    | .unsatisfiable => do
      some (← unsatisfiableResponse selected.headers file.length, none)
    | .range start stop => do
      let headers ← put selected.headers HeaderName.contentRange
        (contentRange start stop file.length)
      selectedResponse method env selected file StatusCode.partialContent headers start
        (stop - start + 1)

/-- The response and the bytes to stream after it; `none` is a panic. -/
def prepare (env : Surroundings) : Option (Prepared × Option Job) :=
  match plan.segments with
  | .error _ => some (notFound, none)
  | .ok segments =>
    match root.openRelativeFile segments with
    | none | some .other => some (notFound, none)
    | some (.regular file) => do
      let selected ← selectRepresentation dates root plan requestHeaders segments file
      prepareFile dates method requestHeaders env selected file

end Prepare

/-- A response and what its body gives out. -/
structure Transfer where
  prepared : Prepared
  streamed : Streamed

def stream (env : Surroundings) (chunkBytes : ChunkBytes) : Option Job → Streamed
  | none => ⟨[], [], true⟩
  | some job =>
    if env.responseTaken then
      streamFile env job.file.content job.start job.length chunkBytes job.contentCoding
    else ⟨[], [], false⟩

def prepareAndStream (dates : HttpDate) (root : FileRoot) (plan : FilePlan) (method : Method)
    (requestHeaders : HeaderMap) (chunkBytes : ChunkBytes) (env : Surroundings) :
    Option Transfer := do
  let (prepared, job) ← prepare dates root plan method requestHeaders env
  some ⟨prepared, stream env chunkBytes job⟩

end BasicWebserver.FileServer
