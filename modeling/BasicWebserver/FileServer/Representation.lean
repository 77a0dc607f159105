import Mathlib.Algebra.Group.Int.Defs
import Mathlib.Data.Int.Notation
import BasicWebserver.Compression.Negotiation

/-!
# File representations

What a response says about a file and what a request asks of it (`src/file_server.rs`): the header
fields of the representation, its validator, the preconditions of RFC 9110 and the selected range.
Times are nanoseconds since the Unix epoch. Dates are printed and read by the `httpdate` crate,
which cannot print a date before 1970 or after the year 9999; a header value that cannot be built is
a panic, which is `none` here.
-/

namespace BasicWebserver.FileServer

open Ascii Http Compression

/-! ## Header values -/

inductive CachePolicy
  | noStore
  | revalidate
  | privateFor (maxAgeSeconds : ℕ)
  | publicFor (maxAgeSeconds : ℕ)
  deriving DecidableEq

def CachePolicy.headerValue : CachePolicy → Bytes
  | noStore => ascii "no-store"
  | revalidate => ascii "no-cache"
  | privateFor seconds => ascii "private, max-age=" ++ decimal seconds
  | publicFor seconds => ascii "public, max-age=" ++ decimal seconds

inductive Disposition
  | inline
  | attachment (name : List Char)
  deriving DecidableEq

def maxDownloadNameChars : ℕ := 150

def contentType (relative : Bytes) : Bytes :=
  let name := ((relative.splitOn 47).getLast?).getD []
  let extension := lower (((rsplitOnce 46 name).map Prod.snd).getD [])
  if extension = ascii "css" then ascii "text/css; charset=utf-8"
  else if extension = ascii "csv" then ascii "text/csv; charset=utf-8"
  else if extension = ascii "gif" then ascii "image/gif"
  else if extension = ascii "htm" || extension = ascii "html" then
    ascii "text/html; charset=utf-8"
  else if extension = ascii "ico" then ascii "image/x-icon"
  else if extension = ascii "jpeg" || extension = ascii "jpg" then ascii "image/jpeg"
  else if extension = ascii "js" || extension = ascii "mjs" then
    ascii "text/javascript; charset=utf-8"
  else if extension = ascii "json" then ascii "application/json"
  else if extension = ascii "pdf" then ascii "application/pdf"
  else if extension = ascii "png" then ascii "image/png"
  else if extension = ascii "svg" then ascii "image/svg+xml"
  else if extension = ascii "txt" then ascii "text/plain; charset=utf-8"
  else if extension = ascii "wasm" then ascii "application/wasm"
  else if extension = ascii "webp" then ascii "image/webp"
  else if extension = ascii "xml" then ascii "application/xml"
  else ascii "application/octet-stream"

/-- A character of the plain file name. -/
def fallbackByte (c : Char) : UInt8 :=
  let b := UInt8.ofNat c.toNat
  if c.toNat < 128 && (isAlphanumeric b || b ∈ [32, 45, 95, 46]) then b else 95

/-- Two hexadecimal digits in upper case. -/
def hexByte (b : UInt8) : Bytes :=
  let digit (n : UInt8) : UInt8 := if n < 10 then n + 48 else n + 55
  [digit (b / 16), digit (b % 16)]

def encodeNameByte (b : UInt8) : Bytes :=
  if isAlphanumeric b || b ∈ [45, 46, 95] then [b] else 37 :: hexByte b

def attachmentHeader (name : List Char) : Bytes :=
  let bounded := name.take maxDownloadNameChars
  let fallback := bounded.map fallbackByte
  let fallback := if fallback = [] then ascii "download" else fallback
  let encoded := (bounded.flatMap String.utf8EncodeChar).flatMap encodeNameByte
  ascii "attachment; filename=\"" ++ fallback ++ ascii "\"; filename*=UTF-8''" ++ encoded

def Disposition.headerValue : Disposition → Bytes
  | inline => ascii "inline"
  | attachment name => attachmentHeader name

def weakEtag (length : ℕ) (modified : Option ℤ) : Bytes :=
  let nanos := (modified.map Int.toNat).getD 0
  ascii "W/\"" ++ hex length ++ ascii "-" ++ hex nanos ++ ascii "\""

/-- The `httpdate` crate. -/
structure HttpDate where
  format : ℤ → Bytes
  parse : Bytes → Option ℤ

/-- `fmt_http_date`; it panics for a time that has no date. -/
def HttpDate.fmtHttpDate (dates : HttpDate) (time : ℤ) : Option Bytes :=
  if 0 ≤ time ∧ time < 253402300800 * 10 ^ 9 then some (dates.format time) else none

/-- Insert a field whose value is parsed; a value that is not valid is a panic. -/
def put (headers : HeaderMap) (name : HeaderName) (value : Bytes) : Option HeaderMap :=
  (HeaderValue.fromStr value).map (headers.insert name)

def putLastModified (dates : HttpDate) (headers : HeaderMap) :
    Option ℤ → Option HeaderMap
  | some modified => do put headers HeaderName.lastModified (← dates.fmtHttpDate modified)
  | none => some headers

def representationHeaders (dates : HttpDate) (relative : Bytes) (length : ℕ)
    (modified : Option ℤ) (etag : Bytes) (cache : CachePolicy) (disposition : Disposition) :
    Option HeaderMap := do
  let headers ← put .empty HeaderName.acceptRanges (ascii "bytes")
  let headers ← put headers HeaderName.cacheControl cache.headerValue
  let headers ← put headers HeaderName.contentLength (decimal length)
  let headers ← put headers HeaderName.contentType (contentType relative)
  let headers ← put headers HeaderName.etag etag
  let headers ← putLastModified dates headers modified
  put headers HeaderName.contentDisposition disposition.headerValue

/-! ## Preconditions -/

def stripWeak (value : Bytes) : Bytes := (stripPrefix (ascii "W/") value).getD value

def etagConditionMatches (headers : HeaderMap) (name : HeaderName) (current : Bytes)
    (weak : Bool) : Bool :=
  (AcceptedEncodings.texts headers name).any fun raw =>
    (raw.splitOn 44).any fun candidate =>
      let candidate := trim candidate
      candidate = ascii "*" ||
        if weak then
          stripWeak candidate = stripWeak current && candidate.getLast? = some 34 &&
            candidate.contains 34
        else !(ascii "W/").isPrefixOf candidate && candidate = current

def HttpDate.parseHttpDate (dates : HttpDate) (value : HeaderValue) : Option ℤ :=
  value.toStr.bind dates.parse

def unixSeconds (time : ℤ) : ℕ := time.toNat / 10 ^ 9

def isLater (left right : ℤ) : Bool := unixSeconds left > unixSeconds right

/-- The date in a field, compared with the modification time. -/
def dateCondition (dates : HttpDate) (headers : HeaderMap) (name : HeaderName)
    (modified : Option ℤ) (condition : ℤ → ℤ → Bool) : Bool :=
  match headers.get name, modified with
  | some value, some modified => (dates.parseHttpDate value).any (condition modified)
  | _, _ => false

def preconditionStatus (dates : HttpDate) (headers : HeaderMap) (etag : Bytes)
    (modified : Option ℤ) (method : Method) : Option StatusCode :=
  let failed :=
    if headers.contains HeaderName.ifMatch then
      !etagConditionMatches headers HeaderName.ifMatch etag false
    else dateCondition dates headers HeaderName.ifUnmodifiedSince modified isLater
  let reads := method = .get || method = .head
  if failed then some StatusCode.preconditionFailed
  else if headers.contains HeaderName.ifNoneMatch then
    if etagConditionMatches headers HeaderName.ifNoneMatch etag true then
      some (if reads then StatusCode.notModified else StatusCode.preconditionFailed)
    else none
  else if reads && dateCondition dates headers HeaderName.ifModifiedSince modified
      fun modified date => !isLater modified date then
    some StatusCode.notModified
  else none

def ifRangeAllows (dates : HttpDate) (headers : HeaderMap) (etag : Bytes)
    (modified : Option ℤ) : Bool :=
  match headers.get HeaderName.ifRange with
  | none => true
  | some value =>
    match value.toStr with
    | none => false
    | some raw =>
      if raw.head? = some 34 || (ascii "W/").isPrefixOf raw then
        !(ascii "W/").isPrefixOf raw && !(ascii "W/").isPrefixOf etag && raw = etag
      else match dates.parse raw, modified with
        | some date, some modified => !isLater modified date
        | _, _ => false

/-! ## Ranges -/

inductive RangeSelection
  | ignore
  | unsatisfiable
  | range (start stop : ℕ)
  deriving DecidableEq

/-- The text of the range field, if there is one range and it is in bytes. -/
def rangeSpec (headers : HeaderMap) : Option Bytes :=
  match headers.getAll HeaderName.range with
  | [value] => do
    let spec ← stripPrefix (ascii "bytes=") (← value.toStr)
    if spec.contains 44 then none else some spec
  | _ => none

def parseRange (headers : HeaderMap) (length : ℕ) : RangeSelection :=
  match (rangeSpec headers).bind (splitOnce 45) with
  | none => .ignore
  | some (first, last) =>
    if first = [] then
      match parseU64 last with
      | none => .ignore
      | some suffix =>
        if suffix = 0 || length = 0 then .unsatisfiable
        else .range (length - suffix) (length - 1)
    else
      match parseU64 first with
      | none => .ignore
      | some start =>
        if start ≥ length then .unsatisfiable
        else if last = [] then .range start (length - 1)
        else
          match parseU64 last with
          | none => .ignore
          | some stop => if start > stop then .ignore else .range start (min stop (length - 1))

theorem parseRange_bounds {headers : HeaderMap} {length start stop : ℕ}
    (h : parseRange headers length = .range start stop) : start ≤ stop ∧ stop < length := by
  unfold parseRange at h
  split at h
  · cases h
  split at h
  · split at h
    · cases h
    split at h
    · cases h
    · rename_i hempty
      cases h
      simp only [Bool.or_eq_true, decide_eq_true_eq, not_or] at hempty
      omega
  split at h
  · cases h
  split at h
  · cases h
  split at h
  · cases h
    omega
  split at h
  · cases h
  split at h
  · cases h
  · cases h
    omega

theorem parseRange_of_not_contains {headers : HeaderMap} {length : ℕ}
    (h : ¬ headers.contains HeaderName.range) : parseRange headers length = .ignore := by
  unfold parseRange rangeSpec
  rw [Multimap.getAll_eq_nil h]
  rfl

end BasicWebserver.FileServer
