import BasicWebserver.Foundation.Ascii
import BasicWebserver.Foundation.Multimap

/-!
# HTTP messages

The types of the `http` crate that the host works with: methods, versions, status codes, header
names and values, header maps and responses. A name or value can only be built from bytes that the
crate accepts, so what reaches the wire is well formed by its type.
-/

namespace BasicWebserver

abbrev Bytes := List UInt8

namespace Http

open Ascii

inductive Method
  | get | post | put | delete | head | options | trace | connect | patch
  | extension (name : Bytes)
  deriving DecidableEq

inductive Version
  | http09 | http10 | http11 | http2 | http3
  deriving DecidableEq

/-! ## Status codes -/

structure StatusCode where
  code : ℕ
  valid : 100 ≤ code ∧ code < 1000
  deriving DecidableEq

namespace StatusCode

def fromU16 (code : ℕ) : Option StatusCode :=
  if h : 100 ≤ code ∧ code < 1000 then some ⟨code, h⟩ else none

def isInformational (s : StatusCode) : Bool := 100 ≤ s.code && s.code < 200

def isSuccess (s : StatusCode) : Bool := 200 ≤ s.code && s.code < 300

def ok : StatusCode := ⟨200, by decide⟩
def noContent : StatusCode := ⟨204, by decide⟩
def resetContent : StatusCode := ⟨205, by decide⟩
def partialContent : StatusCode := ⟨206, by decide⟩
def notModified : StatusCode := ⟨304, by decide⟩
def notFound : StatusCode := ⟨404, by decide⟩
def methodNotAllowed : StatusCode := ⟨405, by decide⟩
def preconditionFailed : StatusCode := ⟨412, by decide⟩
def rangeNotSatisfiable : StatusCode := ⟨416, by decide⟩
def serviceUnavailable : StatusCode := ⟨503, by decide⟩

theorem code_of_fromU16 {code : ℕ} {s : StatusCode} (h : fromU16 code = some s) : s.code = code := by
  unfold fromU16 at h
  split at h
  · cases h
    rfl
  · cases h

theorem eq_of_code {s s' : StatusCode} (h : s.code = s'.code) : s = s' := by
  cases s
  cases s'
  cases h
  rfl

end StatusCode

/-! ## Header names -/

/-- The characters of a token, with letters in lower case. -/
def isNameByte (b : UInt8) : Bool :=
  isDigit b || isLower b ||
    b ∈ [33, 35, 36, 37, 38, 39, 42, 43, 45, 46, 94, 95, 96, 124, 126]

structure HeaderName where
  bytes : Bytes
  valid : bytes ≠ [] ∧ bytes.length ≤ 65535 ∧ bytes.all isNameByte
  deriving DecidableEq

namespace HeaderName

/-- Letters are put in lower case. -/
def fromBytes (raw : Bytes) : Option HeaderName :=
  let bytes := lower raw
  if h : bytes ≠ [] ∧ bytes.length ≤ 65535 ∧ bytes.all isNameByte then some ⟨bytes, h⟩ else none

def acceptEncoding : HeaderName := ⟨ascii "accept-encoding", by decide⟩
def acceptRanges : HeaderName := ⟨ascii "accept-ranges", by decide⟩
def allow : HeaderName := ⟨ascii "allow", by decide⟩
def cacheControl : HeaderName := ⟨ascii "cache-control", by decide⟩
def contentDigest : HeaderName := ⟨ascii "content-digest", by decide⟩
def contentDisposition : HeaderName := ⟨ascii "content-disposition", by decide⟩
def contentEncoding : HeaderName := ⟨ascii "content-encoding", by decide⟩
def contentLength : HeaderName := ⟨ascii "content-length", by decide⟩
def contentMd5 : HeaderName := ⟨ascii "content-md5", by decide⟩
def contentRange : HeaderName := ⟨ascii "content-range", by decide⟩
def contentType : HeaderName := ⟨ascii "content-type", by decide⟩
def digest : HeaderName := ⟨ascii "digest", by decide⟩
def etag : HeaderName := ⟨ascii "etag", by decide⟩
def host : HeaderName := ⟨ascii "host", by decide⟩
def ifMatch : HeaderName := ⟨ascii "if-match", by decide⟩
def ifModifiedSince : HeaderName := ⟨ascii "if-modified-since", by decide⟩
def ifNoneMatch : HeaderName := ⟨ascii "if-none-match", by decide⟩
def ifRange : HeaderName := ⟨ascii "if-range", by decide⟩
def ifUnmodifiedSince : HeaderName := ⟨ascii "if-unmodified-since", by decide⟩
def lastModified : HeaderName := ⟨ascii "last-modified", by decide⟩
def range : HeaderName := ⟨ascii "range", by decide⟩
def vary : HeaderName := ⟨ascii "vary", by decide⟩

end HeaderName

/-! ## Header values -/

/-- Every byte but a control character; the tab is allowed. -/
def isValueByte (b : UInt8) : Bool := (32 ≤ b && b ≠ 127) || b = 9

@[ext] structure HeaderValue where
  bytes : Bytes
  valid : bytes.all isValueByte
  deriving DecidableEq

namespace HeaderValue

def fromStr (raw : Bytes) : Option HeaderValue :=
  if h : raw.all isValueByte then some ⟨raw, h⟩ else none

/-- The value as a text, if all its bytes are visible ASCII. -/
def toStr (value : HeaderValue) : Option Bytes :=
  if value.bytes.all isVisible then some value.bytes else none

theorem valid_textPlain : (ascii "text/plain; charset=utf-8").all isValueByte := by decide

theorem isValueByte_of_isDigit {b : UInt8} (h : isDigit b) : isValueByte b := by
  unfold isDigit at h
  unfold isValueByte
  simp only [Bool.and_eq_true, decide_eq_true_eq, Bool.or_eq_true, UInt8.le_iff_toNat_le,
    UInt8.reduceToNat] at h ⊢
  refine .inl ⟨by omega, fun hb => ?_⟩
  rw [hb] at h
  exact absurd h.2 (by decide)

/-- The value that prints a number. -/
def ofNat (n : ℕ) : HeaderValue where
  bytes := decimal n
  valid := List.all_eq_true.mpr fun _ hb => isValueByte_of_isDigit (isDigit_of_mem_decimal hb)

end HeaderValue

/-! ## Messages -/

abbrev HeaderMap := Multimap HeaderName HeaderValue

/-- What a message says about its body: the exact length, if it is known. -/
class Body (β : Type) where
  sizeHint : β → Option ℕ
  empty : β

structure Response (β : Type) where
  status : StatusCode
  headers : HeaderMap
  body : β

/-- Bytes in memory: their number is a machine word. -/
structure Buffer where
  bytes : Bytes
  bound : bytes.length < 2 ^ 64

def Buffer.length (b : Buffer) : ℕ := b.bytes.length

instance : Body Buffer where
  sizeHint b := some b.length
  empty := ⟨[], by decide⟩

end Http

end BasicWebserver
