import BasicWebserver.Http.Message

/-!
# Content codings of responses

Which coding the host applies to a response (`src/compression.rs`): the weights of an
`Accept-Encoding` field, the responses that may be encoded, and the header fields that change when
one is.
-/

namespace BasicWebserver.Compression

open Ascii Http

inductive ContentCoding
  | zstandard | brotli | gzip
  deriving DecidableEq

namespace ContentCoding

def asStr : ContentCoding → Bytes
  | zstandard => ascii "zstd"
  | brotli => ascii "br"
  | gzip => ascii "gzip"

/-- The name of the coding as a header value. -/
def value (c : ContentCoding) : HeaderValue where
  bytes := c.asStr
  valid := by cases c <;> decide

end ContentCoding

def minCompressionBytes : ℕ := 1024

def maxBufferedCompressionBytes : ℕ := 8 * 1024 * 1024

/-! ## Accepted encodings -/

/-- Thousandths. -/
def parseQuality (raw : Bytes) : Option ℕ :=
  let (whole, fractional) := (splitOnce 46 raw).getD (raw, [])
  if fractional.length > 3 || !fractional.all isDigit then none
  else if whole = ascii "0" then some (ofDecimal fractional * 10 ^ (3 - fractional.length))
  else if whole = ascii "1" && fractional.all (· = 48) then some 1000
  else none

structure EncodingMember where
  name : Bytes
  weight : ℕ
  deriving DecidableEq

def isTokenByte (b : UInt8) : Bool :=
  isAlphanumeric b || b = 33 || (35 ≤ b && b ≤ 39) || b ∈ [42, 43, 45, 46, 94, 95, 96, 124, 126]

/-- The weight after one parameter, of which the last one counts. -/
def parseParameter (parameter : Bytes) : Option ℕ := do
  let (name, value) ← splitOnce 61 (trim parameter)
  if eqIgnoreCase (trim name) (ascii "q") then parseQuality (trim value) else none

def parseMember (raw : Bytes) : Option EncodingMember :=
  match raw.splitOn 59 with
  | [] => none
  | first :: parameters =>
    let name := trim first
    if name = [] || !name.all isTokenByte then none
    else do
      let weight ← parameters.foldlM (fun _ parameter => parseParameter parameter) 1000
      some { name, weight }

/-- The greatest weight of each name seen so far. -/
structure Weights where
  zstandard : Option ℕ
  brotli : Option ℕ
  gzip : Option ℕ
  identity : Option ℕ
  wildcard : Option ℕ

def raise (target : Option ℕ) (weight : ℕ) : Option ℕ := some (max (target.getD 0) weight)

def Weights.add (w : Weights) (member : EncodingMember) : Weights :=
  if eqIgnoreCase member.name (ascii "zstd") then
    { w with zstandard := raise w.zstandard member.weight }
  else if eqIgnoreCase member.name (ascii "br") then
    { w with brotli := raise w.brotli member.weight }
  else if eqIgnoreCase member.name (ascii "gzip") || eqIgnoreCase member.name (ascii "x-gzip") then
    { w with gzip := raise w.gzip member.weight }
  else if eqIgnoreCase member.name (ascii "identity") then
    { w with identity := raise w.identity member.weight }
  else if member.name = ascii "*" then { w with wildcard := raise w.wildcard member.weight }
  else w

structure AcceptedEncodings where
  present : Bool
  zstandard : ℕ
  brotli : ℕ
  gzip : ℕ
  identity : ℕ
  identityExplicit : Bool
  deriving DecidableEq

namespace AcceptedEncodings

/-- The texts of the values of a field, those that are not ASCII left out. -/
def texts (headers : HeaderMap) (name : HeaderName) : List Bytes :=
  (headers.getAll name).filterMap HeaderValue.toStr

def fromHeaders (headers : HeaderMap) : AcceptedEncodings :=
  if !headers.contains HeaderName.acceptEncoding then
    { present := false, zstandard := 0, brotli := 0, gzip := 0, identity := 1000,
      identityExplicit := false }
  else
    let members := (texts headers HeaderName.acceptEncoding).flatMap fun value =>
      (value.splitOn 44).filterMap parseMember
    let w := members.foldl Weights.add ⟨none, none, none, none, none⟩
    let wildcard := w.wildcard.getD 0
    { present := true
      zstandard := w.zstandard.getD wildcard
      brotli := w.brotli.getD wildcard
      gzip := w.gzip.getD wildcard
      identity := w.identity.getD (if w.wildcard = some 0 then 0 else 1000)
      identityExplicit := w.identity.isSome }

/-- The first coding of the greatest weight, unless the client prefers the identity. -/
def preferred (accepted : AcceptedEncodings) : Option ContentCoding :=
  if !accepted.present then none
  else
    let (selected, weight) :=
      [(ContentCoding.zstandard, accepted.zstandard), (.brotli, accepted.brotli),
        (.gzip, accepted.gzip)].foldl
      (fun best candidate => if candidate.2 > best.2 then (some candidate.1, candidate.2) else best)
      ((none : Option ContentCoding), 0)
    if weight = 0 || (accepted.identityExplicit && accepted.identity > weight) then none
    else selected

end AcceptedEncodings

/-! ## Compressible responses -/

open AcceptedEncodings (texts)

def cacheControlHasNoTransform (headers : HeaderMap) : Bool :=
  (texts headers HeaderName.cacheControl).any fun value =>
    (value.splitOn 44).any fun directive => eqIgnoreCase (trim directive) (ascii "no-transform")

/-- The media types, besides images, audio, video and fonts, that are compressed already. -/
def incompressibleTypes : List Bytes :=
  [ascii "application/gzip", ascii "application/octet-stream", ascii "application/pdf",
    ascii "application/x-7z-compressed", ascii "application/x-bzip2", ascii "application/x-gzip",
    ascii "application/x-rar-compressed", ascii "application/zip", ascii "application/zstd"]

def contentTypeIsCompressible (headers : HeaderMap) : Bool :=
  match (headers.get HeaderName.contentType).bind HeaderValue.toStr with
  | none => true
  | some raw =>
    let mediaType := lower (trim ((raw.splitOn 59).headD []))
    if mediaType = ascii "image/svg+xml" then true
    else if (ascii "image/").isPrefixOf mediaType || (ascii "audio/").isPrefixOf mediaType ||
        (ascii "video/").isPrefixOf mediaType || (ascii "font/").isPrefixOf mediaType then false
    else mediaType ∉ incompressibleTypes

def responseIsCompressible (status : StatusCode) (headers : HeaderMap) (bodyBytes : ℕ) : Bool :=
  minCompressionBytes ≤ bodyBytes
    && !status.isInformational
    && status ≠ StatusCode.noContent
    && status ≠ StatusCode.resetContent
    && status ≠ StatusCode.notModified
    && status ≠ StatusCode.partialContent
    && !headers.contains HeaderName.contentEncoding
    && !headers.contains HeaderName.contentRange
    && !headers.contains HeaderName.etag
    && !headers.contains HeaderName.contentMd5
    && !headers.contains HeaderName.digest
    && !headers.contains HeaderName.contentDigest
    && !cacheControlHasNoTransform headers
    && contentTypeIsCompressible headers

/-! ## Header fields of an encoded response -/

def acceptEncodingValue : HeaderValue := ⟨ascii "Accept-Encoding", by decide⟩

def alreadyVaries (headers : HeaderMap) : Bool :=
  (texts headers HeaderName.vary).any fun value =>
    (value.splitOn 44).any fun name =>
      trim name = ascii "*" || eqIgnoreCase (trim name) (ascii "accept-encoding")

def varyOnAcceptEncoding (headers : HeaderMap) : HeaderMap :=
  if !alreadyVaries headers then headers.append HeaderName.vary acceptEncodingValue else headers

def applyContentCoding (headers : HeaderMap) (coding : ContentCoding)
    (encodedLength : Option ℕ) : HeaderMap :=
  let headers := (varyOnAcceptEncoding headers).insert HeaderName.contentEncoding coding.value
  match encodedLength with
  | some length => headers.insert HeaderName.contentLength (HeaderValue.ofNat length)
  | none => headers.remove HeaderName.contentLength

/-- The validator of the encoded representation: the name of the coding goes before the last quote. -/
def encodedEtag (etag : Bytes) (coding : ContentCoding) : Bytes :=
  if etag.getLast? = some 34 then etag.dropLast ++ ascii "-" ++ coding.asStr ++ ascii "\""
  else etag

section Lemmas

variable {headers : HeaderMap} {name : HeaderName}

theorem of_responseIsCompressible {status : StatusCode} {bodyBytes : ℕ}
    (h : responseIsCompressible status headers bodyBytes) :
    minCompressionBytes ≤ bodyBytes ∧ status ≠ StatusCode.noContent ∧
      status ≠ StatusCode.resetContent ∧ status ≠ StatusCode.notModified ∧
      headers.getAll HeaderName.contentEncoding = [] := by
  unfold responseIsCompressible at h
  simp only [Bool.and_eq_true, decide_eq_true_eq, Bool.not_eq_true', and_assoc] at h
  obtain ⟨hbytes, -, h204, h205, h304, -, hencoding, -⟩ := h
  exact ⟨hbytes, h204, h205, h304, Multimap.getAll_eq_nil (by rw [hencoding]; rintro ⟨⟩)⟩

theorem getAll_varyOnAcceptEncoding (h : name ≠ HeaderName.vary) :
    (varyOnAcceptEncoding headers).getAll name = headers.getAll name := by
  unfold varyOnAcceptEncoding
  split_ifs
  · exact Multimap.getAll_append_ne h
  · rfl

theorem prefix_getAll_varyOnAcceptEncoding :
    headers.getAll name <+: (varyOnAcceptEncoding headers).getAll name := by
  by_cases h : name = HeaderName.vary
  · subst h
    unfold varyOnAcceptEncoding
    split_ifs
    · rw [Multimap.getAll_append_self]
      exact List.prefix_append _ _
    · exact List.prefix_rfl
  · exact (getAll_varyOnAcceptEncoding h).symm ▸ List.prefix_rfl

theorem getAll_applyContentCoding_none {coding : ContentCoding} :
    (applyContentCoding headers coding none).getAll name =
      if name = HeaderName.contentLength then []
      else if name = HeaderName.contentEncoding then [coding.value]
      else (varyOnAcceptEncoding headers).getAll name := by
  unfold applyContentCoding
  split_ifs with hlength hencoding
  · rw [hlength]
    exact Multimap.getAll_remove_self
  · rw [hencoding]
    exact (Multimap.getAll_remove_ne (by decide)).trans Multimap.getAll_insert_self
  · exact (Multimap.getAll_remove_ne hlength).trans (Multimap.getAll_insert_ne hencoding)

end Lemmas

end BasicWebserver.Compression
