import BasicWebserver.RequestTarget.Metadata

/-!
# Requests for Roc

`request_to_roc` and `request_to_roc_copied` of `src/http_server.rs`, up to the heap slot that the
first one needs. It counts the descriptors into the request that it makes, next to making them.

A Roc string is an owned copy, or a seamless slice: a pointer to bytes anywhere, with the allocation
that keeps them alive. Which of the two is a tag bit of the source's `RocStr`.
-/

namespace BasicWebserver.RequestParts

open Ascii Http RequestTarget

inductive RocStr
  | owned (bytes : Bytes)
  | seamless (allocation : ℕ) (text : Text)
  deriving DecidableEq

namespace RocStr

def empty : RocStr := .owned []

/-- `RocStr::from_str`. -/
def fromStr (value : Text) : RocStr := .owned value.bytes

def contents : RocStr → Bytes
  | .owned bytes => bytes
  | .seamless _ text => text.bytes

def refersTo (allocation : ℕ) : RocStr → Bool
  | .owned _ => false
  | .seamless allocation' _ => allocation' = allocation

end RocStr

/-! ## The record -/

structure ServerHeader (σ : Type) where
  name : σ
  value : σ

structure ServerRequest (σ : Type) where
  authorityHost : σ
  authorityPort : ℕ
  authorityPortPresent : Bool
  authorityPresent : Bool
  bodyHandle : ℕ
  bodyLimitBytes : ℕ
  contentLength : ℕ
  headers : List (ServerHeader σ)
  methodExt : σ
  targetAuthorityHost : σ
  targetAuthorityPort : ℕ
  targetAuthorityPortPresent : Bool
  targetPath : σ
  targetQuery : σ
  targetQueryPresent : Bool
  targetTag : ℕ
  contentLengthKnown : Bool
  method : ℕ

def ServerHeader.map {σ τ : Type} (f : σ → τ) (header : ServerHeader σ) : ServerHeader τ :=
  ⟨f header.name, f header.value⟩

def ServerRequest.map {σ τ : Type} (f : σ → τ) (request : ServerRequest σ) : ServerRequest τ :=
  { request with
    authorityHost := f request.authorityHost
    headers := request.headers.map (ServerHeader.map f)
    methodExt := f request.methodExt
    targetAuthorityHost := f request.targetAuthorityHost
    targetPath := f request.targetPath
    targetQuery := f request.targetQuery }

def ServerHeader.strings {σ : Type} (header : ServerHeader σ) : List σ := [header.name, header.value]

def ServerRequest.strings {σ : Type} (request : ServerRequest σ) : List σ :=
  request.methodExt :: request.headers.flatMap ServerHeader.strings ++
    [request.targetPath, request.targetQuery, request.targetAuthorityHost, request.authorityHost]

/-- The fields that say what the target is. -/
structure TargetFields (σ : Type) where
  tag : ℕ
  path : σ
  query : σ
  queryPresent : Bool
  authorityHost : σ
  authorityPort : ℕ
  authorityPortPresent : Bool

/-- The fields of the effective authority. -/
structure AuthorityFields (σ : Type) where
  present : Bool
  host : σ
  port : ℕ
  portPresent : Bool

/-- The arguments of the two functions besides the request. -/
structure BodyArguments where
  bodyHandle : ℕ
  bodyLimit : ℕ
  declaredLength : Option ℕ

def serverRequest {σ : Type} (body : BodyArguments) (methodTag : ℕ) (methodExt : σ)
    (headers : List (ServerHeader σ)) (target : TargetFields σ) (authority : AuthorityFields σ) :
    ServerRequest σ where
  authorityHost := authority.host
  authorityPort := authority.port
  authorityPortPresent := authority.portPresent
  authorityPresent := authority.present
  bodyHandle := body.bodyHandle
  bodyLimitBytes := body.bodyLimit
  contentLength := body.declaredLength.getD 0
  headers := headers
  methodExt := methodExt
  targetAuthorityHost := target.authorityHost
  targetAuthorityPort := target.authorityPort
  targetAuthorityPortPresent := target.authorityPortPresent
  targetPath := target.path
  targetQuery := target.query
  targetQueryPresent := target.queryPresent
  targetTag := target.tag
  contentLengthKnown := body.declaredLength.isSome
  method := methodTag

/-! ## Conversion -/

def methodToTag (method : Method) : ℕ :=
  match method with
  | .connect => 0
  | .delete => 1
  | .get => 3
  | .head => 4
  | .options => 5
  | .patch => 6
  | .post => 7
  | .put => 8
  | .trace => 9
  | .extension name => if name = ascii "QUERY" then 10 else 2

def requestHeadersAreUtf8 (headers : RequestHeaders) : Bool :=
  headers.toList.all fun (_, value) => value.toStr.isSome

/-- The header fields, with a string for each text. -/
def convertHeaders (string : Text → RocStr) (parts : Parts) :
    Except Failure (List (ServerHeader RocStr)) :=
  parts.headers.toList.mapM fun (name, value) => do
    let value ← expect "request headers are validated before Roc conversion" value.toStr
    .ok ⟨string (parts.nameText name), string value⟩

section Seamless

variable (lits : Literals) (allocation : ℕ) (parts : Parts) (m : RequestMetadata)

/-- `RequestPartsBacking::resource_path_is_backed`. -/
def resourcePathIsBacked : Bool := parts.uri.pathAndQuery.isSome

/-- The target and the descriptors it has. -/
def seamlessTarget : Except Failure (TargetFields RocStr × ℕ) :=
  match m.target with
  | .resource => do
    let path ← expect "validated resource target must have a path" (m.resourcePath lits parts.uri)
    let (path, references) :=
      if resourcePathIsBacked parts then (RocStr.seamless allocation path, 1)
      else (RocStr.fromStr path, 0)
    match m.resourceQuery parts.uri with
    | some query =>
      .ok (⟨0, path, .seamless allocation query, true, .empty, 0, false⟩, references + 1)
    | none => .ok (⟨0, path, .empty, false, .empty, 0, false⟩, references)
  | .authority => do
    let view ← m.targetAuthorityView parts.uri parts.headers
    let authority ← expect "validated authority target must have an authority" view
    .ok (⟨1, .empty, .empty, false, .seamless allocation authority.host, authority.port.getD 0,
      authority.port.isSome⟩, 1)
  | .asterisk => .ok (⟨2, .empty, .empty, false, .empty, 0, false⟩, 0)

def seamlessAuthority : Except Failure (AuthorityFields RocStr × ℕ) := do
  let view ← m.effectiveAuthorityView parts.uri parts.headers
  match view with
  | some authority =>
    .ok (⟨true, .seamless allocation authority.host, authority.port.getD 0, authority.port.isSome⟩, 1)
  | none => .ok (⟨false, .empty, 0, false⟩, 0)

/-- `request_to_roc` from the new backing on, with the count for `install`. -/
def requestToRocSeamless (body : BodyArguments) : Except Failure (ServerRequest RocStr × ℕ) := do
  let methodTag := methodToTag parts.method
  let (methodExt, methodReferences) :=
    if methodTag = 2 then (RocStr.seamless allocation parts.methodText, 1) else (RocStr.empty, 0)
  let headers ← convertHeaders (.seamless allocation) parts
  let (target, targetReferences) ← seamlessTarget lits allocation parts m
  let (authority, authorityReferences) ← seamlessAuthority allocation parts m
  .ok (serverRequest body methodTag methodExt headers target authority,
    methodReferences + headers.length * 2 + targetReferences + authorityReferences)

end Seamless

section Copied

variable (lits : Literals) (parts : Parts) (m : RequestMetadata)

def targetTag : TargetKind → ℕ
  | .resource => 0
  | .authority => 1
  | .asterisk => 2

/-- `map_or_else(RocStr::empty, from_str)`. -/
def copyOrEmpty (value : Option Text) : RocStr := value.elim .empty .fromStr

def requestToRocCopied (body : BodyArguments) : Except Failure (ServerRequest RocStr) := do
  let methodTag := methodToTag parts.method
  let methodExt := if methodTag = 2 then .fromStr parts.methodText else .empty
  let headers ← convertHeaders .fromStr parts
  let path := m.resourcePath lits parts.uri
  let query := m.resourceQuery parts.uri
  let targetAuthority ← m.targetAuthorityView parts.uri parts.headers
  let authority ← m.effectiveAuthorityView parts.uri parts.headers
  .ok (serverRequest body methodTag methodExt headers
    { tag := targetTag m.target
      path := copyOrEmpty path
      query := copyOrEmpty query
      queryPresent := query.isSome
      authorityHost := copyOrEmpty (targetAuthority.map AuthorityView.host)
      authorityPort := (targetAuthority.bind AuthorityView.port).getD 0
      authorityPortPresent := (targetAuthority.bind AuthorityView.port).isSome }
    { present := authority.isSome
      host := copyOrEmpty (authority.map AuthorityView.host)
      port := (authority.bind AuthorityView.port).getD 0
      portPresent := (authority.bind AuthorityView.port).isSome })

end Copied

end BasicWebserver.RequestParts
