import Mathlib.Data.FinEnum
import BasicWebserver.RequestTarget.Authority

/-!
# Validation of request targets

`RequestMetadata` of `src/request_target.rs`: what kind of target a request has and which authority
it is for, and the accessors that read the request again with what was found. These slice texts and
expect fields to be there; where Rust panics, they return the panic.
-/

namespace BasicWebserver.RequestTarget

open Ascii Http

inductive TargetKind
  | resource
  | authority
  | asterisk
  deriving DecidableEq

structure ParsedHostHeader where
  present : Bool
  authority : Option ParsedAuthority
  deriving DecidableEq

structure RequestMetadata where
  target : TargetKind
  targetAuthority : Option ParsedAuthority
  effectiveAuthority : Option ParsedAuthority
  deriving DecidableEq

structure AuthorityView where
  host : Text
  port : Option ℕ

def expect {α : Type} (message : String) (value : Option α) : Except Failure α :=
  value.elim (.error (.panic message)) .ok

/-- `&text[..stop]`, which panics past the end and inside a character. -/
def sliceTo (text : Text) (stop : ℕ) : Except Failure Text :=
  if stop ≤ text.length ∧ ∀ b, text.bytes[stop]? = some b → b < 128 ∨ 192 ≤ b then
    .ok (text.take stop)
  else .error (.panic "byte index out of bounds or not a char boundary")

/-! ## Accessors -/

namespace ParsedAuthority

def raw (a : ParsedAuthority) (uri : Uri) (headers : RequestHeaders) : Except Failure Text :=
  match a.source with
  | .uri => expect "validated URI authority must remain present" uri.authority
  | .host => do
    let value ← expect "validated Host header must remain present" (headers.get .host)
    expect "validated Host header must remain ASCII" value.toStr

def view (a : ParsedAuthority) (uri : Uri) (headers : RequestHeaders) :
    Except Failure AuthorityView := do
  let raw ← a.raw uri headers
  let host ← sliceTo raw a.hostEnd
  .ok ⟨host, a.port⟩

/-- The view of an authority, if there is one. -/
def viewOf (authority : Option ParsedAuthority) (uri : Uri) (headers : RequestHeaders) :
    Except Failure (Option AuthorityView) :=
  match authority with
  | none => .ok none
  | some authority => do
    let view ← authority.view uri headers
    .ok (some view)

end ParsedAuthority

def authoritiesEqual (left right : ParsedAuthority) (uri : Uri) (headers : RequestHeaders) :
    Except Failure Bool := do
  let left ← left.view uri headers
  let right ← right.view uri headers
  .ok (eqIgnoreCase left.host.bytes right.host.bytes && left.port = right.port)

section Literals

variable (lits : Literals)

namespace RequestMetadata

def resourcePath (m : RequestMetadata) (uri : Uri) : Option Text :=
  if m.target ≠ .resource then none
  else some ((uri.pathAndQuery.map (PathAndQuery.path lits)).getD ⟨lits.path, [47]⟩)

def resourceQuery (m : RequestMetadata) (uri : Uri) : Option Text :=
  if m.target ≠ .resource then none else uri.query

def normalizedTargetLen (m : RequestMetadata) (uri : Uri) : Except Failure ℕ :=
  match m.target with
  | .resource => .ok ((uri.pathAndQuery.map fun value => (value.asStr lits).length).getD 1)
  | .authority => do
    let authority ← expect "validated authority target must retain its authority" uri.authority
    .ok authority.length
  | .asterisk => .ok 1

/-- `target_authority`. -/
def targetAuthorityView (m : RequestMetadata) (uri : Uri) (headers : RequestHeaders) :
    Except Failure (Option AuthorityView) :=
  ParsedAuthority.viewOf m.targetAuthority uri headers

/-- `effective_authority`. -/
def effectiveAuthorityView (m : RequestMetadata) (uri : Uri) (headers : RequestHeaders) :
    Except Failure (Option AuthorityView) :=
  ParsedAuthority.viewOf m.effectiveAuthority uri headers

end RequestMetadata

/-! ## Validation -/

/-- The target is `*` with `OPTIONS`, or a path. -/
def classifyPath (method : Method) (path : Bytes) : Except Failure TargetKind :=
  if path = [42] then
    if method = .options then .ok .asterisk else invalid
  else if method = .connect || path.head? ≠ some 47 then invalid
  else .ok .resource

def classifyTarget (method : Method) (version : Version) (uri : Uri) :
    Except Failure TargetKind :=
  if version = .http2 then
    if method = .connect then
      if uri.scheme.isNone && uri.authority.isSome && uri.pathAndQuery.isNone then .ok .authority
      else invalid
    else
      match uri.pathAndQuery with
      | none => invalid
      | some value => classifyPath method (value.asStr lits).bytes
  else if uri.scheme.isSome then
    if method ≠ .connect && uri.authority.isSome then .ok .resource else invalid
  else if uri.authority.isSome then
    if method = .connect && uri.pathAndQuery.isNone then .ok .authority else invalid
  else
    match uri.pathAndQuery with
    | none => invalid
    | some value => classifyPath method (value.asStr lits).bytes

variable (ipv6 : Bytes → Bool)

def parseHostHeader (headers : RequestHeaders) : Except Failure ParsedHostHeader :=
  match headers.getAll .host with
  | [] => .ok ⟨false, none⟩
  | [value] =>
    match value.toStr with
    | none => invalid
    | some raw =>
      if raw.bytes = [] then .ok ⟨true, none⟩
      else do
        let authority ← parseAuthority ipv6 raw.bytes .host
        .ok ⟨true, some authority⟩
  | _ :: _ :: _ => invalid

def parseUriAuthority (uri : Uri) : Except Failure (Option ParsedAuthority) :=
  match uri.authority with
  | none => .ok none
  | some raw => do
    let authority ← parseAuthority ipv6 raw.bytes .uri
    .ok (some authority)

/-- What the version requires of the authorities. -/
def checkAuthorities (version : Version) (uriAuthority : Option ParsedAuthority)
    (host : ParsedHostHeader) (uri : Uri) (headers : RequestHeaders) :
    Except Failure (Option ParsedAuthority) :=
  match version with
  | .http11 => if !host.present then invalid else .ok (uriAuthority.or host.authority)
  | .http2 =>
    if host.present then
      match uriAuthority, host.authority with
      | some uriAuthority, some hostAuthority => do
        let equal ← authoritiesEqual uriAuthority hostAuthority uri headers
        if !equal then invalid else .ok (some uriAuthority)
      | some _, none => invalid
      | none, hostAuthority => .ok hostAuthority
    else .ok (uriAuthority.or host.authority)
  | .http10 => .ok (uriAuthority.or host.authority)
  | .http09 | .http3 => invalid

def validateComponents (method : Method) (version : Version) (uri : Uri)
    (headers : RequestHeaders) : Except Failure RequestMetadata := do
  let target ← classifyTarget lits method version uri
  let uriAuthority ← parseUriAuthority ipv6 uri
  let host ← parseHostHeader ipv6 headers
  let effectiveAuthority ← checkAuthorities version uriAuthority host uri headers
  let targetAuthority := if target = .authority then uriAuthority else none
  if target = .authority && targetAuthority.isNone then invalid
  else .ok ⟨target, targetAuthority, effectiveAuthority⟩

end Literals

end BasicWebserver.RequestTarget
