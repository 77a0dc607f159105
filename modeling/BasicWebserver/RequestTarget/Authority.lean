import BasicWebserver.Foundation.Percent
import BasicWebserver.Http.Request

/-!
# Authorities

`parse_authority` of `src/request_target.rs` and what it is made of. The parser of IPv6 addresses is
that of the standard library, a parameter here.
-/

namespace BasicWebserver.RequestTarget

open Ascii Http

/-- Why a request is not taken further: it is invalid, or the code has panicked. -/
inductive Failure
  | invalidRequestTarget
  | panic (message : String)
  deriving DecidableEq

inductive AuthoritySource
  | uri
  | host
  deriving DecidableEq

structure ParsedAuthority where
  source : AuthoritySource
  hostEnd : ℕ
  port : Option ℕ
  deriving DecidableEq

def invalid {α : Type} : Except Failure α := .error .invalidRequestTarget

def isUnreserved (byte : UInt8) : Bool := isAlphanumeric byte || byte ∈ [45, 46, 95, 126]

def isSubDelim (byte : UInt8) : Bool := byte ∈ [33, 36, 38, 39, 40, 41, 42, 43, 44, 59, 61]

def isIpvFutureChar (byte : UInt8) : Bool := isUnreserved byte || isSubDelim byte || byte = 58

def isHexDigit (byte : UInt8) : Bool := (Percent.hexValue byte).isSome

def validateUriComponent (allowSubDelims : Bool) : Bytes → Except Failure Unit
  | [] => .ok ()
  | byte :: rest =>
    if isUnreserved byte || (allowSubDelims && isSubDelim byte) then
      validateUriComponent allowSubDelims rest
    else match rest with
    | hi :: lo :: rest =>
      if byte = 37 && isHexDigit hi && isHexDigit lo then validateUriComponent allowSubDelims rest
      else invalid
    | [] | [_] => invalid

def validateRegName (host : Bytes) : Except Failure Unit :=
  if host = [] then invalid else validateUriComponent true host

/-- The texts before and after the first occurrence of a text. -/
def splitOnText (separator : Bytes) : Bytes → Option (Bytes × Bytes)
  | [] => if separator = [] then some ([], []) else none
  | byte :: rest =>
    match stripPrefix separator (byte :: rest) with
    | some after => some ([], after)
    | none => (splitOnText separator rest).map fun (before, after) => (byte :: before, after)

section Parser

variable (ipv6 : Bytes → Bool)

def validateIpLiteral (literal : Bytes) : Except Failure Unit :=
  match (stripPrefix (ascii "v") literal).or (stripPrefix (ascii "V") literal) with
  | some rest =>
    match splitOnce 46 rest with
    | none => invalid
    | some (version, address) =>
      if version = [] || !version.all isHexDigit || address = [] ||
          !address.all isIpvFutureChar then invalid
      else .ok ()
  | none =>
    match splitOnText (ascii "%25") literal with
    | some (address, zone) =>
      if !ipv6 address then invalid
      else if zone = [] then invalid
      else validateUriComponent false zone
    | none => if ipv6 literal then .ok () else invalid

def rfind (byte : UInt8) (raw : Bytes) : Option ℕ :=
  (raw.reverse.findIdx? (· = byte)).map fun i => raw.length - 1 - i

/-- Where the host ends. -/
def parseHostEnd (raw : Bytes) : Except Failure ℕ :=
  if raw.head? = some 91 then
    match raw.findIdx? (· = 93) with
    | none => invalid
    | some close => do
      validateIpLiteral ipv6 ((raw.take close).drop 1)
      .ok (close + 1)
  else do
    let stop := (rfind 58 raw).getD raw.length
    validateRegName (raw.take stop)
    .ok stop

def parsePort : Bytes → Except Failure (Option ℕ)
  | [] => .ok none
  | byte :: digits =>
    if byte ≠ 58 then invalid
    else if digits = [] then .ok none
    else if !digits.all isDigit then invalid
    else if ofDecimal digits ≤ 65535 then .ok (some (ofDecimal digits))
    else invalid

def parseAuthority (raw : Bytes) (source : AuthoritySource) : Except Failure ParsedAuthority :=
  if raw = [] || !raw.all (· < 128) || raw.contains 64 then invalid
  else do
    let hostEnd ← parseHostEnd ipv6 raw
    if hostEnd = 0 then invalid
    else do
      let port ← parsePort (raw.drop hostEnd)
      .ok ⟨source, hostEnd, port⟩

end Parser

end BasicWebserver.RequestTarget
