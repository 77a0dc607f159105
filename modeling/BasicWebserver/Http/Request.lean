import BasicWebserver.Http.Message

/-!
# HTTP requests

The head of a request as the `http` crate keeps it, with the addresses of its texts. The accessors
return parts of these texts, except that an empty path is shown as the literal `/`, which is not a
part of the request.
-/

namespace BasicWebserver.Http

open Ascii

/-- A `&str` or `&[u8]`: where it is and what it has. -/
structure Text where
  address : ℕ
  bytes : Bytes
  deriving DecidableEq

namespace Text

def length (t : Text) : ℕ := t.bytes.length

def take (n : ℕ) (t : Text) : Text := ⟨t.address, t.bytes.take n⟩

def drop (n : ℕ) (t : Text) : Text := ⟨t.address + n, t.bytes.drop n⟩

end Text

/-- The addresses of the literals that the crate returns for an empty path and an empty target. -/
structure Literals where
  path : ℕ
  asStr : ℕ

/-- A path with an optional query, divided by the first question mark. -/
structure PathAndQuery where
  data : Text
  deriving DecidableEq

namespace PathAndQuery

/-- The bytes before the first question mark. -/
def stored (t : PathAndQuery) : Text := t.data.take (t.data.bytes.takeWhile (· ≠ 63)).length

def path (lits : Literals) (t : PathAndQuery) : Text :=
  if t.stored.bytes = [] then ⟨lits.path, [47]⟩ else t.stored

def query (t : PathAndQuery) : Option Text :=
  if 63 ∈ t.data.bytes then some (t.data.drop (t.stored.length + 1)) else none

def asStr (lits : Literals) (t : PathAndQuery) : Text :=
  if t.data.bytes = [] then ⟨lits.asStr, [47]⟩ else t.data

end PathAndQuery

structure Uri where
  scheme : Option Bytes
  authority : Option Text
  pathAndQuery : Option PathAndQuery

def Uri.query (uri : Uri) : Option Text := uri.pathAndQuery.bind PathAndQuery.query

/-- A header value with its address. -/
structure StoredValue where
  value : HeaderValue
  address : ℕ

def StoredValue.asBytes (v : StoredValue) : Text := ⟨v.address, v.value.bytes⟩

def StoredValue.toStr (v : StoredValue) : Option Text :=
  v.value.toStr.map fun bytes => ⟨v.address, bytes⟩

abbrev RequestHeaders := Multimap HeaderName StoredValue

def Method.asStr : Method → Bytes
  | .get => ascii "GET"
  | .post => ascii "POST"
  | .put => ascii "PUT"
  | .delete => ascii "DELETE"
  | .head => ascii "HEAD"
  | .options => ascii "OPTIONS"
  | .trace => ascii "TRACE"
  | .connect => ascii "CONNECT"
  | .patch => ascii "PATCH"
  | .extension name => name

/-- `http::request::Parts`. -/
structure Parts where
  method : Method
  methodAddress : ℕ
  version : Version
  uri : Uri
  headers : RequestHeaders
  /-- Where the name of a field is. -/
  nameAddress : HeaderName → ℕ

namespace Parts

def methodText (parts : Parts) : Text := ⟨parts.methodAddress, parts.method.asStr⟩

def nameText (parts : Parts) (name : HeaderName) : Text := ⟨parts.nameAddress name, name.bytes⟩

end Parts

end BasicWebserver.Http
