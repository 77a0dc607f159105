import BasicWebserver.Platform.Url.Authority

/-!
# URLs

The URL type of `platform/Url.roc` and its operations: parsing, serialisation, reference resolution,
path segments and query parameters.
-/

namespace BasicWebserver.Platform

structure Url where
  scheme : Url.Scheme
  host : Url.Str
  port : Option UInt16
  path : Url.Str
  query : Option Url.Str
  fragment : Option Url.Str
  deriving DecidableEq

end BasicWebserver.Platform

namespace BasicWebserver.Platform.Url

open Ascii Splitting

/-! ## Components -/

inductive Component
  | fragment
  | path
  | query
  deriving DecidableEq

def isForbidden (byte : UInt8) (kind : Component) : Bool :=
  let common :=
    byte ≤ 32 || byte = 127 || byte = 34 || byte = 60 || byte = 62 || byte = 92
  if common then true
  else
    match kind with
    | .path => byte = 35 || byte = 63
    | .query => byte = 35
    | .fragment => false

def validateComponentHelp (kind : Component) : Str → ℕ → Str → Except ParseErr Str
  | [], _, out => .ok out
  | byte :: rest, index, out =>
    if byte = 37 then
      match rest with
      | hi :: lo :: rest =>
        if isHex hi && isHex lo then
          validateComponentHelp kind rest (index + 3)
            (out ++ [37, asciiUpperHex hi, asciiUpperHex lo])
        else .error (.invalidPercentEncoding index)
      | _ => .error (.invalidPercentEncoding index)
    else if 127 < byte then
      validateComponentHelp kind rest (index + 1) (appendPercentByte out byte)
    else if isForbidden byte kind then .error (.invalidCharacter byte)
    else validateComponentHelp kind rest (index + 1) (out ++ [byte])

def validateComponent (raw : Str) (kind : Component) : Except ParseErr Str :=
  validateComponentHelp kind raw 0 []

def validateOptional (option : Option Str) (kind : Component) : Except ParseErr (Option Str) :=
  match option with
  | none => .ok none
  | some raw =>
    match validateComponent raw kind with
    | .ok value => .ok (some value)
    | .error err => .error err

/-- The part of a URL after its authority. -/
structure Suffix where
  path : Str
  query : Option Str
  fragment : Option Str

/-- What stands before a delimiter, and after it if it is there. -/
def cutAt (str : Str) (delimiter : UInt8) : Str × Option Str :=
  match splitFirst str [delimiter] with
  | some (before, after) => (before, some after)
  | none => (str, none)

/-- The fragment is cut off first, then the query. -/
def splitSuffix (suffix : Str) : Suffix :=
  let (beforeFragment, fragment) := cutAt suffix 35
  let (rawPath, query) := cutAt beforeFragment 63
  ⟨rawPath, query, fragment⟩

/-- The components of a reference, validated in the source's order. -/
def validateSuffix (raw : Suffix) : Except ParseErr Suffix := do
  let path ← validateComponent raw.path .path
  let query ← validateOptional raw.query .query
  let fragment ← validateOptional raw.fragment .fragment
  .ok ⟨path, query, fragment⟩

def parseSuffix (suffix : Str) : Except ParseErr Suffix :=
  let raw := splitSuffix suffix
  let pathInput := if raw.path.isEmpty then [47] else raw.path
  if !startsWith pathInput [47] then .error (.invalidCharacter (firstOrZero pathInput))
  else validateSuffix { raw with path := pathInput }

def parseRelative (reference : Str) : Except ParseErr Suffix := validateSuffix (splitSuffix reference)

/-! ## Paths -/

def isSingleDotSegment (segment : Str) : Bool := segment = [46] || segment = ascii "%2E"

def isDoubleDotSegment (segment : Str) : Bool :=
  segment = [46, 46] || segment = ascii ".%2E" || segment = ascii "%2E." || segment = ascii "%2E%2E"

def normalizeSegments : List Str → List Str → List Str
  | [], out => out
  | first :: rest, out =>
    if first = [] then normalizeSegments rest out
    else if isSingleDotSegment first then normalizeSegments rest out
    else if isDoubleDotSegment first then normalizeSegments rest out.dropLast
    else normalizeSegments rest (out ++ [first])

def normalizePath (pathStr : Str) : Str :=
  let rooted := if startsWith pathStr [47] then pathStr else 47 :: pathStr
  let trailing := endsWith rooted [47] || endsWith rooted [47, 46] || endsWith rooted [47, 46, 46]
  let normalized := normalizeSegments (splitOn [47] rooted) []
  let joined := 47 :: [47].intercalate normalized
  if trailing && joined ≠ [47] then joined ++ [47] else joined

def pathDirectory (pathStr : Str) : Str :=
  let parts := splitOn [47] pathStr
  if parts.length ≤ 2 then [47] else [47].intercalate parts.dropLast ++ [47]

/-! ## Absolute URLs -/

def firstDelimiter : Str → ℕ → ℕ
  | [], index => index
  | byte :: rest, index =>
    if byte = 47 || byte = 63 || byte = 35 then index else firstDelimiter rest (index + 1)

def splitAuthority (afterScheme : Str) : Str × Str :=
  let index := firstDelimiter afterScheme 0
  (afterScheme.take index, afterScheme.drop index)

def splitScheme (input : Str) : Except ParseErr (Str × Str) :=
  match splitFirst input [58, 47, 47] with
  | some parts => .ok parts
  | none => if contains input [58] then .error .missingAuthority else .error .missingScheme

def parseScheme (before : Str) : Except ParseErr Scheme :=
  let name := lower before
  if name = ascii "http" then .ok .http
  else if name = ascii "https" then .ok .https
  else .error (.unsupportedScheme name)

/-- `parse_absolute` once the scheme and the authority are split off. -/
def parseAfterScheme (scheme : Scheme) (authority suffix : Str) : Except ParseErr Url :=
  if authority.isEmpty then .error .emptyHost
  else if contains authority [64] then .error .credentialsNotAllowed
  else do
    let parsed ← parseAuthority authority scheme
    let components ← parseSuffix suffix
    .ok
      { scheme
        host := parsed.host
        port := parsed.port
        path := normalizePath components.path
        query := components.query
        fragment := components.fragment }

def parseAbsolute (input : Str) : Except ParseErr Url := do
  let (before, after) ← splitScheme input
  let scheme ← parseScheme before
  let (authority, suffix) := splitAuthority after
  parseAfterScheme scheme authority suffix

def parse (input : Str) : Except ParseErr Url := parseAbsolute input

def schemeStr : Scheme → Str
  | .http => ascii "http"
  | .https => ascii "https"

def queryStr : Option Str → Str
  | none => []
  | some value => 63 :: value

def fragmentStr : Option Str → Str
  | none => []
  | some value => 35 :: value

def serialize (url : Url) (includeFragment : Bool) : Str :=
  schemeStr url.scheme ++ [58, 47, 47] ++ url.host ++ portStr url.port ++ url.path ++
    queryStr url.query ++ if includeFragment then fragmentStr url.fragment else []

def toStr (url : Url) : Str := serialize url true

def isEq (left right : Url) : Bool := toStr left = toStr right

/-! ## Operations -/

/-- The URL of a relative reference. -/
def relativeTo (base : Url) (relative : Suffix) : Url :=
  { base with
    path :=
      if relative.path.isEmpty then base.path
      else if startsWith relative.path [47] then normalizePath relative.path
      else normalizePath (pathDirectory base.path ++ relative.path)
    query :=
      match relative.query with
      | some value => some value
      | none => if relative.path.isEmpty then base.query else none
    fragment := relative.fragment }

def resolveReference (base : Url) (reference : Str) : Except ParseErr Url :=
  let name := lower reference
  if startsWith name (ascii "http://") || startsWith name (ascii "https://") then
    parseAbsolute reference
  else if contains reference [58, 47, 47] || startsWith reference [47, 47] then .error .missingScheme
  else do
    let relative ← parseRelative reference
    .ok (relativeTo base relative)

def resolve (base : Url) (reference : Str) : Except ParseErr Url := resolveReference base reference

def withoutFragment (url : Url) : Url := { url with fragment := none }

def appendPathSegments (url : Url) (segments : List Str) : Url :=
  let suffix := [47].intercalate (segments.map percentEncode)
  let nextPath :=
    if suffix.isEmpty then url.path
    else if url.path = [47] then [47] ++ suffix
    else if endsWith url.path [47] then url.path ++ suffix
    else url.path ++ [47] ++ suffix
  { url with path := normalizePath nextPath }

def appendQueryParam (url : Url) (key value : Str) : Url :=
  let pair := formEncode key ++ [61] ++ formEncode value
  let nextQuery :=
    match url.query with
    | none => pair
    | some [] => pair
    | some existing => existing ++ [38] ++ pair
  { url with query := some nextQuery }

/-- One pair of `query_pairs`. -/
def decodePair (fromUtf8Lossy : Str → Str) (pair : Str) : Str × Str :=
  match splitFirst pair [61] with
  | some (before, after) => (formDecode fromUtf8Lossy before, formDecode fromUtf8Lossy after)
  | none => (formDecode fromUtf8Lossy pair, [])

def queryPairs (fromUtf8Lossy : Str → Str) (url : Url) : List (Str × Str) :=
  match url.query with
  | none => []
  | some [] => []
  | some query => (splitOn [38] query).map (decodePair fromUtf8Lossy)

def withQuery (url : Url) (option : Option Str) : Except ParseErr Url := do
  let query ← validateOptional option .query
  .ok { url with query }

def withFragment (url : Url) (option : Option Str) : Except ParseErr Url := do
  let fragment ← validateOptional option .fragment
  .ok { url with fragment }

end BasicWebserver.Platform.Url
