import Mathlib.Data.List.Sort
import BasicWebserver.FileServer.Serve

/-!
# The native router

`src/native_router.rs`: the routes that the host answers itself, checked and put into tables once at
startup. An exact route wins over a mount; among mounts the scan takes the first in a list sorted by
length.
-/

namespace BasicWebserver.NativeRouter

open Ascii Http FileServer Fallible

def maxNativeRoutes : ℕ := 128

def maxRoutePathBytes : ℕ := 4 * 1024

/-! ## Declarations -/

inductive FileRouteKind
  /-- A mount: the paths below it name files. -/
  | prefixed
  | exact
  deriving DecidableEq

structure FileRouteSpec where
  path : Bytes
  rootId : Bytes
  kind : FileRouteKind
  relative : Bytes
  cache : Option CachePolicy
  deriving DecidableEq

structure ReadinessRouteSpec where
  path : Bytes
  /-- The readiness lease that the route reports. -/
  readiness : ℕ
  deriving DecidableEq

structure Declarations where
  files : List FileRouteSpec
  liveness : List Bytes
  readiness : List ReadinessRouteSpec
  metrics : Option Bytes

/-- The file service, as far as routes depend on it. -/
structure FileService where
  roots : Bytes → Option FileRoot

/-! ## Errors -/

inductive RouteError
  | tooMany
  | countOverflowed
  | invalidPath (path : Bytes)
  | unexpectedRelative (path : Bytes)
  | undeclaredRoot (path rootId : Bytes)
  | invalidRelative (path : Bytes) (error : PathError)
  | duplicateExact (path : Bytes)
  | duplicatePrefix (path : Bytes)
  deriving DecidableEq

/-- The text of an error, given how texts are quoted. -/
def RouteError.text (quote : Bytes → String) : RouteError → String
  | tooMany => s!"at most {maxNativeRoutes} native routes may be declared"
  | countOverflowed => "native route count overflowed"
  | invalidPath path => s!"invalid native route path {quote path}"
  | unexpectedRelative path =>
    s!"static mount {quote path} supplied an unexpected relative file"
  | undeclaredRoot path rootId =>
    s!"native route {quote path} native route references undeclared file root {quote rootId}"
  | invalidRelative path error => s!"native route {quote path} {error.text}"
  | duplicateExact path => s!"duplicate exact native route {quote path}"
  | duplicatePrefix path => s!"duplicate native route prefix {quote path}"

/-! ## Activation -/

inductive ExactRoute
  | file (rootId relative : Bytes) (cache : Option CachePolicy)
  | liveness
  | readiness (readiness : ℕ)
  | metrics
  deriving DecidableEq

structure PrefixRoute where
  path : Bytes
  rootId : Bytes
  cache : Option CachePolicy
  deriving DecidableEq

/-- The routes declared so far; no path is there twice. -/
structure Tables where
  exact : List (Bytes × ExactRoute)
  prefixes : List PrefixRoute
  exactNodup : (exact.map Prod.fst).Nodup
  prefixesNodup : (prefixes.map PrefixRoute.path).Nodup

def hasDoubleSlash : Bytes → Bool
  | a :: b :: rest => (a = 47 && b = 47) || hasDoubleSlash (b :: rest)
  | _ => false

def isRoutePath (path : Bytes) : Bool :=
  path.head? = some 47
    && path.length ≤ maxRoutePathBytes
    && !(path.length > 1 && path.getLast? = some 47)
    && !hasDoubleSlash path
    && path.all (· < 128)
    && !path.any (fun b => b = 37 || b = 92 || b = 0 || b = 63)
    && (path.splitOn 47).tail.all fun segment =>
      !(segment = ascii "." || segment = ascii ".." || segment.head? = some 46)

def validateRoutePath (path : Bytes) : Except RouteError Unit :=
  if !isRoutePath path then .error (.invalidPath path) else .ok ()

/-- `relative` is given for an exact route. -/
def validateNativeRoute (files : FileService) (path rootId : Bytes) (relative : Option Bytes) :
    Except RouteError Unit :=
  if (files.roots rootId).isNone then .error (.undeclaredRoot path rootId)
  else match relative with
    | none => .ok ()
    | some relative =>
      match validateRelativePath relative with
      | .error e => .error (.invalidRelative path e)
      | .ok _ => .ok ()

theorem nodup_map_concat {α : Type} {key : α → Bytes} {l : List α} {a : α}
    (h : (l.map key).Nodup) (ha : ¬ l.any fun other => key other = key a) :
    ((l ++ [a]).map key).Nodup := by
  rw [List.map_append, List.map_singleton, ← List.concat_eq_append]
  refine List.Nodup.concat (fun hmem => ha ?_) h
  obtain ⟨other, hother, hkey⟩ := List.mem_map.mp hmem
  exact List.any_eq_true.mpr ⟨other, hother, decide_eq_true hkey⟩

def insertExact (t : Tables) (path : Bytes) (route : ExactRoute) : Except RouteError Tables :=
  if h : t.exact.any fun other => other.1 = path then .error (.duplicateExact path)
  else .ok
    { t with
      exact := t.exact ++ [(path, route)]
      exactNodup := nodup_map_concat t.exactNodup h }

def insertPrefix (t : Tables) (route : PrefixRoute) : Except RouteError Tables :=
  if h : t.prefixes.any fun other => other.path = route.path then
    .error (.duplicatePrefix route.path)
  else .ok
    { t with
      prefixes := t.prefixes ++ [route]
      prefixesNodup := nodup_map_concat t.prefixesNodup h }

def addFile (files : FileService) (t : Tables) (spec : FileRouteSpec) :
    Except RouteError Tables := do
  validateRoutePath spec.path
  let relative := if spec.kind = .exact then some spec.relative else none
  if spec.kind = .prefixed && spec.relative ≠ [] then .error (.unexpectedRelative spec.path)
  else do
    validateNativeRoute files spec.path spec.rootId relative
    match spec.kind with
    | .exact => insertExact t spec.path (.file spec.rootId spec.relative spec.cache)
    | .prefixed => insertPrefix t ⟨spec.path, spec.rootId, spec.cache⟩

def addExact (route : ExactRoute) (t : Tables) (path : Bytes) : Except RouteError Tables := do
  validateRoutePath path
  insertExact t path route

/-- Longer paths first, and paths of one length in order. -/
def Before (left right : PrefixRoute) : Prop :=
  right.path.length < left.path.length ∨
    right.path.length = left.path.length ∧ left.path ≤ right.path

instance : DecidableRel Before := fun left right => by unfold Before; infer_instance

structure Router where
  exact : List (Bytes × ExactRoute)
  prefixes : List PrefixRoute

def Declarations.count (d : Declarations) : ℕ :=
  d.files.length + d.liveness.length + d.readiness.length + d.metrics.toList.length

def activate (files : FileService) (d : Declarations) : Except RouteError Router := do
  if d.count ≥ 2 ^ 64 then .error .countOverflowed
  else if d.count > maxNativeRoutes then .error .tooMany
  else do
    let t ← d.files.foldlM (addFile files) ⟨[], [], List.nodup_nil, List.nodup_nil⟩
    let t ← d.liveness.foldlM (addExact .liveness) t
    let t ← d.readiness.foldlM (fun t spec => addExact (.readiness spec.readiness) t spec.path) t
    let t ← d.metrics.toList.foldlM (addExact .metrics) t
    .ok ⟨t.exact, t.prefixes.insertionSort Before⟩

/-! ## Routing -/

inductive ProbeKind
  | liveness
  | readiness
  deriving DecidableEq

def probeStatus (available : Bool) (method : Method) : StatusCode :=
  if method ≠ .get && method ≠ .head then StatusCode.methodNotAllowed
  else if available then StatusCode.ok
  else StatusCode.serviceUnavailable

def probeBody (kind : ProbeKind) (available : Bool) (method : Method) : Bytes :=
  if method ≠ .get && method ≠ .head then ascii "Method Not Allowed\n"
  else if available then
    match kind with
    | .liveness => ascii "OK\n"
    | .readiness => ascii "OK\n"
  else ascii "NOT READY\n"

theorem probeBody_bound (kind : ProbeKind) (available : Bool) (method : Method) :
    (probeBody kind available method).length < 2 ^ 64 := by
  unfold probeBody
  split_ifs
  · decide
  · cases kind <;> decide
  · decide

def probeResponse (kind : ProbeKind) (available : Bool) (method : Method) :
    Http.Response Buffer :=
  let status := probeStatus available method
  let body : Buffer := ⟨probeBody kind available method, probeBody_bound kind available method⟩
  let headers : HeaderMap := Multimap.insert .empty HeaderName.cacheControl
    ⟨ascii "no-store", by decide⟩
  let headers := headers.insert HeaderName.contentType
    ⟨ascii "text/plain; charset=utf-8", HeaderValue.valid_textPlain⟩
  let headers := headers.insert HeaderName.contentLength (HeaderValue.ofNat body.length)
  let headers :=
    if status = StatusCode.methodNotAllowed then
      headers.insert HeaderName.allow ⟨ascii "GET, HEAD", by decide⟩
    else headers
  ⟨status, headers, if method = .head then Body.empty else body⟩

inductive NativeMatch
  | file (plan : FilePlan)
  | probe (response : Http.Response Buffer)
  | metrics

/-- What the route of a path is answered with; `isReady` is the state of the readiness leases. -/
def ExactRoute.answer (isReady : ℕ → Bool) (method : Method) : ExactRoute → NativeMatch
  | file rootId relative cache => .file (FilePlan.native rootId relative false cache)
  | liveness => .probe (probeResponse .liveness true method)
  | readiness lease => .probe (probeResponse .readiness (isReady lease) method)
  | metrics => .metrics

def PrefixRoute.answer (route : PrefixRoute) (relative : Bytes) : NativeMatch :=
  .file (FilePlan.native route.rootId relative true route.cache)

/-- The first mount of the list that the path is under, with the rest of the path. -/
def firstMount (path : Bytes) : List PrefixRoute → Option (PrefixRoute × Bytes)
  | [] => none
  | route :: routes =>
    if route.path = [47] then (stripPrefix [47] path).map fun relative => (route, relative)
    else if path = route.path then some (route, [])
    else match (stripPrefix route.path path).bind (stripPrefix [47]) with
    | some relative => some (route, relative)
    | none => firstMount path routes

def Router.route (router : Router) (isReady : ℕ → Bool) (path : Bytes) (method : Method) :
    Option NativeMatch :=
  match router.exact.lookup path with
  | some route => some (route.answer isReady method)
  | none => (firstMount path router.prefixes).map fun found => found.1.answer found.2

end BasicWebserver.NativeRouter
