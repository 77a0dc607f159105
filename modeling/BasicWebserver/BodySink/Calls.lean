import BasicWebserver.Foundation.Volume
import BasicWebserver.FileServer.Paths
import BasicWebserver.RequestBody.System

/-!
# Request bodies written to files

`BodySinkService::write_file` and `StagingFile` of `src/body_sink.rs`, for any number of calls at
once. A step of a call is one call of the file system, of `next_chunk` or of `stopping`; what they
answer is in the label. Creating a file and linking succeed only where there is no entry, and a call
of the file system that fails has no effect, except that a failed `write_all` may have written a part
of the chunk. The directories under the roots do not change.

The lease of a sink is its permit; the counters for diagnostics are left out.
-/

namespace BasicWebserver.BodySink

open Transition Ascii
open FileServer (validateRelativePath validateRelativePath_ok)
open RequestBody (BodyError u64Max)

inductive IoErrorKind
  | permissionDenied
  | storageFull
  | quotaExceeded
  | alreadyExists
  | other
  deriving DecidableEq

structure IoError where
  kind : IoErrorKind
  text : String
  deriving DecidableEq

inductive DigestKind
  | none
  | sha256
  deriving DecidableEq

structure SinkSuccess where
  bytesWritten : ℕ
  sha256 : Option Bytes
  deriving DecidableEq

inductive SinkError
  | body (error : BodyError)
  | saturated
  | stopping
  | destinationExists
  | invalidRoot
  | invalidRelativeFile
  | permissionDenied
  | storageFull
  | filesystem (detail : String)
  | publishFailed (detail : String)
  | cleanupFailed (detail : String)
  deriving DecidableEq

/-- The service, the directories under its roots and SHA-256. -/
structure Config (δ : Type) where
  roots : Bytes → Option δ
  child : δ → Bytes → Option δ
  maxConcurrent : ℕ
  sha256 : Bytes → Bytes
  /-- The `Debug` form of an error. -/
  debug : BodyError → String

/-- The `Display` form of an error. -/
def SinkError.display {δ : Type} (c : Config δ) : SinkError → String
  | body error => "request body failed: " ++ c.debug error
  | saturated => "request-body sink capacity is exhausted"
  | stopping => "server is stopping"
  | destinationExists => "destination already exists"
  | invalidRoot => "invalid or undeclared writable root"
  | invalidRelativeFile => "invalid relative file path"
  | permissionDenied => "filesystem permission denied"
  | storageFull => "filesystem storage is full"
  | filesystem detail => "filesystem failure: " ++ detail
  | publishFailed detail => "publication failure: " ++ detail
  | cleanupFailed detail => "staging cleanup failure: " ++ detail

def mapIoError (error : IoError) : SinkError :=
  match error.kind with
  | .permissionDenied => .permissionDenied
  | .storageFull | .quotaExceeded => .storageFull
  | .alreadyExists | .other => .filesystem error.text

/-! ## Calls -/

structure Arguments where
  rootId : Bytes
  relative : Bytes
  digest : DigestKind

/-- `StagingFile`, with the file that its entry is for. -/
structure StagingFile (δ : Type) where
  parent : δ
  name : Bytes
  file : ℕ

abbrev Result := Except SinkError SinkSuccess

/-- Where a call is. From `opening` on it holds a permit. -/
inductive Stage (δ : Type)
  /-- before the first `stopping` -/
  | entered
  /-- before `open_parent` -/
  | opening (root : δ) (parents : List Bytes) (destination : Bytes)
  /-- in `StagingFile::create`, with the attempts that are left -/
  | creating (parent : δ) (destination : Bytes) (attempts : ℕ)
  /-- before `stopping` in the loop -/
  | polling (staging : StagingFile δ) (destination : Bytes)
  /-- before `next_chunk` -/
  | pulling (staging : StagingFile δ) (destination : Bytes)
  /-- before `write_all` -/
  | writing (staging : StagingFile δ) (destination : Bytes) (chunk : Bytes)
  /-- before the last `stopping` -/
  | ending (staging : StagingFile δ) (destination : Bytes)
  /-- before `hard_link` -/
  | publishing (staging : StagingFile δ) (destination : Bytes)
  /-- before the `remove_file` of `cleanup`, in `fail_with_cleanup` or at the end -/
  | cleaning (staging : StagingFile δ) (destination : Bytes) (result : Result)
  /-- before the `remove_file` of `drop`, after that of `cleanup` has failed -/
  | dropping (staging : StagingFile δ) (detail : String)
  | returned (result : Result)

structure Call (δ : Type) where
  arguments : Arguments
  stage : Stage δ
  /-- What `next_chunk` returned. -/
  chunks : List Bytes
  bytesWritten : ℕ
  /-- What the hasher was given. -/
  hashed : Bytes

/-- What the calls share: the entries, each with the call that created it, if a call did, and the
free permits. -/
structure World (δ : Type) where
  volume : Volume (δ × Bytes) (Option ℕ) UInt8
  permits : ℕ

def stagingCreateAttempts : ℕ := 16

def stagingNameStart : Bytes := ascii ".basic-webserver-upload-"

def lowerHex (digit : UInt8) : UInt8 := if digit < 10 then 48 + digit else 87 + digit

/-- `random_staging_name`, from the random bytes. -/
def randomStagingName (random : Bytes) : Bytes :=
  stagingNameStart ++ random.flatMap fun byte => [lowerHex (byte / 16), lowerHex (byte % 16)]

/-- What a step of a call is given: the answers of the file system (an error or success), of
`next_chunk` and of `stopping`. -/
inductive Action
  | enter (stopping : Bool)
  | openParent (error : Option IoError)
  | create (random : Option Bytes) (error : Option IoError)
  | check (stopping : Bool)
  | nextChunk (chunk : Except BodyError (Option Bytes))
  | write (written : ℕ) (error : Option IoError)
  | link (error : Option IoError)
  | remove (error : Option IoError)

section Steps

variable {δ : Type} [DecidableEq δ] (c : Config δ)

/-- The directory with the given components under a root. -/
def Config.directory (root : δ) (parents : List Bytes) : Option δ :=
  parents.foldlM c.child root

/-- The place that a call is to write to. -/
def Config.target (arguments : Arguments) : Option (δ × Bytes) := do
  let root ← c.roots arguments.rootId
  let segments ← (validateRelativePath arguments.relative).toOption
  let destination ← segments.getLast?
  let parent ← c.directory root segments.dropLast
  some (parent, destination)

/-- The call returns and gives its permit back. -/
def release (result : Result) (w : World δ) (call : Call δ) : World δ × Call δ :=
  ({ w with permits := w.permits + 1 }, { call with stage := .returned result })

/-- `write_file` up to the permit. -/
def enter (stopping : Bool) (w : World δ) (call : Call δ) : World δ × Call δ :=
  let fail error := (w, { call with stage := .returned (.error error) })
  if stopping then fail .stopping
  else
    match c.roots call.arguments.rootId with
    | none => fail .invalidRoot
    | some root =>
      match h : validateRelativePath call.arguments.relative with
      | .error _ => fail .invalidRelativeFile
      | .ok segments =>
        if w.permits = 0 then fail .saturated
        else
          -- the `expect` after `split_last` holds
          let destination := segments.getLast (validateRelativePath_ok h).1.1
          ({ w with permits := w.permits - 1 },
            { call with stage := .opening root segments.dropLast destination })

/-- One turn of the loop in `StagingFile::create`. -/
def createStaging (id : ℕ) (parent : δ) (destination : Bytes) (attempts : ℕ)
    (random : Option Bytes) (error : Option IoError) (w : World δ) (call : Call δ) :
    Option (World δ × Call δ) :=
  let fail error := some (release (.error (mapIoError error)) w call)
  match attempts, random with
  | 0, _ => fail ⟨.alreadyExists, "failed to allocate a unique staging filename"⟩
  | _ + 1, none => fail ⟨.other, "operating-system randomness failed"⟩
  | attempts + 1, some random =>
    let name := randomStagingName random
    match error with
    | none =>
      (w.volume.create (parent, name) (some id)).map fun volume =>
        ({ w with volume },
          { call with stage := .polling ⟨parent, name, w.volume.next⟩ destination })
    | some error =>
      if error.kind = .alreadyExists then
        some (w, { call with stage := .creating parent destination attempts })
      else fail error

/-- `next_chunk` has answered. -/
def pull (staging : StagingFile δ) (destination : Bytes) (chunk : Except BodyError (Option Bytes))
    (call : Call δ) : Call δ :=
  match chunk with
  | .ok (some chunk) =>
    let call := { call with chunks := call.chunks ++ [chunk] }
    if call.bytesWritten + chunk.length > u64Max then
      { call with
        stage := .cleaning staging destination (.error (.filesystem "written-byte count overflow")) }
    else
      { call with
        stage := .writing staging destination chunk
        bytesWritten := call.bytesWritten + chunk.length }
  | .ok none => { call with stage := .ending staging destination }
  | .error error => { call with stage := .cleaning staging destination (.error (.body error)) }

/-- `write_all`, of which `written` bytes are done when it fails. -/
def write (staging : StagingFile δ) (destination chunk : Bytes) (written : ℕ)
    (error : Option IoError) (w : World δ) (call : Call δ) : World δ × Call δ :=
  match error with
  | none =>
    ({ w with volume := w.volume.append staging.file chunk },
      { call with stage := .polling staging destination, hashed := call.hashed ++ chunk })
  | some error =>
    ({ w with volume := w.volume.append staging.file (chunk.take written) },
      { call with stage := .cleaning staging destination (.error (mapIoError error)) })

/-- What the call returns when it has published its file. -/
def Call.success (call : Call δ) : SinkSuccess :=
  ⟨call.bytesWritten,
    if call.arguments.digest = .sha256 then some (c.sha256 call.hashed) else none⟩

/-- `publish` and what follows from its result. -/
def publish (id : ℕ) (staging : StagingFile δ) (destination : Bytes) (error : Option IoError)
    (w : World δ) (call : Call δ) : Option (World δ × Call δ) :=
  match error with
  | none =>
    (w.volume.link (staging.parent, staging.name) (staging.parent, destination) (some id)).map
      fun volume =>
        ({ w with volume }, { call with stage := .cleaning staging destination (.ok (call.success c)) })
  | some error =>
    let error := if error.kind = .alreadyExists then .destinationExists
      else .publishFailed error.text
    some (w, { call with stage := .cleaning staging destination (.error error) })

/-- The result when `cleanup` has failed. -/
def cleanupFailure (result : Result) (error : IoError) : String :=
  match result with
  | .ok _ => error.text
  | .error original =>
    original.display c ++ "; additionally failed to remove staging file: " ++ error.text

def cleanup (staging : StagingFile δ) (result : Result) (error : Option IoError) (w : World δ)
    (call : Call δ) : Option (World δ × Call δ) :=
  match error with
  | none =>
    (w.volume.remove (staging.parent, staging.name)).map fun volume =>
      release result { w with volume } call
  | some error => some (w, { call with stage := .dropping staging (cleanupFailure c result error) })

/-- `drop` of a staging file that is still there. -/
def dropStaging (staging : StagingFile δ) (detail : String) (error : Option IoError) (w : World δ)
    (call : Call δ) : Option (World δ × Call δ) :=
  let result := .error (.cleanupFailed detail)
  match error with
  | none =>
    (w.volume.remove (staging.parent, staging.name)).map fun volume =>
      release result { w with volume } call
  | some _ => some (release result w call)

/-- A step of the call with the given number. -/
def Call.step (id : ℕ) (action : Action) (w : World δ) (call : Call δ) :
    Option (World δ × Call δ) :=
  match call.stage, action with
  | .entered, .enter stopping => some (enter c stopping w call)
  | .opening _ _ _, .openParent (some error) => some (release (.error (mapIoError error)) w call)
  | .opening root parents destination, .openParent none =>
    (c.directory root parents).map fun parent =>
      (w, { call with stage := .creating parent destination stagingCreateAttempts })
  | .creating parent destination attempts, .create random error =>
    createStaging id parent destination attempts random error w call
  | .polling staging destination, .check stopping =>
    some (w, { call with
      stage := if stopping then .cleaning staging destination (.error .stopping)
        else .pulling staging destination })
  | .pulling staging destination, .nextChunk chunk => some (w, pull staging destination chunk call)
  | .writing staging destination chunk, .write written error =>
    some (write staging destination chunk written error w call)
  | .ending staging destination, .check stopping =>
    some (w, { call with
      stage := if stopping then .cleaning staging destination (.error .stopping)
        else .publishing staging destination })
  | .publishing staging destination, .link error => publish c id staging destination error w call
  | .cleaning staging _ result, .remove error => cleanup c staging result error w call
  | .dropping staging detail, .remove error => dropStaging staging detail error w call
  | _, _ => none

/-! ## The machine -/

/-- The files that are there before the first call. -/
structure Existing (δ : Type) where
  entries : δ × Bytes → Option ℕ
  contents : ℕ → Bytes
  next : ℕ
  fresh : ∀ p file, entries p = some file → file < next

def Existing.volume (existing : Existing δ) : Volume (δ × Bytes) (Option ℕ) UInt8 where
  entries := fun p => (existing.entries p).map fun file => ⟨file, none⟩
  contents := existing.contents
  next := existing.next

structure State (δ : Type) where
  world : World δ
  calls : List (Call δ)

inductive Label
  | call (arguments : Arguments)
  | act (index : ℕ) (action : Action)

def step (s : State δ) : Label → Option (State δ)
  | .call arguments => some { s with calls := s.calls ++ [⟨arguments, .entered, [], 0, []⟩] }
  | .act index action =>
    s.calls[index]?.bind fun call =>
      (call.step c index action s.world).map fun (world, call) =>
        { s with world, calls := s.calls.set index call }

/-- The service when it is activated. -/
def machine (existing : Existing δ) : Machine (State δ) Label :=
  ⟨⟨⟨existing.volume, c.maxConcurrent⟩, []⟩, step c⟩

end Steps

end BasicWebserver.BodySink
