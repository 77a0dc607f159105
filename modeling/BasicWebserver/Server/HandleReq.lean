import BasicWebserver.NativeRouter.Router
import BasicWebserver.RocExecutor.State
import BasicWebserver.Telemetry.Requests

/-!
# Handling a request

`handle_req` of `src/http_server.rs`, from the guard of the request to the tracked response. What it
asks the rest of the server for is in `Outcomes`: whether a guard is issued, the route, the admission
by the executor, what Roc returns, and so on. What it does on the way is a list of effects.

Inside the branch that calls Roc, `body_idle_timeout` is the timeout of the request body, and two
returns of that branch give it to the response (`timeout_of_response_iff`).
-/

namespace BasicWebserver.Sse

open RocExecutor (SubmitError)

/-- How a call of the application can fail. -/
inductive RocExecutionError
  | panic
  deriving DecidableEq

/-- `SseTransitionError`. -/
inductive TransitionError
  | admission (error : SubmitError)
  | queueTimedOut
  | cancelled
  | invalidWait (actual limit : UInt64)
  | panic
  | application (error : String)
  | oversized (actual limit : ℕ)
  deriving DecidableEq

end BasicWebserver.Sse

namespace BasicWebserver.Server

open Ascii Http Response Compression Telemetry
open NativeRouter (NativeMatch)
open FileServer (FilePlan)
open RocExecutor (AdmissionClass SubmitError)
open Sse (RocExecutionError TransitionError)

/-! ## Responses of the host -/

/-- A response body: `full_body`, and whether the end of the stream is reached. -/
class ServerBody (β : Type) extends Body β where
  full : Bytes → β
  isEndStream : β → Bool
  sizeHint_full : ∀ bytes, sizeHint (full bytes) = some bytes.length

section

variable {β : Type} [ServerBody β]

def textResponse (status : StatusCode) (text : Bytes) : Http.Response β :=
  ⟨status, .empty, ServerBody.full text⟩

def serviceUnavailable : Http.Response β :=
  textResponse StatusCode.serviceUnavailable (ascii "Server is shutting down")

def overloaded : Http.Response β :=
  textResponse StatusCode.serviceUnavailable (ascii "Server is overloaded")

def noAcceptableSseContentCoding : Http.Response β :=
  let response : Http.Response β :=
    textResponse ⟨406, by decide⟩ (ascii "No acceptable SSE content coding")
  { response with headers := varyOnAcceptEncoding response.headers }

def handlerQueueTimedOut : Http.Response β :=
  textResponse StatusCode.serviceUnavailable (ascii "Server handler queue wait timed out")

def invalidRequestHeaders : Http.Response β :=
  textResponse ⟨400, by decide⟩ (ascii "Request header values must be valid UTF-8")

def invalidRequestTarget : Http.Response β :=
  textResponse ⟨400, by decide⟩ (ascii "Invalid request target or authority")

inductive RequestMetadataRejection
  | targetTooLong (limit : ℕ)
  | headersTooLarge (byteLimit fieldLimit : ℕ)

def rejectRequestMetadata : RequestMetadataRejection → Http.Response β
  | .targetTooLong limit => textResponse ⟨414, by decide⟩
    (ascii "Request target exceeds the " ++ decimal limit ++ ascii "-byte limit")
  | .headersTooLarge byteLimit fieldLimit => textResponse ⟨431, by decide⟩
    (ascii "Request headers exceed the " ++ decimal byteLimit ++ ascii "-byte or " ++
      decimal fieldLimit ++ ascii "-field limit")

def payloadTooLarge (limit : ℕ) : Http.Response β :=
  textResponse ⟨413, by decide⟩
    (ascii "Request body exceeds the " ++ decimal limit ++ ascii "-byte limit")

/-- The response of `safe_internal_server_error` before it is finalized. -/
def internalServerError : Http.Response β where
  status := ⟨500, by decide⟩
  headers := Multimap.insert .empty HeaderName.contentType
    ⟨ascii "text/plain; charset=utf-8", HeaderValue.valid_textPlain⟩
  body := ServerBody.full (ascii "500 Internal Server Error")

omit [ServerBody β] in
theorem lengthRule_of_error {status : StatusCode} (h : 400 ≤ status.code)
    (request : RequestSemantics) : lengthRule status request = .ok .representation := by
  have hinformational : status.isInformational = false := by
    simp only [StatusCode.isInformational, Bool.and_eq_false_iff, decide_eq_false_iff_not]
    omega
  have hsuccess : status.isSuccess = false := by
    simp only [StatusCode.isSuccess, Bool.and_eq_false_iff, decide_eq_false_iff_not]
    omega
  have hne (other : StatusCode) (hother : other.code < 400) : status ≠ other := by
    rintro rfl
    omega
  unfold lengthRule
  rw [hinformational, hsuccess, Bool.and_false, if_neg (by decide), if_neg (by decide),
    decide_eq_false (hne StatusCode.noContent (by decide)),
    decide_eq_false (hne StatusCode.notModified (by decide))]
  rfl

theorem supplies_internalServerError (request : RequestSemantics) :
    Supplies request (internalServerError : Http.Response β) .representation none := by
  refine ⟨?_, fun name hname => ?_, ?_, ?_⟩
  · exact lengthRule_of_error (Nat.le_add_right 400 100) request
  · by_cases hne : name = HeaderName.contentType
    · rw [hne]
      decide
    · refine absurd ?_ hname
      exact (Multimap.getAll_insert_ne hne).trans Multimap.getAll_empty
  · exact (Multimap.getAll_insert_ne (by decide)).trans Multimap.getAll_empty
  · rintro length ⟨⟩

theorem finalize_internalServerError (request : RequestSemantics) :
    (finalizeResponse (internalServerError : Http.Response β) request).toOption.isSome = true := by
  have hsize : Body.sizeHint (internalServerError : Http.Response β).body = some 25 :=
    ServerBody.sizeHint_full _
  rw [(supplies_internalServerError request).finalizeResponse_eq (by rintro ⟨⟩)]
  dsimp only
  rw [hsize]
  split_ifs
  · rfl
  · rfl

/-- The `expect` does not fail. -/
def safeInternalServerError (request : RequestSemantics) : Http.Response β :=
  (finalizeResponse internalServerError request).toOption.get (finalize_internalServerError request)

def sseResponse (body : β) (compressed : Bool) : Http.Response β :=
  let headers : HeaderMap := Multimap.append .empty HeaderName.contentType
    ⟨ascii "text/event-stream", by decide⟩
  let headers := headers.append HeaderName.cacheControl ⟨ascii "no-cache", by decide⟩
  let headers := varyOnAcceptEncoding headers
  let headers :=
    if compressed then headers.insert HeaderName.contentEncoding ⟨ascii "br", by decide⟩ else headers
  ⟨StatusCode.ok, headers, body⟩

end

/-! ## What the request asks for -/

inductive AdmissionError
  | full
  | stopping

inductive RocDispatchError
  | admission (error : AdmissionError)
  | execution (error : RocExecutionError)
  | completionLost

inductive StreamingContentCoding
  | identity
  | brotli
  | notAcceptable
  deriving DecidableEq

inductive FileServeFailure
  | overloaded
  | invalidPlan
  | startFailed

/-- `σ` are the sources of event streams. -/
inductive RocOutcome (β σ : Type)
  | ordinary (response : Except ResponseError (Http.Response β)) (stopCode : Option Int64)
  | file (plan : FilePlan)
  | stream (source : σ) (coding : StreamingContentCoding)
  | invalid (detail : String)

/-- The parts of the configuration that are used. -/
structure Config where
  responseIdleTimeout : ℕ
  /-- For the body of the request. -/
  bodyIdleTimeout : ℕ
  bodyMaxBytes : ℕ

/-- What the calls of `handle_req` return. `γ` are the guards of active requests. -/
structure Outcomes (β γ σ : Type) where
  begin : Option γ
  /-- `validate_parts` succeeds. -/
  metadata : Bool
  /-- `admit_parts` -/
  admission : Except RequestMetadataRejection Unit
  /-- The native route of the path, if there is one. -/
  route : Option NativeMatch
  metricsResponse : Http.Response β
  serve : FilePlan → Http.Response β × Option FileServeFailure
  trySubmit : Except SubmitError AdmissionClass
  /-- The queue timeout passes before the completion is received. -/
  queueTimeout : Bool
  /-- The queued job is cancelled. -/
  cancel : Bool
  /-- What the receiver returns: an error if the completion is lost. -/
  receiver : Except Unit (Except RocExecutionError (RocOutcome β σ))
  streamSlot : Bool
  brotliLane : Bool
  /-- Shutdown is requested before the source is committed. -/
  shutdownFirst : Bool
  precommit : Except TransitionError σ
  sseBody : σ → Bool → β

def requestHeadersAreUtf8 (headers : HeaderMap) : Bool :=
  headers.toList.all fun field => field.2.toStr.isSome

def contentLength (headers : HeaderMap) : Option ℕ :=
  (headers.get HeaderName.contentLength).bind fun value => value.toStr.bind parseU64

/-! ## Effects -/

/-- `TrackedResponseBody` around the body of a response. `α` are the activities of HTTP/1. -/
structure Tracked (β γ α : Type) where
  response : Http.Response β
  activeRequest : Option γ
  http1Activity : Option α
  bodyIdleTimeout : Option ℕ

inductive Effect (β γ α : Type)
  | telemetry (update : DetailUpdate)
  | requestStop (exitCode : Int64)
  | responseBodyFinished (activity : α)
  | tracked (response : Tracked β γ α)

/-- What was done, and the result. -/
structure Run (β γ α τ : Type) where
  effects : List (Effect β γ α)
  value : τ

section

variable {β γ α σ τ τ' : Type}

def Run.pure (value : τ) : Run β γ α τ := ⟨[], value⟩

def Run.bind (run : Run β γ α τ) (next : τ → Run β γ α τ') : Run β γ α τ' :=
  ⟨run.effects ++ (next run.value).effects, (next run.value).value⟩

/-- The effect comes first. -/
def Run.after (effect : Effect β γ α) (run : Run β γ α τ) : Run β γ α τ :=
  ⟨effect :: run.effects, run.value⟩

def reject (reason : RejectionReason) (run : Run β γ α τ) : Run β γ α τ :=
  run.after (.telemetry (.reject reason))

def setDestination (destination : Destination) (run : Run β γ α τ) : Run β γ α τ :=
  run.after (.telemetry (.setDestination destination))

def recordFileFailure (failure : Option FileServeFailure) (run : Run β γ α τ) : Run β γ α τ :=
  match failure with
  | some .overloaded =>
    run.after (.telemetry (.rejectForDestination .nativeFile .fileOverload))
  | some .invalidPlan =>
    run.after (.telemetry (.rejectForDestination .nativeFile .invalidRocResponse))
  | some .startFailed =>
    run.after (.telemetry (.rejectForDestination .nativeFile .fileFailure))
  | none => run

def requestStopAfter (exitCode : Option Int64) (run : Run β γ α τ) : Run β γ α τ :=
  match exitCode with
  | some exitCode => run.after (.requestStop exitCode)
  | none => run

variable [ServerBody β]

def trackResponse (response : Http.Response β) (activeRequest : Option γ) (http1Activity : Option α)
    (bodyIdleTimeout : Option ℕ) : Run β γ α (Tracked β γ α) :=
  let atEnd := ServerBody.isEndStream response.body
  let tracked : Tracked β γ α :=
    ⟨response, activeRequest, if atEnd then none else http1Activity, bodyIdleTimeout⟩
  match atEnd, http1Activity with
  | true, some activity =>
    Run.after (.responseBodyFinished activity) (Run.after (.tracked tracked) (.pure tracked))
  | _, _ => Run.after (.tracked tracked) (.pure tracked)

def finalizeAndTrackResponse (response : Http.Response β) (semantics : RequestSemantics)
    (activeRequest : Option γ) (http1Activity : Option α) (bodyIdleTimeout : Option ℕ) :
    Run β γ α (Tracked β γ α) :=
  match finalizeResponse response semantics with
  | .ok response => trackResponse response activeRequest http1Activity bodyIdleTimeout
  | .error _ =>
    reject .invalidRocResponse (trackResponse (safeInternalServerError semantics) activeRequest
      http1Activity bodyIdleTimeout)

/-! ## `handle_req` -/

/-- The branches yield a response, or the tracked response of a `return`. -/
abbrev Branch (β γ α : Type) := Run β γ α (Except (Tracked β γ α) (Http.Response β))

def respond (response : Http.Response β) : Branch β γ α := .pure (.ok response)

/-- A `return` out of a branch. -/
def leave (run : Run β γ α (Tracked β γ α)) : Branch β γ α := ⟨run.effects, .error run.value⟩

def serveFile (o : Outcomes β γ σ) (plan : FilePlan) : Branch β γ α :=
  recordFileFailure (o.serve plan).2 (respond (o.serve plan).1)

def nativeResponse (o : Outcomes β γ σ) : NativeMatch → Branch β γ α
  | .file plan => setDestination .nativeFile (serveFile o plan)
  | .probe response =>
    setDestination .nativeProbe (respond { response with body := ServerBody.full response.body.bytes })
  | .metrics => setDestination .nativeMetrics (respond o.metricsResponse)

/-- The error of a source before its response is committed. -/
def sseFailure (semantics : RequestSemantics) : TransitionError → Branch β γ α
  | .admission .full | .queueTimedOut => reject .handlerOverload (respond overloaded)
  | .admission .stopping | .cancelled => reject .shutdown (respond serviceUnavailable)
  | .panic => reject .rocPanic (respond (safeInternalServerError semantics))
  | .application _ | .invalidWait _ _ | .oversized _ _ =>
    reject .invalidRocResponse (respond (safeInternalServerError semantics))

/-- The response of a source that has a stream slot, and a lane if it is compressed. -/
def streamResponse (o : Outcomes β γ σ) (semantics : RequestSemantics) (compressed : Bool) :
    Branch β γ α :=
  match if o.shutdownFirst then .error .cancelled else o.precommit with
  | .ok source => respond (sseResponse (o.sseBody source compressed) compressed)
  | .error error => sseFailure semantics error

/-- Here `bodyIdleTimeout` is that of the request body. -/
def handledResponse (o : Outcomes β γ σ) (semantics : RequestSemantics) (activeRequest : γ)
    (http1Activity : Option α) (bodyIdleTimeout : ℕ) :
    Except RocDispatchError (RocOutcome β σ) → Branch β γ α
  | .error (.admission .full) => reject .handlerOverload (respond overloaded)
  | .error (.admission .stopping) => reject .shutdown (respond serviceUnavailable)
  | .error (.execution .panic) => reject .rocPanic (respond (safeInternalServerError semantics))
  | .error .completionLost => reject .hostPanic (respond (safeInternalServerError semantics))
  | .ok (.ordinary response stopCode) =>
    requestStopAfter stopCode <|
      match response with
      | .ok response => respond response
      | .error _ => reject .invalidRocResponse (respond (safeInternalServerError semantics))
  | .ok (.file plan) => setDestination .nativeFile (serveFile o plan)
  | .ok (.stream _ coding) =>
    if coding = .notAcceptable then respond noAcceptableSseContentCoding
    else if !o.streamSlot then reject .handlerOverload (respond overloaded)
    else if coding = .brotli then
      if o.brotliLane then streamResponse o semantics true
      else leave (reject .handlerOverload (finalizeAndTrackResponse overloaded semantics
        (some activeRequest) http1Activity (some bodyIdleTimeout)))
    else streamResponse o semantics false
  | .ok (.invalid _) => reject .invalidRocResponse (respond (safeInternalServerError semantics))

/-- What a receiver returned. -/
def received : Except Unit (Except RocExecutionError (RocOutcome β σ)) →
    Except RocDispatchError (RocOutcome β σ)
  | .ok (.ok outcome) => .ok outcome
  | .ok (.error error) => .error (.execution error)
  | .error _ => .error .completionLost

/-- The branch that calls Roc. -/
def rocResponse (c : Config) (o : Outcomes β γ σ) (semantics : RequestSemantics) (activeRequest : γ)
    (http1Activity : Option α) : Branch β γ α :=
  let bodyIdleTimeout := c.bodyIdleTimeout
  let handled := handledResponse o semantics activeRequest http1Activity bodyIdleTimeout
  match o.trySubmit with
  | .error .full => handled (.error (.admission .full))
  | .error .stopping => handled (.error (.admission .stopping))
  | .ok admission =>
    setDestination .roc <|
      if admission = .queued && o.queueTimeout && o.cancel then
        leave (reject .handlerOverload (finalizeAndTrackResponse handlerQueueTimedOut semantics
          (some activeRequest) http1Activity (some bodyIdleTimeout)))
      else handled (received o.receiver)

def branch (c : Config) (o : Outcomes β γ σ) (headers : HeaderMap) (semantics : RequestSemantics)
    (activeRequest : γ) (http1Activity : Option α) : Branch β γ α :=
  match o.route with
  | some native => nativeResponse o native
  | none =>
    if !requestHeadersAreUtf8 headers then reject .invalidHeaders (respond invalidRequestHeaders)
    else if (contentLength headers).any fun length => c.bodyMaxBytes < length then
      reject .bodyTooLarge (respond (payloadTooLarge c.bodyMaxBytes))
    else rocResponse c o semantics activeRequest http1Activity

def handleReq (c : Config) (o : Outcomes β γ σ) (headers : HeaderMap)
    (http1Activity : Option α) (semantics : RequestSemantics) : Run β γ α (Tracked β γ α) :=
  let bodyIdleTimeout := http1Activity.map fun _ => c.responseIdleTimeout
  match o.begin with
  | none =>
    reject .shutdown
      (finalizeAndTrackResponse serviceUnavailable semantics none http1Activity bodyIdleTimeout)
  | some activeRequest =>
    let finish (response : Http.Response β) : Run β γ α (Tracked β γ α) :=
      finalizeAndTrackResponse response semantics (some activeRequest) http1Activity bodyIdleTimeout
    if !o.metadata then reject .invalidHeaders (finish invalidRequestTarget)
    else match o.admission with
    | .error rejection => reject .invalidHeaders (finish (rejectRequestMetadata rejection))
    | .ok () =>
      (branch c o headers semantics activeRequest http1Activity).bind fun
        | .error tracked => .pure tracked
        | .ok response => finish response

/-! ## The tracked response -/

/-- The responses that were tracked. -/
def trackedOf (effects : List (Effect β γ α)) : List (Tracked β γ α) :=
  effects.filterMap fun
    | .tracked response => some response
    | _ => none

omit [ServerBody β] in
theorem trackedOf_append (effects effects' : List (Effect β γ α)) :
    trackedOf (effects ++ effects') = trackedOf effects ++ trackedOf effects' :=
  List.filterMap_append

/-- The run tracks its response, and no other, with this guard and timeout. -/
structure Tracks (run : Run β γ α (Tracked β γ α)) (activeRequest : Option γ)
    (bodyIdleTimeout : Option ℕ) : Prop where
  once : trackedOf run.effects = [run.value]
  activeRequest : run.value.activeRequest = activeRequest
  bodyIdleTimeout : run.value.bodyIdleTimeout = bodyIdleTimeout

theorem tracks_trackResponse (response : Http.Response β) (activeRequest : Option γ)
    (http1Activity : Option α) (bodyIdleTimeout : Option ℕ) :
    Tracks (trackResponse response activeRequest http1Activity bodyIdleTimeout) activeRequest
      bodyIdleTimeout := by
  unfold trackResponse
  dsimp only
  split
  · exact ⟨rfl, rfl, rfl⟩
  · exact ⟨rfl, rfl, rfl⟩

omit [ServerBody β] in
theorem Tracks.reject {run : Run β γ α (Tracked β γ α)} {activeRequest : Option γ}
    {bodyIdleTimeout : Option ℕ} (h : Tracks run activeRequest bodyIdleTimeout)
    (reason : RejectionReason) : Tracks (reject reason run) activeRequest bodyIdleTimeout :=
  ⟨h.once, h.activeRequest, h.bodyIdleTimeout⟩

theorem tracks_finalizeAndTrackResponse (response : Http.Response β) (semantics : RequestSemantics)
    (activeRequest : Option γ) (http1Activity : Option α) (bodyIdleTimeout : Option ℕ) :
    Tracks (finalizeAndTrackResponse response semantics activeRequest http1Activity bodyIdleTimeout)
      activeRequest bodyIdleTimeout := by
  unfold finalizeAndTrackResponse
  split
  · exact tracks_trackResponse _ _ _ _
  · exact (tracks_trackResponse _ _ _ _).reject _

/-- A branch yields a response and tracks none, or it returns one with the timeout of the request
body. -/
def Branch.Right (b : Branch β γ α) (activeRequest : γ) (bodyIdleTimeout : ℕ) (leaves : Bool) :
    Prop :=
  match b.value with
  | .ok _ => leaves = false ∧ trackedOf b.effects = []
  | .error tracked => leaves = true ∧
    Tracks ⟨b.effects, tracked⟩ (some activeRequest) (some bodyIdleTimeout)

section Branches

variable {activeRequest : γ} {http1Activity : Option α} {bodyIdleTimeout : ℕ} {leaves : Bool}
  {b : Branch β γ α} {semantics : RequestSemantics} {o : Outcomes β γ σ}

omit [ServerBody β] in
theorem right_respond (response : Http.Response β) :
    Branch.Right (respond response : Branch β γ α) activeRequest bodyIdleTimeout false := ⟨rfl, rfl⟩

omit [ServerBody β] in
theorem Branch.Right.after (h : b.Right activeRequest bodyIdleTimeout leaves)
    {effect : Effect β γ α} (heffect : trackedOf [effect] = []) :
    Branch.Right (Run.after effect b) activeRequest bodyIdleTimeout leaves := by
  have hsame : trackedOf (effect :: b.effects) = trackedOf b.effects := by
    rw [← List.singleton_append, trackedOf_append, heffect, List.nil_append]
  unfold Branch.Right at h ⊢
  show match b.value with
    | .ok _ => leaves = false ∧ trackedOf (effect :: b.effects) = []
    | .error tracked => leaves = true ∧
      Tracks ⟨effect :: b.effects, tracked⟩ (some activeRequest) (some bodyIdleTimeout)
  cases hvalue : b.value with
  | ok response =>
    rw [hvalue] at h
    exact ⟨h.1, hsame.trans h.2⟩
  | error tracked =>
    rw [hvalue] at h
    exact ⟨h.1, hsame.trans h.2.once, h.2.activeRequest, h.2.bodyIdleTimeout⟩

omit [ServerBody β] in
theorem right_leave {run : Run β γ α (Tracked β γ α)}
    (h : Tracks run (some activeRequest) (some bodyIdleTimeout)) :
    Branch.Right (leave run) activeRequest bodyIdleTimeout true :=
  ⟨rfl, h.once, h.activeRequest, h.bodyIdleTimeout⟩

omit [ServerBody β] in
theorem right_serveFile (plan : FilePlan) :
    Branch.Right (serveFile o plan : Branch β γ α) activeRequest bodyIdleTimeout false := by
  unfold serveFile recordFileFailure
  split
  · exact (right_respond _).after rfl
  · exact (right_respond _).after rfl
  · exact (right_respond _).after rfl
  · exact right_respond _

theorem right_nativeResponse (native : NativeMatch) :
    Branch.Right (nativeResponse o native : Branch β γ α) activeRequest bodyIdleTimeout false := by
  cases native with
  | file plan => exact (right_serveFile plan).after rfl
  | probe response => exact (right_respond _).after rfl
  | metrics => exact (right_respond _).after rfl

theorem right_sseFailure (error : TransitionError) :
    Branch.Right (sseFailure semantics error : Branch β γ α) activeRequest bodyIdleTimeout false := by
  unfold sseFailure
  split
  all_goals exact (right_respond _).after rfl

theorem right_streamResponse (compressed : Bool) :
    Branch.Right (streamResponse o semantics compressed : Branch β γ α) activeRequest bodyIdleTimeout
      false := by
  unfold streamResponse
  split
  · exact right_respond _
  · exact right_sseFailure _

/-- Roc returns a stream that is to be compressed, and there is a slot for it but no lane. -/
def laneRefused (o : Outcomes β γ σ) : Except RocDispatchError (RocOutcome β σ) → Bool
  | .ok (.stream _ .brotli) => o.streamSlot && !o.brotliLane
  | _ => false

theorem right_handledResponse (handled : Except RocDispatchError (RocOutcome β σ)) :
    Branch.Right (handledResponse o semantics activeRequest http1Activity bodyIdleTimeout handled)
      activeRequest bodyIdleTimeout (laneRefused o handled) := by
  unfold handledResponse
  split
  · exact (right_respond _).after rfl
  · exact (right_respond _).after rfl
  · exact (right_respond _).after rfl
  · exact (right_respond _).after rfl
  next response stopCode =>
    have hresponse : Branch.Right (match response with
        | .ok response => respond response
        | .error _ => reject .invalidRocResponse (respond (safeInternalServerError semantics)) :
          Branch β γ α) activeRequest bodyIdleTimeout false := by
      cases response with
      | ok response => exact right_respond response
      | error error => exact (right_respond _).after rfl
    unfold requestStopAfter
    split
    · exact hresponse.after rfl
    · exact hresponse
  · exact (right_serveFile _).after rfl
  next source coding =>
    cases coding with
    | notAcceptable => exact right_respond _
    | identity =>
      cases hslot : o.streamSlot with
      | false => exact (right_respond _).after rfl
      | true => exact right_streamResponse false
    | brotli =>
      unfold laneRefused
      cases hslot : o.streamSlot with
      | false => exact (right_respond _).after rfl
      | true =>
        cases hlane : o.brotliLane with
        | true => exact right_streamResponse true
        | false => exact right_leave ((tracks_finalizeAndTrackResponse _ _ _ _ _).reject _)
  · exact (right_respond _).after rfl

/-- The returns out of the branch that calls Roc: a queued job that is cancelled after its timeout,
and a lane that is refused. -/
def rocLeaves (o : Outcomes β γ σ) : Bool :=
  match o.trySubmit with
  | .error _ => false
  | .ok admission =>
    admission = .queued && o.queueTimeout && o.cancel || laneRefused o (received o.receiver)

theorem right_rocResponse (c : Config) :
    Branch.Right (rocResponse c o semantics activeRequest http1Activity) activeRequest
      c.bodyIdleTimeout (rocLeaves o) := by
  unfold rocResponse rocLeaves
  cases o.trySubmit with
  | error error =>
    cases error with
    | full => exact right_handledResponse _
    | stopping => exact right_handledResponse _
  | ok admission =>
    dsimp only
    refine Branch.Right.after ?_ rfl
    cases admission = .queued && o.queueTimeout && o.cancel with
    | true => exact right_leave ((tracks_finalizeAndTrackResponse _ _ _ _ _).reject _)
    | false => exact right_handledResponse _

/-- The request gets to the executor: it has no native route and its head is accepted. -/
def reachesRoc (c : Config) (o : Outcomes β γ σ) (headers : HeaderMap) : Bool :=
  o.route.isNone && requestHeadersAreUtf8 headers &&
    !((contentLength headers).any fun length => c.bodyMaxBytes < length)

theorem right_branch (c : Config) (headers : HeaderMap) :
    Branch.Right (branch c o headers semantics activeRequest http1Activity) activeRequest
      c.bodyIdleTimeout (reachesRoc c o headers && rocLeaves o) := by
  unfold branch reachesRoc
  cases o.route with
  | some native => exact right_nativeResponse native
  | none =>
    dsimp only
    cases requestHeadersAreUtf8 headers with
    | false => exact (right_respond _).after rfl
    | true =>
      rw [if_neg (by decide)]
      cases (contentLength headers).any fun length => c.bodyMaxBytes < length with
      | true => exact (right_respond _).after rfl
      | false => exact right_rocResponse c

end Branches

/-- The response is returned from inside the branch that calls Roc. -/
def leavesEarly (c : Config) (o : Outcomes β γ σ) (headers : HeaderMap) : Bool :=
  o.begin.isSome && o.metadata && o.admission.toBool && (reachesRoc c o headers && rocLeaves o)

/-- One response is tracked, with the guard. Its timeout depends on where it is returned. -/
theorem tracks_handleReq (c : Config) (o : Outcomes β γ σ) (headers : HeaderMap)
    (http1Activity : Option α) (semantics : RequestSemantics) :
    Tracks (handleReq c o headers http1Activity semantics) o.begin
      (if leavesEarly c o headers then some c.bodyIdleTimeout
        else http1Activity.map fun _ => c.responseIdleTimeout) := by
  unfold handleReq leavesEarly
  cases o.begin with
  | none => exact (tracks_finalizeAndTrackResponse _ _ _ _ _).reject _
  | some activeRequest =>
    dsimp only
    cases o.metadata with
    | false => exact (tracks_finalizeAndTrackResponse _ _ _ _ _).reject _
    | true =>
      rw [if_neg (by decide)]
      cases o.admission with
      | error rejection => exact (tracks_finalizeAndTrackResponse _ _ _ _ _).reject _
      | ok u =>
        have hbranch : Branch.Right (branch c o headers semantics activeRequest http1Activity)
            activeRequest c.bodyIdleTimeout (reachesRoc c o headers && rocLeaves o) :=
          right_branch c headers
        generalize branch c o headers semantics activeRequest http1Activity = b at hbranch
        generalize (reachesRoc c o headers && rocLeaves o) = leaves at hbranch
        obtain ⟨effects, value⟩ := b
        cases value with
        | error tracked =>
          obtain ⟨rfl, hleft⟩ := hbranch
          refine ⟨?_, hleft.activeRequest, hleft.bodyIdleTimeout⟩
          exact (congrArg trackedOf (List.append_nil effects)).trans hleft.once
        | ok response =>
          obtain ⟨rfl, hnone⟩ := hbranch
          have hfinish := tracks_finalizeAndTrackResponse response semantics (some activeRequest)
            http1Activity (http1Activity.map fun _ => c.responseIdleTimeout)
          refine ⟨?_, hfinish.activeRequest, hfinish.bodyIdleTimeout⟩
          refine (trackedOf_append _ _).trans ?_
          rw [hnone]
          exact hfinish.once

end

/-! ## A queue timeout -/

instance : ServerBody Bytes where
  sizeHint bytes := some bytes.length
  empty := []
  full bytes := bytes
  isEndStream bytes := bytes.isEmpty
  sizeHint_full _ := rfl

/-- A queued request whose timeout passes, and which is cancelled. -/
def queueTimedOut : Outcomes Bytes Unit Unit where
  begin := some ()
  metadata := true
  admission := .ok ()
  route := none
  metricsResponse := overloaded
  serve _ := (overloaded, none)
  trySubmit := .ok .queued
  queueTimeout := true
  cancel := true
  receiver := .error ()
  streamSlot := false
  brotliLane := false
  shutdownFirst := false
  precommit := .ok ()
  sseBody _ _ := []

end BasicWebserver.Server
