import BasicWebserver.Foundation.Machine
import BasicWebserver.Http.Message
import Mathlib.Algebra.Group.Nat.Defs
import Mathlib.Logic.Function.Basic

/-!
# Requests and their completion

The part of `src/telemetry.rs` that follows a request from `start_request` to the one call of
`request_finished`: the details that its handles record, the body that `instrument` puts around the
response, and the counters. The handles of a request share one `RequestInner`, which is dropped with
the last of them.

A `finish` is one step: it adds to counters that are only added to, and what others do in between is
the same before or after it. The counters are numbers, since a server does not finish `2 ^ 64`
requests. Histograms, the access log and the identity of a request in it are left out.
-/

namespace BasicWebserver.Telemetry

open Transition Ascii Http

/-! ## Labels of the counters -/

inductive Destination
  | roc
  | nativeFile
  | nativeProbe
  | nativeMetrics
  | hostRejection
  deriving DecidableEq

def Destination.index : Destination → Fin 5
  | roc => 0
  | nativeFile => 1
  | nativeProbe => 2
  | nativeMetrics => 3
  | hostRejection => 4

inductive RejectionReason
  | shutdown
  | invalidHeaders
  | bodyTooLarge
  | handlerOverload
  | fileOverload
  | invalidRocResponse
  | rocPanic
  | hostPanic
  | fileFailure
  deriving DecidableEq

def RejectionReason.index : RejectionReason → Fin 9
  | shutdown => 0
  | invalidHeaders => 1
  | bodyTooLarge => 2
  | handlerOverload => 3
  | fileOverload => 4
  | invalidRocResponse => 5
  | rocPanic => 6
  | hostPanic => 7
  | fileFailure => 8

inductive Completion
  | endOfStream
  | bodyFailure
  | bodyDropped
  deriving DecidableEq

def Completion.index : Completion → Fin 3
  | endOfStream => 0
  | bodyFailure => 1
  | bodyDropped => 2

inductive MethodClass
  | connect | delete | get | head | options | patch | post | put | trace | query | other
  deriving DecidableEq

def MethodClass.fromMethod : Method → MethodClass
  | .connect => connect
  | .delete => delete
  | .get => get
  | .head => head
  | .options => options
  | .patch => patch
  | .post => post
  | .put => put
  | .trace => trace
  | .extension name => if name = ascii "QUERY" then query else other

def MethodClass.index : MethodClass → Fin 11
  | connect => 0
  | delete => 1
  | get => 2
  | head => 3
  | options => 4
  | patch => 5
  | post => 6
  | put => 7
  | trace => 8
  | query => 9
  | other => 10

/-! ## Counters -/

structure ActiveGauge where
  current : ℕ
  highWater : ℕ
  /-- `decrement` found no active request. -/
  underflowed : Bool

def ActiveGauge.increment (g : ActiveGauge) : ActiveGauge :=
  { g with current := g.current + 1, highWater := max g.highWater (g.current + 1) }

def ActiveGauge.decrement (g : ActiveGauge) : ActiveGauge :=
  if g.current = 0 then { g with current := 2 ^ 64 - 1, underflowed := true }
  else { g with current := g.current - 1 }

theorem requestIndex_lt (destination : Destination) (method : MethodClass)
    (completion : Completion) :
    (destination.index.val * 11 + method.index.val) * 3 + completion.index.val < 5 * 11 * 3 := by
  have hdestination := destination.index.isLt
  have hmethod := method.index.isLt
  have hcompletion := completion.index.isLt
  omega

/-- The counter of a destination, a method and a completion. -/
def requestIndex (destination : Destination) (method : MethodClass) (completion : Completion) :
    Fin (5 * 11 * 3) :=
  ⟨(destination.index.val * 11 + method.index.val) * 3 + completion.index.val,
    requestIndex_lt destination method completion⟩

structure Metrics where
  requests : ActiveGauge
  requestTotals : Fin (5 * 11 * 3) → ℕ
  responseBytes : Fin 5 → ℕ
  rejections : Fin 9 → ℕ

def fetchAdd {n : ℕ} (counters : Fin n → ℕ) (index : Fin n) (amount : ℕ) : Fin n → ℕ :=
  Function.update counters index (counters index + amount)

def Metrics.requestStarted (m : Metrics) : Metrics := { m with requests := m.requests.increment }

def Metrics.requestFinished (m : Metrics) (method : MethodClass) (destination : Destination)
    (completion : Completion) (rejection : Option RejectionReason) (responseBytes : ℕ) : Metrics where
  requests := m.requests.decrement
  requestTotals := fetchAdd m.requestTotals (requestIndex destination method completion) 1
  responseBytes := fetchAdd m.responseBytes destination.index responseBytes
  rejections := match rejection with
    | some rejection => fetchAdd m.rejections rejection.index 1
    | none => m.rejections

/-! ## Details -/

structure RequestDetails where
  destination : Option Destination
  rejection : Option RejectionReason
  status : Option ℕ
  handlerQueueWait : Option ℕ
  handlerDuration : Option ℕ

def RequestDetails.default : RequestDetails := ⟨none, none, none, none, none⟩

inductive DetailUpdate
  | setDestination (destination : Destination)
  | reject (reason : RejectionReason)
  | rejectForDestination (destination : Destination) (reason : RejectionReason)
  | recordHandler (queueWait handlerDuration : ℕ)

def RequestDetails.update (details : RequestDetails) : DetailUpdate → RequestDetails
  | .setDestination destination => { details with destination := some destination }
  | .reject reason => { details with destination := some .hostRejection, rejection := some reason }
  | .rejectForDestination destination reason =>
    { details with destination := some destination, rejection := some reason }
  | .recordHandler queueWait handlerDuration =>
    { details with handlerQueueWait := some queueWait, handlerDuration := some handlerDuration }

/-! ## The instrumented body -/

/-- What a poll of the inner body returns; after a frame the body says whether it was the last. A
frame without a length has trailers. -/
inductive Polled
  | frame (data : Option ℕ) (last : Bool)
  | failed
  | ended
  | pending
  deriving DecidableEq

/-- The end of the stream is reported. -/
def Polled.reportsEnd : Polled → Bool
  | frame _ last => last
  | ended => true
  | failed | pending => false

/-- `CompletionBody`, with what its inner body reported. -/
structure CompletionBody where
  responseBytes : ℕ
  finished : Bool
  /-- The inner body was at its end when it was instrumented. -/
  endedAtOnce : Bool
  polled : List Polled
  dropped : Bool

/-- The inner body has reported its end. -/
def CompletionBody.hasEnded (body : CompletionBody) : Bool :=
  body.endedAtOnce || body.polled.any Polled.reportsEnd

/-- A body yields nothing after it has reported its end. -/
def CompletionBody.mayReturn (body : CompletionBody) (polled : Polled) : Bool :=
  !body.hasEnded || polled = .ended || polled = .pending

def saturatingAdd (a b : ℕ) : ℕ := min (a + b) (2 ^ 64 - 1)

/-- The bytes of a frame are counted before the end of the body is. -/
def CompletionBody.count (body : CompletionBody) (polled : Polled) : CompletionBody :=
  { body with
    responseBytes := match polled with
      | .frame (some length) _ => saturatingAdd body.responseBytes (min length (2 ^ 64 - 1))
      | _ => body.responseBytes
    polled := body.polled ++ [polled] }

/-- The completion that a poll calls `finish` with. -/
def Polled.completion : Polled → Option Completion
  | frame _ last => if last then some .endOfStream else none
  | failed => some .bodyFailure
  | ended => some .endOfStream
  | pending => none

/-! ## Requests -/

/-- `RequestInner`, its handles outside of the body, and the body, if a response was instrumented. -/
structure Request where
  method : MethodClass
  details : RequestDetails
  finished : Bool
  handles : ℕ
  body : Option CompletionBody

/-- A call of `request_finished`. -/
structure Finish where
  completion : Completion
  responseBytes : ℕ

def Request.finish (r : Request) (completion : Completion) (responseBytes : ℕ) :
    Request × List Finish :=
  if r.finished then (r, []) else ({ r with finished := true }, [⟨completion, responseBytes⟩])

/-- `CompletionBody::finish`. -/
def Request.finishBody (r : Request) (body : CompletionBody) (completion : Completion) :
    Request × List Finish :=
  if body.finished then ({ r with body := some body }, [])
  else { r with body := some { body with finished := true } }.finish completion body.responseBytes

/-- The body holds a handle as long as it is there. -/
def Request.held (r : Request) : Bool :=
  0 < r.handles || match r.body with
    | some body => !body.dropped
    | none => false

/-- `RequestInner` is dropped with its last handle. -/
def Request.release (r : Request) : Request × List Finish :=
  if r.held then (r, []) else r.finish .bodyDropped 0

inductive RequestLabel
  | clone
  | update (update : DetailUpdate)
  | dropHandle
  | instrument (status : ℕ) (endedAtOnce : Bool)
  | poll (polled : Polled)
  | dropBody

def Request.instrument (r : Request) (status : ℕ) (endedAtOnce : Bool) : Request × List Finish :=
  let instrumented : Request :=
    { r with
      details := { r.details with status := some status }
      handles := r.handles - 1
      body := some ⟨0, endedAtOnce, endedAtOnce, [], false⟩ }
  if endedAtOnce then instrumented.finish .endOfStream 0 else (instrumented, [])

def Request.poll (r : Request) (body : CompletionBody) (polled : Polled) : Request × List Finish :=
  let body := body.count polled
  match polled.completion with
  | some completion => r.finishBody body completion
  | none => ({ r with body := some body }, [])

/-- The body is dropped before the handle in it. -/
def Request.dropBody (r : Request) (body : CompletionBody) : Request × List Finish :=
  let finished := r.finishBody { body with dropped := true } .bodyDropped
  let released := finished.1.release
  (released.1, finished.2 ++ released.2)

/-- A handle is needed for what is done with one, and at most one response is instrumented. -/
def Request.step (r : Request) : RequestLabel → Option (Request × List Finish)
  | .clone => if r.handles = 0 then none else some ({ r with handles := r.handles + 1 }, [])
  | .update update =>
    if r.handles = 0 then none else some ({ r with details := r.details.update update }, [])
  | .dropHandle =>
    if r.handles = 0 then none
    else some (Request.release { r with handles := r.handles - 1 })
  | .instrument status endedAtOnce =>
    if r.handles = 0 || r.body.isSome then none else some (r.instrument status endedAtOnce)
  | .poll polled =>
    match r.body with
    | some body =>
      if body.dropped || !body.mayReturn polled then none else some (r.poll body polled)
    | none => none
  | .dropBody =>
    match r.body with
    | some body => if body.dropped then none else some (r.dropBody body)
    | none => none

/-! ## The server -/

/-- A completion, with what the body had returned then. -/
structure Record where
  request : ℕ
  method : MethodClass
  destination : Destination
  completion : Completion
  responseBytes : ℕ
  polled : List Polled

structure State where
  metrics : Metrics
  started : ℕ
  request : ℕ → Option Request
  records : List Record

def State.init : State where
  metrics := ⟨⟨0, 0, false⟩, fun _ => 0, fun _ => 0, fun _ => 0⟩
  started := 0
  request _ := none
  records := []

def Request.polled (r : Request) : List Polled :=
  match r.body with
  | some body => body.polled
  | none => []

def Request.record (r : Request) (id : ℕ) (finish : Finish) : Record where
  request := id
  method := r.method
  destination := r.details.destination.getD .hostRejection
  completion := finish.completion
  responseBytes := finish.responseBytes
  polled := r.polled

def State.put (s : State) (id : ℕ) (r : Request) : State :=
  { s with request := Function.update s.request id (some r) }

/-- The effect of `request_finished`. -/
def State.finish (r : Request) (id : ℕ) (s : State) (finish : Finish) : State :=
  let record := r.record id finish
  { s with
    metrics := s.metrics.requestFinished record.method record.destination record.completion
      r.details.rejection record.responseBytes
    records := s.records ++ [record] }

inductive Label
  | start (method : Method)
  | request (id : ℕ) (label : RequestLabel)

def step (s : State) : Label → Option State
  | .start method =>
    some { s.put s.started ⟨.fromMethod method, .default, false, 1, none⟩ with
      metrics := s.metrics.requestStarted
      started := s.started + 1 }
  | .request id label =>
    match s.request id with
    | some r => (r.step label).map fun next => next.2.foldl (State.finish next.1 id) (s.put id next.1)
    | none => none

def machine : Machine State Label := ⟨.init, step⟩

end BasicWebserver.Telemetry
