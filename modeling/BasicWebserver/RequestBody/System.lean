import BasicWebserver.Foundation.Machine
import BasicWebserver.Http.Message

/-!
# A request body: its pump, its readers and the events that stop it

`BodyState` and `BodyPump` of `src/request_body.rs`. A label of `machine` is one access to what two
threads share (the channel, the terminal outcome or the control signal), together with the work
around it on what only the mover touches. Only the holder of the receiver's lock uses the limit and
the count of delivered bytes. A call that finds the lock taken, or the server shutting down, returns
at once and changes nothing.

The stream, the passing of time and what the file sink does with a chunk are in the labels. So is
whether `try_send` finds a free place, since one may be reserved for a waiting `send`.
-/

namespace BasicWebserver.RequestBody

open Transition

inductive PumpError
  | clientDisconnected
  | invalidBody (message : String)
  deriving DecidableEq

inductive BodyError
  | tooLarge (limitBytes receivedAtLeast : ℕ)
  | timeout
  | clientDisconnected
  | invalidBody (message : String)
  | requestFinished
  | concurrentRead
  | cancelled
  | stopping
  deriving DecidableEq

inductive Terminal
  | ended
  | error (error : BodyError)
  deriving DecidableEq

inductive PumpMessage
  | chunk (bytes : Bytes)
  | ended
  | error (error : BodyError)
  | wake
  deriving DecidableEq

inductive PumpControl
  | running
  | drain
  | cancel
  deriving DecidableEq

inductive SendOutcome
  | sent
  | drain
  | cancel
  deriving DecidableEq

/-- How the stream of frames ends. -/
inductive SourceEnd
  | ended
  | failed (error : PumpError)
  deriving DecidableEq

def u64Max : ℕ := 2 ^ 64 - 1

def saturatingAdd (a b : ℕ) : ℕ := min (a + b) u64Max

/-- The arguments of `register` and `run`, with the frames the stream yields. -/
structure Config where
  frames : List Bytes
  ending : SourceEnd
  chunkSize : ℕ
  capacity : ℕ
  hardLimit : ℕ
  declaredLength : Option ℕ
  chunkSize_pos : 0 < chunkSize
  capacity_pos : 0 < capacity
  hardLimit_le : hardLimit ≤ u64Max

theorem ten_le_u64Max : 10 ≤ u64Max := by decide

/-! ## The state -/

/-- Where `BodyPump::run` is. -/
inductive Stage
  /-- at the `select!` of the loop -/
  | waiting
  /-- sending the chunk of the frame that starts at the offset -/
  | sending (frame : Bytes) (offset : ℕ)
  /-- sending its last message -/
  | closing (message : PumpMessage)
  | returned
  deriving DecidableEq

structure Pump where
  stage : Stage
  received : ℕ
  draining : Bool
  controlOpen : Bool
  deriving DecidableEq

inductive Operation
  | read
  | readAll
  | writeFile
  deriving DecidableEq

/-- Who called `receive_with_limit`. -/
inductive Call
  | read
  /-- with the builder's `maximum_capacity` and its bytes -/
  | readAll (maximum : ℕ) (output : Bytes)
  | writeFile
  deriving DecidableEq

/-- What is left of `stop` after it has set the terminal outcome. -/
inductive StopStage
  | control (control : PumpControl)
  | wake
  deriving DecidableEq

/-- Where the call that holds the receiver's lock is. -/
inductive Reader
  | idle
  /-- before the limit checks that `read_all` and `write_file` make themselves -/
  | opening (operation : Operation) (limit : ℕ)
  /-- before the first `check_terminal` of `receive_with_limit` -/
  | entering (call : Call) (limit : ℕ)
  /-- before its `effective_limit` -/
  | limiting (call : Call) (limit : ℕ)
  /-- in `blocking_recv` -/
  | receiving (call : Call) (limit effective : ℕ)
  /-- before the `check_terminal` after it -/
  | checking (call : Call) (limit effective : ℕ) (message : PumpMessage)
  /-- at the match on the message -/
  | handling (call : Call) (limit effective : ℕ) (message : PumpMessage)
  /-- before the `check_terminal` for a wake message -/
  | rechecking (call : Call) (limit effective : ℕ)
  /-- in `stop`, before the error is returned -/
  | stopping (call : Call) (stage : StopStage)
  /-- in the file sink, which may ask for another chunk -/
  | pulling (limit : ℕ)
  /-- in the file sink, which has seen the end or an error -/
  | finishing
  deriving DecidableEq

structure State where
  /-- The frames the stream has still to yield. -/
  source : List Bytes
  pump : Pump
  channel : List PumpMessage
  control : PumpControl
  /-- The pump has not seen the last change of `control`. -/
  changed : Bool
  terminal : Option Terminal
  narrowLimit : ℕ
  delivered : ℕ
  reader : Reader
  /-- The calls of `stop` that other threads are in. -/
  stops : List StopStage
  shutdown : Bool
  /-- The `BodyState` was dropped. -/
  dropped : Bool
  /-- The chunks that `receive_with_limit` returned. -/
  chunks : List Bytes
  /-- It has returned the end of the body. -/
  ended : Bool
  /-- The limits of the calls that got the receiver's lock. -/
  requested : List ℕ

/-- `register`. -/
def State.init (c : Config) : State where
  source := c.frames
  pump := ⟨.waiting, 0, false, true⟩
  channel := []
  control := .running
  changed := false
  terminal := none
  narrowLimit := c.hardLimit
  delivered := 0
  reader := .idle
  stops := []
  shutdown := false
  dropped := false
  chunks := []
  ended := false
  requested := []

/-! ## Stopping -/

def setTerminal (terminal : Terminal) (s : State) : State :=
  { s with terminal := some (s.terminal.getD terminal) }

/-- The control that `stop` asks for when `terminal` is the effective outcome. -/
def Terminal.control : Terminal → PumpControl
  | .error (.tooLarge _ _) => .drain
  | .ended | .error _ => .cancel

/-- The next control in `send_if_modified`. -/
def PumpControl.next : PumpControl → PumpControl → PumpControl
  | .cancel, _ | _, .cancel => .cancel
  | .drain, _ | _, .drain => .drain
  | .running, .running => .running

def signal (control : PumpControl) (s : State) : State :=
  { s with
    control := s.control.next control
    changed := s.changed || s.control ≠ s.control.next control }

/-- `try_send` of a wake message. -/
def wake (c : Config) (sent : Bool) (s : State) : State :=
  if sent && s.channel.length < c.capacity then { s with channel := s.channel ++ [.wake] } else s

/-- What is left of `stop(terminal)` after its first critical section. -/
def stopStage (terminal : Terminal) (s : State) : StopStage :=
  .control (s.terminal.getD terminal).control

/-- One more step of `stop`, and what is left of it then. -/
def advanceStop (c : Config) (sent : Bool) (s : State) : StopStage → State × Option StopStage
  | .control control => (signal control s, some .wake)
  | .wake => (wake c sent s, none)

/-! ## The pump -/

/-- The branch that `select!` takes first. -/
def controlReady (s : State) : Bool := s.changed || s.dropped

/-- The control branch of the loop's `select!`. -/
def observe (s : State) : State :=
  let controlOpen := s.changed
  let pump := { s.pump with controlOpen }
  let s := { s with changed := false }
  match s.control with
  | .running => { s with pump := if controlOpen then pump else { pump with stage := .returned } }
  | .drain => { s with pump := { pump with draining := true } }
  | .cancel => { s with pump := { pump with stage := .returned } }

/-- What `run` does with the error of the stream, an end or a frame that is too large. -/
def Pump.close (message : PumpMessage) (p : Pump) : Pump :=
  { p with stage := if p.draining then .returned else .closing message }

def PumpError.message : PumpError → PumpMessage
  | .clientDisconnected => .error .clientDisconnected
  | .invalidBody message => .error (.invalidBody message)

def SourceEnd.message : SourceEnd → PumpMessage
  | .ended => .ended
  | .failed error => error.message

/-- What `run` does with a frame. -/
def Pump.frame (c : Config) (frame : Bytes) (p : Pump) : Pump :=
  if frame.isEmpty then p
  else
    let frameEnd := saturatingAdd p.received frame.length
    if frameEnd > c.hardLimit then p.close (.error (.tooLarge c.hardLimit frameEnd))
    else
      let p := { p with received := frameEnd }
      if p.draining then p else { p with stage := .sending frame 0 }

/-- The stream yields. -/
def next (c : Config) (s : State) : State :=
  match s.source with
  | [] => { s with pump := s.pump.close c.ending.message }
  | frame :: source => { s with source, pump := s.pump.frame c frame }

def Stage.message (c : Config) : Stage → Option PumpMessage
  | .sending frame offset =>
    some (.chunk ((frame.take (min (offset + c.chunkSize) frame.length)).drop offset))
  | .closing message => some message
  | .waiting | .returned => none

/-- `run` after a `send`. -/
def Pump.resume (c : Config) (outcome : SendOutcome) (p : Pump) : Pump :=
  match p.stage with
  | .sending frame offset =>
    match outcome with
    | .sent =>
      let offset := offset + c.chunkSize
      { p with stage := if offset < frame.length then .sending frame offset else .waiting }
    | .drain => { p with stage := .waiting, draining := true }
    | .cancel => { p with stage := .returned }
  | _ => { p with stage := .returned }

/-- The outcome of the control branch in `send`, when the control could be updated. -/
def PumpControl.outcome : PumpControl → SendOutcome
  | .running => .sent
  | .drain => .drain
  | .cancel => .cancel

/-- The same when the sender of the control signal is gone. -/
def PumpControl.closedOutcome : PumpControl → SendOutcome
  | .drain => .drain
  | .running | .cancel => .cancel

/-- The control branch in `send`. -/
def interrupt (c : Config) (s : State) : State :=
  let outcome := if s.changed then s.control.outcome else s.control.closedOutcome
  { s with changed := false, pump := s.pump.resume c outcome }

inductive PumpEvent
  | control
  | next
  | timeout
  | send
  deriving DecidableEq

def pumpStep (c : Config) (event : PumpEvent) (s : State) : Option State :=
  match s.pump.stage.message c with
  | some message =>
    match event with
    | .control => if controlReady s then some (interrupt c s) else none
    | .send =>
      if !controlReady s && s.channel.length < c.capacity then
        some { s with channel := s.channel ++ [message], pump := s.pump.resume c .sent }
      else none
    | .next | .timeout => none
  | none =>
    if s.pump.stage = .returned then none
    else
      match event with
      | .control => if s.pump.controlOpen && controlReady s then some (observe s) else none
      | .next => if s.pump.controlOpen && controlReady s then none else some (next c s)
      | .timeout =>
        if s.pump.controlOpen && controlReady s then none
        else some { s with pump := { s.pump with stage := .closing (.error .timeout) } }
      | .send => none

/-! ## The reader -/

/-- Where the thread is after its call has returned from `receive_with_limit`. -/
def Call.done : Call → Reader
  | .read | .readAll _ _ => .idle
  | .writeFile => .finishing

/-- `check_terminal` has found an outcome, which is returned. -/
def returnTerminal (call : Call) (terminal : Terminal) (s : State) : State :=
  { s with reader := call.done, ended := s.ended || terminal = .ended }

/-- `stop` is called by the reader; its first critical section. -/
def readerStop (call : Call) (error : BodyError) (s : State) : State :=
  { setTerminal (.error error) s with reader := .stopping call (stopStage (.error error) s) }

/-- The limit after `effective_limit`. -/
def effectiveLimit (c : Config) (requested : ℕ) (s : State) : ℕ :=
  min s.narrowLimit (min requested c.hardLimit)

/-- The limit checks of `read_all` and `write_file`. -/
def openCall (c : Config) (operation : Operation) (limit : ℕ) (s : State) : State :=
  let effective := effectiveLimit c limit s
  let s := { s with narrowLimit := effective }
  match operation with
  | .read => { s with reader := .entering .read limit }
  | .readAll =>
    let call := .readAll (effective - s.delivered) []
    if s.delivered > effective then readerStop call (.tooLarge effective s.delivered) s
    else { s with reader := .entering call limit }
  | .writeFile =>
    if s.delivered > effective then readerStop .writeFile (.tooLarge effective s.delivered) s
    else
      match c.declaredLength with
      | none => { s with reader := .pulling limit }
      | some declaredLength =>
        if declaredLength > effective then
          readerStop .writeFile (.tooLarge effective declaredLength) s
        else { s with reader := .pulling limit }

/-- The limit check of `receive_with_limit`. -/
def limitCall (c : Config) (call : Call) (limit : ℕ) (s : State) : State :=
  let effective := effectiveLimit c limit s
  let s := { s with narrowLimit := effective }
  if s.delivered > effective then readerStop call (.tooLarge effective s.delivered) s
  else { s with reader := .receiving call limit effective }

/-- What the caller does with a chunk; for `read_all` this is the builder's `extend`. -/
def Call.consume (limit : ℕ) (chunk : Bytes) : Call → Reader
  | .read => .idle
  | .readAll maximum output =>
    if output.length + chunk.length > maximum then .idle
    else .entering (.readAll maximum (output ++ chunk)) limit
  | .writeFile => .pulling limit

/-- `receive_with_limit` with a chunk that is not empty. -/
def deliver (call : Call) (limit effective : ℕ) (bytes : Bytes) (s : State) : State :=
  let receivedAtLeast := saturatingAdd s.delivered bytes.length
  if receivedAtLeast > effective then readerStop call (.tooLarge effective receivedAtLeast) s
  else
    { s with
      delivered := receivedAtLeast
      reader := call.consume limit bytes
      chunks := s.chunks ++ [bytes] }

/-- The match on a message. -/
def handle (call : Call) (limit effective : ℕ) (message : PumpMessage) (s : State) : State :=
  match message with
  | .chunk bytes =>
    if bytes.isEmpty then { s with reader := .receiving call limit effective }
    else deliver call limit effective bytes s
  | .ended => { setTerminal .ended s with reader := call.done, ended := true }
  | .error error => readerStop call error s
  | .wake => { s with reader := .rechecking call limit effective }

/-- One step of the call that holds the lock. `choice` says whether the sink asks for another chunk
and whether `try_send` finds a place. -/
def readerStep (c : Config) (choice : Bool) (s : State) : Option State :=
  match s.reader with
  | .idle => none
  | .opening operation limit => some (openCall c operation limit s)
  | .entering call limit =>
    match s.terminal with
    | some terminal => some (returnTerminal call terminal s)
    | none => some { s with reader := .limiting call limit }
  | .limiting call limit => some (limitCall c call limit s)
  | .receiving call limit effective =>
    match s.channel with
    | [] => none
    | message :: channel =>
      some { s with channel, reader := .checking call limit effective message }
  | .checking call limit effective message =>
    match s.terminal with
    | some terminal => some (returnTerminal call terminal s)
    | none => some { s with reader := .handling call limit effective message }
  | .handling call limit effective message => some (handle call limit effective message s)
  | .rechecking call limit effective =>
    match s.terminal with
    | some terminal => some (returnTerminal call terminal s)
    | none => some { s with reader := .receiving call limit effective }
  | .stopping call stage =>
    let (s, stage) := advanceStop c choice s stage
    some { s with reader := stage.elim call.done (.stopping call) }
  | .pulling limit =>
    some { s with reader := if choice then .entering .writeFile limit else .idle }
  | .finishing => some { s with reader := .idle }

/-- A hosted call begins. -/
def begin (operation : Operation) (limit : ℕ) (s : State) : State :=
  if operation = .writeFile && s.shutdown then s
  else if s.reader ≠ .idle then s
  else
    { s with
      reader := if operation = .read then .entering .read limit else .opening operation limit
      requested := s.requested ++ [limit] }

/-! ## The machine -/

inductive Label
  | pump (event : PumpEvent)
  | begin (operation : Operation) (limit : ℕ)
  | reader (choice : Bool)
  /-- Another thread calls `stop`: `expire`, or the watchdog of `write_file`. -/
  | stop (error : BodyError)
  /-- The `index`-th such call goes on. -/
  | stopping (index : ℕ) (sent : Bool)
  | shutdown
  /-- The last reference is gone: `drop_body_allocation`. -/
  | drop
  deriving DecidableEq

def step (c : Config) (s : State) : Label → Option State
  | .pump event => pumpStep c event s
  | .begin operation limit => if s.dropped then none else some (begin operation limit s)
  | .reader choice => if s.dropped then none else readerStep c choice s
  | .stop error =>
    if s.dropped then none
    else
      some { setTerminal (.error error) s with stops := s.stops ++ [stopStage (.error error) s] }
  | .stopping index sent =>
    match s.stops[index]? with
    | none => none
    | some stage =>
      let (s', stage') := advanceStop c sent s stage
      some { s' with stops := stage'.elim (s.stops.eraseIdx index) (s.stops.set index ·) }
  | .shutdown => some { s with shutdown := true }
  | .drop =>
    if s.dropped || s.reader ≠ .idle || s.stops ≠ [] then none
    else
      let terminal := s.terminal.getD (.error .cancelled)
      some { signal terminal.control (setTerminal terminal s) with dropped := true, channel := [] }

def machine (c : Config) : Machine State Label := ⟨State.init c, step c⟩

end BasicWebserver.RequestBody
