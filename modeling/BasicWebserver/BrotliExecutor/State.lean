import Mathlib.Logic.Function.Basic
import BasicWebserver.Foundation.Machine

/-!
# The Brotli lane executor

`src/brotli_executor.rs`: `lane_count` lane slots, a pool of free lane ids, a bounded channel of
`Work` and `worker_count` threads in `worker_loop`. A compressed stream leases a lane with
`try_admit`, spends it in `submit`, gets it back in the completion that `BrotliJob::poll` takes out
of the slot, and gives it up by dropping whatever it holds.

A label of `machine` is one atomic load, store or read-modify-write, or one mutex critical section.
A stream that is inside a call carries a program counter naming its next such operation, and so does
a worker, so any two calls interleave at every one of them. Each stream is one owner (the caller
holds one of a lane, a job or a completion at a time) and there is no bound on their number. The
executor handle stays alive, so the channel is never disconnected and carries `Run` messages only.

The lease counts, the submission numbers inside `Origin` and the log `taken` are not read by the
code; they say which lease and which submission a job, a work item or a completion belongs to. The
input, the output reservation and the encoder's result ride along with the lane and decide nothing
here; of the encoder the model keeps whether the slot owns one.
-/

namespace BasicWebserver.BrotliExecutor

open Transition

inductive BrotliOperation
  | process
  | flush
  | finish
  deriving DecidableEq

/-- The submission a value stems from: its lane, the number of that lane's lease and the number of
the submission. -/
structure Origin where
  lane : ℕ
  lease : ℕ
  submission : ℕ
  deriving DecidableEq

structure Work where
  origin : Origin
  operation : BrotliOperation
  deriving DecidableEq

structure CompletedWork where
  origin : Origin
  deriving DecidableEq

structure BrotliJob where
  origin : Origin
  deriving DecidableEq

/-- `LaneCell` and the encoder of one `LaneSlot`; the waker is the stream it wakes. -/
structure LaneSlot where
  result : Option CompletedWork
  waker : Option ℕ
  cancelled : Bool
  encoder : Bool
  deriving DecidableEq

structure Counters where
  active : ℕ
  queued : ℕ
  running : ℕ
  laneHighWater : ℕ
  queueHighWater : ℕ
  runningHighWater : ℕ
  deriving DecidableEq

/-! ## Program counters -/

/-- `release_lane`. -/
inductive ReleasePc
  | takeEncoder
  | countActive
  | pushAvailable
  deriving DecidableEq

/-- `try_admit` after the pop; `current` is the value `fetch_add` returned plus one. -/
inductive AdmitPc
  | countActive
  | markHighWater (current : ℕ)
  | replaceEncoder
  | clearCancelled
  | takeWaker
  | checkResult
  deriving DecidableEq

/-- `submit`; `uncountQueued` is the path of a refused `try_send`. -/
inductive SubmitPc
  | clearCancelled
  | countQueued
  | markHighWater (current : ℕ)
  | trySend
  | uncountQueued
  deriving DecidableEq

/-- `BrotliJob::poll` after the first look found no result. -/
inductive PollPc
  | registerWaker
  | recheckResult
  deriving DecidableEq

/-- `BrotliJob::drop` after the store to `cancelled`. -/
inductive DropPc
  | takeWaker
  | takeResult
  deriving DecidableEq

/-- `worker_loop` between the receive and the cancelled check. -/
inductive DequeuePc
  | uncountQueued
  | countRunning
  | markHighWater (current : ℕ)
  | checkCancelled
  deriving DecidableEq

/-- What a stream holds and where it is inside a call. -/
inductive Stream
  | idle
  | admitting (lane : ℕ) (pc : AdmitPc)
  | lane (lane : ℕ)
  | submitting (lane : ℕ) (operation : BrotliOperation) (pc : SubmitPc)
  | job (job : BrotliJob)
  | polling (job : BrotliJob) (pc : PollPc)
  | dropping (job : BrotliJob) (pc : DropPc)
  | completion (lane : ℕ)
  | releasing (lane : ℕ) (pc : ReleasePc)
  deriving DecidableEq

inductive Worker
  | receive
  | dequeued (work : Work) (pc : DequeuePc)
  | skip (work : Work)
  | run (work : Work)
  | ran (work : Work)
  | publish (work : CompletedWork)
  | wake (lane : ℕ)
  | release (lane : ℕ) (pc : ReleasePc)
  deriving DecidableEq

structure State where
  available : List ℕ
  lanes : ℕ → LaneSlot
  channel : List Work
  counters : Counters
  stream : ℕ → Stream
  worker : ℕ → Worker
  /-- How often each lane was popped from `available`. -/
  lease : ℕ → ℕ
  /-- How many submissions entered the channel. -/
  submissions : ℕ
  /-- The submissions of the job and of the completion, for every completion a job took. -/
  taken : List (ℕ × ℕ)

inductive Action
  | tryAdmit (k : ℕ)
  | submit (k : ℕ) (operation : BrotliOperation)
  | poll (k : ℕ)
  | dropJob (k : ℕ)
  | dropLane (k : ℕ)
  | dropCompletion (k : ℕ)
  /-- The caller moves the lane out of a completion. -/
  | takeLane (k : ℕ)
  /-- The next operation of the call stream `k` is in. -/
  | advance (k : ℕ)
  /-- The next operation of worker `i`. -/
  | work (i : ℕ)
  deriving DecidableEq

/-! ## Steps -/

namespace State

def setStream (s : State) (k : ℕ) (x : Stream) : State :=
  { s with stream := Function.update s.stream k x }

def setWorker (s : State) (i : ℕ) (x : Worker) : State :=
  { s with worker := Function.update s.worker i x }

def setSlot (s : State) (l : ℕ) (x : LaneSlot) : State :=
  { s with lanes := Function.update s.lanes l x }

def setCounters (s : State) (c : Counters) : State := { s with counters := c }

end State

/-- The next operation of `release_lane` for lane `l`, and what follows it. -/
def releaseLane (s : State) (l : ℕ) : ReleasePc → State × Option ReleasePc
  | .takeEncoder => (s.setSlot l { s.lanes l with encoder := false }, some .countActive)
  | .countActive =>
    (s.setCounters { s.counters with active := s.counters.active - 1 }, some .pushAvailable)
  | .pushAvailable => ({ s with available := l :: s.available }, none)

def admitting (s : State) (k l : ℕ) : AdmitPc → State
  | .countActive =>
    (s.setCounters { s.counters with active := s.counters.active + 1 }).setStream k
      (.admitting l (.markHighWater (s.counters.active + 1)))
  | .markHighWater current =>
    (s.setCounters
        { s.counters with laneHighWater := max s.counters.laneHighWater current }).setStream k
      (.admitting l .replaceEncoder)
  | .replaceEncoder =>
    (s.setSlot l { s.lanes l with encoder := true }).setStream k (.admitting l .clearCancelled)
  | .clearCancelled =>
    (s.setSlot l { s.lanes l with cancelled := false }).setStream k (.admitting l .takeWaker)
  | .takeWaker =>
    (s.setSlot l { s.lanes l with waker := none }).setStream k (.admitting l .checkResult)
  | .checkResult => s.setStream k (.lane l)

/-- The channel holds at most `capacity` messages. -/
def trySend (capacity : ℕ) (s : State) (k l : ℕ) (operation : BrotliOperation) : State :=
  if s.channel.length < capacity then
    let origin : Origin := ⟨l, s.lease l, s.submissions⟩
    { s with
      channel := s.channel ++ [⟨origin, operation⟩]
      stream := Function.update s.stream k (.job ⟨origin⟩)
      submissions := s.submissions + 1 }
  else s.setStream k (.submitting l operation .uncountQueued)

def submitting (capacity : ℕ) (s : State) (k l : ℕ) (operation : BrotliOperation) :
    SubmitPc → State
  | .clearCancelled =>
    (s.setSlot l { s.lanes l with cancelled := false }).setStream k
      (.submitting l operation .countQueued)
  | .countQueued =>
    (s.setCounters { s.counters with queued := s.counters.queued + 1 }).setStream k
      (.submitting l operation (.markHighWater (s.counters.queued + 1)))
  | .markHighWater current =>
    (s.setCounters
        { s.counters with queueHighWater := max s.counters.queueHighWater current }).setStream k
      (.submitting l operation .trySend)
  | .trySend => trySend capacity s k l operation
  | .uncountQueued =>
    (s.setCounters { s.counters with queued := s.counters.queued - 1 }).setStream k (.lane l)

/-- The first critical section of `poll`. -/
def pollResult (s : State) (k : ℕ) (job : BrotliJob) : State :=
  let l := job.origin.lane
  match (s.lanes l).result with
  | some work =>
    { s with
      lanes := Function.update s.lanes l { s.lanes l with result := none }
      stream := Function.update s.stream k (.completion work.origin.lane)
      taken := s.taken ++ [(job.origin.submission, work.origin.submission)] }
  | none => s.setStream k (.polling job .registerWaker)

/-- The rest of `poll`; a ready result in `recheckResult` wakes the caller's own waker. -/
def polling (s : State) (k : ℕ) (job : BrotliJob) : PollPc → State
  | .registerWaker =>
    (s.setSlot job.origin.lane { s.lanes job.origin.lane with waker := some k }).setStream k
      (.polling job .recheckResult)
  | .recheckResult => s.setStream k (.job job)

/-- The last critical section of `BrotliJob::drop`; a completion found there is dropped, which
releases its lane. -/
def dropResult (s : State) (k : ℕ) (job : BrotliJob) : State :=
  let l := job.origin.lane
  match (s.lanes l).result with
  | some work =>
    { s with
      lanes := Function.update s.lanes l { s.lanes l with result := none }
      stream := Function.update s.stream k (.releasing work.origin.lane .takeEncoder)
      taken := s.taken ++ [(job.origin.submission, work.origin.submission)] }
  | none => s.setStream k .idle

def dropping (s : State) (k : ℕ) (job : BrotliJob) : DropPc → State
  | .takeWaker =>
    (s.setSlot job.origin.lane { s.lanes job.origin.lane with waker := none }).setStream k
      (.dropping job .takeResult)
  | .takeResult => dropResult s k job

def releasingStream (s : State) (k l : ℕ) (pc : ReleasePc) : State :=
  match releaseLane s l pc with
  | (s', some pc') => s'.setStream k (.releasing l pc')
  | (s', none) => s'.setStream k .idle

def advance (capacity : ℕ) (s : State) (k : ℕ) : Option State :=
  match s.stream k with
  | .admitting l pc => some (admitting s k l pc)
  | .submitting l operation pc => some (submitting capacity s k l operation pc)
  | .polling job pc => some (polling s k job pc)
  | .dropping job pc => some (dropping s k job pc)
  | .releasing l pc => some (releasingStream s k l pc)
  | _ => none

/-- `LaneCell::publish` up to the release of the result lock: the check of `cancelled` and the
store to the slot are one critical section. -/
def publish (s : State) (i : ℕ) (work : CompletedWork) : State :=
  let l := work.origin.lane
  if (s.lanes l).cancelled then s.setWorker i (.release l .takeEncoder)
  else (s.setSlot l { s.lanes l with result := some work }).setWorker i (.wake l)

def dequeued (s : State) (i : ℕ) (work : Work) : DequeuePc → State
  | .uncountQueued =>
    (s.setCounters { s.counters with queued := s.counters.queued - 1 }).setWorker i
      (.dequeued work .countRunning)
  | .countRunning =>
    (s.setCounters { s.counters with running := s.counters.running + 1 }).setWorker i
      (.dequeued work (.markHighWater (s.counters.running + 1)))
  | .markHighWater current =>
    (s.setCounters
        { s.counters with
          runningHighWater := max s.counters.runningHighWater current }).setWorker i
      (.dequeued work .checkCancelled)
  | .checkCancelled =>
    s.setWorker i (if (s.lanes work.origin.lane).cancelled then .skip work else .run work)

def releasingWorker (s : State) (i l : ℕ) (pc : ReleasePc) : State :=
  match releaseLane s l pc with
  | (s', some pc') => s'.setWorker i (.release l pc')
  | (s', none) => s'.setWorker i .receive

def workerLoop (s : State) (i : ℕ) : Option State :=
  match s.worker i with
  | .receive =>
    match s.channel with
    | work :: channel => some ({ s with channel }.setWorker i (.dequeued work .uncountQueued))
    | [] => none
  | .dequeued work pc => some (dequeued s i work pc)
  | .skip work =>
    some ((s.setCounters { s.counters with running := s.counters.running - 1 }).setWorker i
      (.release work.origin.lane .takeEncoder))
  | .run work =>
    -- `expect("admitted Brotli lane owns a stable encoder")`
    if (s.lanes work.origin.lane).encoder then some (s.setWorker i (.ran work)) else none
  | .ran work =>
    some ((s.setCounters { s.counters with running := s.counters.running - 1 }).setWorker i
      (.publish ⟨work.origin⟩))
  | .publish work => some (publish s i work)
  | .wake l => some ((s.setSlot l { s.lanes l with waker := none }).setWorker i .receive)
  | .release l pc => some (releasingWorker s i l pc)

def step (workers lanes : ℕ) (s : State) : Action → Option State
  | .tryAdmit k =>
    match s.stream k, s.available with
    | .idle, l :: available =>
      some { s with
        available
        stream := Function.update s.stream k (.admitting l .countActive)
        lease := Function.update s.lease l (s.lease l + 1) }
    | .idle, [] => some s
    | _, _ => none
  | .submit k operation =>
    match s.stream k with
    | .lane l => some (s.setStream k (.submitting l operation .clearCancelled))
    | _ => none
  | .poll k =>
    match s.stream k with
    | .job job => some (pollResult s k job)
    | _ => none
  | .dropJob k =>
    match s.stream k with
    | .job job =>
      some ((s.setSlot job.origin.lane
          { s.lanes job.origin.lane with cancelled := true }).setStream k
        (.dropping job .takeWaker))
    | _ => none
  | .dropLane k =>
    match s.stream k with
    | .lane l => some (s.setStream k (.releasing l .takeEncoder))
    | _ => none
  | .dropCompletion k =>
    match s.stream k with
    | .completion l => some (s.setStream k (.releasing l .takeEncoder))
    | _ => none
  | .takeLane k =>
    match s.stream k with
    | .completion l => some (s.setStream k (.lane l))
    | _ => none
  | .advance k => advance lanes s k
  | .work i => if i < workers then workerLoop s i else none

/-- `new_inner`: every lane is free, the lowest id on top of the pool. -/
def State.init (lanes : ℕ) : State where
  available := List.range lanes
  lanes _ := ⟨none, none, false, false⟩
  channel := []
  counters := ⟨0, 0, 0, 0, 0, 0⟩
  stream _ := .idle
  worker _ := .receive
  lease _ := 0
  submissions := 0
  taken := []

/-- The executor with `workers` threads and `lanes` lanes. -/
def machine (workers lanes : ℕ) : Machine State Action := ⟨State.init lanes, step workers lanes⟩

end BasicWebserver.BrotliExecutor
