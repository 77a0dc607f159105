import BasicWebserver.Foundation.Machine

/-!
# The fixed-worker executor

`src/roc_executor.rs`: a mutex around `State` (an ingress queue, a counter of outstanding jobs, the
next ticket and the stop flag), `workers` threads in `worker_loop`, and one `JobRetirement` guard
per picked-up job. Every function below that takes a `State` is the body of one critical section.

`System` puts the threads around the state. A label of `machine` is one critical section: a
submission, a cancellation, a stop, one turn of a worker at the head of its loop (on first entry or
after a wakeup of the condition variable, spurious ones included) or one retirement. A guard may be
retired before, when or after `execute` returns, which covers `retire` and the drop of the guard.
Jobs are numbered by their submission; the numbers and the four logs are not read by the code.
-/

namespace BasicWebserver.RocExecutor

open Transition

inductive AdmissionClass
  | active
  | queued
  deriving DecidableEq

inductive SubmitError
  | full
  | stopping
  deriving DecidableEq

/-- `QueueTicket(u64)`. -/
structure QueueTicket where
  value : UInt64
  deriving DecidableEq

structure Entry (T : Type) where
  ticket : QueueTicket
  class_ : AdmissionClass
  job : T
  deriving DecidableEq

structure State (T : Type) where
  queue : List (Entry T)
  outstanding : ℕ
  nextTicket : UInt64
  stopping : Bool
  deriving DecidableEq

structure Submission where
  class_ : AdmissionClass
  ticket : QueueTicket
  deriving DecidableEq

/-- The immutable part of `Inner`. -/
structure Inner where
  workers : ℕ
  capacity : ℕ
  deriving DecidableEq

/-- The bound computed by `FixedExecutor::new`. -/
def Inner.new (workers waiting : ℕ) : Inner := ⟨workers, workers + waiting⟩

def State.new (T : Type) : State T := ⟨[], 0, 0, false⟩

section CriticalSections

variable {T : Type}

/-- The class of a submission that finds `outstanding` jobs admitted. -/
def Inner.classify (inner : Inner) (outstanding : ℕ) : AdmissionClass :=
  if outstanding < inner.workers then .active else .queued

def trySubmit (inner : Inner) (build : AdmissionClass → T) (state : State T) :
    Except SubmitError (Submission × State T) :=
  if state.stopping then .error .stopping
  else if state.outstanding = inner.capacity then .error .full
  else
    let class_ := inner.classify state.outstanding
    let ticket : QueueTicket := ⟨state.nextTicket⟩
    .ok (⟨class_, ticket⟩,
      { state with
        queue := state.queue ++ [⟨ticket, class_, build class_⟩]
        outstanding := state.outstanding + 1
        nextTicket := state.nextTicket + 1 })

/-- The outcomes of `cancel_queued`, its `assert_eq!` on the class included. -/
inductive Cancel (T : Type)
  | absent
  | handedBack (job : T) (state : State T)
  | assertionFailed
  deriving DecidableEq

/-- The first entry with the ticket is located, checked and removed. -/
def cancelQueued (ticket : QueueTicket) (state : State T) : Cancel T :=
  match state.queue.find? fun entry => entry.ticket = ticket with
  | none => .absent
  | some entry =>
    if entry.class_ = .queued then
      .handedBack entry.job
        { state with
          queue := state.queue.eraseP fun entry => entry.ticket = ticket
          outstanding := state.outstanding - 1 }
    else .assertionFailed

def stop (state : State T) : State T := { state with stopping := true }

/-- What a worker does in one pass through the inner loop of `worker_loop`. -/
inductive Turn (T : Type)
  | run (job : T) (state : State T)
  | exit
  | wait
  deriving DecidableEq

def workerTurn (state : State T) : Turn T :=
  match state.queue with
  | entry :: queue => .run entry.job { state with queue }
  | [] => if state.stopping then .exit else .wait

def retireJob (state : State T) : State T := { state with outstanding := state.outstanding - 1 }

end CriticalSections

/-! ## The system -/

/-- A job with the number of its submission. -/
structure Job (τ : Type) where
  serial : ℕ
  payload : τ
  deriving DecidableEq

inductive Worker
  | loop
  | executing (serial : ℕ)
  | returned
  deriving DecidableEq

structure System (τ : Type) where
  state : State (Job τ)
  worker : ℕ → Worker
  /-- The live `JobRetirement` guards. -/
  guards : List ℕ
  /-- The submissions that returned `Ok`, in order. -/
  accepted : List Submission
  /-- The jobs taken by workers, in order. -/
  picked : List ℕ
  /-- The jobs returned by `cancel_queued`, in order. -/
  handedBack : List ℕ
  /-- The jobs whose guard was retired or dropped, in order. -/
  retired : List ℕ

inductive Action (τ : Type)
  | trySubmit (build : AdmissionClass → τ)
  /-- `cancel_queued` with the ticket of submission `serial`, which reported `Queued`. -/
  | cancelQueued (serial : ℕ)
  | stopAdmission
  | workerTurn (k : ℕ)
  | executeReturns (k : ℕ)
  | retire (serial : ℕ)

section Steps

variable {τ : Type}

/-- The serials waiting in the queue, front first. -/
def System.queued (s : System τ) : List ℕ := s.state.queue.map fun entry => entry.job.serial

def System.setWorker (s : System τ) (k : ℕ) (w : Worker) : System τ :=
  { s with worker := Function.update s.worker k w }

def submitStep (inner : Inner) (build : AdmissionClass → τ) (s : System τ) : System τ :=
  match trySubmit inner (fun class_ => ⟨s.accepted.length, build class_⟩) s.state with
  | .error _ => s
  | .ok (submission, state) => { s with state, accepted := s.accepted ++ [submission] }

def cancelStep (serial : ℕ) (s : System τ) : Option (System τ) :=
  match s.accepted[serial]? with
  | some ⟨.queued, ticket⟩ =>
    match cancelQueued ticket s.state with
    | .absent => some s
    | .handedBack job state => some { s with state, handedBack := s.handedBack ++ [job.serial] }
    | .assertionFailed => none
  | _ => none

def workerStep (s : System τ) (k : ℕ) : System τ :=
  match workerTurn s.state with
  | .run job state =>
    { s with
      state
      worker := Function.update s.worker k (.executing job.serial)
      guards := job.serial :: s.guards
      picked := s.picked ++ [job.serial] }
  | .exit => s.setWorker k .returned
  | .wait => s

def step (inner : Inner) (s : System τ) : Action τ → Option (System τ)
  | .trySubmit build => some (submitStep inner build s)
  | .cancelQueued serial => cancelStep serial s
  | .stopAdmission => some { s with state := stop s.state }
  | .workerTurn k =>
    if k < inner.workers ∧ s.worker k = .loop then some (workerStep s k) else none
  | .executeReturns k =>
    match s.worker k with
    | .executing _ => some (s.setWorker k .loop)
    | _ => none
  | .retire serial =>
    if serial ∈ s.guards then
      some { s with
        state := retireJob s.state
        guards := s.guards.erase serial
        retired := s.retired ++ [serial] }
    else none

def System.init (τ : Type) : System τ := ⟨State.new _, fun _ => .loop, [], [], [], [], []⟩

/-- The executor with `workers` threads and `waiting` places in the queue. -/
def machine (τ : Type) (workers waiting : ℕ) : Machine (System τ) (Action τ) :=
  ⟨System.init τ, step (Inner.new workers waiting)⟩

end Steps

/-! ## What one critical section does -/

section Outcomes

variable {T τ : Type}

theorem trySubmit_ok {inner : Inner} {build : AdmissionClass → T} {state state' : State T}
    {submission : Submission} (h : trySubmit inner build state = .ok (submission, state')) :
    state.stopping = false ∧ state.outstanding ≠ inner.capacity ∧
      submission = ⟨inner.classify state.outstanding, ⟨state.nextTicket⟩⟩ ∧
      state' = { state with
        queue := state.queue ++ [⟨submission.ticket, submission.class_, build submission.class_⟩]
        outstanding := state.outstanding + 1
        nextTicket := state.nextTicket + 1 } := by
  unfold trySubmit at h
  split_ifs at h with hstop hfull
  simp only [Except.ok.injEq, Prod.mk.injEq] at h
  obtain ⟨rfl, rfl⟩ := h
  exact ⟨by simpa using hstop, hfull, rfl, rfl⟩

theorem cancelQueued_handedBack {ticket : QueueTicket} {state state' : State T} {job : T}
    (h : cancelQueued ticket state = .handedBack job state') :
    ∃ entry, state.queue.find? (fun entry => entry.ticket = ticket) = some entry ∧
      entry.class_ = .queued ∧ job = entry.job ∧
      state' = { state with
        queue := state.queue.eraseP fun entry => entry.ticket = ticket
        outstanding := state.outstanding - 1 } := by
  unfold cancelQueued at h
  split at h
  · cases h
  · rename_i entry hfind
    split_ifs at h with hclass
    injection h with hjob hstate
    exact ⟨entry, hfind, hclass, hjob.symm, hstate.symm⟩

theorem cancelQueued_assertionFailed {ticket : QueueTicket} {state : State T}
    (h : cancelQueued ticket state = .assertionFailed) :
    ∃ entry ∈ state.queue, entry.ticket = ticket ∧ entry.class_ = .active := by
  unfold cancelQueued at h
  split at h
  · cases h
  · rename_i entry hfind
    split_ifs at h with hclass
    have hticket := List.find?_some hfind
    refine ⟨entry, List.mem_of_find?_eq_some hfind, by simpa using hticket, ?_⟩
    cases hc : entry.class_ with
    | active => rfl
    | queued => exact absurd hc hclass

/-- Everything a step can do to the system. -/
inductive Effect (inner : Inner) (s : System τ) : System τ → Prop
  | none : Effect inner s s
  | submitted (build : AdmissionClass → τ) (submission : Submission) (state : State (Job τ))
      (ok : trySubmit inner (fun class_ => ⟨s.accepted.length, build class_⟩) s.state =
        .ok (submission, state)) :
      Effect inner s { s with state, accepted := s.accepted ++ [submission] }
  | handedBack (serial : ℕ) (ticket : QueueTicket) (job : Job τ) (state : State (Job τ))
      (accepted : s.accepted[serial]? = some ⟨.queued, ticket⟩)
      (back : cancelQueued ticket s.state = .handedBack job state) :
      Effect inner s { s with state, handedBack := s.handedBack ++ [job.serial] }
  | stopped : Effect inner s { s with state := stop s.state }
  | picked (k : ℕ) (entry : Entry (Job τ)) (queue : List (Entry (Job τ)))
      (front : s.state.queue = entry :: queue) :
      Effect inner s { s with
        state := { s.state with queue }
        worker := Function.update s.worker k (.executing entry.job.serial)
        guards := entry.job.serial :: s.guards
        picked := s.picked ++ [entry.job.serial] }
  | returned (k : ℕ) (empty : s.state.queue = []) (stopping : s.state.stopping = true) :
      Effect inner s (s.setWorker k .returned)
  | executed (k : ℕ) : Effect inner s (s.setWorker k .loop)
  | retired (serial : ℕ) (live : serial ∈ s.guards) :
      Effect inner s { s with
        state := retireJob s.state
        guards := s.guards.erase serial
        retired := s.retired ++ [serial] }

theorem step_effect {inner : Inner} {s t : System τ} {a : Action τ}
    (h : step inner s a = some t) : Effect inner s t := by
  cases a with
  | trySubmit build =>
    simp only [step, submitStep, Option.some.injEq] at h
    split at h
    · exact h ▸ .none
    · rename_i submission state hok
      exact h ▸ .submitted build submission state hok
  | cancelQueued serial =>
    simp only [step, cancelStep] at h
    split at h
    · rename_i ticket haccepted
      split at h
      · exact Option.some.inj h ▸ .none
      · rename_i job state hback
        exact Option.some.inj h ▸ .handedBack serial ticket job state haccepted hback
      · cases h
    · cases h
  | stopAdmission => exact Option.some.inj h ▸ .stopped
  | workerTurn k =>
    simp only [step] at h
    split_ifs at h with hk
    rw [Option.some.injEq] at h
    unfold workerStep workerTurn at h
    cases hq : s.state.queue with
    | cons entry queue =>
      rw [hq] at h
      exact h ▸ .picked k entry queue hq
    | nil =>
      rw [hq] at h
      cases hstop : s.state.stopping with
      | false =>
        simp only [hstop, Bool.false_eq_true, if_false] at h
        exact h ▸ .none
      | true =>
        simp only [hstop, if_true] at h
        exact h ▸ .returned k hq hstop
  | executeReturns k =>
    simp only [step] at h
    split at h
    · exact Option.some.inj h ▸ .executed k
    · cases h
  | retire serial =>
    simp only [step] at h
    split_ifs at h with hg
    exact Option.some.inj h ▸ .retired serial hg

end Outcomes

end BasicWebserver.RocExecutor
