import Mathlib.Data.List.Perm.Subperm
import BasicWebserver.BrotliExecutor.Traced

/-!
# The executor moves lanes

`State.toLanes` forgets program counters, wakers, encoders and counters. Every operation of the
executor is then one move of a lane or none (`step_moves`), and both invariants come down to the
code. `laneOwnership_iff` joins them: a lane is at exactly one place in every reachable state, and a
run keeps every completion with its own job exactly when no dropped job looks into a slot that holds
a completion of a later lease. `drop_takes_foreign_completion` is a run that does.
-/

namespace BasicWebserver.BrotliExecutor

open Transition

/-- The lane a stream holds, as a `BrotliLane`, in a delivered completion, or while it is inside
`try_admit`, `submit` or `release_lane`. A job holds no lane. -/
def Stream.lane? : Stream → Option ℕ
  | .idle => none
  | .admitting l _ => some l
  | .lane l => some l
  | .submitting l _ _ => some l
  | .job _ => none
  | .polling _ _ => none
  | .dropping _ _ => none
  | .completion l => some l
  | .releasing l _ => some l

/-- The lane of the `Work` or completion a worker holds. -/
def Worker.lane? : Worker → Option ℕ
  | .receive => none
  | .dequeued work _ => some work.origin.lane
  | .skip work => some work.origin.lane
  | .run work => some work.origin.lane
  | .ran work => some work.origin.lane
  | .publish work => some work.origin.lane
  | .wake _ => none
  | .release l _ => some l

/-- Lane `l` is at the place `p`. -/
def State.LaneAt (s : State) : Place → ℕ → Prop
  | .available, l => l ∈ s.available
  | .stream k, l => (s.stream k).lane? = some l
  | .channel, l => l ∈ s.channel.map fun work => work.origin.lane
  | .worker i, l => (s.worker i).lane? = some l
  | .slot, l => (s.lanes l).result.isSome = true

/-- The job whose drop looks into its slot in this step. -/
def droppedJob (s : State) : Action → Option BrotliJob
  | .advance k =>
    match s.stream k with
    | .dropping job .takeResult => some job
    | _ => none
  | _ => none

/-- The drop of a job that looks into its slot finds it empty or still under its own lease. -/
def KeepsSlot (s : State) (a : Action) : Prop :=
  ∀ job, droppedJob s a = some job →
    (s.lanes job.origin.lane).result = none ∨ s.lease job.origin.lane = job.origin.lease

/-! ## Abstraction -/

def Stream.holding : Stream → Holding
  | .idle => .nothing
  | .admitting l _ => .lane l false
  | .lane l => .lane l false
  | .submitting l _ .clearCancelled => .lane l false
  | .submitting l _ .countQueued => .lane l true
  | .submitting l _ (.markHighWater _) => .lane l true
  | .submitting l _ .trySend => .lane l true
  | .submitting l _ .uncountQueued => .lane l false
  | .job j => .live j.origin
  | .polling j _ => .live j.origin
  | .dropping j _ => .dropping j.origin
  | .completion l => .lane l false
  | .releasing l _ => .lane l false

def Worker.task : Worker → Task
  | .receive => .nothing
  | .dequeued work _ => .live work.origin
  | .skip work => .lane work.origin.lane
  | .run work => .live work.origin
  | .ran work => .live work.origin
  | .publish work => .live work.origin
  | .wake _ => .nothing
  | .release l _ => .lane l

def State.toLanes (s : State) : Lanes where
  available := s.available
  channel := s.channel.map Work.origin
  result l := (s.lanes l).result.map CompletedWork.origin
  cancelled l := (s.lanes l).cancelled
  stream k := (s.stream k).holding
  worker i := (s.worker i).task
  lease := s.lease
  submissions := s.submissions
  taken := s.taken

theorem Stream.holding_lane? (x : Stream) : x.holding.lane? = x.lane? := by
  cases x with
  | submitting l op pc => cases pc <;> rfl
  | _ => rfl

theorem Worker.task_lane? (x : Worker) : x.task.lane? = x.lane? := by
  cases x <;> rfl

theorem laneAt_iff (s : State) (p : Place) (l : ℕ) : s.LaneAt p l ↔ s.toLanes.Holds p l := by
  cases p with
  | stream k => exact iff_of_eq (congrArg (· = some l) (Stream.holding_lane? _).symm)
  | worker i => exact iff_of_eq (congrArg (· = some l) (Worker.task_lane? _).symm)
  | slot => simp [State.LaneAt, Lanes.Holds, State.toLanes]
  | channel => simp [State.LaneAt, Lanes.Holds, State.toLanes]
  | available => rfl

namespace State

variable (s : State)

theorem toLanes_setStream (k : ℕ) (x : Stream) :
    (s.setStream k x).toLanes =
      { s.toLanes with stream := Function.update s.toLanes.stream k x.holding } := by
  simp only [toLanes, setStream, Lanes.mk.injEq, true_and, and_true]
  exact funext fun j => Function.apply_update (fun _ => Stream.holding) s.stream k x j

theorem toLanes_setWorker (i : ℕ) (x : Worker) :
    (s.setWorker i x).toLanes =
      { s.toLanes with worker := Function.update s.toLanes.worker i x.task } := by
  simp only [toLanes, setWorker, Lanes.mk.injEq, true_and, and_true]
  exact funext fun j => Function.apply_update (fun _ => Worker.task) s.worker i x j

theorem toLanes_setSlot (l : ℕ) (x : LaneSlot) :
    (s.setSlot l x).toLanes =
      { s.toLanes with
        result := Function.update s.toLanes.result l (x.result.map CompletedWork.origin)
        cancelled := Function.update s.toLanes.cancelled l x.cancelled } := by
  simp only [toLanes, setSlot, Lanes.mk.injEq, true_and, and_true]
  exact ⟨funext fun j => Function.apply_update
      (fun _ y => y.result.map CompletedWork.origin) s.lanes l x j,
    funext fun j => Function.apply_update (fun _ => LaneSlot.cancelled) s.lanes l x j⟩

@[simp] theorem toLanes_setCounters (c : Counters) : (s.setCounters c).toLanes = s.toLanes := rfl

@[simp] theorem stream_setCounters (c : Counters) : (s.setCounters c).stream = s.stream := rfl

@[simp] theorem worker_setCounters (c : Counters) : (s.setCounters c).worker = s.worker := rfl

@[simp] theorem stream_setSlot (l : ℕ) (x : LaneSlot) : (s.setSlot l x).stream = s.stream := rfl

@[simp] theorem worker_setSlot (l : ℕ) (x : LaneSlot) : (s.setSlot l x).worker = s.worker := rfl

variable {s}

theorem toLanes_setStream_same {k : ℕ} {x : Stream} (h : x.holding = (s.stream k).holding) :
    (s.setStream k x).toLanes = s.toLanes := by
  rw [toLanes_setStream, h]
  exact congrArg (fun f => { s.toLanes with stream := f }) (Function.update_eq_self k _)

theorem toLanes_setWorker_same {i : ℕ} {x : Worker} (h : x.task = (s.worker i).task) :
    (s.setWorker i x).toLanes = s.toLanes := by
  rw [toLanes_setWorker, h]
  exact congrArg (fun f => { s.toLanes with worker := f }) (Function.update_eq_self i _)

theorem toLanes_setSlot_same {l : ℕ} {x : LaneSlot} (hr : x.result = (s.lanes l).result)
    (hc : x.cancelled = (s.lanes l).cancelled) : (s.setSlot l x).toLanes = s.toLanes := by
  rw [toLanes_setSlot, hr, hc]
  have h₁ : Function.update s.toLanes.result l ((s.lanes l).result.map CompletedWork.origin) =
      s.toLanes.result := Function.update_eq_self l s.toLanes.result
  have h₂ : Function.update s.toLanes.cancelled l (s.lanes l).cancelled = s.toLanes.cancelled :=
    Function.update_eq_self l s.toLanes.cancelled
  rw [h₁, h₂]

theorem toLanes_setCancelled (l : ℕ) (c : Bool) :
    (s.setSlot l { s.lanes l with cancelled := c }).toLanes =
      { s.toLanes with cancelled := Function.update s.toLanes.cancelled l c } := by
  rw [toLanes_setSlot]
  exact congrArg (fun f => { s.toLanes with
    result := f, cancelled := Function.update s.toLanes.cancelled l c })
    (Function.update_eq_self l s.toLanes.result)

theorem toLanes_setResult (l : ℕ) (r : Option CompletedWork) :
    (s.setSlot l { s.lanes l with result := r }).toLanes =
      { s.toLanes with
        result := Function.update s.toLanes.result l (r.map CompletedWork.origin) } := by
  rw [toLanes_setSlot]
  exact congrArg (fun f => { s.toLanes with
    result := Function.update s.toLanes.result l (r.map CompletedWork.origin), cancelled := f })
    (Function.update_eq_self l s.toLanes.cancelled)

end State

/-! ## Every operation is one move or none -/

/-- From `s` to `t` one lane moves or none; only a move can be labelled. -/
def Moves (s : State) (x : Option Origin) (t : State) : Prop :=
  (x = none ∧ t.toLanes = s.toLanes) ∨ Lanes.Step s.toLanes x t.toLanes

section Moves

variable {s t : State} {k i l : ℕ}

theorem moves_of_stutter (h : t.toLanes = s.toLanes) : Moves s none t := .inl ⟨rfl, h⟩

theorem admitting_moves (pc : AdmitPc) (hk : s.stream k = .admitting l pc) :
    Moves s none (admitting s k l pc) := by
  have hold : s.toLanes.stream k = .lane l false := congrArg Stream.holding hk
  have stutter : ∀ (t : State) pc', t.toLanes = s.toLanes → t.stream = s.stream →
      Moves s none (t.setStream k (.admitting l pc')) := fun t pc' ht hs =>
    moves_of_stutter ((State.toLanes_setStream_same (by rw [hs, hk]; rfl)).trans ht)
  cases pc with
  | countActive => exact stutter _ _ rfl rfl
  | markHighWater current => exact stutter _ _ rfl rfl
  | replaceEncoder => exact stutter _ _ (State.toLanes_setSlot_same rfl rfl) rfl
  | takeWaker => exact stutter _ _ (State.toLanes_setSlot_same rfl rfl) rfl
  | clearCancelled =>
    refine .inr ?_
    rw [admitting, State.toLanes_setStream, State.toLanes_setCancelled]
    exact .clear k l false false hold
  | checkResult =>
    exact moves_of_stutter (State.toLanes_setStream_same (by rw [hk]; rfl))

theorem trySend_moves {capacity : ℕ} {operation : BrotliOperation}
    (hk : s.stream k = .submitting l operation .trySend) :
    Moves s none (trySend capacity s k l operation) := by
  have hold : s.toLanes.stream k = .lane l true := congrArg Stream.holding hk
  refine .inr ?_
  unfold trySend
  split_ifs with hcap
  · have hstep := Lanes.Step.submit k l hold
    have hch : (s.channel ++ [(⟨⟨l, s.lease l, s.submissions⟩, operation⟩ : Work)]).map Work.origin =
        s.toLanes.channel ++ [⟨l, s.lease l, s.submissions⟩] := by simp [State.toLanes]
    have hst := congrArg Lanes.stream
      (State.toLanes_setStream s k (.job ⟨⟨l, s.lease l, s.submissions⟩⟩))
    simp only [State.toLanes] at hstep hch hst ⊢
    rw [hch]
    simp only [State.setStream] at hst
    rw [hst]
    exact hstep
  · rw [State.toLanes_setStream]
    exact .refuse k l hold

theorem submitting_moves {capacity : ℕ} {operation : BrotliOperation} (pc : SubmitPc)
    (hk : s.stream k = .submitting l operation pc) :
    Moves s none (submitting capacity s k l operation pc) := by
  cases pc with
  | clearCancelled =>
    refine .inr ?_
    rw [submitting, State.toLanes_setStream, State.toLanes_setCancelled]
    exact .clear k l false true (congrArg Stream.holding hk)
  | countQueued => exact moves_of_stutter (State.toLanes_setStream_same (by simp [hk]; rfl))
  | markHighWater current =>
    exact moves_of_stutter (State.toLanes_setStream_same (by simp [hk]; rfl))
  | trySend => exact trySend_moves hk
  | uncountQueued => exact moves_of_stutter (State.toLanes_setStream_same (by simp [hk]; rfl))

theorem toLanes_take {job : BrotliJob} {work : CompletedWork} {x : Stream}
    (hx : x.holding = .lane work.origin.lane false) :
    State.toLanes { s with
      lanes := Function.update s.lanes job.origin.lane
        { s.lanes job.origin.lane with result := none }
      stream := Function.update s.stream k x
      taken := s.taken ++ [(job.origin.submission, work.origin.submission)] } =
    { s.toLanes with
      result := Function.update s.toLanes.result job.origin.lane none
      stream := Function.update s.toLanes.stream k (.lane work.origin.lane false)
      taken := s.toLanes.taken ++ [(job.origin.submission, work.origin.submission)] } := by
  have hresult := State.toLanes_setResult (s := s) job.origin.lane none
  have hstream := State.toLanes_setStream s k x
  rw [hx] at hstream
  have h₁ := congrArg Lanes.result hresult
  have h₂ := congrArg Lanes.cancelled hresult
  have h₃ := congrArg Lanes.stream hstream
  simp only [State.toLanes, State.setSlot, State.setStream, Option.map_none] at h₁ h₂ h₃ ⊢
  rw [h₁, h₂, h₃]

theorem pollResult_moves {job : BrotliJob} (hk : s.stream k = .job job) :
    Moves s none (pollResult s k job) := by
  have hold : s.toLanes.stream k = .live job.origin := congrArg Stream.holding hk
  unfold pollResult
  dsimp only
  cases hr : (s.lanes job.origin.lane).result with
  | none =>
    exact moves_of_stutter (State.toLanes_setStream_same (by rw [hk]; rfl))
  | some work =>
    have hready : s.toLanes.result job.origin.lane = some work.origin :=
      congrArg (Option.map CompletedWork.origin) hr
    refine .inr ?_
    rw [toLanes_take (x := .completion work.origin.lane) rfl]
    exact .poll k _ _ hold hready

theorem polling_moves {job : BrotliJob} (pc : PollPc) (hk : s.stream k = .polling job pc) :
    Moves s none (polling s k job pc) := by
  cases pc with
  | registerWaker =>
    exact moves_of_stutter ((State.toLanes_setStream_same (by simp [hk]; rfl)).trans
      (State.toLanes_setSlot_same rfl rfl))
  | recheckResult => exact moves_of_stutter (State.toLanes_setStream_same (by rw [hk]; rfl))

theorem dropResult_moves {job : BrotliJob} (hk : s.stream k = .dropping job .takeResult) :
    Moves s (some job.origin) (dropResult s k job) := by
  have hold : s.toLanes.stream k = .dropping job.origin := congrArg Stream.holding hk
  unfold dropResult
  dsimp only
  refine .inr ?_
  cases hr : (s.lanes job.origin.lane).result with
  | none =>
    have hempty : s.toLanes.result job.origin.lane = none :=
      congrArg (Option.map CompletedWork.origin) hr
    simp only [State.toLanes_setStream]
    exact .dropEmpty k _ hold hempty
  | some work =>
    have hready : s.toLanes.result job.origin.lane = some work.origin :=
      congrArg (Option.map CompletedWork.origin) hr
    rw [toLanes_take (x := .releasing work.origin.lane .takeEncoder) rfl]
    exact .dropTake k _ _ hold hready

theorem releasingStream_moves (pc : ReleasePc) (hk : s.stream k = .releasing l pc) :
    Moves s none (releasingStream s k l pc) := by
  cases pc with
  | takeEncoder =>
    exact moves_of_stutter ((State.toLanes_setStream_same (by simp [hk]; rfl)).trans
      (State.toLanes_setSlot_same rfl rfl))
  | countActive => exact moves_of_stutter (State.toLanes_setStream_same (by simp [hk]; rfl))
  | pushAvailable =>
    refine .inr ?_
    simp only [releasingStream, releaseLane, State.toLanes_setStream]
    exact .releaseStream k l (congrArg Stream.holding hk)

theorem releasingWorker_moves (pc : ReleasePc) (hi : s.worker i = .release l pc) :
    Moves s none (releasingWorker s i l pc) := by
  cases pc with
  | takeEncoder =>
    exact moves_of_stutter ((State.toLanes_setWorker_same (by simp [hi]; rfl)).trans
      (State.toLanes_setSlot_same rfl rfl))
  | countActive => exact moves_of_stutter (State.toLanes_setWorker_same (by simp [hi]; rfl))
  | pushAvailable =>
    refine .inr ?_
    simp only [releasingWorker, releaseLane, State.toLanes_setWorker]
    exact .releaseWorker i l (congrArg Worker.task hi)

theorem advance_moves {capacity : ℕ} (h : advance capacity s k = some t) :
    Moves s ((droppedJob s (.advance k)).map BrotliJob.origin) t := by
  unfold advance at h
  unfold droppedJob
  cases hk : s.stream k with
  | admitting l pc =>
    simp only [hk, Option.some.injEq] at h ⊢
    exact h ▸ admitting_moves pc hk
  | submitting l operation pc =>
    simp only [hk, Option.some.injEq] at h ⊢
    exact h ▸ submitting_moves pc hk
  | polling job pc =>
    simp only [hk, Option.some.injEq] at h ⊢
    exact h ▸ polling_moves pc hk
  | dropping job pc =>
    simp only [hk, Option.some.injEq] at h ⊢
    cases pc with
    | takeWaker =>
      exact h ▸ moves_of_stutter ((State.toLanes_setStream_same (by simp [hk]; rfl)).trans
        (State.toLanes_setSlot_same rfl rfl))
    | takeResult => exact h ▸ dropResult_moves hk
  | releasing l pc =>
    simp only [hk, Option.some.injEq] at h ⊢
    exact h ▸ releasingStream_moves pc hk
  | idle => simp [hk] at h
  | lane l => simp [hk] at h
  | job job => simp [hk] at h
  | completion l => simp [hk] at h

theorem dequeued_moves {work : Work} (pc : DequeuePc) (hi : s.worker i = .dequeued work pc) :
    Moves s none (dequeued s i work pc) := by
  have hold : s.toLanes.worker i = .live work.origin := congrArg Worker.task hi
  cases pc with
  | uncountQueued => exact moves_of_stutter (State.toLanes_setWorker_same (by simp [hi]; rfl))
  | countRunning => exact moves_of_stutter (State.toLanes_setWorker_same (by simp [hi]; rfl))
  | markHighWater current =>
    exact moves_of_stutter (State.toLanes_setWorker_same (by simp [hi]; rfl))
  | checkCancelled =>
    cases hc : (s.lanes work.origin.lane).cancelled with
    | false =>
      refine moves_of_stutter (State.toLanes_setWorker_same ?_)
      rw [hc, hi]; rfl
    | true =>
      refine .inr ?_
      simp only [dequeued, hc, if_true, State.toLanes_setWorker]
      exact .demote i _ hold hc

theorem publish_moves {work : CompletedWork} (hi : s.worker i = .publish work) :
    Moves s none (publish s i work) := by
  have hold : s.toLanes.worker i = .live work.origin := congrArg Worker.task hi
  refine .inr ?_
  unfold publish
  dsimp only
  split_ifs with hc
  · rw [State.toLanes_setWorker]
    exact .demote i _ hold hc
  · rw [State.toLanes_setWorker, State.toLanes_setResult]
    exact .publish i _ hold (Bool.not_eq_true _ ▸ hc)

theorem workerLoop_moves (h : workerLoop s i = some t) : Moves s none t := by
  unfold workerLoop at h
  cases hi : s.worker i with
  | receive =>
    cases hch : s.channel with
    | nil => simp [hi, hch] at h
    | cons work channel =>
      simp only [hi, hch, Option.some.injEq] at h
      subst h
      refine .inr ?_
      rw [State.toLanes_setWorker]
      exact .receive i _ _ (congrArg Worker.task hi) (congrArg (List.map Work.origin) hch)
  | dequeued work pc =>
    simp only [hi, Option.some.injEq] at h
    exact h ▸ dequeued_moves pc hi
  | skip work =>
    simp only [hi, Option.some.injEq] at h
    exact h ▸ moves_of_stutter (State.toLanes_setWorker_same (by simp [hi]; rfl))
  | run work =>
    simp only [hi] at h
    split_ifs at h with he
    exact Option.some.inj h ▸ moves_of_stutter (State.toLanes_setWorker_same (by simp [hi]; rfl))
  | ran work =>
    simp only [hi, Option.some.injEq] at h
    exact h ▸ moves_of_stutter (State.toLanes_setWorker_same (by simp [hi]; rfl))
  | publish work =>
    simp only [hi, Option.some.injEq] at h
    exact h ▸ publish_moves hi
  | wake l =>
    simp only [hi, Option.some.injEq] at h
    exact h ▸ moves_of_stutter ((State.toLanes_setWorker_same (by simp [hi]; rfl)).trans
      (State.toLanes_setSlot_same rfl rfl))
  | release l pc =>
    simp only [hi, Option.some.injEq] at h
    exact h ▸ releasingWorker_moves pc hi

theorem tryAdmit_moves {workers lanes : ℕ} (h : step workers lanes s (.tryAdmit k) = some t) :
    Moves s none t := by
  simp only [step] at h
  split at h
  · next l available hk havail =>
    cases h
    refine .inr ?_
    have hst := congrArg Lanes.stream (State.toLanes_setStream s k (.admitting l .countActive))
    simp only [State.toLanes, State.setStream] at hst ⊢
    rw [hst]
    exact .lease k l available (congrArg Stream.holding hk) havail
  · exact Option.some.inj h ▸ moves_of_stutter rfl
  · cases h

/-- **One move or none.** A step that is the last operation of a job's drop is labelled with the
job. -/
theorem step_moves {workers lanes : ℕ} {a : Action} (h : step workers lanes s a = some t) :
    Moves s ((droppedJob s a).map BrotliJob.origin) t := by
  cases a with
  | tryAdmit k => exact tryAdmit_moves h
  | submit k operation =>
    simp only [step] at h
    split at h
    · next l hk =>
      exact Option.some.inj h ▸ moves_of_stutter (State.toLanes_setStream_same (by rw [hk]; rfl))
    · cases h
  | poll k =>
    simp only [step] at h
    split at h
    · next job hk => exact Option.some.inj h ▸ pollResult_moves hk
    · cases h
  | dropJob k =>
    simp only [step] at h
    split at h
    · next job hk =>
      cases h
      refine .inr ?_
      rw [State.toLanes_setStream, State.toLanes_setCancelled]
      exact .cancel k _ (congrArg Stream.holding hk)
    · cases h
  | dropLane k =>
    simp only [step] at h
    split at h
    · next l hk =>
      exact Option.some.inj h ▸ moves_of_stutter (State.toLanes_setStream_same (by rw [hk]; rfl))
    · cases h
  | dropCompletion k =>
    simp only [step] at h
    split at h
    · next l hk =>
      exact Option.some.inj h ▸ moves_of_stutter (State.toLanes_setStream_same (by rw [hk]; rfl))
    · cases h
  | takeLane k =>
    simp only [step] at h
    split at h
    · next l hk =>
      exact Option.some.inj h ▸ moves_of_stutter (State.toLanes_setStream_same (by rw [hk]; rfl))
    · cases h
  | advance k => exact advance_moves h
  | work i =>
    simp only [step] at h
    split_ifs at h with hi
    exact workerLoop_moves h

end Moves

/-! ## Lane ownership of the executor -/

section Ownership

variable {workers lanes : ℕ} {s t : State} {a : Action}

theorem owned_init (lanes : ℕ) : (State.init lanes).toLanes.Owned lanes := by
  refine ⟨⟨?_, ?_⟩, List.nodup_range, by simp [State.toLanes, State.init],
    by simp [State.toLanes, State.init]⟩
  · intro p q l hp hq
    cases p <;> cases q <;>
      simp [Lanes.Holds, State.toLanes, State.init, Stream.holding, Worker.task] at hp hq ⊢
  · intro l
    constructor
    · intro hl
      exact ⟨.available, List.mem_range.mpr hl⟩
    · rintro ⟨p, hp⟩
      cases p <;>
        simp [Lanes.Holds, State.toLanes, State.init, Stream.holding, Worker.task] at hp
      exact hp

theorem traced_init (lanes : ℕ) : (State.init lanes).toLanes.Traced := by
  have hin : ∀ c, ¬ (State.init lanes).toLanes.InFlight c := by
    rintro c (h | ⟨i, h⟩ | h) <;> simp [State.toLanes, State.init, Worker.task] at h
  have hjob : ∀ k o, ¬ (State.init lanes).toLanes.Job k o := by
    rintro k o (h | h) <;> simp [State.toLanes, State.init, Stream.holding] at h
  exact {
    inFlight_fresh := fun c h => absurd h (hin c)
    job_fresh := fun k o h => absurd h (hjob k o)
    job_unique := fun k _ o _ h => absurd h (hjob k o)
    job_origin := fun k o _ h => absurd h (hjob k o)
    inFlight_lease := fun c h => absurd h (hin c)
    job_lease := fun k o h => absurd h (hjob k o)
    cleared := fun _ _ _ => rfl
    live := fun k o h => absurd (.inl h) (hjob k o)
    dropping := fun k o h => absurd (.inr h) (hjob k o)
    taken := by simp [State.toLanes, State.init] }

theorem owned_step (h : s.toLanes.Owned lanes) (hs : step workers lanes s a = some t) :
    t.toLanes.Owned lanes := by
  rcases step_moves hs with ⟨-, he⟩ | hm
  · rw [he]; exact h
  · exact h.step hm

theorem owned_of_reachable (h : (machine workers lanes).Reachable s) : s.toLanes.Owned lanes :=
  (machine workers lanes).invariant (P := fun s => s.toLanes.Owned lanes) (owned_init lanes)
    (fun _ _ _ => owned_step) h

theorem traced_step (ho : s.toLanes.Owned lanes) (h : s.toLanes.Traced) (hkeep : KeepsSlot s a)
    (hs : step workers lanes s a = some t) : t.toLanes.Traced := by
  rcases step_moves hs with ⟨-, he⟩ | hm
  · rw [he]; exact h
  · refine h.step ho hm fun o ho' => ?_
    obtain ⟨job, hjob, rfl⟩ := Option.map_eq_some_iff.mp ho'
    exact (hkeep job hjob).imp_left fun he => Option.map_eq_none_iff.mpr he

/-- A drop outside `KeepsSlot` takes the completion of another submission. -/
theorem foreign_step (ho : s.toLanes.Owned lanes) (h : s.toLanes.Traced) (hkeep : ¬ KeepsSlot s a)
    (hs : step workers lanes s a = some t) : ∃ p ∈ t.taken, p.1 ≠ p.2 := by
  simp only [KeepsSlot, not_forall, not_or] at hkeep
  obtain ⟨job, hjob, hresult, hlease⟩ := hkeep
  rcases step_moves hs with ⟨hnone, -⟩ | hm
  · simp [hjob] at hnone
  · rw [hjob] at hm
    refine h.foreign ho hm (fun he => hresult ?_) hlease
    exact Option.map_eq_none_iff.mp he

theorem taken_mono (hs : step workers lanes s a = some t) : ∀ p ∈ s.taken, p ∈ t.taken := by
  rcases step_moves hs with ⟨-, he⟩ | hm
  · have : t.taken = s.taken := congrArg Lanes.taken he
    rw [this]
    exact fun _ => id
  · exact hm.taken_mono

/-- A run keeps every completion with the job whose submission produced it exactly when each of its
drops finds its slot empty or under its own lease. -/
theorem taken_own_iff {as : List Action}
    (h : (machine workers lanes).exec (State.init lanes) as = some s) :
    (∀ p ∈ s.taken, p.1 = p.2) ↔ (machine workers lanes).Always KeepsSlot (State.init lanes) as := by
  have hiff := (machine workers lanes).always_iff (C := KeepsSlot)
    (P := fun s => s.toLanes.Owned lanes ∧ s.toLanes.Traced)
    (B := fun s => ∃ p ∈ s.taken, p.1 ≠ p.2)
    (fun s hs ⟨p, hp, hne⟩ => hne (hs.2.taken p hp))
    (fun s a t hP hC hs => ⟨owned_step hP.1 hs, traced_step hP.1 hP.2 hC hs⟩)
    (fun s a t hP hC hs => foreign_step hP.1 hP.2 hC hs)
    (fun s a t ⟨p, hp, hne⟩ hs => ⟨p, taken_mono hs p hp, hne⟩)
    ⟨owned_init lanes, traced_init lanes⟩ h
  rw [← hiff]
  simp only [not_exists, not_and, not_not]

/-- No stream holds anything, no work is queued or with a worker, and no completion is stored. -/
def State.Quiet (s : State) : Prop :=
  (∀ k, s.stream k = .idle) ∧ s.channel = [] ∧ (∀ i, (s.worker i).lane? = none) ∧
    ∀ l, (s.lanes l).result = none

theorem available_perm_of_quiet (h : s.toLanes.Owned lanes) (hq : s.Quiet) :
    s.available.Perm (List.range lanes) := by
  obtain ⟨hstream, hchannel, hworker, hresult⟩ := hq
  refine (List.perm_ext_iff_of_nodup h.available_nodup List.nodup_range).mpr fun l => ?_
  rw [List.mem_range, h.partition.covers l]
  constructor
  · exact fun hl => ⟨.available, hl⟩
  · rintro ⟨p, hp⟩
    rw [← laneAt_iff] at hp
    cases p with
    | available => exact hp
    | stream k => simp [State.LaneAt, hstream, Stream.lane?] at hp
    | channel => simp [State.LaneAt, hchannel] at hp
    | worker i => simp [State.LaneAt, hworker] at hp
    | slot => simp [State.LaneAt, hresult] at hp

/-- **Lane ownership.** In the state after any run, each lane id is at exactly one place, and at
most once on the free list and in the channel; no two streams hold one lane; and once all is quiet
every id is on the free list. Every completion taken so far went to the job whose submission
produced it exactly when no drop of the run found a later lease's completion in its slot. -/
theorem laneOwnership_iff {as : List Action}
    (h : (machine workers lanes).exec (State.init lanes) as = some s) :
    (∀ l, l < lanes → ∃! p, s.LaneAt p l) ∧
    (∀ p l, s.LaneAt p l → l < lanes) ∧
    s.available.Nodup ∧ (s.channel.map fun work => work.origin.lane).Nodup ∧
    (∀ k k' l, (s.stream k).lane? = some l → (s.stream k').lane? = some l → k = k') ∧
    (s.Quiet → s.available.Perm (List.range lanes)) ∧
    ((∀ p ∈ s.taken, p.1 = p.2) ↔
      (machine workers lanes).Always KeepsSlot (State.init lanes) as) := by
  have ho := owned_of_reachable ⟨as, h⟩
  have hpart : Ownership.Partition (· < lanes) s.LaneAt :=
    ho.partition.congr fun p l => laneAt_iff s p l
  refine ⟨fun l hl => hpart.existsUnique hl, fun p l hp => hpart.dom_of_holds hp,
    ho.available_nodup, ?_, ?_, available_perm_of_quiet ho, taken_own_iff h⟩
  · simpa [State.toLanes, Function.comp_def] using ho.channel_nodup
  · intro k k' l hk hk'
    have he := hpart.exclusive (p := .stream k) (q := .stream k') hk hk'
    exact Place.stream.inj he

end Ownership

/-- Stream 0 leases a lane, submits, and polls the completion. -/
def ownPoll : List Action :=
  Action.tryAdmit 0 :: List.replicate 6 (Action.advance 0) ++
  Action.submit 0 .process :: List.replicate 4 (Action.advance 0) ++
  List.replicate 8 (Action.work 0) ++ [Action.poll 0]

theorem laneOwnership_iff_ownPoll :
    ((machine 1 1).exec (State.init 1) ownPoll).map State.taken = some [(0, 0)] ∧
      (machine 1 1).Always KeepsSlot (State.init 1) ownPoll :=
  ⟨by decide, (laneOwnership_iff rfl).2.2.2.2.2.2.mp (by decide)⟩

/-- One lane, one worker. Stream 0 starts to drop its job; the worker skips the job and releases the
lane; stream 1 leases it, submits, and its completion is stored; stream 0 goes on with its drop. -/
def foreignDrop : List Action :=
  Action.tryAdmit 0 :: List.replicate 6 (Action.advance 0) ++
  Action.submit 0 .process :: List.replicate 4 (Action.advance 0) ++
  Action.dropJob 0 :: List.replicate 9 (Action.work 0) ++
  Action.tryAdmit 1 :: List.replicate 6 (Action.advance 1) ++
  Action.submit 1 .process :: List.replicate 4 (Action.advance 1) ++
  List.replicate 8 (Action.work 0) ++ List.replicate 2 (Action.advance 0)

theorem drop_takes_foreign_completion :
    ((machine 1 1).exec (State.init 1) foreignDrop).map State.taken = some [(0, 1)] := by
  decide

end BasicWebserver.BrotliExecutor
