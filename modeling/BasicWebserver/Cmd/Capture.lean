import BasicWebserver.Foundation.Machine
import Mathlib.Algebra.Group.Nat.Defs
import Mathlib.Logic.Function.Basic

/-!
# Commands with captured output

`run_captured` and `read_bounded` of `src/cmd.rs`: the calling thread, the two readers, the channel
between them and the child with its two streams. A step of the calling thread is one call that can
fail, wait or see what the others did; a step of a reader is one `read` or its `send`. The child
writes and exits when it likes, also after its process tree was terminated.

The sleep in the loop only lets time pass, and the files of the command, its arguments and its
environment are what makes `spawn_managed` succeed or not.
-/

namespace BasicWebserver.Cmd

open Transition

abbrev Bytes := List UInt8

variable {ε κ : Type}

inductive StreamKind
  | stdout
  | stderr
  deriving DecidableEq

def StreamKind.name : StreamKind → String
  | stdout => "stdout"
  | stderr => "stderr"

inductive RunError (ε : Type)
  | io (error : ε)
  | timeout
  | saturated
  | stdoutTooLarge (limitBytes receivedAtLeast : ℕ)
  | stderrTooLarge (limitBytes receivedAtLeast : ℕ)

def RunError.tooLarge (limitBytes receivedAtLeast : ℕ) : StreamKind → RunError ε
  | .stdout => .stdoutTooLarge limitBytes receivedAtLeast
  | .stderr => .stderrTooLarge limitBytes receivedAtLeast

inductive ReadResult (ε : Type)
  | complete (bytes : Bytes)
  | tooLarge (limitBytes receivedAtLeast : ℕ)
  | io (error : ε)

structure ReadMessage (ε : Type) where
  kind : StreamKind
  result : ReadResult ε

structure CapturedOutput (κ : Type) where
  status : κ
  stdout : Bytes
  stderr : Bytes

def CapturedOutput.output (captured : CapturedOutput κ) : StreamKind → Bytes
  | .stdout => captured.stdout
  | .stderr => captured.stderr

abbrev Result (ε κ : Type) := Except (RunError ε) (CapturedOutput κ)

/-- The limits of the call, the size that no `Vec` exceeds, and `io::Error::other`. -/
structure Config (ε : Type) where
  limit : StreamKind → ℕ
  isizeMax : ℕ
  isizeMax_lt : isizeMax < 2 ^ 64
  other : String → ε

/-! ## The streams -/

/-- A stream of the child: what was written so far, and how much of it was read. -/
structure Pipe where
  written : Bytes
  position : ℕ
  closed : Bool

def Pipe.empty : Pipe := ⟨[], 0, false⟩

def Pipe.write (pipe : Pipe) (bytes : Bytes) : Pipe := { pipe with written := pipe.written ++ bytes }

def Pipe.close (pipe : Pipe) : Pipe := { pipe with closed := true }

def Pipe.pending (pipe : Pipe) : Bytes := pipe.written.drop pipe.position

/-- What the system decides about a `read`. -/
inductive Reading (ε : Type)
  | ready (length : ℕ)
  | interrupted
  | failed (error : ε)

/-- A `read` of no bytes is the end of the stream. -/
def Pipe.allows (pipe : Pipe) : Reading ε → Bool
  | .ready 0 => pipe.closed && pipe.pending.isEmpty
  | .ready length => length ≤ 8192 && length ≤ pipe.pending.length
  | _ => true

def Pipe.advance (pipe : Pipe) : Reading ε → Pipe
  | .ready length => { pipe with position := pipe.position + length }
  | _ => pipe

/-! ## `read_bounded` -/

structure Reader where
  output : Bytes
  received : ℕ

inductive Thread (ε : Type)
  /-- before `thread::spawn` -/
  | absent
  | running (reader : Reader)
  /-- before `sender.send` -/
  | sending (result : ReadResult ε)
  | finished
  | panicked

/-- One pass of the loop. Extending a `Vec` beyond `isize::MAX` bytes panics. -/
def readTurn (c : Config ε) (kind : StreamKind) (pipe : Pipe) (reader : Reader) :
    Reading ε → Thread ε
  | .ready 0 => .sending (.complete reader.output)
  | .ready length =>
    let received := min (reader.received + length) (2 ^ 64 - 1)
    if c.limit kind < received then .sending (.tooLarge (c.limit kind) received)
    else if c.isizeMax < reader.output.length + length then .panicked
    else .running ⟨reader.output ++ pipe.pending.take length, received⟩
  | .interrupted => .running reader
  | .failed error => .sending (.io error)

theorem readTurn_ready (c : Config ε) (kind : StreamKind) (pipe : Pipe) (reader : Reader) (n : ℕ) :
    readTurn c kind pipe reader (.ready (n + 1)) =
      if c.limit kind < min (reader.received + (n + 1)) (2 ^ 64 - 1) then
        .sending (.tooLarge (c.limit kind) (min (reader.received + (n + 1)) (2 ^ 64 - 1)))
      else if c.isizeMax < reader.output.length + (n + 1) then .panicked
      else .running ⟨reader.output ++ pipe.pending.take (n + 1),
        min (reader.received + (n + 1)) (2 ^ 64 - 1)⟩ := rfl

/-! ## `run_captured` -/

inductive Phase (ε κ : Type)
  | entered
  /-- before `terminate_process_tree`, without a stream -/
  | aborting (error : RunError ε)
  /-- before `thread::spawn` -/
  | starting (kind : StreamKind)
  /-- before `try_wait` -/
  | polling
  /-- before `try_recv` -/
  | receiving
  /-- before the clock is read -/
  | waiting
  /-- after the loop -/
  | stopping (result : Result ε κ)
  | joining (kind : StreamKind) (result : Result ε κ)
  | returned (result : Result ε κ)
  /-- after a panic of `thread::spawn` -/
  | unwound

/-- One of the streams: the child's end, its reader, and what the calling thread has of them. -/
structure Side (ε : Type) where
  pipe : Pipe
  thread : Thread ε
  captured : Option Bytes
  joined : Bool

structure State (ε κ : Type) where
  phase : Phase ε κ
  side : StreamKind → Side ε
  status : Option κ
  channel : List (ReadMessage ε)
  /-- The exit status of the child, once it has exited. -/
  exited : Option κ
  spawned : Bool
  /-- `ProcessTree::terminate` was called. -/
  terminated : Bool

def State.init : State ε κ where
  phase := .entered
  side _ := ⟨.empty, .absent, none, false⟩
  status := none
  channel := []
  exited := none
  spawned := false
  terminated := false

def State.set (s : State ε κ) (kind : StreamKind) (side : Side ε) : State ε κ :=
  { s with side := Function.update s.side kind side }

inductive ChildLabel (κ : Type)
  | write (kind : StreamKind) (bytes : Bytes)
  | close (kind : StreamKind)
  | exit (status : κ)

inductive ReaderLabel (ε : Type)
  | read (reading : Reading ε)
  | send

inductive MainLabel (ε κ : Type)
  /-- `spawn_managed`, with the streams that the child has -/
  | spawn (result : Except ε (StreamKind → Bool))
  | terminate
  | startThread (created : Bool)
  /-- `try_wait`, and whether it finds that the child has exited -/
  | tryWait (answer : Except ε Bool)
  | tryRecv
  | clock (expired : Bool)
  | join

inductive Label (ε κ : Type)
  | child (label : ChildLabel κ)
  | reader (kind : StreamKind) (label : ReaderLabel ε)
  | main (label : MainLabel ε κ)

/-- A stream that every writer has closed stays closed, and a process exits once. -/
def childStep (s : State ε κ) : ChildLabel κ → Option (State ε κ)
  | .write kind bytes =>
    let side := s.side kind
    if s.spawned && !side.pipe.closed then
      some (s.set kind { side with pipe := side.pipe.write bytes })
    else none
  | .close kind =>
    let side := s.side kind
    if s.spawned then some (s.set kind { side with pipe := side.pipe.close }) else none
  | .exit status =>
    if s.spawned && s.exited.isNone then some { s with exited := some status } else none

def readerStep (c : Config ε) (s : State ε κ) (kind : StreamKind) (label : ReaderLabel ε) :
    Option (State ε κ) :=
  let side := s.side kind
  match side.thread, label with
  | .running reader, .read reading =>
    if side.pipe.allows reading then
      some (s.set kind { side with
        thread := readTurn c kind side.pipe reader reading
        pipe := side.pipe.advance reading })
    else none
  | .sending result, .send =>
    some { s.set kind { side with thread := .finished } with
      channel := s.channel ++ [⟨kind, result⟩] }
  | _, _ => none

/-- The top of the loop: the child is asked for its status until it has one. -/
def State.top (s : State ε κ) : Phase ε κ := if s.status.isNone then .polling else .receiving

/-- The result when the child has exited and both streams are complete. -/
def State.collected (s : State ε κ) : Option (CapturedOutput κ) :=
  match s.status, (s.side .stdout).captured, (s.side .stderr).captured with
  | some status, some stdout, some stderr => some ⟨status, stdout, stderr⟩
  | _, _, _ => none

def captureFailed (c : Config ε) (kind : StreamKind) : RunError ε :=
  .io (c.other ("failed to capture " ++ kind.name))

/-- The streams are taken from the child, `stdout` first. -/
def afterSpawn (c : Config ε) (streams : StreamKind → Bool) : Phase ε κ :=
  if !streams .stdout then .aborting (captureFailed c .stdout)
  else if !streams .stderr then .aborting (captureFailed c .stderr)
  else .starting .stdout

/-- A message that `try_recv` returned. -/
def receive (s : State ε κ) (message : ReadMessage ε) : State ε κ :=
  match message.result with
  | .complete bytes => s.set message.kind { s.side message.kind with captured := some bytes }
  | .tooLarge limitBytes receivedAtLeast =>
    { s with phase := .stopping (.error (.tooLarge limitBytes receivedAtLeast message.kind)) }
  | .io error => { s with phase := .stopping (.error (.io error)) }

/-- A join returns when the thread has ended, also by a panic. -/
def Thread.ended : Thread ε → Bool
  | finished | panicked => true
  | _ => false

def mainStep (c : Config ε) (s : State ε κ) (label : MainLabel ε κ) : Option (State ε κ) :=
  match s.phase, label with
  | .entered, .spawn (.error error) => some { s with phase := .returned (.error (.io error)) }
  | .entered, .spawn (.ok streams) => some { s with phase := afterSpawn c streams, spawned := true }
  | .aborting error, .terminate =>
    some { s with phase := .returned (.error error), terminated := true }
  | .starting _, .startThread false => some { s with phase := .unwound }
  | .starting kind, .startThread true =>
    some { s.set kind { s.side kind with thread := .running ⟨[], 0⟩ } with
      phase := match kind with
        | .stdout => .starting .stderr
        | .stderr => .polling }
  | .polling, .tryWait (.error error) => some { s with phase := .stopping (.error (.io error)) }
  | .polling, .tryWait (.ok false) => some { s with phase := .receiving }
  | .polling, .tryWait (.ok true) =>
    match s.exited with
    | some exited => some { s with phase := .receiving, status := some exited }
    | none => none
  | .receiving, .tryRecv =>
    match s.channel with
    | message :: channel => some (receive { s with channel } message)
    | [] =>
      match s.collected with
      | some captured => some { s with phase := .stopping (.ok captured) }
      | none => some { s with phase := .waiting }
  | .waiting, .clock true => some { s with phase := .stopping (.error .timeout) }
  | .waiting, .clock false => some { s with phase := s.top }
  | .stopping result, .terminate =>
    some { s with phase := .joining .stdout result, terminated := true }
  | .joining kind result, .join =>
    if (s.side kind).thread.ended then
      some { s.set kind { s.side kind with joined := true } with
        phase := match kind with
          | .stdout => .joining .stderr result
          | .stderr => .returned result }
    else none
  | _, _ => none

def step (c : Config ε) (s : State ε κ) : Label ε κ → Option (State ε κ)
  | .child label => childStep s label
  | .reader kind label => readerStep c s kind label
  | .main label => mainStep c s label

def machine (c : Config ε) : Machine (State ε κ) (Label ε κ) := ⟨.init, step c⟩

/-! ## What is true of the streams -/

/-- What a reader may report about its stream. -/
def Right (c : Config ε) (kind : StreamKind) (pipe : Pipe) : ReadResult ε → Prop
  | .complete bytes => pipe.closed = true ∧ bytes = pipe.written ∧ bytes.length ≤ c.limit kind
  | .tooLarge limitBytes receivedAtLeast =>
    limitBytes = c.limit kind ∧ c.limit kind < receivedAtLeast ∧
      receivedAtLeast ≤ pipe.written.length
  | .io _ => True

/-- The stream was written to or closed, or it was read from. -/
structure Pipe.Grows (pipe pipe' : Pipe) : Prop where
  written : pipe.written <+: pipe'.written
  closed : pipe.closed = true → pipe'.closed = true ∧ pipe'.written = pipe.written

theorem Pipe.Grows.refl (pipe : Pipe) : pipe.Grows pipe :=
  ⟨List.prefix_rfl, fun h => ⟨h, rfl⟩⟩

theorem Right.grows {c : Config ε} {kind : StreamKind} {pipe pipe' : Pipe} {result : ReadResult ε}
    (h : Right c kind pipe result) (hgrows : pipe.Grows pipe') : Right c kind pipe' result := by
  cases result with
  | complete bytes =>
    obtain ⟨hclosed, hbytes, hle⟩ := h
    obtain ⟨hclosed', hwritten⟩ := hgrows.closed hclosed
    exact ⟨hclosed', hbytes.trans hwritten.symm, hle⟩
  | tooLarge limitBytes receivedAtLeast =>
    obtain ⟨hlimit, hlt, hle⟩ := h
    exact ⟨hlimit, hlt, Nat.le_trans hle hgrows.written.length_le⟩
  | io error => trivial

/-- A reader has what was read so far, and its count is exact since no `Vec` is longer. -/
structure Reader.Good (c : Config ε) (kind : StreamKind) (pipe : Pipe) (reader : Reader) : Prop where
  output : reader.output = pipe.written.take pipe.position
  received : reader.received = pipe.position
  limit : reader.received ≤ c.limit kind
  size : pipe.position ≤ c.isizeMax

def Thread.Good (c : Config ε) (kind : StreamKind) (pipe : Pipe) : Thread ε → Prop
  | absent => pipe.position = 0
  | running reader => reader.Good c kind pipe
  | sending result => Right c kind pipe result
  | _ => True

theorem Reader.Good.grows {c : Config ε} {kind : StreamKind} {pipe pipe' : Pipe} {reader : Reader}
    (h : reader.Good c kind pipe) (hle : pipe.position ≤ pipe.written.length)
    (hgrows : pipe.Grows pipe') (hposition : pipe'.position = pipe.position) :
    reader.Good c kind pipe' := by
  refine ⟨?_, by rw [h.received, hposition], h.limit, by rw [hposition]; exact h.size⟩
  obtain ⟨more, hmore⟩ := hgrows.written
  rw [h.output, hposition, ← hmore, List.take_append_of_le_length hle]

theorem Thread.Good.grows {c : Config ε} {kind : StreamKind} {pipe pipe' : Pipe}
    {thread : Thread ε} (h : thread.Good c kind pipe) (hle : pipe.position ≤ pipe.written.length)
    (hgrows : pipe.Grows pipe') (hposition : pipe'.position = pipe.position) :
    thread.Good c kind pipe' := by
  cases thread with
  | running reader => exact Reader.Good.grows h hle hgrows hposition
  | sending result => exact Right.grows h hgrows
  | absent => exact hposition.trans h
  | finished => trivial
  | panicked => trivial

theorem Pipe.grows_advance (pipe : Pipe) (reading : Reading ε) : pipe.Grows (pipe.advance reading) := by
  cases reading with
  | ready length => exact ⟨List.prefix_rfl, fun h => ⟨h, rfl⟩⟩
  | interrupted => exact .refl pipe
  | failed error => exact .refl pipe

theorem Pipe.advance_le {pipe : Pipe} {reading : Reading ε}
    (hle : pipe.position ≤ pipe.written.length) (h : pipe.allows reading = true) :
    (pipe.advance reading).position ≤ (pipe.advance reading).written.length := by
  cases reading with
  | ready length =>
    cases length with
    | zero => exact hle
    | succ n =>
      simp only [allows, Bool.and_eq_true, decide_eq_true_eq, pending, List.length_drop] at h
      show pipe.position + (n + 1) ≤ pipe.written.length
      omega
  | interrupted => exact hle
  | failed error => exact hle

theorem readTurn_good {c : Config ε} {kind : StreamKind} {pipe : Pipe} {reader : Reader}
    {reading : Reading ε} (hle : pipe.position ≤ pipe.written.length)
    (h : reader.Good c kind pipe) (hallows : pipe.allows reading = true) :
    (readTurn c kind pipe reader reading).Good c kind (pipe.advance reading) := by
  cases reading with
  | interrupted => exact h
  | failed error => trivial
  | ready length =>
    cases length with
    | zero =>
      -- the end of the stream, so everything was read
      simp only [Pipe.allows, Bool.and_eq_true, List.isEmpty_iff, Pipe.pending,
        List.drop_eq_nil_iff] at hallows
      have hall : reader.output = pipe.written := by
        rw [h.output, List.take_of_length_le hallows.2]
      refine ⟨hallows.1, hall, ?_⟩
      have hlimit := h.limit
      rw [h.received] at hlimit
      rw [hall]
      exact Nat.le_trans hallows.2 hlimit
    | succ n =>
      simp only [Pipe.allows, Bool.and_eq_true, decide_eq_true_eq] at hallows
      have hpending : n + 1 ≤ pipe.written.length - pipe.position := by
        rw [← List.length_drop]
        exact hallows.2
      have hlength : reader.output.length = pipe.position := by
        rw [h.output, List.length_take_of_le hle]
      rw [readTurn_ready]
      split_ifs with hlimit hsize
      · refine ⟨rfl, hlimit, ?_⟩
        show min (reader.received + (n + 1)) (2 ^ 64 - 1) ≤ pipe.written.length
        rw [h.received]
        omega
      · trivial
      · have hlt := c.isizeMax_lt
        have hreceived : min (reader.received + (n + 1)) (2 ^ 64 - 1) = pipe.position + (n + 1) := by
          rw [h.received]
          omega
        refine ⟨?_, hreceived, Nat.le_of_not_lt hlimit, ?_⟩
        · show reader.output ++ pipe.pending.take (n + 1) = pipe.written.take (pipe.position + (n + 1))
          rw [h.output, Pipe.pending, ← List.take_add]
        · show pipe.position + (n + 1) ≤ c.isizeMax
          omega

/-! ## What is true in every state -/

/-- A reader and what was taken from it are right about the stream. -/
structure Side.Good (c : Config ε) (kind : StreamKind) (side : Side ε) : Prop where
  position : side.pipe.position ≤ side.pipe.written.length
  thread : side.thread.Good c kind side.pipe
  captured : ∀ bytes, side.captured = some bytes →
    Right c kind side.pipe (.complete bytes : ReadResult ε)

/-- The messages are right as well, and the status is that of the child. -/
structure State.Good (c : Config ε) (s : State ε κ) : Prop where
  side : ∀ kind, (s.side kind).Good c kind
  channel : ∀ message ∈ s.channel, Right c message.kind (s.side message.kind).pipe message.result
  status : ∀ status, s.status = some status → s.exited = some status

/-- What a result says about the child and its streams. -/
def ResultRight (c : Config ε) (s : State ε κ) : Result ε κ → Prop
  | .ok captured => s.exited = some captured.status ∧
    ∀ kind, Right c kind (s.side kind).pipe (.complete (captured.output kind) : ReadResult ε)
  | .error error => ∀ kind limitBytes receivedAtLeast,
    error = .tooLarge limitBytes receivedAtLeast kind →
      Right c kind (s.side kind).pipe (.tooLarge limitBytes receivedAtLeast : ReadResult ε)

/-- Where the calling thread is, against what it did. -/
def PhaseRight (c : Config ε) (s : State ε κ) : Phase ε κ → Prop
  | .entered => s.spawned = false ∧ ∀ kind, (s.side kind).thread = .absent
  | .aborting error =>
    (∀ kind, (s.side kind).thread = .absent) ∧ ∃ kind, error = captureFailed c kind
  | .starting kind => (s.side .stderr).thread = .absent ∧
    (kind = .stdout → (s.side .stdout).thread = .absent)
  | .stopping result => ResultRight c s result
  | .joining kind result => ResultRight c s result ∧ s.terminated = true ∧
    (kind = .stderr → (s.side .stdout).joined = true)
  | .returned result => ResultRight c s result ∧ (s.spawned = true → s.terminated = true ∧
    ((∀ kind, (s.side kind).joined = true) ∨
      (∀ kind, (s.side kind).thread = .absent) ∧ ∃ kind, result = .error (captureFailed c kind)))
  | _ => True

/-! ## The child and the readers -/

/-- A step of the child or of a reader, as the calling thread sees it. -/
structure Side.Evolves (side side' : Side ε) : Prop where
  pipe : side.pipe.Grows side'.pipe
  absent : side.thread = .absent → side'.thread = .absent
  joined : side'.joined = side.joined

structure Evolves (s s' : State ε κ) : Prop where
  phase : s'.phase = s.phase
  side : ∀ kind, (s.side kind).Evolves (s'.side kind)
  exited : ∀ status, s.exited = some status → s'.exited = some status
  status : s'.status = s.status
  spawned : s'.spawned = s.spawned
  terminated : s'.terminated = s.terminated

theorem Side.Evolves.refl (side : Side ε) : side.Evolves side := ⟨.refl side.pipe, id, rfl⟩

theorem ResultRight.grows {c : Config ε} {s s' : State ε κ} {result : Result ε κ}
    (h : ResultRight c s result) (hgrows : ∀ kind, (s.side kind).pipe.Grows (s'.side kind).pipe)
    (hexited : ∀ status, s.exited = some status → s'.exited = some status) :
    ResultRight c s' result := by
  cases result with
  | ok captured => exact ⟨hexited _ h.1, fun kind => (h.2 kind).grows (hgrows kind)⟩
  | error error => exact fun kind l n herror => (h kind l n herror).grows (hgrows kind)

theorem PhaseRight.evolves {c : Config ε} {s s' : State ε κ} {phase : Phase ε κ}
    (h : PhaseRight c s phase) (hs : Evolves s s') : PhaseRight c s' phase := by
  have habsent (h : ∀ kind, (s.side kind).thread = .absent) (kind : StreamKind) :
      (s'.side kind).thread = .absent := (hs.side kind).absent (h kind)
  have hresult {result : Result ε κ} (h : ResultRight c s result) : ResultRight c s' result :=
    h.grows (fun kind => (hs.side kind).pipe) hs.exited
  cases phase with
  | entered => exact ⟨hs.spawned.trans h.1, habsent h.2⟩
  | aborting error => exact ⟨habsent h.1, h.2⟩
  | stopping result => exact hresult h
  | joining kind result =>
    refine ⟨hresult h.1, hs.terminated.trans h.2.1, fun hkind => ?_⟩
    exact (hs.side .stdout).joined.trans (h.2.2 hkind)
  | returned result =>
    refine ⟨hresult h.1, fun hspawned => ?_⟩
    obtain ⟨hterminated, hjoined⟩ := h.2 (hs.spawned.symm.trans hspawned)
    refine ⟨hs.terminated.trans hterminated, hjoined.imp (fun hall kind => ?_) fun hnone => ?_⟩
    · exact (hs.side kind).joined.trans (hall kind)
    · exact ⟨habsent hnone.1, hnone.2⟩
  | starting kind =>
    exact ⟨(hs.side .stderr).absent h.1, fun hkind => (hs.side .stdout).absent (h.2 hkind)⟩
  | polling => trivial
  | receiving => trivial
  | waiting => trivial
  | unwound => trivial

theorem State.set_self (s : State ε κ) (kind : StreamKind) (side : Side ε) :
    (s.set kind side).side kind = side := Function.update_self _ _ _

theorem State.set_of_ne {s : State ε κ} {kind k : StreamKind} (hk : k ≠ kind) (side : Side ε) :
    (s.set kind side).side k = s.side k := Function.update_of_ne hk _ _

theorem State.forall_set {P : StreamKind → Side ε → Prop} {s : State ε κ} {kind : StreamKind}
    {side : Side ε} (h : ∀ k, P k (s.side k)) (hside : P kind side) (k : StreamKind) :
    P k ((s.set kind side).side k) := by
  by_cases hk : k = kind
  · subst hk
    rw [State.set_self]
    exact hside
  · rw [State.set_of_ne hk]
    exact h k

theorem State.evolves_set {s : State ε κ} {kind : StreamKind} {side : Side ε}
    (h : (s.side kind).Evolves side) : Evolves s (s.set kind side) where
  phase := rfl
  side k := by
    by_cases hk : k = kind
    · subst hk
      rw [State.set_self]
      exact h
    · rw [State.set_of_ne hk]
      exact .refl _
  exited _ hstatus := hstatus
  status := rfl
  spawned := rfl
  terminated := rfl

theorem State.grows_set {s : State ε κ} {kind : StreamKind} {side : Side ε}
    (h : (s.side kind).pipe.Grows side.pipe) (k : StreamKind) :
    (s.side k).pipe.Grows ((s.set kind side).side k).pipe :=
  State.forall_set (P := fun k side => (s.side k).pipe.Grows side.pipe) (fun _ => .refl _) h k

theorem State.Good.set {c : Config ε} {s : State ε κ} {kind : StreamKind} {side : Side ε}
    (h : s.Good c) (hgrows : (s.side kind).pipe.Grows side.pipe) (hside : side.Good c kind) :
    (s.set kind side).Good c where
  side := State.forall_set h.side hside
  channel message hmessage := (h.channel message hmessage).grows (State.grows_set hgrows _)
  status := h.status

theorem Side.Good.pipe {c : Config ε} {kind : StreamKind} {side : Side ε} {pipe : Pipe}
    (h : side.Good c kind) (hgrows : side.pipe.Grows pipe)
    (hposition : pipe.position = side.pipe.position) : Side.Good c kind { side with pipe } where
  position := by
    show pipe.position ≤ pipe.written.length
    rw [hposition]
    exact Nat.le_trans h.position hgrows.written.length_le
  thread := h.thread.grows h.position hgrows hposition
  captured bytes hbytes := (h.captured bytes hbytes).grows hgrows

theorem childStep_good {c : Config ε} {s s' : State ε κ} {label : ChildLabel κ} (h : s.Good c)
    (hs : childStep s label = some s') : Evolves s s' ∧ s'.Good c := by
  cases label with
  | write kind bytes =>
    obtain ⟨hopen, hs⟩ := Option.ite_none_right_eq_some.mp hs
    obtain rfl := Option.some.inj hs
    rw [Bool.and_eq_true, Bool.not_eq_true'] at hopen
    have hgrows : (s.side kind).pipe.Grows ((s.side kind).pipe.write bytes) := by
      refine ⟨List.prefix_append _ _, fun hclosed => ?_⟩
      rw [hopen.2] at hclosed
      cases hclosed
    exact ⟨State.evolves_set ⟨hgrows, id, rfl⟩, h.set hgrows ((h.side kind).pipe hgrows rfl)⟩
  | close kind =>
    obtain ⟨-, hs⟩ := Option.ite_none_right_eq_some.mp hs
    obtain rfl := Option.some.inj hs
    have hgrows : (s.side kind).pipe.Grows (s.side kind).pipe.close :=
      ⟨List.prefix_rfl, fun _ => ⟨rfl, rfl⟩⟩
    exact ⟨State.evolves_set ⟨hgrows, id, rfl⟩, h.set hgrows ((h.side kind).pipe hgrows rfl)⟩
  | exit status =>
    obtain ⟨hnone, hs⟩ := Option.ite_none_right_eq_some.mp hs
    obtain rfl := Option.some.inj hs
    rw [Bool.and_eq_true, Option.isNone_iff_eq_none] at hnone
    have hexited (v : κ) (hv : s.exited = some v) : some status = some v := by
      rw [hnone.2] at hv
      cases hv
    exact ⟨⟨rfl, fun kind => .refl _, hexited, rfl, rfl, rfl⟩,
      ⟨h.side, h.channel, fun v hv => hexited v (h.status v hv)⟩⟩

theorem readerStep_good {c : Config ε} {s s' : State ε κ} {kind : StreamKind}
    {label : ReaderLabel ε} (h : s.Good c) (hs : readerStep c s kind label = some s') :
    Evolves s s' ∧ s'.Good c := by
  have hside := h.side kind
  unfold readerStep at hs
  dsimp only at hs
  split at hs
  next reader reading hthread =>
    obtain ⟨hallows, hs⟩ := Option.ite_none_right_eq_some.mp hs
    obtain rfl := Option.some.inj hs
    have hreader : reader.Good c kind (s.side kind).pipe := by
      have hgood := hside.thread
      rwa [hthread] at hgood
    have hgrows := (s.side kind).pipe.grows_advance reading
    have hevolves : (s.side kind).Evolves { s.side kind with
        thread := readTurn c kind (s.side kind).pipe reader reading
        pipe := (s.side kind).pipe.advance reading } := by
      refine ⟨hgrows, fun habsent => ?_, rfl⟩
      rw [hthread] at habsent
      cases habsent
    refine ⟨State.evolves_set hevolves, h.set hgrows ⟨?_, ?_, fun bytes hbytes => ?_⟩⟩
    · exact Pipe.advance_le hside.position hallows
    · exact readTurn_good hside.position hreader hallows
    · exact (hside.captured bytes hbytes).grows hgrows
  next result hthread =>
    obtain rfl := Option.some.inj hs
    have hresult : Right c kind (s.side kind).pipe result := by
      have hgood := hside.thread
      rwa [hthread] at hgood
    have hevolves : (s.side kind).Evolves { s.side kind with thread := .finished } := by
      refine ⟨.refl _, fun habsent => ?_, rfl⟩
      rw [hthread] at habsent
      cases habsent
    have hset := h.set hevolves.pipe ⟨hside.position, trivial, hside.captured⟩
    obtain ⟨-, hsides, hexited, hstatus, hspawned, hterminated⟩ := State.evolves_set hevolves
    refine ⟨⟨rfl, hsides, hexited, hstatus, hspawned, hterminated⟩, hset.side, ?_, hset.status⟩
    intro message hmessage
    rcases List.mem_append.mp hmessage with hold | hnew
    · exact hset.channel message hold
    · obtain rfl := List.mem_singleton.mp hnew
      exact hresult.grows (hsides kind).pipe
  next => cases hs

/-! ## The calling thread -/

theorem ResultRight.of_io {c : Config ε} {s : State ε κ} (error : ε) :
    ResultRight c s (.error (.io error)) := by
  intro kind l n h
  cases kind <;> cases h

theorem ResultRight.timeout {c : Config ε} {s : State ε κ} :
    ResultRight c s (.error .timeout) := by
  intro kind l n h
  cases kind <;> cases h

theorem ResultRight.tooLarge {c : Config ε} {s : State ε κ} {kind : StreamKind} {l n : ℕ}
    (h : Right c kind (s.side kind).pipe (.tooLarge l n : ReadResult ε)) :
    ResultRight c s (.error (.tooLarge l n kind)) := by
  intro kind' l' n' herror
  cases kind <;> cases kind' <;> cases herror
  · exact h
  · exact h

theorem ResultRight.collected {c : Config ε} {s : State ε κ} {captured : CapturedOutput κ}
    (h : s.Good c) (hcaptured : s.collected = some captured) :
    ResultRight c s (.ok captured) := by
  unfold State.collected at hcaptured
  split at hcaptured
  next status stdout stderr hstatus hstdout hstderr =>
    obtain rfl := Option.some.inj hcaptured
    refine ⟨h.status status hstatus, fun kind => ?_⟩
    cases kind with
    | stdout => exact (h.side .stdout).captured stdout hstdout
    | stderr => exact (h.side .stderr).captured stderr hstderr
  next => cases hcaptured

theorem receive_good {c : Config ε} {s : State ε κ} {message : ReadMessage ε} (h : s.Good c)
    (hphase : s.phase = .receiving)
    (hmessage : Right c message.kind (s.side message.kind).pipe message.result) :
    (receive s message).Good c ∧ PhaseRight c (receive s message) (receive s message).phase := by
  obtain ⟨kind, result⟩ := message
  cases result with
  | complete bytes =>
    have hside := h.side kind
    refine ⟨h.set (.refl _) ⟨hside.position, hside.thread, fun bytes' hbytes => ?_⟩, ?_⟩
    · obtain rfl := Option.some.inj hbytes
      exact hmessage
    · show PhaseRight c _ s.phase
      rw [hphase]
      trivial
  | tooLarge l n => exact ⟨⟨h.side, h.channel, h.status⟩, ResultRight.tooLarge hmessage⟩
  | io error => exact ⟨⟨h.side, h.channel, h.status⟩, ResultRight.of_io error⟩

theorem afterSpawn_right {c : Config ε} {s : State ε κ}
    (habsent : ∀ kind, (s.side kind).thread = .absent) (streams : StreamKind → Bool) :
    PhaseRight c s (afterSpawn c streams) := by
  unfold afterSpawn
  split_ifs
  · exact ⟨habsent, .stdout, rfl⟩
  · exact ⟨habsent, .stderr, rfl⟩
  · exact ⟨habsent .stderr, fun _ => habsent .stdout⟩

theorem State.Good.startThread {c : Config ε} {s : State ε κ} {kind : StreamKind} (h : s.Good c)
    (habsent : (s.side kind).thread = .absent) :
    (s.set kind { s.side kind with thread := .running ⟨[], 0⟩ }).Good c := by
  have hside := h.side kind
  have hposition : (s.side kind).pipe.position = 0 := by
    have hgood := hside.thread
    rwa [habsent] at hgood
  have hreader : Reader.Good c kind (s.side kind).pipe ⟨[], 0⟩ := by
    refine ⟨?_, hposition.symm, Nat.zero_le _, ?_⟩
    · rw [hposition]
      rfl
    · rw [hposition]
      exact Nat.zero_le _
  exact h.set (.refl _) ⟨hside.position, hreader, hside.captured⟩

theorem State.Good.join {c : Config ε} {s : State ε κ} (h : s.Good c) (kind : StreamKind) :
    (s.set kind { s.side kind with joined := true }).Good c := by
  have hside := h.side kind
  exact h.set (.refl _) ⟨hside.position, hside.thread, hside.captured⟩

theorem ResultRight.join {c : Config ε} {s : State ε κ} {result : Result ε κ}
    (h : ResultRight c s result) (kind : StreamKind) :
    ResultRight c (s.set kind { s.side kind with joined := true }) result :=
  h.grows (State.grows_set (.refl _)) fun _ hstatus => hstatus

theorem mainStep_good {c : Config ε} {s s' : State ε κ} {label : MainLabel ε κ} (h : s.Good c)
    (hphase : PhaseRight c s s.phase) (hs : mainStep c s label = some s') :
    s'.Good c ∧ PhaseRight c s' s'.phase := by
  unfold mainStep at hs
  split at hs
  next error hp =>
    rw [hp] at hphase
    obtain rfl := Option.some.inj hs
    refine ⟨⟨h.side, h.channel, h.status⟩, ResultRight.of_io error, fun hspawned => ?_⟩
    exact absurd (hphase.1.symm.trans hspawned) (by decide)
  next streams hp =>
    rw [hp] at hphase
    obtain rfl := Option.some.inj hs
    refine ⟨⟨h.side, h.channel, h.status⟩, ?_⟩
    exact afterSpawn_right (s := { s with phase := afterSpawn c streams, spawned := true })
      hphase.2 streams
  next error hp =>
    rw [hp] at hphase
    obtain rfl := Option.some.inj hs
    obtain ⟨habsent, kind, rfl⟩ := hphase
    refine ⟨⟨h.side, h.channel, h.status⟩, ResultRight.of_io _, fun _ => ⟨rfl, .inr ?_⟩⟩
    exact ⟨habsent, kind, rfl⟩
  next kind hp =>
    obtain rfl := Option.some.inj hs
    exact ⟨⟨h.side, h.channel, h.status⟩, trivial⟩
  next kind hp =>
    rw [hp] at hphase
    obtain rfl := Option.some.inj hs
    cases kind with
    | stdout =>
      have hgood := h.startThread (hphase.2 rfl)
      refine ⟨⟨hgood.side, hgood.channel, hgood.status⟩, hphase.1, ?_⟩
      rintro ⟨⟩
    | stderr =>
      have hgood := h.startThread hphase.1
      exact ⟨⟨hgood.side, hgood.channel, hgood.status⟩, trivial⟩
  next error hp =>
    obtain rfl := Option.some.inj hs
    exact ⟨⟨h.side, h.channel, h.status⟩, ResultRight.of_io error⟩
  next hp =>
    obtain rfl := Option.some.inj hs
    exact ⟨⟨h.side, h.channel, h.status⟩, trivial⟩
  next hp =>
    split at hs
    next exited hexited =>
      obtain rfl := Option.some.inj hs
      exact ⟨⟨h.side, h.channel, fun status hstatus => hexited.trans hstatus⟩, trivial⟩
    next => cases hs
  next hp =>
    split at hs
    next message channel hchannel =>
      obtain rfl := Option.some.inj hs
      have hall := h.channel
      rw [hchannel] at hall
      have hpopped : State.Good c { s with channel } :=
        ⟨h.side, fun message' hm => hall message' (List.mem_cons_of_mem _ hm), h.status⟩
      exact receive_good hpopped hp (hall message List.mem_cons_self)
    next =>
      split at hs
      next captured hcaptured =>
        obtain rfl := Option.some.inj hs
        have hresult := ResultRight.collected h hcaptured
        exact ⟨⟨h.side, h.channel, h.status⟩, hresult⟩
      next =>
        obtain rfl := Option.some.inj hs
        exact ⟨⟨h.side, h.channel, h.status⟩, trivial⟩
  next hp =>
    obtain rfl := Option.some.inj hs
    exact ⟨⟨h.side, h.channel, h.status⟩, ResultRight.timeout⟩
  next hp =>
    obtain rfl := Option.some.inj hs
    refine ⟨⟨h.side, h.channel, h.status⟩, ?_⟩
    show PhaseRight c _ s.top
    unfold State.top
    split_ifs
    · trivial
    · trivial
  next result hp =>
    rw [hp] at hphase
    obtain rfl := Option.some.inj hs
    refine ⟨⟨h.side, h.channel, h.status⟩, hphase, rfl, ?_⟩
    rintro ⟨⟩
  next kind result hp =>
    rw [hp] at hphase
    obtain ⟨-, hs⟩ := Option.ite_none_right_eq_some.mp hs
    obtain rfl := Option.some.inj hs
    have hgood := h.join kind
    refine ⟨⟨hgood.side, hgood.channel, hgood.status⟩, ?_⟩
    obtain ⟨hresult, hterminated, hjoined⟩ := hphase
    cases kind with
    | stdout => exact ⟨hresult.join .stdout, hterminated, fun _ => rfl⟩
    | stderr =>
      refine ⟨hresult.join .stderr, fun _ => ⟨hterminated, .inl fun kind => ?_⟩⟩
      cases kind with
      | stdout => exact hjoined rfl
      | stderr => rfl
  next => cases hs

/-! ## Whole runs -/

theorem State.good_of_reachable {c : Config ε} {s : State ε κ} (hs : (machine c).Reachable s) :
    s.Good c ∧ PhaseRight c s s.phase := by
  refine (machine c).invariant (P := fun s => s.Good c ∧ PhaseRight c s s.phase) ?_ ?_ hs
  · refine ⟨⟨fun kind => ⟨Nat.le_refl 0, rfl, ?_⟩, ?_, ?_⟩, rfl, fun _ => rfl⟩
    · rintro bytes ⟨⟩
    · rintro message ⟨⟩
    · rintro status ⟨⟩
  · rintro s label s' ⟨hgood, hphase⟩ hs'
    cases label with
    | child label =>
      obtain ⟨hevolves, hgood'⟩ := childStep_good hgood hs'
      rw [hevolves.phase]
      exact ⟨hgood', hphase.evolves hevolves⟩
    | reader kind label =>
      obtain ⟨hevolves, hgood'⟩ := readerStep_good hgood hs'
      rw [hevolves.phase]
      exact ⟨hgood', hphase.evolves hevolves⟩
    | main label => exact mainStep_good hgood hphase hs'

/-- **Captured output.** A run that returns output has all of both streams, each within its limit,
and the status of the child. One that reports a stream as too large names one that is, with a count
between the limit and the length of the stream. Once the child was spawned, its process tree is
terminated and the readers are joined before the return; there are none only when a stream could not
be captured. -/
theorem captured_output (c : Config ε) {s : State ε κ} (hs : (machine c).Reachable s)
    {result : Result ε κ} (hresult : s.phase = .returned result) :
    (∀ captured, result = .ok captured → s.exited = some captured.status ∧
      ∀ kind, (s.side kind).pipe.closed = true ∧
        captured.output kind = (s.side kind).pipe.written ∧
        (captured.output kind).length ≤ c.limit kind) ∧
    (∀ kind limitBytes receivedAtLeast,
      result = .error (.tooLarge limitBytes receivedAtLeast kind) →
        limitBytes = c.limit kind ∧ c.limit kind < receivedAtLeast ∧
          receivedAtLeast ≤ (s.side kind).pipe.written.length) ∧
    (s.spawned = true → s.terminated = true ∧
      ((∀ kind, (s.side kind).joined = true) ∨
        (∀ kind, (s.side kind).thread = .absent) ∧
          ∃ kind, result = .error (captureFailed c kind))) := by
  obtain ⟨-, hphase⟩ := State.good_of_reachable hs
  rw [hresult] at hphase
  obtain ⟨hright, hjoined⟩ := hphase
  refine ⟨?_, ?_, hjoined⟩
  · rintro captured rfl
    exact hright
  · rintro kind limitBytes receivedAtLeast rfl
    exact hright kind limitBytes receivedAtLeast rfl

theorem isizeMax_lt_two_pow : 2 ^ 63 - 1 < 2 ^ 64 := by decide

/-- Two bytes at the most on each stream. -/
def twoBytes : Config String := ⟨fun _ => 2, 2 ^ 63 - 1, isizeMax_lt_two_pow, id⟩

/-- The child writes two bytes and exits while its streams are still being read. -/
def shortRun : List (Label String ℕ) :=
  [.main (.spawn (.ok fun _ => true)), .main (.startThread true), .main (.startThread true),
    .child (.write .stdout [104, 105]), .reader .stdout (.read (.ready 1)), .child (.exit 0),
    .reader .stdout (.read .interrupted), .main (.tryWait (.ok true)), .main .tryRecv,
    .child (.close .stdout), .child (.close .stderr), .reader .stdout (.read (.ready 1)),
    .reader .stdout (.read (.ready 0)), .reader .stdout .send, .main (.clock false),
    .reader .stderr (.read (.ready 0)), .main .tryRecv, .reader .stderr .send, .main .tryRecv,
    .main .tryRecv, .main .terminate, .main .join, .main .join]

theorem captured_output_short : ∃ s, (machine twoBytes).exec .init shortRun = some s ∧
    s.phase = .returned (.ok ⟨0, [104, 105], []⟩) ∧ s.spawned = true ∧ s.terminated = true := by
  have hrun : ∃ s, (machine twoBytes).exec .init shortRun = some s ∧
      s.phase = .returned (.ok ⟨0, [104, 105], []⟩) ∧ s.spawned = true := ⟨_, rfl, rfl, rfl⟩
  obtain ⟨s, hs, hphase, hspawned⟩ := hrun
  exact ⟨s, hs, hphase, hspawned, ((captured_output twoBytes ⟨_, hs⟩ hphase).2.2 hspawned).1⟩

end BasicWebserver.Cmd
