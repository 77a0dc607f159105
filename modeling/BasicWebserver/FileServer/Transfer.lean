import BasicWebserver.Compression.Negotiation

/-!
# File transfers

The loop that copies a file into the body of a response, chunk by chunk (`copy_file`,
`ChunkWriter`, `stream_file` and `FileBody` of `src/file_server.rs`). What the code does not control
is in `Surroundings`: a read can fail, the client can be gone when a chunk is offered, and a content
encoder writes what it likes to the `ChunkWriter` under it.
-/

namespace BasicWebserver.FileServer

open Compression

/-- The size of the chunks; `FileService::activate` refuses zero. -/
abbrev ChunkBytes := {n : ℕ // 0 < n}

/-- A call of the encoder on the writer under it. -/
inductive WriterCall
  | write (bytes : Bytes)
  | flush

/-- What a transfer meets, by the number of the read, the chunk or the write. -/
structure Surroundings where
  seekSucceeds : Bool
  /-- The response is still waited for when it is ready. -/
  responseTaken : Bool
  readSucceeds : ℕ → Bool
  chunkTaken : ℕ → Bool
  encoderStarts : Bool
  /-- What the encoder does in one `write_all`, and whether it returns `Ok`. -/
  encoderWrites : ℕ → List WriterCall × Bool
  encoderFinishes : List WriterCall × Bool
  /-- What dropping an unfinished encoder writes. -/
  encoderDropped : List WriterCall

/-! ## Copying -/

section Copy

variable {σ : Type}

/-- `read_exact` at a position of the file. -/
def readExact (file : Bytes) (position next : ℕ) (succeeds : Bool) : Option Bytes :=
  if succeeds && position + next ≤ file.length then some ((file.drop position).take next) else none

/-- The loop over the remaining bytes; the result says whether it came to the end. -/
def copyFile (env : Surroundings) (file : Bytes) (chunkBytes : ChunkBytes)
    (consume : σ → Bytes → σ × Bool) (remaining position turn : ℕ) (s : σ) : σ × Bool :=
  if _h : 0 < remaining then
    let next := min remaining chunkBytes
    match readExact file position next (env.readSucceeds turn) with
    | none => (s, false)
    | some buffer =>
      let (s', ok) := consume s buffer
      if ok then
        copyFile env file chunkBytes consume (remaining - next) (position + next) (turn + 1) s'
      else (s', false)
  else (s, true)
termination_by remaining
decreasing_by
  have := chunkBytes.2
  omega

/-- The consumer was given these buffers, and only the last may have been refused. -/
inductive Consumed (consume : σ → Bytes → σ × Bool) : σ → List Bytes → σ → Bool → Prop
  | stop (s : σ) (ok : Bool) : Consumed consume s [] s ok
  | refused {s s' : σ} {buffer : Bytes} (h : consume s buffer = (s', false)) :
      Consumed consume s [buffer] s' false
  | taken {s s' s'' : σ} {buffer : Bytes} {buffers : List Bytes} {ok : Bool}
      (h : consume s buffer = (s', true)) (hrest : Consumed consume s' buffers s'' ok) :
      Consumed consume s (buffer :: buffers) s'' ok

/-- A chunk that may be sent. -/
def IsChunk (chunkBytes : ChunkBytes) (chunk : Bytes) : Prop :=
  chunk ≠ [] ∧ chunk.length ≤ chunkBytes

theorem isChunk_of_length {chunkBytes : ChunkBytes} {chunk : Bytes}
    (h : chunk.length = chunkBytes) : IsChunk chunkBytes chunk :=
  ⟨List.ne_nil_of_length_pos (by rw [h]; exact chunkBytes.2), Nat.le_of_eq h⟩

theorem slice_split (file : Bytes) (position : ℕ) {next remaining : ℕ} (h : next ≤ remaining) :
    (file.drop position).take remaining =
      (file.drop position).take next ++ (file.drop (position + next)).take (remaining - next) := by
  conv_lhs => rw [← Nat.add_sub_cancel' h, List.take_add, List.drop_drop]

/-- **Copying.** The consumer is given the bytes asked for, in order and in chunks; all of them, if
the loop comes to the end. -/
theorem copyFile_consumed (env : Surroundings) (file : Bytes) (chunkBytes : ChunkBytes)
    (consume : σ → Bytes → σ × Bool) (remaining position turn : ℕ) (s : σ)
    (hfile : position + remaining ≤ file.length) :
    ∃ buffers s' ok,
      copyFile env file chunkBytes consume remaining position turn s = (s', ok) ∧
      Consumed consume s buffers s' ok ∧ (∀ buffer ∈ buffers, IsChunk chunkBytes buffer) ∧
      buffers.flatten <+: (file.drop position).take remaining ∧
      (ok → buffers.flatten = (file.drop position).take remaining) := by
  induction remaining using Nat.strongRecOn generalizing position turn s with
  | ind remaining ih =>
    unfold copyFile
    split_ifs with hremaining
    · have hchunk := chunkBytes.2
      have hnext : min remaining chunkBytes ≤ remaining := Nat.min_le_left _ _
      have hsplit := slice_split file position hnext
      have hread : ∀ buffer, readExact file position (min remaining chunkBytes)
          (env.readSucceeds turn) = some buffer →
          buffer = (file.drop position).take (min remaining chunkBytes) ∧
            IsChunk chunkBytes buffer := by
        intro buffer hbuffer
        unfold readExact at hbuffer
        split_ifs at hbuffer
        obtain rfl := Option.some.inj hbuffer
        have hlength : ((file.drop position).take (min remaining chunkBytes)).length =
            min remaining chunkBytes := by
          rw [List.length_take, List.length_drop]
          omega
        exact ⟨rfl, List.ne_nil_of_length_pos (by omega), by omega⟩
      dsimp only
      cases hbuffer : readExact file position (min remaining chunkBytes)
          (env.readSucceeds turn) with
      | none => exact ⟨[], s, false, rfl, .stop _ _, nofun, List.nil_prefix, nofun⟩
      | some buffer =>
        obtain ⟨heq, hisChunk⟩ := hread buffer hbuffer
        rw [hsplit, ← heq]
        rcases hconsume : consume s buffer with ⟨s', ok⟩
        dsimp only
        rw [hconsume]
        cases ok with
        | false =>
          refine ⟨[buffer], s', false, rfl, .refused hconsume, ?_, ?_, nofun⟩
          · exact List.forall_mem_singleton.mpr hisChunk
          · rw [List.flatten_singleton]
            exact List.prefix_append _ _
        | true =>
          -- the rest of the slice is what the next turns copy
          obtain ⟨buffers, s'', ok, hcopy, hconsumed, hchunks, hprefix, hall⟩ :=
            ih (remaining - min remaining chunkBytes) (by omega)
              (position + min remaining chunkBytes) (turn + 1) s' (by omega)
          refine ⟨buffer :: buffers, s'', ok, hcopy, .taken hconsume hconsumed, ?_, ?_, ?_⟩
          · exact List.forall_mem_cons.mpr ⟨hisChunk, hchunks⟩
          · rw [List.flatten_cons]
            exact (List.prefix_append_right_inj buffer).mpr hprefix
          · intro hok
            rw [List.flatten_cons, hall hok]
    · obtain rfl : remaining = 0 := by omega
      exact ⟨[], s, true, rfl, .stop _ _, nofun, List.nil_prefix, fun _ => rfl⟩

end Copy

/-! ## The channel to the body -/

/-- The chunks that the body was given, and how many were offered to it. -/
structure Channel where
  sent : List Bytes
  offered : ℕ

/-- `blocking_send` of a chunk. -/
def Channel.send (env : Surroundings) (channel : Channel) (chunk : Bytes) : Channel × Bool :=
  let taken := env.chunkTaken channel.offered
  ({ sent := if taken then channel.sent ++ [chunk] else channel.sent
     offered := channel.offered + 1 }, taken)

theorem Consumed.sent {env : Surroundings} {channel channel' : Channel} {buffers : List Bytes}
    {ok : Bool} (h : Consumed (Channel.send env) channel buffers channel' ok) :
    ∃ chunks, channel'.sent = channel.sent ++ chunks ∧ chunks <+: buffers ∧
      (ok → chunks = buffers) := by
  induction h with
  | stop => exact ⟨[], (List.append_nil _).symm, List.nil_prefix, fun _ => rfl⟩
  | refused h =>
    refine ⟨[], ?_, List.nil_prefix, nofun⟩
    unfold Channel.send at h
    obtain ⟨rfl, htaken⟩ := Prod.mk.inj h
    rw [htaken, List.append_nil]
    rfl
  | @taken _ _ _ buffer _ _ h _ ih =>
    obtain ⟨chunks, hsent, hprefix, hall⟩ := ih
    unfold Channel.send at h
    obtain ⟨rfl, htaken⟩ := Prod.mk.inj h
    refine ⟨buffer :: chunks, ?_, List.cons_prefix_cons.mpr ⟨rfl, hprefix⟩, fun hok => ?_⟩
    · rw [hsent, htaken, if_pos rfl, List.append_assoc, List.singleton_append]
    · rw [hall hok]

/-! ## The writer under an encoder -/

/-- Bytes are kept back until a chunk is full. -/
structure ChunkWriter (chunkBytes : ChunkBytes) where
  channel : Channel
  buffer : Bytes
  room : buffer.length < chunkBytes

namespace ChunkWriter

variable {chunkBytes : ChunkBytes}

def new (channel : Channel) : ChunkWriter chunkBytes := ⟨channel, [], chunkBytes.2⟩

def sendBuffer (env : Surroundings) (w : ChunkWriter chunkBytes) : ChunkWriter chunkBytes × Bool :=
  if w.buffer = [] then (w, true)
  else
    let (channel, taken) := w.channel.send env w.buffer
    (⟨channel, [], chunkBytes.2⟩, taken)

/-- The loop of `write`: fill the buffer, and send it whenever it is full. -/
def write (env : Surroundings) (w : ChunkWriter chunkBytes) (bytes : Bytes) :
    ChunkWriter chunkBytes × Bool :=
  if hbytes : bytes = [] then (w, true)
  else
    let take := min (chunkBytes - w.buffer.length) bytes.length
    let buffer := w.buffer ++ bytes.take take
    if hfull : buffer.length = chunkBytes then
      let (channel, taken) := w.channel.send env buffer
      let w' := ⟨channel, [], chunkBytes.2⟩
      if taken then write env w' (bytes.drop take) else (w', false)
    else write env ⟨w.channel, buffer, by
      have := w.room
      simp only [buffer, take, List.length_append, List.length_take] at hfull ⊢
      omega⟩ (bytes.drop take)
termination_by bytes.length
decreasing_by
  all_goals
    have := w.room
    have := List.length_pos_of_ne_nil hbytes
    simp only [List.length_drop]
    omega

def call (env : Surroundings) (w : ChunkWriter chunkBytes) : WriterCall → ChunkWriter chunkBytes
  | .write bytes => (w.write env bytes).1
  | .flush => (w.sendBuffer env).1

/-- Every chunk that was sent is one. -/
def Bounded (w : ChunkWriter chunkBytes) : Prop :=
  ∀ chunk ∈ w.channel.sent, IsChunk chunkBytes chunk

theorem bounded_send {env : Surroundings} {channel : Channel} {chunk : Bytes}
    (h : ∀ c ∈ channel.sent, IsChunk chunkBytes c) (hchunk : IsChunk chunkBytes chunk) :
    ∀ c ∈ (channel.send env chunk).1.sent, IsChunk chunkBytes c := by
  unfold Channel.send
  dsimp only
  split_ifs
  · exact List.forall_mem_append.mpr ⟨h, List.forall_mem_singleton.mpr hchunk⟩
  · exact h

theorem Bounded.sendBuffer {env : Surroundings} {w : ChunkWriter chunkBytes} (h : w.Bounded) :
    (w.sendBuffer env).1.Bounded := by
  unfold ChunkWriter.sendBuffer
  split_ifs with hempty
  · exact h
  · exact bounded_send h ⟨hempty, Nat.le_of_lt w.room⟩

theorem Bounded.write {env : Surroundings} {w : ChunkWriter chunkBytes} {bytes : Bytes}
    (h : w.Bounded) : (w.write env bytes).1.Bounded := by
  induction hlength : bytes.length using Nat.strongRecOn generalizing w bytes with
  | ind n ih =>
    unfold ChunkWriter.write
    split_ifs with hbytes
    · exact h
    · have hroom := w.room
      have hpos := List.length_pos_of_ne_nil hbytes
      have hdrop : (bytes.drop (min (chunkBytes - w.buffer.length) bytes.length)).length < n := by
        rw [List.length_drop]
        omega
      dsimp only
      split_ifs with hfull htaken
      · exact ih _ hdrop (bounded_send h (isChunk_of_length hfull)) rfl
      · exact bounded_send h (isChunk_of_length hfull)
      · exact ih _ hdrop h rfl

theorem Bounded.calls {env : Surroundings} {w : ChunkWriter chunkBytes} (calls : List WriterCall)
    (h : w.Bounded) : (calls.foldl (call env) w).Bounded := by
  induction calls generalizing w with
  | nil => exact h
  | cons c calls ih =>
    cases c with
    | write bytes => exact ih h.write
    | flush => exact ih h.sendBuffer

end ChunkWriter

/-! ## Streaming -/

/-- What came of a transfer: the chunks in the body, what the encoder was given, and whether an error
ends the body. -/
structure Streamed where
  chunks : List Bytes
  input : List Bytes
  ok : Bool

structure Encoding (chunkBytes : ChunkBytes) where
  writer : ChunkWriter chunkBytes
  input : List Bytes

def Encoding.new (chunkBytes : ChunkBytes) : Encoding chunkBytes :=
  ⟨ChunkWriter.new ⟨[], 0⟩, []⟩

def Encoding.writeAll {chunkBytes : ChunkBytes} (env : Surroundings) (e : Encoding chunkBytes)
    (bytes : Bytes) : Encoding chunkBytes × Bool :=
  let (calls, ok) := env.encoderWrites e.input.length
  ({ writer := calls.foldl (ChunkWriter.call env) e.writer, input := e.input ++ [bytes] }, ok)

def streamFile (env : Surroundings) (file : Bytes) (start length : ℕ) (chunkBytes : ChunkBytes)
    (contentCoding : Option ContentCoding) : Streamed :=
  match contentCoding with
  | none =>
    let (channel, ok) := copyFile env file chunkBytes (Channel.send env) length start 0 ⟨[], 0⟩
    { chunks := channel.sent, input := [], ok }
  | some _ =>
    if !env.encoderStarts then { chunks := [], input := [], ok := false }
    else
      let (e, ok) := copyFile env file chunkBytes (Encoding.writeAll env) length start 0
        (Encoding.new chunkBytes)
      if !ok then
        let writer := env.encoderDropped.foldl (ChunkWriter.call env) e.writer
        { chunks := writer.channel.sent, input := e.input, ok := false }
      else
        let (calls, ok) := env.encoderFinishes
        let writer := calls.foldl (ChunkWriter.call env) e.writer
        if !ok then { chunks := writer.channel.sent, input := e.input, ok := false }
        else
          let sent := writer.sendBuffer env
          { chunks := sent.1.channel.sent, input := e.input, ok := sent.2 }

theorem streamFile_identity (env : Surroundings) (file : Bytes) (start length : ℕ)
    (chunkBytes : ChunkBytes) (h : start + length ≤ file.length) :
    (∀ chunk ∈ (streamFile env file start length chunkBytes none).chunks, IsChunk chunkBytes chunk) ∧
      (streamFile env file start length chunkBytes none).chunks.flatten <+:
        (file.drop start).take length ∧
      ((streamFile env file start length chunkBytes none).ok →
        (streamFile env file start length chunkBytes none).chunks.flatten =
          (file.drop start).take length) := by
  obtain ⟨buffers, channel, ok, hcopy, hconsumed, hchunks, hprefix, hall⟩ :=
    copyFile_consumed env file chunkBytes (Channel.send env) length start 0 ⟨[], 0⟩ h
  obtain ⟨chunks, hsent, hsub, hsame⟩ := hconsumed.sent
  unfold streamFile
  dsimp only
  rw [hcopy, hsent, List.nil_append]
  refine ⟨fun chunk hchunk => hchunks chunk (hsub.subset hchunk), ?_, fun hok => ?_⟩
  · obtain ⟨rest, rfl⟩ := hsub
    rw [List.flatten_append] at hprefix
    exact (List.prefix_append _ _).trans hprefix
  · rw [hsame hok, hall hok]

theorem Consumed.encoded {env : Surroundings} {chunkBytes : ChunkBytes}
    {e e' : Encoding chunkBytes} {buffers : List Bytes} {ok : Bool}
    (h : Consumed (Encoding.writeAll env) e buffers e' ok) (hbounded : e.writer.Bounded) :
    e'.input = e.input ++ buffers ∧ e'.writer.Bounded := by
  have hwrite : ∀ {e e' : Encoding chunkBytes} {buffer : Bytes} {ok : Bool},
      Encoding.writeAll env e buffer = (e', ok) → e.writer.Bounded →
        e'.input = e.input ++ [buffer] ∧ e'.writer.Bounded := by
    intro e e' buffer ok h hbounded
    unfold Encoding.writeAll at h
    obtain ⟨rfl, -⟩ := Prod.mk.inj h
    exact ⟨rfl, hbounded.calls _⟩
  induction h with
  | stop => exact ⟨(List.append_nil _).symm, hbounded⟩
  | refused h => exact hwrite h hbounded
  | taken h _ ih =>
    obtain ⟨hinput, hbounded'⟩ := hwrite h hbounded
    obtain ⟨hrest, hwriter⟩ := ih hbounded'
    refine ⟨?_, hwriter⟩
    rw [hrest, hinput, List.append_assoc, List.singleton_append]

theorem streamFile_encoded (env : Surroundings) (file : Bytes) (start length : ℕ)
    (chunkBytes : ChunkBytes) (coding : ContentCoding) (h : start + length ≤ file.length) :
    (∀ chunk ∈ (streamFile env file start length chunkBytes (some coding)).chunks,
        IsChunk chunkBytes chunk) ∧
      (streamFile env file start length chunkBytes (some coding)).input.flatten <+:
        (file.drop start).take length ∧
      ((streamFile env file start length chunkBytes (some coding)).ok →
        (streamFile env file start length chunkBytes (some coding)).input.flatten =
          (file.drop start).take length) := by
  obtain ⟨buffers, e, ok, hcopy, hconsumed, -, hprefix, hall⟩ :=
    copyFile_consumed env file chunkBytes (Encoding.writeAll env) length start 0
      (Encoding.new chunkBytes) h
  obtain ⟨hinput, hbounded⟩ := hconsumed.encoded nofun
  obtain rfl : e.input = buffers := hinput
  unfold streamFile
  dsimp only
  rw [hcopy]
  dsimp only
  split_ifs with hstarts hcopied hfinished
  · exact ⟨nofun, List.nil_prefix, nofun⟩
  · exact ⟨hbounded.calls _, hprefix, nofun⟩
  · exact ⟨hbounded.calls _, hprefix, nofun⟩
  · exact ⟨(hbounded.calls _).sendBuffer, hprefix, fun _ => hall (by simpa using hcopied)⟩

/-! ## The body -/

structure FileBody where
  remaining : Option ℕ

/-- A frame was polled. -/
def FileBody.pollFrame (body : FileBody) (chunk : Bytes) : FileBody :=
  { remaining := body.remaining.map (· - chunk.length) }

def FileBody.isEndStream (body : FileBody) : Bool := body.remaining = some 0

theorem FileBody.remaining_foldl (length : ℕ) (chunks : List Bytes) :
    (chunks.foldl FileBody.pollFrame ⟨some length⟩).remaining =
      some (length - chunks.flatten.length) := by
  induction chunks generalizing length with
  | nil => rfl
  | cons chunk chunks ih =>
    rw [List.foldl_cons, List.flatten_cons, List.length_append, ← Nat.sub_sub]
    exact ih (length - chunk.length)

end BasicWebserver.FileServer
