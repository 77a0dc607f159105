import Mathlib.Data.List.Basic
import Mathlib.Tactic.Common

/-!
# Sending a response over HTTP/2

`send_h2_response` of `src/http_server.rs`. The body is a list of data frames and how it ends; the
h2 library is the list of answers its `poll_capacity` gives, in order, and for each of its send
calls whether it is refused. A `none` outcome waits for an answer that the list does not hold. A
passed deadline is an answer too, of the capacity wait or of the wait for the next frame.

A refused call sends nothing. The log `sent` has what h2 accepted: the header block, data, trailers
and resets, with their END_STREAM flags.
-/

namespace BasicWebserver.Http2

variable {τ : Type*}

structure DataFrame where
  pooled : Bool
  bytes : List UInt8
  deriving DecidableEq

/-- What comes after the last data frame. `timeout` is a body that yields nothing more in time. -/
inductive Ending (τ : Type*)
  | none
  | trailers (trailers : τ)
  | error (message : String)
  | timeout
  deriving DecidableEq

/-- A response body. `endHint k` is what the body would like to answer to the `k`-th
`is_end_stream`; it may answer `true` only when no frame is left. -/
structure Body (τ : Type*) where
  frames : List DataFrame
  ending : Ending τ
  endHint : ℕ → Bool

/-- The ways a capacity wait fails: an error of h2, a closed stream, a passed deadline. -/
inductive CapacityFailure
  | error (message : String)
  | closed
  | timeout
  deriving DecidableEq

/-- An answer of `poll_capacity`. -/
inductive Grant
  | capacity (bytes : ℕ)
  | failed (failure : CapacityFailure)
  deriving DecidableEq

inductive Reason
  | cancel
  | internalError
  deriving DecidableEq

inductive Sent (τ : Type*)
  | headers (endStream : Bool)
  | data (bytes : List UInt8) (endStream : Bool)
  | trailers (trailers : τ)
  | reset (reason : Reason)
  deriving DecidableEq

/-- The send half of the stream: what h2 accepted, and how often it and `is_end_stream` were
called. -/
structure Sender (τ : Type*) where
  sent : List (Sent τ)
  calls : ℕ
  queries : ℕ
  deriving DecidableEq

inductive Result
  | ok
  | err (message : String)
  deriving DecidableEq

/-- How a data frame left the frame loop: waiting for an answer, out of the function, or on to the
next frame with the answers left. -/
inductive Progress (τ : Type*)
  | waiting
  | returned (result : Result) (sender : Sender τ)
  | next (grants : List Grant) (sender : Sender τ)

def Ending.isNone : Ending τ → Bool
  | .none => true
  | _ => false

def Body.isEndStream (b : Body τ) (s : Sender τ) (rest : List DataFrame) : Bool :=
  b.endHint s.queries && rest.isEmpty && b.ending.isNone

namespace Sender

def queried (s : Sender τ) : Sender τ := { s with queries := s.queries + 1 }

def reset (s : Sender τ) (reason : Reason) : Sender τ := { s with sent := s.sent ++ [.reset reason] }

/-- A send call; `refuse k` is the error of the `k`-th one. -/
def send (refuse : ℕ → Option String) (s : Sender τ) (m : Sent τ) : Except String (Sender τ) :=
  match refuse s.calls with
  | some message => .error message
  | none => .ok { s with sent := s.sent ++ [m], calls := s.calls + 1 }

end Sender

section Loop

variable (b : Body τ) (refuse : ℕ → Option String) (rest : List DataFrame)

/-- `send_data` and the return or loop that follows it. -/
def sendData (s : Sender τ) (bytes : List UInt8) (endStream : Bool) (next : Sender τ → Progress τ) :
    Progress τ :=
  match s.send refuse (.data bytes endStream) with
  | .error message => .returned (.err message) s
  | .ok s => if endStream then .returned .ok s else next s

/-- A failed capacity wait ends the function. -/
def capacityFailed (s : Sender τ) : CapacityFailure → Progress τ
  | .error message => .returned (.err message) s
  | .closed => .returned (.err "HTTP/2 response stream closed") s
  | .timeout =>
    .returned (.err "HTTP/2 response flow control made no progress before its deadline")
      (s.reset .cancel)

/-- The branch for a pooled frame. A grant of zero bytes goes on with the frame loop, and the frame
with it. -/
def sendPooled (data : List UInt8) (s : Sender τ) : List Grant → Progress τ
  | [] => .waiting
  | .capacity 0 :: grants => .next grants s
  | .capacity (_ + 1) :: grants =>
    sendData refuse s.queried data (b.isEndStream s rest) (.next grants)
  | .failed failure :: _ => capacityFailed s failure

/-- The loop for a plain frame. A grant of zero bytes asks again. -/
def sendPlain : List Grant → List UInt8 → Sender τ → Progress τ
  | grants, [], s => .next grants s
  | [], _ :: _, _ => .waiting
  | .capacity 0 :: grants, byte :: data, s => sendPlain grants (byte :: data) s
  | .capacity (n + 1) :: grants, byte :: data, s =>
    let chunk := (byte :: data).take (n + 1)
    let left := (byte :: data).drop (n + 1)
    if left.isEmpty then
      sendData refuse s.queried chunk (b.isEndStream s rest) (.next grants)
    else sendData refuse s chunk false (sendPlain grants left)
  | .failed failure :: _, _ :: _, s => capacityFailed s failure

end Loop

/-- The call after the last frame. -/
def finish (refuse : ℕ → Option String) (s : Sender τ) (m : Sent τ) : Result × Sender τ :=
  match s.send refuse m with
  | .error message => (.err message, s)
  | .ok s => (.ok, s)

/-- How the frame loop goes on after a data frame. -/
def Progress.resume (loop : List Grant → Sender τ → Option (Result × Sender τ)) :
    Progress τ → Option (Result × Sender τ)
  | .waiting => none
  | .returned result s => some (result, s)
  | .next grants s => loop grants s

/-- The frame loop. -/
def sendFrames (b : Body τ) (refuse : ℕ → Option String) :
    List DataFrame → List Grant → Sender τ → Option (Result × Sender τ)
  | [], _, s =>
    match b.ending with
    | .none => some (finish refuse s (.data [] true))
    | .trailers trailers => some (finish refuse s (.trailers trailers))
    | .error message => some (.err message, s.reset .internalError)
    | .timeout =>
      some (.err "HTTP/2 response made no progress before its deadline", s.reset .cancel)
  | frame :: rest, grants, s =>
    if frame.bytes.isEmpty then sendFrames b refuse rest grants s
    else if frame.pooled then
      (sendPooled b refuse rest frame.bytes s grants).resume fun grants s =>
        sendFrames b refuse rest grants s
    else
      (sendPlain b refuse rest grants frame.bytes s).resume fun grants s =>
        sendFrames b refuse rest grants s

def Sender.init : Sender τ := ⟨[], 0, 0⟩

def sendH2Response (b : Body τ) (grants : List Grant) (refuse : ℕ → Option String) :
    Option (Result × Sender τ) :=
  let endStream := b.isEndStream Sender.init b.frames
  match Sender.init.queried.send refuse (.headers endStream) with
  | .error message => some (.err message, Sender.init.queried)
  | .ok s => if endStream then some (.ok, s) else sendFrames b refuse b.frames grants s

/-! ## What was sent -/

def Sent.bytes : Sent τ → List UInt8
  | .data bytes _ => bytes
  | _ => []

def Sent.endsStream : Sent τ → Bool
  | .headers endStream => endStream
  | .data _ endStream => endStream
  | .trailers _ => true
  | .reset _ => false

def Sender.bytes (s : Sender τ) : List UInt8 := s.sent.flatMap Sent.bytes

def Body.bytes (b : Body τ) : List UInt8 := b.frames.flatMap DataFrame.bytes

/-- What a returned call owes its caller: on success all bytes of the body in order and END_STREAM
once, on the last thing sent; on failure a part of the bytes from the front and no END_STREAM. -/
def Transmitted (b : Body τ) (s : Sender τ) : Result → Prop
  | .ok => s.bytes = b.bytes ∧
      ∃ before last, s.sent = before ++ [last] ∧ last.endsStream = true ∧
        ∀ m ∈ before, m.endsStream = false
  | .err _ => s.bytes <+: b.bytes ∧ ∀ m ∈ s.sent, m.endsStream = false

/-! ## Zero grants for pooled frames -/

/-- The answers left after a plain frame with `n` bytes. -/
def afterPlain : List Grant → ℕ → List Grant
  | grants, 0 => grants
  | [], _ + 1 => []
  | .capacity c :: grants, n + 1 => afterPlain grants (n + 1 - c)
  | .failed _ :: _, _ + 1 => []

/-- No capacity wait of a pooled frame with bytes in it is answered by a grant of zero bytes. -/
def noZeroGrant : List DataFrame → List Grant → Bool
  | [], _ => true
  | frame :: rest, grants =>
    if frame.bytes.isEmpty then noZeroGrant rest grants
    else if frame.pooled then
      match grants with
      | .capacity 0 :: _ => false
      | .capacity (_ + 1) :: grants => noZeroGrant rest grants
      | _ => true
    else noZeroGrant rest (afterPlain grants frame.bytes.length)

end BasicWebserver.Http2
