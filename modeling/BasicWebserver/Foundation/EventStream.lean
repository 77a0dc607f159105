import BasicWebserver.Foundation.Ascii

/-!
# Event streams

The parsing algorithm of `text/event-stream`: a stream is read line by line, a line sets a field, and
an empty line dispatches an event. Lines end with CR LF, LF or CR; a line without an end is dropped.
Texts are their UTF-8 bytes; everything the algorithm looks for is ASCII.
-/

namespace EventStream

open Ascii

/-- An event as the page gets it. -/
structure Dispatched where
  type : List UInt8
  data : List UInt8
  lastEventId : List UInt8
  deriving DecidableEq

/-- What a stream does for the page: the events so far, and what is sent and waited for when the
connection is made again. -/
structure Client where
  lastEventId : List UInt8
  reconnectionTime : ℕ
  events : List Dispatched
  deriving DecidableEq

/-- The state between two lines, with the buffers of the event that is being read. -/
structure State where
  client : Client
  data : List UInt8
  eventType : List UInt8
  lastEventIdBuffer : List UInt8

/-- The state between two events. -/
def State.rest (client : Client) : State := ⟨client, [], [], client.lastEventId⟩

/-! ## The algorithm -/

/-- The lines of a stream, after the start of one. -/
def readLines : List UInt8 → List UInt8 → List (List UInt8)
  | _, [] => []
  | line, 13 :: 10 :: stream => line :: readLines [] stream
  | line, byte :: stream =>
    if byte = 10 ∨ byte = 13 then line :: readLines [] stream
    else readLines (line ++ [byte]) stream

def processField (s : State) (name value : List UInt8) : State :=
  if name = ascii "event" then { s with eventType := value }
  else if name = ascii "data" then { s with data := s.data ++ value ++ [10] }
  else if name = ascii "id" then
    if 0 ∈ value then s else { s with lastEventIdBuffer := value }
  else if name = ascii "retry" then
    if value ≠ [] ∧ value.all isDigit then
      { s with client.reconnectionTime := ofDecimal value }
    else s
  else s

def dispatch (s : State) : State :=
  let client := { s.client with lastEventId := s.lastEventIdBuffer }
  if s.data = [] then .rest client
  else
    let data := if s.data.getLast? = some 10 then s.data.dropLast else s.data
    let type := if s.eventType = [] then ascii "message" else s.eventType
    .rest { client with events := client.events ++ [⟨type, data, s.lastEventIdBuffer⟩] }

/-- One space after the colon is not part of the value. -/
def stripSpace : List UInt8 → List UInt8
  | 32 :: value => value
  | value => value

def processLine (s : State) (line : List UInt8) : State :=
  if line = [] then dispatch s
  else if line.head? = some 58 then s
  else
    processField s (line.takeWhile (· ≠ 58)) (stripSpace ((line.dropWhile (· ≠ 58)).drop 1))

/-- A byte order mark at the start of the stream is no part of it. -/
def decode : List UInt8 → List UInt8
  | 0xEF :: 0xBB :: 0xBF :: stream => stream
  | stream => stream

def parse (client : Client) (stream : List UInt8) : Client :=
  ((readLines [] (decode stream)).foldl processLine (.rest client)).client

/-! ## Rules -/

/-- No line ends in these bytes. -/
def OneLine (line : List UInt8) : Prop := (10 : UInt8) ∉ line ∧ (13 : UInt8) ∉ line

section

variable {line stream name value : List UInt8} {lines : List (List UInt8)} {s : State}

theorem OneLine.append {a b : List UInt8} (ha : OneLine a) (hb : OneLine b) : OneLine (a ++ b) :=
  ⟨fun h => (List.mem_append.mp h).elim ha.1 hb.1, fun h => (List.mem_append.mp h).elim ha.2 hb.2⟩

theorem readLines_append (h : OneLine line) (start stream : List UInt8) :
    readLines start (line ++ 10 :: stream) = (start ++ line) :: readLines [] stream := by
  induction line generalizing start with
  | nil => simp [readLines]
  | cons byte line ih =>
    obtain ⟨h10, h10'⟩ := not_or.mp (mt List.mem_cons.mpr h.1)
    obtain ⟨h13, h13'⟩ := not_or.mp (mt List.mem_cons.mpr h.2)
    have hstep : readLines start (byte :: (line ++ 10 :: stream)) =
        readLines (start ++ [byte]) (line ++ 10 :: stream) := by
      rw [readLines]
      · exact if_neg (not_or.mpr ⟨Ne.symm h10, Ne.symm h13⟩)
      · rintro _ rfl _
        exact h13 rfl
    rw [List.cons_append, hstep, ih ⟨h10', h13'⟩, List.append_assoc, List.singleton_append]

theorem readLines_flatMap (h : ∀ line ∈ lines, OneLine line) (stream : List UInt8) :
    readLines [] (lines.flatMap (· ++ [10]) ++ stream) = lines ++ readLines [] stream := by
  induction lines with
  | nil => rfl
  | cons line lines ih =>
    obtain ⟨hline, hlines⟩ := List.forall_mem_cons.mp h
    rw [List.flatMap_cons, List.append_assoc, List.append_assoc, List.singleton_append,
      readLines_append hline, ih hlines]
    rfl

theorem processLine_eq (hname : (58 : UInt8) ∉ name) (hne : name ≠ []) (s : State)
    (rest : List UInt8) :
    processLine s (name ++ 58 :: rest) = processField s name (stripSpace rest) := by
  have hpass : ∀ byte ∈ name, decide (byte ≠ 58) := by
    intro byte hbyte
    rw [decide_eq_true_eq]
    rintro rfl
    exact hname hbyte
  have htake : (58 :: rest).takeWhile (· ≠ 58) = [] := List.takeWhile_cons_of_neg (by decide)
  have hdrop : (58 :: rest).dropWhile (· ≠ 58) = 58 :: rest := List.dropWhile_cons_of_neg (by decide)
  have hhead : (name ++ 58 :: rest).head? ≠ some 58 := by
    obtain ⟨byte, name, rfl⟩ := List.exists_cons_of_ne_nil hne
    rintro hhead
    exact hname (Option.some.inj hhead ▸ List.mem_cons_self)
  unfold processLine
  rw [if_neg (by simp), if_neg hhead, List.takeWhile_append_of_pos hpass, htake, List.append_nil,
    List.dropWhile_append_of_pos hpass, hdrop]
  rfl

theorem processLine_field (hname : (58 : UInt8) ∉ name) (hne : name ≠ []) (s : State)
    (value : List UInt8) : processLine s (name ++ [58, 32] ++ value) = processField s name value := by
  rw [List.append_assoc]
  exact processLine_eq hname hne s (32 :: value)

theorem foldl_data (s : State) (lines : List (List UInt8)) :
    (lines.map (ascii "data: " ++ ·)).foldl processLine s =
      { s with data := s.data ++ lines.flatMap (· ++ [10]) } := by
  have hline : ∀ (s : State) (line : List UInt8), processLine s (ascii "data: " ++ line) =
      { s with data := s.data ++ line ++ [10] } := by
    intro s line
    exact processLine_field (show (58 : UInt8) ∉ ascii "data" by decide +kernel) (by decide +kernel) s
      line
  induction lines generalizing s with
  | nil => simp
  | cons line lines ih =>
    rw [List.map_cons, List.foldl_cons, hline, ih]
    simp

theorem dispatch_data (s : State) (data : List UInt8) (hdata : s.data = data ++ [10]) :
    dispatch s = .rest
      { lastEventId := s.lastEventIdBuffer
        reconnectionTime := s.client.reconnectionTime
        events := s.client.events ++
          [⟨if s.eventType = [] then ascii "message" else s.eventType, data, s.lastEventIdBuffer⟩] } := by
  unfold dispatch
  rw [hdata, if_neg (by simp), if_pos (List.getLast?_concat), List.dropLast_concat]

end

end EventStream
