import BasicWebserver.Foundation.EventStream
import BasicWebserver.Foundation.Splitting

/-!
# Server-sent events

The constructors of `platform/Sse.roc` and what a client makes of their bytes. A frame is a sequence
of lines that are ended one by one (`Construction.event_eq`), and a client that reads them gets
exactly the event that was meant (`parse_events`).

`keyed` has a fast path that writes the key as it is. A line ending in the key is then not that of a
field, and the frame is not the one it should be (`keyed_eq_named_iff`).
-/

namespace BasicWebserver.Platform.Sse

open Ascii Splitting EventStream

abbrev Str := List UInt8

inductive EventId
  | absentEventId
  | clearEventId
  | setEventId (value : Str)
  deriving DecidableEq

inductive Retry
  | noRetry
  | retryAfter (milliseconds : UInt64)
  deriving DecidableEq

structure EventOptions where
  id : EventId
  retry : Retry

def defaultEventOptions : EventOptions := ⟨.absentEventId, .noRetry⟩

/-- `event_id`; the error is `InvalidEventId`. -/
def eventId (value : Str) : Option EventId :=
  if 13 ∈ value ∨ 10 ∈ value ∨ 0 ∈ value then none else some (.setEventId value)

/-! ## The constructors -/

def removeLineEndings (name : Str) : Str :=
  [].intercalate (splitOn [10] ([].intercalate (splitOn [13] name)))

def normalized (value : Str) : Str :=
  let lf := [10].intercalate (splitOn [13, 10] value)
  [10].intercalate (splitOn [13] lf)

def namedWith (name : Str) (values : List Str) (options : EventOptions) : Str :=
  let safeName := removeLineEndings name
  let idFields :=
    match options.id with
    | .absentEventId => []
    | .clearEventId => [ascii "id:"]
    | .setEventId value => [ascii "id: " ++ value]
  let retryFields :=
    match options.retry with
    | .noRetry => []
    | .retryAfter milliseconds => [ascii "retry: " ++ decimal milliseconds.toNat]
  let fields := values.map fun value =>
    [10].intercalate ((splitOn [10] (normalized value)).map (ascii "data: " ++ ·))
  let lines := ([ascii "event: " ++ safeName] ++ idFields) ++ (retryFields ++ fields)
  [10].intercalate lines ++ [10, 10]

def named (name : Str) (values : List Str) : Str := namedWith name values defaultEventOptions

def keyed (name key value : Str) : Str :=
  let safeName := if 13 ∈ name ∨ 10 ∈ name then removeLineEndings name else name
  if 13 ∈ value ∨ 10 ∈ value then
    let fields := (splitOn [10] (normalized value)).map fun line => key ++ [32] ++ line
    named safeName fields
  else
    ascii "event: " ++ safeName ++ ascii "\ndata: " ++ key ++ [32] ++ value ++ [10, 10]

def data (value : Str) : Str :=
  if 13 ∉ value ∧ 10 ∉ value then ascii "data: " ++ value ++ [10, 10]
  else
    let fields := (splitOn [10] (normalized value)).map (ascii "data: " ++ ·)
    [10].intercalate fields ++ [10, 10]

/-! ## Line endings -/

/-- Every line ending as one LF. -/
def normalizeNewlines : Str → Str
  | 13 :: 10 :: rest => 10 :: normalizeNewlines rest
  | byte :: rest => (if byte = 13 then 10 else byte) :: normalizeNewlines rest
  | [] => []

def withoutNewlines (name : Str) : Str := name.filter fun byte => byte ≠ 10 ∧ byte ≠ 13

theorem normalized_eq (value : Str) : normalized value = normalizeNewlines value := by
  unfold normalized
  dsimp only
  fun_induction normalizeNewlines value with
  | case1 rest ih =>
    rw [show 13 :: 10 :: rest = [13, 10] ++ rest from rfl, replace_sep _ (List.cons_ne_nil _ _),
      List.singleton_append, replace_cons _ (by simp [List.cons_prefix_cons]), ih]
  | case2 byte rest hcrlf ih =>
    have hstart : ¬ [13, 10] <+: byte :: rest := by
      rintro ⟨after, hafter⟩
      obtain ⟨rfl, rfl⟩ := List.cons.inj hafter
      exact hcrlf after rfl rfl
    rw [replace_cons _ hstart]
    by_cases hcr : byte = 13
    · subst hcr
      rw [replace_cons_self, ih]
      rfl
    · rw [replace_cons _ (by simpa [List.cons_prefix_cons] using Ne.symm hcr), ih, if_neg hcr]
  | case3 => rw [replace_nil, replace_nil]

theorem remove_byte (c : UInt8) (name : Str) :
    [].intercalate (splitOn [c] name) = name.filter (· ≠ c) := by
  induction name with
  | nil => exact replace_nil _
  | cons byte name ih =>
    by_cases hc : byte = c
    · subst hc
      rw [replace_cons_self, ih, List.nil_append, List.filter_cons_of_neg (by simp)]
    · rw [replace_cons _ (by simpa [List.cons_prefix_cons] using Ne.symm hc), ih,
        List.filter_cons_of_pos (by simpa using hc)]

theorem removeLineEndings_eq (name : Str) : removeLineEndings name = withoutNewlines name := by
  unfold removeLineEndings withoutNewlines
  rw [remove_byte, remove_byte, List.filter_filter]
  refine List.filter_congr fun byte _ => ?_
  rw [Bool.decide_and]

theorem cr_notMem_normalizeNewlines (value : Str) : (13 : UInt8) ∉ normalizeNewlines value := by
  fun_induction normalizeNewlines value with
  | case1 rest ih => simp [ih]
  | case2 byte rest hcrlf ih =>
    rw [List.mem_cons, not_or]
    refine ⟨?_, ih⟩
    split_ifs with hcr
    · decide
    · exact Ne.symm hcr
  | case3 => exact List.not_mem_nil

theorem oneLine_withoutNewlines (name : Str) : OneLine (withoutNewlines name) := by
  unfold withoutNewlines
  constructor <;> simp [List.mem_filter]

def linesOf (value : Str) : List Str := splitOn [10] (normalizeNewlines value)

theorem oneLine_linesOf {value line : Str} (h : line ∈ linesOf value) : OneLine line := by
  refine ⟨notMem_of_mem_splitOn h, fun hcr => cr_notMem_normalizeNewlines value ?_⟩
  rw [← intercalate_splitOn (List.cons_ne_nil 10 []) (normalizeNewlines value)]
  exact mem_intercalate_of_mem h hcr

theorem flatMap_linesOf (value : Str) :
    (linesOf value).flatMap (· ++ [10]) = normalizeNewlines value ++ [10] := by
  unfold linesOf
  rw [← intercalate_append_sep (splitOn_ne_nil _ _), intercalate_splitOn (List.cons_ne_nil _ _)]

theorem normalizeNewlines_of_notMem {value : Str} (h : (13 : UInt8) ∉ value) :
    normalizeNewlines value = value := by
  fun_induction normalizeNewlines value with
  | case1 rest ih => exact absurd List.mem_cons_self h
  | case2 byte rest hcrlf ih =>
    obtain ⟨hcr, hcr'⟩ := not_or.mp (mt List.mem_cons.mpr h)
    rw [if_neg (Ne.symm hcr), ih hcr']
  | case3 => rfl

theorem linesOf_of_oneLine {value : Str} (h : OneLine value) : linesOf value = [value] := by
  unfold linesOf
  rw [normalizeNewlines_of_notMem h.2, splitOn_of_notMem [] h.1]

/-! ## Frames -/

/-- An event as an application makes it. -/
inductive Construction
  | data (value : Str)
  | named (name : Str) (values : List Str)
  | namedWith (name : Str) (values : List Str) (options : EventOptions)

namespace Construction

def event : Construction → Str
  | data value => Sse.data value
  | named name values => Sse.named name values
  | namedWith name values options => Sse.namedWith name values options

def name : Construction → Str
  | data _ => []
  | named name _ => name
  | namedWith name _ _ => name

def values : Construction → List Str
  | data value => [value]
  | named _ values => values
  | namedWith _ values _ => values

def options : Construction → EventOptions
  | data _ => defaultEventOptions
  | named _ _ => defaultEventOptions
  | namedWith _ _ options => options

/-- There is a value, and the id comes from `event_id` if it sets one. -/
structure Allowed (c : Construction) : Prop where
  values : c.values ≠ []
  id : c.options.id = .absentEventId ∨ c.options.id = .clearEventId ∨
    ∃ value, eventId value = some c.options.id

/-- What a client should make of the event. -/
def receive (client : Client) (c : Construction) : Client :=
  let lastEventId :=
    match c.options.id with
    | .absentEventId => client.lastEventId
    | .clearEventId => []
    | .setEventId value => value
  let type :=
    if withoutNewlines c.name = [] then ascii "message" else withoutNewlines c.name
  { lastEventId
    reconnectionTime :=
      match c.options.retry with
      | .noRetry => client.reconnectionTime
      | .retryAfter milliseconds => milliseconds.toNat
    events := client.events ++
      [⟨type, [10].intercalate (c.values.map normalizeNewlines), lastEventId⟩] }

/-! ## The lines of a frame -/

def nameLines : Construction → List Str
  | data _ => []
  | c => [ascii "event: " ++ withoutNewlines c.name]

def idLines (c : Construction) : List Str :=
  match c.options.id with
  | .absentEventId => []
  | .clearEventId => [ascii "id:"]
  | .setEventId value => [ascii "id: " ++ value]

def retryLines (c : Construction) : List Str :=
  match c.options.retry with
  | .noRetry => []
  | .retryAfter milliseconds => [ascii "retry: " ++ decimal milliseconds.toNat]

def dataLines (c : Construction) : List Str :=
  (c.values.flatMap linesOf).map (ascii "data: " ++ ·)

def lines (c : Construction) : List Str :=
  c.nameLines ++ c.idLines ++ (c.retryLines ++ c.dataLines) ++ [[]]

end Construction

theorem flatMap_dataFields (values : List Str) :
    (values.map fun value => [10].intercalate ((splitOn [10] (normalized value)).map
      (ascii "data: " ++ ·))).flatMap (· ++ [10]) =
      ((values.flatMap linesOf).map (ascii "data: " ++ ·)).flatMap (· ++ [10]) := by
  have hfield : ∀ value, [10].intercalate ((splitOn [10] (normalized value)).map
      (ascii "data: " ++ ·)) ++ [10] = ((linesOf value).map (ascii "data: " ++ ·)).flatMap (· ++ [10]) := by
    intro value
    have hne : (splitOn [10] (normalized value)).map (ascii "data: " ++ ·) ≠ [] :=
      mt List.map_eq_nil_iff.mp (splitOn_ne_nil _ _)
    rw [intercalate_append_sep hne, normalized_eq]
    rfl
  induction values with
  | nil => rfl
  | cons value values ih =>
    rw [List.map_cons, List.flatMap_cons, ih, hfield, List.flatMap_cons, List.map_append,
      List.flatMap_append]

theorem Construction.event_eq (c : Construction) : c.event = c.lines.flatMap (· ++ [10]) := by
  have hframe : ∀ lines : List Str, lines ≠ [] →
      [10].intercalate lines ++ [10, 10] = (lines ++ [[]]).flatMap (· ++ [10]) := by
    intro lines hne
    rw [List.flatMap_append, ← intercalate_append_sep hne, List.append_assoc]
    rfl
  have hnamed : ∀ name values options, Sse.namedWith name values options =
      (Construction.namedWith name values options).lines.flatMap (· ++ [10]) := by
    intro name values options
    unfold Sse.namedWith
    dsimp only
    rw [hframe _ (by simp), removeLineEndings_eq]
    unfold lines
    simp only [List.flatMap_append, flatMap_dataFields]
    rfl
  cases c with
  | namedWith name values options => exact hnamed name values options
  | named name values => exact hnamed name values defaultEventOptions
  | data value =>
    have hlines : (Construction.data value).lines = (linesOf value).map (ascii "data: " ++ ·) ++ [[]] := by
      unfold lines dataLines
      rw [show (Construction.data value).values.flatMap linesOf = linesOf value from List.append_nil _]
      rfl
    rw [hlines]
    show Sse.data value = _
    unfold Sse.data
    split_ifs with hline
    · rw [linesOf_of_oneLine ⟨hline.2, hline.1⟩]
      simp
    · dsimp only
      rw [hframe _ (mt List.map_eq_nil_iff.mp (splitOn_ne_nil _ _)), normalized_eq]
      rfl

theorem oneLine_decimal (n : ℕ) : OneLine (decimal n) :=
  ⟨fun h => absurd (isDigit_of_mem_decimal h) (by decide),
    fun h => absurd (isDigit_of_mem_decimal h) (by decide)⟩

theorem oneLine_of_eventId {value : Str} {id : EventId} (h : eventId value = some id) :
    id = .setEventId value ∧ OneLine value ∧ (0 : UInt8) ∉ value := by
  unfold eventId at h
  split_ifs at h with hinvalid
  obtain ⟨hcr, hrest⟩ := not_or.mp hinvalid
  obtain ⟨hlf, hnul⟩ := not_or.mp hrest
  exact ⟨(Option.some.inj h).symm, ⟨hlf, hcr⟩, hnul⟩

namespace Construction

variable {c : Construction}

theorem Allowed.set (h : c.Allowed) {value : Str} (hid : c.options.id = .setEventId value) :
    OneLine value ∧ (0 : UInt8) ∉ value := by
  rcases h.id with hid' | hid' | ⟨value', hid'⟩
  · cases hid.symm.trans hid'
  · cases hid.symm.trans hid'
  · obtain ⟨hvalue, hline, hnul⟩ := oneLine_of_eventId hid'
    cases hid.symm.trans hvalue
    exact ⟨hline, hnul⟩

theorem oneLine_lines (h : c.Allowed) : ∀ line ∈ c.lines, OneLine line := by
  have hname : ∀ line ∈ c.nameLines, OneLine line := by
    have hevent : OneLine (ascii "event: ") := by constructor <;> decide
    cases c with
    | data value => exact nofun
    | named name values =>
      exact List.forall_mem_singleton.mpr (hevent.append (oneLine_withoutNewlines name))
    | namedWith name values options =>
      exact List.forall_mem_singleton.mpr (hevent.append (oneLine_withoutNewlines name))
  have hid : ∀ line ∈ c.idLines, OneLine line := by
    unfold idLines
    cases hid : c.options.id with
    | absentEventId => exact nofun
    | clearEventId => exact List.forall_mem_singleton.mpr (by constructor <;> decide)
    | setEventId value =>
      have hstart : OneLine (ascii "id: ") := by constructor <;> decide
      exact List.forall_mem_singleton.mpr (hstart.append (h.set hid).1)
  have hretry : ∀ line ∈ c.retryLines, OneLine line := by
    unfold retryLines
    cases c.options.retry with
    | noRetry => exact nofun
    | retryAfter milliseconds =>
      have hstart : OneLine (ascii "retry: ") := by constructor <;> decide
      exact List.forall_mem_singleton.mpr (hstart.append (oneLine_decimal _))
  have hdata : ∀ line ∈ c.dataLines, OneLine line := by
    intro line hline
    have hstart : OneLine (ascii "data: ") := by constructor <;> decide
    obtain ⟨text, htext, rfl⟩ := List.mem_map.mp hline
    obtain ⟨value, -, htext⟩ := List.mem_flatMap.mp htext
    exact hstart.append (oneLine_linesOf htext)
  unfold lines
  simp only [List.forall_mem_append]
  exact ⟨⟨⟨hname, hid⟩, hretry, hdata⟩, List.forall_mem_singleton.mpr ⟨nofun, nofun⟩⟩

/-! ## What a client makes of the lines -/

theorem foldl_nameLines (client : Client) (c : Construction) :
    c.nameLines.foldl processLine (.rest client) =
      { State.rest client with eventType := withoutNewlines c.name } := by
  have hevent : ∀ (s : State) (value : Str), processLine s (ascii "event: " ++ value) =
      { s with eventType := value } := fun s value =>
    processLine_field (show (58 : UInt8) ∉ ascii "event" by decide) (by decide) s value
  cases c with
  | data value => rfl
  | named name values => exact hevent _ _
  | namedWith name values options => exact hevent _ _

/-- The id of the stream after the event. -/
def lastEventId (client : Client) (c : Construction) : Str :=
  match c.options.id with
  | .absentEventId => client.lastEventId
  | .clearEventId => []
  | .setEventId value => value

theorem foldl_idLines (h : c.Allowed) (client : Client) (s : State)
    (hs : s.lastEventIdBuffer = client.lastEventId) : c.idLines.foldl processLine s =
      { s with lastEventIdBuffer := c.lastEventId client } := by
  have hname : (58 : UInt8) ∉ ascii "id" := by decide
  have hfield : ∀ value : Str, 0 ∉ value →
      processField s (ascii "id") value = { s with lastEventIdBuffer := value } :=
    fun value hnul => if_neg hnul
  unfold idLines lastEventId
  cases hid : c.options.id with
  | absentEventId => rw [← hs]; rfl
  | clearEventId =>
    exact (processLine_eq hname (by decide) s []).trans (hfield [] List.not_mem_nil)
  | setEventId value =>
    exact (processLine_field hname (by decide) s value).trans (hfield value (h.set hid).2)

/-- The reconnection time after the event. -/
def reconnectionTime (client : Client) (c : Construction) : ℕ :=
  match c.options.retry with
  | .noRetry => client.reconnectionTime
  | .retryAfter milliseconds => milliseconds.toNat

theorem foldl_retryLines (c : Construction) (s : State) : c.retryLines.foldl processLine s =
    { s with client.reconnectionTime := c.reconnectionTime s.client } := by
  unfold retryLines reconnectionTime
  cases c.options.retry with
  | noRetry => rfl
  | retryAfter milliseconds =>
    have hdigits : decimal milliseconds.toNat ≠ [] ∧ (decimal milliseconds.toNat).all isDigit :=
      ⟨decimal_ne_nil _, List.all_eq_true.mpr fun _ => isDigit_of_mem_decimal⟩
    have hfield : processField s (ascii "retry") (decimal milliseconds.toNat) =
        { s with client.reconnectionTime := milliseconds.toNat } := by
      refine (if_pos hdigits).trans ?_
      rw [ofDecimal_decimal]
    exact (processLine_field (show (58 : UInt8) ∉ ascii "retry" by decide) (by decide) s
      _).trans hfield

theorem flatMap_values (h : c.values ≠ []) : (c.values.flatMap linesOf).flatMap (· ++ [10]) =
    [10].intercalate (c.values.map normalizeNewlines) ++ [10] := by
  rw [intercalate_append_sep (mt List.map_eq_nil_iff.mp h), List.flatMap_assoc, List.flatMap_map]
  exact congrArg (List.flatMap · c.values) (funext flatMap_linesOf)

/-- **A frame is one event.** -/
theorem foldl_lines (h : c.Allowed) (client : Client) :
    c.lines.foldl processLine (.rest client) = .rest (c.receive client) := by
  unfold lines dataLines
  rw [List.foldl_append, List.foldl_append, List.foldl_append, List.foldl_append, foldl_nameLines,
    foldl_idLines h client _ rfl, foldl_retryLines, foldl_data]
  exact dispatch_data _ _ ((List.nil_append _).trans (flatMap_values h.values))

end Construction

/-! ## Streams -/

theorem Construction.event_eq_cons (c : Construction) :
    ∃ byte rest, c.event = byte :: rest ∧ byte ≠ 0xEF := by
  have hnamed : ∀ name values options, ∃ rest,
      (Construction.namedWith name values options).event = 101 :: rest := by
    intro name values options
    rw [Construction.event_eq]
    exact ⟨_, rfl⟩
  cases c with
  | data value =>
    obtain ⟨line, others, hlines⟩ :=
      List.exists_cons_of_ne_nil (splitOn_ne_nil [10] (normalizeNewlines value))
    rw [Construction.event_eq]
    unfold Construction.lines Construction.dataLines Construction.values
    rw [List.flatMap_singleton, show linesOf value = line :: others from hlines]
    exact ⟨100, _, rfl, by decide⟩
  | named name values =>
    obtain ⟨rest, hrest⟩ := hnamed name values defaultEventOptions
    exact ⟨101, rest, hrest, by decide⟩
  | namedWith name values options =>
    obtain ⟨rest, hrest⟩ := hnamed name values options
    exact ⟨101, rest, hrest, by decide⟩

theorem decode_events (events : List Construction) :
    decode (events.flatMap Construction.event) = events.flatMap Construction.event := by
  cases events with
  | nil => rfl
  | cons c events =>
    obtain ⟨byte, rest, hevent, hbyte⟩ := c.event_eq_cons
    rw [List.flatMap_cons, hevent, List.cons_append]
    unfold decode
    split
    · rename_i heq
      exact absurd (List.cons.inj heq).1 hbyte
    · rfl

/-- **Events arrive as they were made.** A client that reads the bytes of some events gets one event
for each, in order, with its type, data, id and reconnection time. -/
theorem parse_events {events : List Construction} (h : ∀ c ∈ events, c.Allowed) (client : Client) :
    parse client (events.flatMap Construction.event) = events.foldl Construction.receive client := by
  have hlines : ∀ line ∈ events.flatMap Construction.lines, OneLine line := by
    intro line hline
    obtain ⟨c, hc, hline⟩ := List.mem_flatMap.mp hline
    exact Construction.oneLine_lines (h c hc) line hline
  have hstream : events.flatMap Construction.event =
      (events.flatMap Construction.lines).flatMap (· ++ [10]) := by
    rw [List.flatMap_assoc]
    exact congrArg (List.flatMap · events) (funext Construction.event_eq)
  have hread := readLines_flatMap hlines []
  have hfold : (events.flatMap Construction.lines).foldl processLine (.rest client) =
      .rest (events.foldl Construction.receive client) := by
    clear hlines hstream hread
    induction events generalizing client with
    | nil => rfl
    | cons c events ih =>
      obtain ⟨hc, hevents⟩ := List.forall_mem_cons.mp h
      rw [List.flatMap_cons, List.foldl_append, Construction.foldl_lines hc, ih hevents]
      rfl
  unfold parse
  rw [decode_events, hstream]
  rw [List.append_nil] at hread
  rw [hread, readLines, List.append_nil, hfold]
  rfl

def sampleEvents : List Construction :=
  [.data (ascii "a\r\nb"), .named (ascii "x\n") [[], ascii "c"],
    .namedWith [] [ascii " v"] ⟨.setEventId (ascii "7"), .retryAfter 5000⟩]

theorem parse_events_sample :
    parse ⟨[], 3000, []⟩ (sampleEvents.flatMap Construction.event) =
      { lastEventId := ascii "7"
        reconnectionTime := 5000
        events :=
          [⟨ascii "message", ascii "a\nb", []⟩, ⟨ascii "x", ascii "\nc", []⟩,
            ⟨ascii "message", ascii " v", ascii "7"⟩] } := by
  have hallowed : ∀ c ∈ sampleEvents, c.Allowed := by
    have hid : eventId (ascii "7") = some (.setEventId (ascii "7")) := by decide
    simp only [sampleEvents, List.forall_mem_cons, List.not_mem_nil, false_imp_iff, implies_true,
      and_true]
    exact ⟨⟨List.cons_ne_nil _ _, .inl rfl⟩, ⟨List.cons_ne_nil _ _, .inl rfl⟩,
      ⟨List.cons_ne_nil _ _, .inr (.inr ⟨_, hid⟩)⟩⟩
  refine (parse_events hallowed _).trans ?_
  decide

/-! ## Keyed events -/

/-- The values that `keyed` stands for: the lines of the value, each after the key. -/
def keyedValues (key value : Str) : List Str := (linesOf value).map (key ++ ascii " " ++ ·)

theorem withoutNewlines_of_oneLine {name : Str} (h : OneLine name) : withoutNewlines name = name := by
  unfold withoutNewlines
  refine List.filter_eq_self.mpr fun byte hbyte => ?_
  rw [decide_eq_true_eq]
  constructor
  · rintro rfl
    exact h.1 hbyte
  · rintro rfl
    exact h.2 hbyte

theorem withoutNewlines_withoutNewlines (name : Str) :
    withoutNewlines (withoutNewlines name) = withoutNewlines name :=
  withoutNewlines_of_oneLine (oneLine_withoutNewlines name)

theorem named_eq (name : Str) (values : List Str) : named name values =
    ascii "event: " ++ withoutNewlines name ++ [10] ++
      ((values.flatMap linesOf).map (ascii "data: " ++ ·)).flatMap (· ++ [10]) ++ [10] := by
  have hlines : (Construction.named name values).lines =
      [ascii "event: " ++ withoutNewlines name] ++
        (values.flatMap linesOf).map (ascii "data: " ++ ·) ++ [[]] := rfl
  refine (Construction.named name values).event_eq.trans ?_
  rw [hlines, List.flatMap_append, List.flatMap_append, List.flatMap_singleton,
    List.flatMap_singleton, List.nil_append]

theorem safeName_eq (name : Str) :
    (if 13 ∈ name ∨ 10 ∈ name then removeLineEndings name else name) = withoutNewlines name := by
  split_ifs with hline
  · exact removeLineEndings_eq name
  · obtain ⟨hcr, hlf⟩ := not_or.mp hline
    exact (withoutNewlines_of_oneLine ⟨hlf, hcr⟩).symm

theorem keyed_of_multiline (name key : Str) {value : Str} (h : 13 ∈ value ∨ 10 ∈ value) :
    keyed name key value = named name (keyedValues key value) := by
  unfold keyed
  dsimp only
  rw [if_pos h, safeName_eq, named_eq, named_eq, withoutNewlines_withoutNewlines, normalized_eq]
  rfl

theorem keyed_of_oneLine (name key : Str) {value : Str} (h : OneLine value) :
    keyed name key value =
      ascii "event: " ++ withoutNewlines name ++ [10] ++
        (ascii "data: " ++ (key ++ ascii " " ++ value) ++ [10]) ++ [10] := by
  unfold keyed
  dsimp only
  rw [if_neg (not_or.mpr ⟨h.2, h.1⟩), safeName_eq,
    show ascii "\ndata: " = [10] ++ ascii "data: " by decide]
  simp only [List.append_assoc]
  rfl

theorem named_of_oneLine (name key : Str) {value : Str} (h : OneLine value) :
    named name (keyedValues key value) =
      ascii "event: " ++ withoutNewlines name ++ [10] ++
        ((linesOf (key ++ ascii " " ++ value)).map (ascii "data: " ++ ·)).flatMap (· ++ [10]) ++ [10] := by
  rw [named_eq]
  unfold keyedValues
  rw [linesOf_of_oneLine h, List.map_singleton, List.flatMap_singleton]

theorem length_dataLines (lines : List Str) :
    ((lines.map (ascii "data: " ++ ·)).flatMap (· ++ [10])).length =
      6 * lines.length + (lines.flatMap (· ++ [10])).length := by
  induction lines with
  | nil => rfl
  | cons line lines ih =>
    have hlen : (ascii "data: ").length = 6 := by decide
    rw [List.map_cons, List.flatMap_cons, List.length_append, ih, List.flatMap_cons]
    simp only [List.length_append, List.length_cons, List.length_nil, hlen]
    omega

/-- A text is one data line only if it has no line ending. -/
theorem dataLines_eq_iff (text : Str) :
    ascii "data: " ++ text ++ [10] =
        ((linesOf text).map (ascii "data: " ++ ·)).flatMap (· ++ [10]) ↔ OneLine text := by
  constructor
  · intro heq
    have hcr : (13 : UInt8) ∉ text := by
      intro hmem
      have hmem' : (13 : UInt8) ∈ ascii "data: " ++ text ++ [10] := by simp [hmem]
      rw [heq] at hmem'
      obtain ⟨field, hfield, hmem'⟩ := List.mem_flatMap.mp hmem'
      obtain ⟨line, hline, rfl⟩ := List.mem_map.mp hfield
      have hstart : (13 : UInt8) ∉ ascii "data: " := by decide
      simp [hstart, (oneLine_linesOf hline).2] at hmem'
    refine ⟨fun hlf => ?_, hcr⟩
    -- without carriage returns the lines are those of the text, with six more bytes each
    have hlen := congrArg List.length heq
    rw [length_dataLines, flatMap_linesOf, normalizeNewlines_of_notMem hcr] at hlen
    have hone : (linesOf text).length = 1 := by
      have hstart : (ascii "data: ").length = 6 := by decide
      simp only [List.length_append, List.length_cons, List.length_nil, hstart] at hlen
      omega
    obtain ⟨line, hline⟩ := List.length_eq_one_iff.mp hone
    unfold linesOf at hline
    rw [normalizeNewlines_of_notMem hcr, splitOn_singleton_eq_iff (List.cons_ne_nil _ _),
      List.intercalate_singleton] at hline
    exact hline.2 line (List.mem_singleton.mpr rfl) (hline.1 ▸ hlf)
  · intro h
    rw [linesOf_of_oneLine h]
    simp

theorem oneLine_keyed_iff (key : Str) {value : Str} (h : OneLine value) :
    OneLine (key ++ ascii " " ++ value) ↔ OneLine key := by
  have hspace : OneLine (ascii " ") := by constructor <;> decide
  constructor
  · exact fun hkeyed => ⟨fun hmem => hkeyed.1 (by simp [hmem]), fun hmem => hkeyed.2 (by simp [hmem])⟩
  · exact fun hkey => (hkey.append hspace).append h

/-- **Keyed events.** `keyed` writes the event named with the key before each line of the value
exactly when the value has a line ending or the key has none. A client then gets that one event. -/
theorem keyed_eq_named_iff (name key value : Str) :
    (keyed name key value = named name (keyedValues key value) ↔ ¬ OneLine value ∨ OneLine key) ∧
      (¬ OneLine value ∨ OneLine key → ∀ client, parse client (keyed name key value) =
        Construction.receive client (.named name (keyedValues key value))) := by
  have hiff : keyed name key value = named name (keyedValues key value) ↔
      ¬ OneLine value ∨ OneLine key := by
    by_cases hvalue : OneLine value
    · rw [keyed_of_oneLine name key hvalue, named_of_oneLine name key hvalue, List.append_left_inj,
        List.append_right_inj, dataLines_eq_iff, oneLine_keyed_iff key hvalue]
      simp [hvalue]
    · refine iff_of_true (keyed_of_multiline name key ?_) (.inl hvalue)
      by_contra hnone
      obtain ⟨hcr, hlf⟩ := not_or.mp hnone
      exact hvalue ⟨hlf, hcr⟩
  refine ⟨hiff, fun hcondition client => ?_⟩
  have hallowed : ∀ c ∈ [Construction.named name (keyedValues key value)], c.Allowed := by
    refine List.forall_mem_singleton.mpr ⟨?_, .inl rfl⟩
    exact mt List.map_eq_nil_iff.mp (splitOn_ne_nil _ _)
  have hparse := parse_events hallowed client
  rw [List.flatMap_singleton] at hparse
  rw [hiff.mpr hcondition]
  exact hparse

theorem keyed_eq_named_sample :
    parse ⟨[], 3000, []⟩ (keyed (ascii "n\r") (ascii "k") (ascii "a\rb")) =
      ⟨[], 3000, [⟨ascii "n", ascii "k a\nk b", []⟩]⟩ := by
  refine ((keyed_eq_named_iff (ascii "n\r") (ascii "k") (ascii "a\rb")).2 (.inr ?_) _).trans ?_
  · constructor <;> decide
  · decide

/-- A key with line endings makes two events of one. -/
theorem keyed_injection :
    keyed (ascii "n") (ascii "a\n\ndata: b") (ascii "v") ≠
        named (ascii "n") (keyedValues (ascii "a\n\ndata: b") (ascii "v")) ∧
      (parse ⟨[], 3000, []⟩ (keyed (ascii "n") (ascii "a\n\ndata: b") (ascii "v"))).events =
        [⟨ascii "n", ascii "a", []⟩, ⟨ascii "message", ascii "b v", []⟩] := by
  decide

end BasicWebserver.Platform.Sse
