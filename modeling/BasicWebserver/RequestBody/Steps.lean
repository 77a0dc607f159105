import BasicWebserver.RequestBody.System

/-!
# What a step of a request body can do

The step functions as relations, with one constructor for each effect. What a reader holds and what
it has still to do with a limit are functions of its program point (`held`, `cleared`, `effective`,
`pending`), so that the many program points with the same effect are one case.
-/

namespace BasicWebserver.RequestBody

namespace Reader

/-- The message taken from the channel. -/
def held : Reader → List PumpMessage
  | checking _ _ _ message | handling _ _ _ message => [message]
  | _ => []

/-- The message for which no terminal outcome was found. -/
def cleared : Reader → Option PumpMessage
  | handling _ _ _ message => some message
  | _ => none

/-- The limit that the call goes by. -/
def effective : Reader → Option ℕ
  | receiving _ _ effective | checking _ _ effective _ | handling _ _ effective _
  | rechecking _ _ effective => some effective
  | _ => none

/-- The requested limit that is not recorded yet. -/
def pending : Reader → Option ℕ
  | opening _ limit | entering _ limit | limiting _ limit => some limit
  | _ => none

/-- The call has set a terminal outcome. -/
def isStopping : Reader → Bool
  | stopping _ _ => true
  | _ => false

theorem cleared_eq_none {r : Reader} (h : r.held = []) : r.cleared = none := by
  cases r <;> simp_all [held, cleared]

theorem not_isStopping {r : Reader} {message : PumpMessage} (h : r.held = [message]) :
    r.isStopping = false := by
  cases r <;> simp_all [held, isStopping]

theorem held_eq {r : Reader} {message : PumpMessage} (h : r.cleared = some message) :
    r.held = [message] := by
  cases r <;> simp_all [held, cleared]

end Reader

/-- A message that the reader skips. -/
def PumpMessage.blank : PumpMessage → Bool
  | .chunk bytes => bytes.isEmpty
  | .wake => true
  | .ended | .error _ => false

/-- The steps of the call that holds the receiver's lock. -/
inductive ReaderMove (c : Config) (s : State) : State → Prop
  | goOn (reader : Reader) (hheld : reader.held = []) (hskip : ∀ m ∈ s.reader.held, m.blank)
      (heffective : ∀ e, reader.effective = some e → s.reader.effective = some e)
      (hpending : ∀ l, s.reader.pending = some l → reader.pending = some l)
      (hstopping : reader.isStopping = false) :
      ReaderMove c s { s with reader }
  | narrow (limit : ℕ) (reader : Reader) (hpending : s.reader.pending = some limit)
      (hheld : s.reader.held = []) (hheld' : reader.held = [])
      (heffective : ∀ e, reader.effective = some e → e = effectiveLimit c limit s)
      (hstopping : reader.isStopping = false) :
      ReaderMove c s { s with narrowLimit := effectiveLimit c limit s, reader }
  | halt (narrowLimit : ℕ) (call : Call) (error : BodyError) (hnarrow : narrowLimit ≤ s.narrowLimit) :
      ReaderMove c s (readerStop call error { s with narrowLimit })
  | signal (call : Call) (control : PumpControl) (hr : s.reader = .stopping call (.control control)) :
      ReaderMove c s { signal control s with reader := .stopping call .wake }
  | wake (call : Call) (sent : Bool) (hr : s.reader = .stopping call .wake) :
      ReaderMove c s { wake c sent s with reader := call.done }
  | report (call : Call) (terminal : Terminal) (ht : s.terminal = some terminal)
      (hcleared : s.reader.cleared = none) :
      ReaderMove c s (returnTerminal call terminal s)
  | receive (message : PumpMessage) (channel : List PumpMessage) (reader : Reader)
      (hchannel : s.channel = message :: channel) (hheld : s.reader.held = [])
      (hpending : s.reader.pending = none) (hheld' : reader.held = [message])
      (hcleared : reader.cleared = none) (heffective : reader.effective = s.reader.effective) :
      ReaderMove c s { s with channel, reader }
  | clear (message : PumpMessage) (reader : Reader) (ht : s.terminal = none)
      (hheld : s.reader.held = [message]) (hpending : s.reader.pending = none)
      (hcleared : reader.cleared = some message) (heffective : reader.effective = s.reader.effective) :
      ReaderMove c s { s with reader }
  | deliver (effective : ℕ) (bytes : Bytes) (reader : Reader)
      (hcleared : s.reader.cleared = some (.chunk bytes))
      (heffective : s.reader.effective = some effective)
      (hle : saturatingAdd s.delivered bytes.length ≤ effective)
      (hpending : s.reader.pending = none)
      (hheld : reader.held = []) (heffective' : reader.effective = none)
      (hstopping : reader.isStopping = false) :
      ReaderMove c s { s with
        delivered := saturatingAdd s.delivered bytes.length
        reader
        chunks := s.chunks ++ [bytes] }
  | finish (call : Call) (hcleared : s.reader.cleared = some .ended) :
      ReaderMove c s { setTerminal .ended s with reader := call.done, ended := true }

theorem held_done (call : Call) : call.done.held = [] := by cases call <;> rfl

theorem effective_done (call : Call) : call.done.effective = none := by cases call <;> rfl

theorem held_consume (call : Call) (limit : ℕ) (bytes : Bytes) :
    (call.consume limit bytes).held = [] ∧ (call.consume limit bytes).effective = none ∧
      (call.consume limit bytes).isStopping = false := by
  cases call with
  | read => exact ⟨rfl, rfl, rfl⟩
  | readAll maximum output =>
    unfold Call.consume
    dsimp only
    split <;> exact ⟨rfl, rfl, rfl⟩
  | writeFile => exact ⟨rfl, rfl, rfl⟩

section Reader

variable {c : Config} {s s' : State}

theorem effectiveLimit_le (limit : ℕ) :
    effectiveLimit c limit s ≤ s.narrowLimit ∧ effectiveLimit c limit s ≤ limit ∧
      effectiveLimit c limit s ≤ c.hardLimit := by
  unfold effectiveLimit
  omega

theorem move_of_openCall {operation : Operation} {limit : ℕ}
    (hr : s.reader = .opening operation limit) : ReaderMove c s (openCall c operation limit s) := by
  have hp : s.reader.pending = some limit := by rw [hr]; rfl
  have hh : s.reader.held = [] := by rw [hr]; rfl
  have hle := (effectiveLimit_le (c := c) (s := s) limit).1
  unfold openCall
  cases operation with
  | read => exact .narrow limit _ hp hh rfl (fun e he => nomatch he) rfl
  | readAll =>
    dsimp only
    split
    · exact .halt _ _ _ hle
    · exact .narrow limit _ hp hh rfl (fun e he => nomatch he) rfl
  | writeFile =>
    dsimp only
    split
    · exact .halt _ _ _ hle
    · split
      · exact .narrow limit _ hp hh rfl (fun e he => nomatch he) rfl
      · split
        · exact .halt _ _ _ hle
        · exact .narrow limit _ hp hh rfl (fun e he => nomatch he) rfl

theorem move_of_limitCall {call : Call} {limit : ℕ} (hr : s.reader = .limiting call limit) :
    ReaderMove c s (limitCall c call limit s) := by
  unfold limitCall
  dsimp only
  split
  · exact .halt _ _ _ (effectiveLimit_le (c := c) (s := s) limit).1
  · refine .narrow limit _ (by rw [hr]; rfl) (by rw [hr]; rfl) rfl (fun e he => ?_) rfl
    exact (Option.some.inj he).symm

theorem move_of_handle {call : Call} {limit effective : ℕ} {message : PumpMessage}
    (hr : s.reader = .handling call limit effective message) :
    ReaderMove c s (handle call limit effective message s) := by
  have hcleared : s.reader.cleared = some message := by rw [hr]; rfl
  have heffective : s.reader.effective = some effective := by rw [hr]; rfl
  have hpending : s.reader.pending = none := by rw [hr]; rfl
  unfold handle
  cases message with
  | chunk bytes =>
    dsimp only
    split
    · rename_i hempty
      refine .goOn _ rfl (fun m hm => ?_) (fun e he => ?_) (fun l hl => ?_) rfl
      · rw [hr, Reader.held, List.mem_singleton] at hm
        rw [hm]
        exact hempty
      · rw [heffective]
        exact he
      · rw [hpending] at hl
        cases hl
    · unfold deliver
      dsimp only
      split
      · exact .halt s.narrowLimit _ _ (Nat.le_refl _)
      · rename_i hle
        exact .deliver effective bytes _ hcleared heffective (Nat.le_of_not_gt hle) hpending
          (held_consume call limit bytes).1 (held_consume call limit bytes).2.1
          (held_consume call limit bytes).2.2
  | ended => exact .finish call hcleared
  | error error => exact .halt s.narrowLimit _ _ (Nat.le_refl _)
  | wake =>
    refine .goOn _ rfl (fun m hm => ?_) (fun e he => ?_) (fun l hl => ?_) rfl
    · rw [hr, Reader.held, List.mem_singleton] at hm
      rw [hm]
      rfl
    · rw [heffective]
      exact he
    · rw [hpending] at hl
      cases hl

theorem ReaderMove.goOn_of_held {reader : Reader} (hheld : s.reader.held = [])
    (hheld' : reader.held = [])
    (heffective : ∀ e, reader.effective = some e → s.reader.effective = some e)
    (hpending : ∀ l, s.reader.pending = some l → reader.pending = some l)
    (hstopping : reader.isStopping = false) : ReaderMove c s { s with reader } :=
  .goOn reader hheld' (fun m hm => by rw [hheld] at hm; cases hm) heffective hpending hstopping

theorem move_of_readerStep {choice : Bool} (h : readerStep c choice s = some s') :
    ReaderMove c s s' := by
  unfold readerStep at h
  split at h
  case h_1 => cases h
  case h_2 operation limit hr =>
    cases h
    exact move_of_openCall hr
  case h_3 call limit hr =>
    split at h
    · rename_i terminal ht
      cases h
      exact .report call terminal ht (by rw [hr]; rfl)
    · cases h
      refine .goOn_of_held (by rw [hr]; rfl) rfl (fun e he => nomatch he) (fun l hl => ?_) rfl
      rw [hr] at hl
      exact hl
  case h_4 call limit hr =>
    cases h
    exact move_of_limitCall hr
  case h_5 call limit effective hr =>
    split at h
    · cases h
    · rename_i message channel hchannel
      cases h
      exact .receive message channel _ hchannel (by rw [hr]; rfl) (by rw [hr]; rfl) rfl rfl
        (by rw [hr]; rfl)
  case h_6 call limit effective message hr =>
    split at h
    · rename_i terminal ht
      cases h
      exact .report call terminal ht (by rw [hr]; rfl)
    · rename_i ht
      cases h
      exact .clear message _ ht (by rw [hr]; rfl) (by rw [hr]; rfl) rfl (by rw [hr]; rfl)
  case h_7 call limit effective message hr =>
    cases h
    exact move_of_handle hr
  case h_8 call limit effective hr =>
    split at h
    · rename_i terminal ht
      cases h
      exact .report call terminal ht (by rw [hr]; rfl)
    · cases h
      refine .goOn_of_held (by rw [hr]; rfl) rfl (fun e he => ?_) (fun l hl => ?_) rfl
      · rw [hr]
        exact he
      · rw [hr] at hl
        cases hl
  case h_9 call stage hr =>
    cases h
    cases stage with
    | control control => exact .signal call control hr
    | wake => exact .wake call choice hr
  case h_10 limit hr =>
    cases h
    refine .goOn_of_held (by rw [hr]; rfl) (by split <;> rfl) (fun e he => ?_) (fun l hl => ?_)
      (by split <;> rfl)
    · split at he <;> cases he
    · rw [hr] at hl
      cases hl
  case h_11 hr =>
    cases h
    refine .goOn_of_held (by rw [hr]; rfl) rfl (fun e he => nomatch he) (fun l hl => ?_) rfl
    rw [hr] at hl
    cases hl

end Reader

/-! ## The pump -/

/-- The chunk being sent starts inside its frame, and the last message is not a chunk. -/
def Stage.Sound : Stage → Prop
  | .sending frame offset => offset < frame.length
  | .closing message => ∀ bytes, message ≠ .chunk bytes
  | .waiting | .returned => True

inductive PumpMove (c : Config) (s : State) : State → Prop
  /-- The control branch of a `select!`. -/
  | disturbed (pump : Pump) (hready : controlReady s = true) (hsound : pump.stage.Sound) :
      PumpMove c s { s with changed := false, pump }
  | send (message : PumpMessage) (hmessage : s.pump.stage.message c = some message)
      (hready : controlReady s = false) :
      PumpMove c s { s with channel := s.channel ++ [message], pump := s.pump.resume c .sent }
  | next (hstage : s.pump.stage = .waiting) : PumpMove c s (next c s)
  | timeout (hstage : s.pump.stage = .waiting) :
      PumpMove c s { s with pump := { s.pump with stage := .closing (.error .timeout) } }

theorem sound_resume (c : Config) (outcome : SendOutcome) (p : Pump) :
    (p.resume c outcome).stage.Sound := by
  unfold Pump.resume
  split
  · cases outcome with
    | sent =>
      dsimp only
      split
      · assumption
      · trivial
    | drain => trivial
    | cancel => trivial
  · trivial

theorem sound_observe {s : State} (hstage : s.pump.stage = .waiting) :
    ∃ pump : Pump, pump.stage.Sound ∧ observe s = { s with changed := false, pump } := by
  unfold observe
  cases s.control with
  | running =>
    refine ⟨_, ?_, rfl⟩
    split
    · show s.pump.stage.Sound
      rw [hstage]
      trivial
    · trivial
  | drain =>
    refine ⟨_, ?_, rfl⟩
    show s.pump.stage.Sound
    rw [hstage]
    trivial
  | cancel => exact ⟨{ s.pump with controlOpen := s.changed, stage := .returned }, trivial, rfl⟩

theorem stage_of_message {c : Config} {stage : Stage} (h : stage.message c = none)
    (hreturned : stage ≠ .returned) : stage = .waiting := by
  cases stage with
  | waiting => rfl
  | sending frame offset => cases h
  | closing message => cases h
  | returned => exact absurd rfl hreturned

theorem move_of_pumpStep {c : Config} {s s' : State} {event : PumpEvent}
    (h : pumpStep c event s = some s') : PumpMove c s s' := by
  unfold pumpStep at h
  split at h
  · rename_i message hmessage
    cases event with
    | control =>
      obtain ⟨hready, h⟩ := Option.ite_none_right_eq_some.mp h
      cases h
      exact .disturbed _ hready (sound_resume c _ _)
    | send =>
      obtain ⟨hready, h⟩ := Option.ite_none_right_eq_some.mp h
      cases h
      rw [Bool.and_eq_true, Bool.not_eq_true'] at hready
      exact .send message hmessage hready.1
    | next => cases h
    | timeout => cases h
  · rename_i hmessage
    obtain ⟨hreturned, h⟩ := Option.ite_none_left_eq_some.mp h
    have hstage := stage_of_message hmessage hreturned
    cases event with
    | control =>
      obtain ⟨hready, h⟩ := Option.ite_none_right_eq_some.mp h
      cases h
      obtain ⟨pump, hsound, he⟩ := sound_observe hstage
      rw [he]
      exact .disturbed pump (Bool.and_eq_true_iff.mp hready).2 hsound
    | next =>
      obtain ⟨-, h⟩ := Option.ite_none_left_eq_some.mp h
      cases h
      exact .next hstage
    | timeout =>
      obtain ⟨-, h⟩ := Option.ite_none_left_eq_some.mp h
      cases h
      exact .timeout hstage
    | send => cases h

/-! ## All steps -/

inductive Move (c : Config) (s : State) : State → Prop
  | pump {s' : State} (h : PumpMove c s s') : Move c s s'
  | reader {s' : State} (h : ReaderMove c s s') : Move c s s'
  | refused : Move c s s
  | begin (limit : ℕ) (reader : Reader) (hidle : s.reader = .idle) (hheld : reader.held = [])
      (heffective : reader.effective = none) (hpending : reader.pending = some limit)
      (hstopping : reader.isStopping = false) :
      Move c s { s with reader, requested := s.requested ++ [limit] }
  | stop (error : BodyError) :
      Move c s
        { setTerminal (.error error) s with stops := s.stops ++ [stopStage (.error error) s] }
  | signal (control : PumpControl) (stops : List StopStage) (hstops : s.stops ≠ []) :
      Move c s { signal control s with stops }
  | wake (sent : Bool) (stops : List StopStage) (hstops : s.stops ≠ []) :
      Move c s { wake c sent s with stops }
  | shutdown : Move c s { s with shutdown := true }
  | drop (terminal : Terminal) (hidle : s.reader = .idle)
      (ht : terminal = s.terminal.getD (.error .cancelled)) :
      Move c s { signal terminal.control (setTerminal terminal s) with dropped := true, channel := [] }

theorem move_of_begin (c : Config) (operation : Operation) (limit : ℕ) (s : State) :
    Move c s (begin operation limit s) := by
  unfold begin
  split
  · exact .refused
  · split
    · exact .refused
    · rename_i hidle
      refine .begin limit _ (Decidable.not_not.mp hidle) ?_ ?_ ?_ ?_ <;> split <;> rfl

theorem move_of_step {c : Config} {s s' : State} {a : Label} (h : step c s a = some s') :
    Move c s s' := by
  cases a with
  | pump event => exact .pump (move_of_pumpStep h)
  | begin operation limit =>
    obtain ⟨-, h⟩ := Option.ite_none_left_eq_some.mp h
    cases h
    exact move_of_begin c operation limit s
  | reader choice => exact .reader (move_of_readerStep (Option.ite_none_left_eq_some.mp h).2)
  | stop error =>
    obtain ⟨-, h⟩ := Option.ite_none_left_eq_some.mp h
    cases h
    exact .stop error
  | stopping index sent =>
    simp only [step] at h
    split at h
    · cases h
    · rename_i stage hstage
      have hstops : s.stops ≠ [] := by
        rintro hnil
        rw [hnil] at hstage
        cases hstage
      cases h
      cases stage with
      | control control => exact .signal control _ hstops
      | wake => exact .wake sent _ hstops
  | shutdown =>
    cases h
    exact .shutdown
  | drop =>
    simp only [step] at h
    obtain ⟨hguard, h⟩ := Option.ite_none_left_eq_some.mp h
    cases h
    rw [Bool.or_eq_true, Bool.or_eq_true, not_or, not_or, decide_eq_true_eq] at hguard
    exact .drop _ (Decidable.not_not.mp hguard.1.2) rfl

end BasicWebserver.RequestBody
