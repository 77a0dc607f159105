import BasicWebserver.RequestBody.Reading

/-!
# Calls and the machine

A call of `receive_with_limit` as a function of what happens, next to the reader of `machine`. For
every order of messages and stops in which the function returns, the reader has a run with that order
in which it returns the same (`receiveWithLimit_exec`).
-/

namespace BasicWebserver.RequestBody

open Transition

/-! ## States that are the same to a reader -/

/-- The two states are the same to a reader. -/
structure Follows (s t : State) : Prop where
  terminal : t.terminal = s.terminal
  narrowLimit : t.narrowLimit = s.narrowLimit
  delivered : t.delivered = s.delivered
  live : t.dropped = false

/-- The call has returned the result. -/
def Returned (call : Call) (limit : ℕ) (t : State) (result : Except BodyError ReadResult)
    (t' : State) : Prop :=
  match result with
  | .ok (.chunk bytes) => t'.reader = call.consume limit bytes ∧ t'.chunks = t.chunks ++ [bytes]
  | .ok .ended => t'.reader = call.done ∧ t'.chunks = t.chunks ∧ t'.ended = true
  | .error _ => t'.reader = call.done ∧ t'.chunks = t.chunks

/-- From `t` the reader can come to where the call has returned, with the body as in `s'` and these
messages left. -/
def Returns (c : Config) (call : Call) (limit : ℕ) (t : State) (result : Except BodyError ReadResult)
    (s' : State) (channel : List PumpMessage) : Prop :=
  ∃ as t', (machine c).exec t as = some t' ∧ Follows s' t' ∧ t'.channel = channel ∧
    Returned call limit t result t'

section

variable {c : Config} {call : Call} {limit effective : ℕ} {s s' t t' : State}
  {result : Except BodyError ReadResult} {turns turns' : List Turn} {channel : List PumpMessage}
  {reader next : Reader}

theorem Returns.after {t₁ : State} {as : List Label}
    (h : Returns c call limit t₁ result s' channel) (hexec : (machine c).exec t as = some t₁)
    (hchunks : t₁.chunks = t.chunks) : Returns c call limit t result s' channel := by
  obtain ⟨bs, t', hbs, hfollows, hchannel, hreturned⟩ := h
  refine ⟨as ++ bs, t', (machine c).exec_append.mpr ⟨t₁, hexec, hbs⟩, hfollows, hchannel, ?_⟩
  unfold Returned at hreturned ⊢
  rwa [hchunks] at hreturned

theorem step_reader (choice : Bool) (hlive : t.dropped = false)
    (h : readerStep c choice t = some t') : (machine c).step t (.reader choice) = some t' := by
  show (if t.dropped then none else _) = _
  rw [hlive]
  exact h

theorem Follows.moved (h : Follows s t) (reader : Reader) (channel : List PumpMessage) :
    Follows s { t with reader, channel } :=
  ⟨h.terminal, h.narrowLimit, h.delivered, h.live⟩

theorem Follows.setTerminal (h : Follows s t) (terminal : Terminal) :
    Follows (setTerminal terminal s) (setTerminal terminal t) := by
  refine ⟨?_, h.narrowLimit, h.delivered, h.live⟩
  show some (t.terminal.getD terminal) = some (s.terminal.getD terminal)
  rw [h.terminal]

theorem exec_stops (c : Config) (errors : List BodyError) (h : Follows s t) :
    ∃ u, (machine c).exec t (errors.map .stop) = some u ∧ Follows (stopped errors s) u ∧
      u.reader = t.reader ∧ u.channel = t.channel ∧ u.chunks = t.chunks := by
  induction errors generalizing s t with
  | nil => exact ⟨t, rfl, h, rfl, rfl, rfl⟩
  | cons error errors ih =>
    have hset := h.setTerminal (.error error)
    obtain ⟨u, hexec, hfollows, hreader, hchannel, hchunks⟩ :=
      ih (s := setTerminal (.error error) s) (t := { setTerminal (.error error) t with
        stops := t.stops ++ [stopStage (.error error) t] })
        ⟨hset.terminal, hset.narrowLimit, hset.delivered, hset.live⟩
    refine ⟨u, (machine c).exec_cons_eq_some.mpr ⟨_, ?_, hexec⟩, hfollows, hreader, hchannel, hchunks⟩
    show (if t.dropped then none else _) = _
    rw [h.live]
    rfl

/-! ## The steps of a call -/

theorem returns_readerStop (error : BodyError) (h : Follows s t) :
    Returns c call limit (readerStop call error t) (.error error) (setTerminal (.error error) s)
      t.channel :=
  ⟨_, _, (machine c).exec_cons_eq_some.mpr ⟨_, step_reader false h.live rfl,
    (machine c).exec_singleton.mpr (step_reader false h.live rfl)⟩,
    ⟨(h.setTerminal (.error error)).terminal, h.narrowLimit, h.delivered, h.live⟩, rfl, rfl, rfl⟩

/-- In front of `check_terminal`, with what comes after it if there is no outcome. -/
inductive Checks (call : Call) (limit : ℕ) : Reader → Reader → Prop
  | entering : Checks call limit (.entering call limit) (.limiting call limit)
  | checking (effective : ℕ) (message : PumpMessage) : Checks call limit
    (.checking call limit effective message) (.handling call limit effective message)
  | rechecking (effective : ℕ) :
    Checks call limit (.rechecking call limit effective) (.receiving call limit effective)

theorem Checks.readerStep_eq (h : Checks call limit reader next)
    (hreader : t.reader = reader) : readerStep c true t =
      match t.terminal with
      | some terminal => some (returnTerminal call terminal t)
      | none => some { t with reader := next } := by
  cases h <;> cases hterminal : t.terminal <;> simp only [readerStep, hreader, hterminal]

theorem returns_check (hchecks : Checks call limit reader next) (errors : List BodyError)
    (h : Follows s t) (hreader : t.reader = reader)
    (hcheck : checkTerminal (stopped errors s) = some result) :
    Returns c call limit t result (stopped errors s) t.channel := by
  obtain ⟨u, hstops, hfollows, hreader', hchannel, hchunks⟩ := exec_stops c errors h
  obtain ⟨terminal, hterminal, rfl⟩ := Option.map_eq_some_iff.mp hcheck
  have hstep := hchecks.readerStep_eq (c := c) (hreader'.trans hreader)
  rw [hfollows.terminal, hterminal] at hstep
  refine ⟨_, _, (machine c).exec_append.mpr ⟨u, hstops,
    (machine c).exec_singleton.mpr (step_reader true hfollows.live hstep)⟩,
    ⟨hfollows.terminal, hfollows.narrowLimit, hfollows.delivered, hfollows.live⟩, hchannel, ?_⟩
  cases terminal with
  | ended => exact ⟨rfl, hchunks, by simp [returnTerminal]⟩
  | error error => exact ⟨rfl, hchunks⟩

theorem step_check (hchecks : Checks call limit reader next) (h : Follows s t)
    (hreader : t.reader = reader) (hcheck : checkTerminal s = none) :
    (machine c).step t (.reader true) = some { t with reader := next } := by
  refine step_reader true h.live ((hchecks.readerStep_eq hreader).trans ?_)
  rw [h.terminal, Option.map_eq_none_iff.mp hcheck]

theorem step_receive {message : PumpMessage} (hlive : t.dropped = false)
    (hreader : t.reader = .receiving call limit effective) (hchannel : t.channel = message :: channel) :
    (machine c).step t (.reader true) =
      some { t with channel, reader := .checking call limit effective message } := by
  refine step_reader true hlive ?_
  rw [readerStep, hreader]
  dsimp only
  rw [hchannel]

theorem stopped_of_checkTerminal {errors : List BodyError}
    (h : checkTerminal (stopped errors s) = none) : stopped errors s = s := by
  rw [checkTerminal, Option.map_eq_none_iff, stopped_terminal, Option.or_eq_none_iff,
    Option.map_eq_none_iff] at h
  rw [List.head?_eq_none_iff.mp h.2]
  rfl

theorem receiveLoop_exec (hfollows : Follows s t)
    (hreader : t.reader = .receiving call limit effective)
    (hchannel : t.channel = turns.map Turn.message)
    (h : receiveLoop effective s turns = some (result, s', turns')) :
    Returns c call limit t result s' (turns'.map Turn.message) := by
  induction turns generalizing s t with
  | nil => cases h
  | cons turn turns ih =>
    obtain ⟨early, late, message⟩ := turn
    unfold receiveLoop at h
    dsimp only at h
    cases hcheck : checkTerminal (stopped (early ++ late) s) with
    | some found =>
      rw [hcheck] at h
      cases h
      obtain ⟨u, hstops, hstopped, hreader', hchannel', hchunks⟩ :=
        exec_stops c (early ++ late) hfollows
      have hreceive := step_receive (c := c) hstopped.live (hreader'.trans hreader)
        (hchannel'.trans hchannel)
      exact (returns_check (.checking effective message) [] (hstopped.moved _ _) rfl
        hcheck).after ((machine c).exec_append.mpr ⟨u, hstops, (machine c).exec_singleton.mpr hreceive⟩)
        hchunks
    | none =>
      have hquiet := stopped_of_checkTerminal hcheck
      rw [hcheck, hquiet] at h
      rw [hquiet] at hcheck
      -- the message is received, the outcome checked and the message matched
      have hrun := (machine c).exec_cons_eq_some.mpr
        ⟨_, step_receive (c := c) hfollows.live hreader hchannel, (machine c).exec_cons_eq_some.mpr
          ⟨_, step_check (.checking effective message) (hfollows.moved _ _) rfl hcheck,
            (machine c).exec_singleton.mpr (step_reader true hfollows.live rfl)⟩⟩
      cases message with
      | chunk bytes =>
        dsimp only [handle, deliver] at hrun h
        rw [← hfollows.delivered] at h
        split_ifs at hrun h
        · exact (ih (hfollows.moved _ _) rfl rfl h).after hrun rfl
        · cases h
          exact (returns_readerStop _ (hfollows.moved _ _)).after hrun rfl
        · cases h
          exact ⟨_, _, hrun, ⟨hfollows.terminal, hfollows.narrowLimit, rfl, hfollows.live⟩, rfl, rfl, rfl⟩
      | ended =>
        cases h
        exact ⟨_, _, hrun, ⟨(hfollows.setTerminal .ended).terminal, hfollows.narrowLimit,
          hfollows.delivered, hfollows.live⟩, rfl, rfl, rfl, rfl⟩
      | error error =>
        cases h
        exact (returns_readerStop error (hfollows.moved _ _)).after hrun rfl
      | wake =>
        dsimp only at h
        cases hrecheck : checkTerminal (stopped (arrived turns) s) with
        | some found =>
          rw [hrecheck] at h
          cases h
          exact (returns_check (.rechecking effective) _ (hfollows.moved _ _) rfl hrecheck).after hrun rfl
        | none =>
          rw [hrecheck] at h
          have hgoOn := step_check (c := c) (.rechecking effective) (hfollows.moved
            (.rechecking call limit effective) (turns.map Turn.message)) rfl hcheck
          exact (ih (hfollows.moved _ _) rfl rfl h).after
            ((machine c).exec_append.mpr ⟨_, hrun, (machine c).exec_singleton.mpr hgoOn⟩) rfl

/-- **`receive_with_limit` in the machine.** Whatever a call returns when the messages and the stops
come in some order, a reader of the machine returns when they come in that order. -/
theorem receiveWithLimit_exec (hfollows : Follows s t)
    (hreader : t.reader = .entering call limit) (hchannel : t.channel = turns.map Turn.message)
    (h : receiveWithLimit c limit s turns = some (result, s', turns')) :
    Returns c call limit t result s' (turns'.map Turn.message) := by
  unfold receiveWithLimit at h
  dsimp only at h
  cases hcheck : checkTerminal (stopped (arrived turns) s) with
  | some found =>
    rw [hcheck] at h
    cases h
    rw [← hchannel]
    exact returns_check .entering _ hfollows hreader hcheck
  | none =>
    rw [hcheck] at h
    rw [stopped_of_checkTerminal hcheck] at hcheck
    have hrun := (machine c).exec_cons_eq_some.mpr
      ⟨_, step_check (c := c) .entering hfollows hreader hcheck,
        (machine c).exec_singleton.mpr (step_reader true hfollows.live rfl)⟩
    have hlimit : effectiveLimit c limit s = effectiveLimit c limit t := by
      rw [effectiveLimit, effectiveLimit, hfollows.narrowLimit]
    dsimp only at h
    rw [hlimit, ← hfollows.delivered] at h
    have hnarrowed : Follows
        { s with narrowLimit := effectiveLimit c limit t, delivered := t.delivered }
        { t with narrowLimit := effectiveLimit c limit t } :=
      ⟨hfollows.terminal, rfl, rfl, hfollows.live⟩
    split_ifs at h with hlarge
    · cases h
      rw [← hchannel]
      exact (returns_readerStop _ (hnarrowed.moved _ _)).after
        (hrun.trans (congrArg some (if_pos hlarge))) rfl
    · exact (receiveLoop_exec (hnarrowed.moved _ _) rfl hchannel h).after
        (hrun.trans (congrArg some (if_neg hlarge))) rfl

end

theorem receiveWithLimit_exec_chunk : ∃ s', Returns twoBytes .read 2
    { State.init twoBytes with reader := .entering .read 2, channel := [.chunk [7]] }
    (.ok (.chunk [7])) s' [] := by
  have h : receiveWithLimit twoBytes 2 (.init twoBytes) [⟨[], [], .chunk [7]⟩] = some (_, _, []) := rfl
  exact ⟨_, receiveWithLimit_exec (by constructor <;> rfl) rfl rfl h⟩

end BasicWebserver.RequestBody
