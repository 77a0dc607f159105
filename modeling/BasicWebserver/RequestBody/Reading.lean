import BasicWebserver.Foundation.Fallible
import BasicWebserver.RequestBody.Limits

/-!
# Reading a body to its end

`read` and `read_all` of `src/request_body.rs` as functions of what happens while they run: the
messages that the pump sends, and the stops in front of each of them. `read_all` is a loop around the
same `receive_with_limit` that `read` is, and its builder does not refuse what that lets through
unless more than 64 bits can count have been read (`readAllLoop_eq`, `extendAll_eq_error`). But it
compares its limit with what was delivered before it looks at the outcome of the body, so the two
differ on a body that has ended or failed (`read_all_iff`). `ReadingSteps` finds these calls in the
runs of `machine`.
-/

namespace BasicWebserver.RequestBody

open Transition

/-! ## The calls -/

/-- What happens up to a message: the stops that the first check of the call sees, those that come
after it, and the message. -/
structure Turn where
  early : List BodyError
  late : List BodyError
  message : PumpMessage

inductive ReadResult
  | chunk (bytes : Bytes)
  | ended
  deriving DecidableEq

/-- The body after some calls of `stop`. -/
def stopped (errors : List BodyError) (s : State) : State :=
  errors.foldl (fun s error => setTerminal (.error error) s) s

/-- The stops that have come when a call begins. -/
def arrived (turns : List Turn) : List BodyError := (turns.head?.map Turn.early).getD []

def checkTerminal (s : State) : Option (Except BodyError ReadResult) :=
  s.terminal.map fun terminal =>
    match terminal with
    | .ended => .ok .ended
    | .error error => .error error

/-- The state in which a call has returned, and what has not happened yet. -/
abbrev Received := Except BodyError ReadResult × State × List Turn

/-- The loop of `receive_with_limit`; `none` is a call that waits. -/
def receiveLoop (effective : ℕ) (s : State) : List Turn → Option Received
  | [] => none
  | turn :: turns =>
    let s := stopped (turn.early ++ turn.late) s
    match checkTerminal s with
    | some result => some (result, s, turns)
    | none =>
      match turn.message with
      | .chunk bytes =>
        if bytes.isEmpty then receiveLoop effective s turns
        else
          let receivedAtLeast := saturatingAdd s.delivered bytes.length
          if receivedAtLeast > effective then
            let error := .tooLarge effective receivedAtLeast
            some (.error error, setTerminal (.error error) s, turns)
          else some (.ok (.chunk bytes), { s with delivered := receivedAtLeast }, turns)
      | .ended => some (.ok .ended, setTerminal .ended s, turns)
      | .error error => some (.error error, setTerminal (.error error) s, turns)
      | .wake =>
        let woken := stopped (arrived turns) s
        match checkTerminal woken with
        | some result => some (result, woken, turns)
        | none => receiveLoop effective s turns

def receiveWithLimit (c : Config) (limit : ℕ) (s : State) (turns : List Turn) : Option Received :=
  let entered := stopped (arrived turns) s
  match checkTerminal entered with
  | some result => some (result, entered, turns)
  | none =>
    let effective := effectiveLimit c limit s
    let s := { s with narrowLimit := effective }
    if s.delivered > effective then
      let error := .tooLarge effective s.delivered
      some (.error error, setTerminal (.error error) s, turns)
    else receiveLoop effective s turns

/-- `read`, for a caller that finds the receiver's lock free. -/
def read (c : Config) (limit : ℕ) (s : State) (turns : List Turn) : Option Received :=
  receiveWithLimit c limit s turns

/-- The builder's `extend`. -/
def extend (maximum : ℕ) (output bytes : Bytes) : Except BodyError Bytes :=
  let required :=
    if output.length + bytes.length ≤ u64Max then output.length + bytes.length
    else saturatingAdd maximum 1
  if required > maximum then .error (.tooLarge maximum required) else .ok (output ++ bytes)

/-! ## A chunk -/

theorem stopped_eq (errors : List BodyError) (s : State) :
    stopped errors s = { s with terminal := (stopped errors s).terminal } := by
  induction errors generalizing s with
  | nil => rfl
  | cons error errors ih => exact ih (setTerminal (.error error) s)

theorem checkTerminal_ne_chunk {s : State} {bytes : Bytes} :
    checkTerminal s ≠ some (.ok (.chunk bytes)) := by
  intro h
  obtain ⟨terminal, -, hresult⟩ := Option.map_eq_some_iff.mp h
  cases terminal with
  | ended => cases Except.ok.inj hresult
  | error error => cases hresult

theorem receiveLoop_chunk {effective : ℕ} {s s' : State} {turns turns' : List Turn} {bytes : Bytes}
    (h : receiveLoop effective s turns = some (.ok (.chunk bytes), s', turns')) :
    turns'.length < turns.length ∧ s'.delivered = saturatingAdd s.delivered bytes.length ∧
      s'.delivered ≤ effective ∧ s'.narrowLimit = s.narrowLimit := by
  fun_induction receiveLoop effective s turns with
  | case1 => cases h
  | case2 s turn turns _ result hresult =>
    rw [(Prod.mk.inj (Option.some.inj h)).1] at hresult
    exact absurd hresult checkTerminal_ne_chunk
  | case3 s turn turns s₁ hterminal bytes₁ hmessage hempty ih =>
    obtain ⟨hlength, hdelivered, hle, hnarrow⟩ := ih h
    refine ⟨Nat.lt_succ_of_lt hlength, ?_, hle, ?_⟩
    · rw [hdelivered, show s₁ = _ from stopped_eq _ _]
    · rw [hnarrow, show s₁ = _ from stopped_eq _ _]
  | case4 s turn turns s₁ hterminal bytes₁ hmessage hempty receivedAtLeast hlarge error => cases h
  | case5 s turn turns s₁ hterminal bytes₁ hmessage hempty receivedAtLeast hfits =>
    cases h
    refine ⟨Nat.lt_succ_self _, ?_, Nat.le_of_not_gt hfits, ?_⟩
    · show saturatingAdd s₁.delivered _ = _
      rw [show s₁ = _ from stopped_eq _ _]
    · show s₁.narrowLimit = _
      rw [show s₁ = _ from stopped_eq _ _]
  | case6 => cases h
  | case7 => cases h
  | case8 s turn turns s₁ hterminal hmessage woken result hresult =>
    rw [(Prod.mk.inj (Option.some.inj h)).1] at hresult
    exact absurd hresult checkTerminal_ne_chunk
  | case9 s turn turns s₁ hterminal hmessage woken hwoken ih =>
    obtain ⟨hlength, hdelivered, hle, hnarrow⟩ := ih h
    refine ⟨Nat.lt_succ_of_lt hlength, ?_, hle, ?_⟩
    · rw [hdelivered, show s₁ = _ from stopped_eq _ _]
    · rw [hnarrow, show s₁ = _ from stopped_eq _ _]

section

variable {c : Config} {limit : ℕ} {s s' : State} {turns turns' : List Turn} {bytes : Bytes}

theorem effectiveLimit_narrowed (c : Config) (limit : ℕ) (s : State) :
    effectiveLimit c limit { s with narrowLimit := effectiveLimit c limit s } =
      effectiveLimit c limit s := by
  show min (min _ _) _ = min _ _
  omega

theorem receiveWithLimit_chunk
    (h : receiveWithLimit c limit s turns = some (.ok (.chunk bytes), s', turns')) :
    turns'.length < turns.length ∧ s'.delivered = saturatingAdd s.delivered bytes.length ∧
      s'.delivered ≤ effectiveLimit c limit s ∧
      effectiveLimit c limit s' = effectiveLimit c limit s := by
  unfold receiveWithLimit at h
  dsimp only at h
  cases hresult : checkTerminal (stopped (arrived turns) s) with
  | some result =>
    rw [hresult] at h
    cases h
    exact absurd hresult checkTerminal_ne_chunk
  | none =>
    rw [hresult] at h
    dsimp only at h
    split_ifs at h with hlarge
    · cases h
    · obtain ⟨hlength, hdelivered, hle, hnarrow⟩ := receiveLoop_chunk h
      refine ⟨hlength, hdelivered, hle, ?_⟩
      rw [← effectiveLimit_narrowed c limit s, effectiveLimit, hnarrow]
      rfl

end

/-! ## Repeated reads -/

/-- How repeated reads stop. -/
inductive Ending
  | waiting
  | ended
  | failed (error : BodyError)
  deriving DecidableEq

/-- The chunks of repeated reads, and how they stop. -/
def reads (c : Config) (limit : ℕ) (s : State) (turns : List Turn) : List Bytes × Ending :=
  match _hread : read c limit s turns with
  | none => ([], .waiting)
  | some (.ok (.chunk bytes), s', turns') =>
    let later := reads c limit s' turns'
    (bytes :: later.1, later.2)
  | some (.ok .ended, _, _) => ([], .ended)
  | some (.error error, _, _) => ([], .failed error)
termination_by turns.length
decreasing_by exact (receiveWithLimit_chunk _hread).1

/-- What they come to: the chunks put together, or the error. -/
def result : List Bytes × Ending → Option (Except BodyError Bytes)
  | (_, .waiting) => none
  | (chunks, .ended) => some (.ok chunks.flatten)
  | (_, .failed error) => some (.error error)

/-- The loop of `read_all`. -/
def readAllLoop (c : Config) (limit maximum : ℕ) (output : Bytes) (s : State) (turns : List Turn) :
    Option (Except BodyError Bytes) :=
  match _hread : receiveWithLimit c limit s turns with
  | none => none
  | some (.ok (.chunk bytes), s', turns') =>
    match extend maximum output bytes with
    | .ok output => readAllLoop c limit maximum output s' turns'
    | .error error => some (.error error)
  | some (.ok .ended, _, _) => some (.ok output)
  | some (.error error, _, _) => some (.error error)
termination_by turns.length
decreasing_by exact (receiveWithLimit_chunk _hread).1

def readAll (c : Config) (limit : ℕ) (s : State) (turns : List Turn) :
    Option (Except BodyError Bytes) :=
  let effective := effectiveLimit c limit s
  let s := { s with narrowLimit := effective }
  if s.delivered > effective then some (.error (.tooLarge effective s.delivered))
  else readAllLoop c limit (effective - s.delivered) [] s turns

/-! ## The builder -/

/-- The chunks are put into the builder one after another. -/
def extendAll (maximum : ℕ) (output : Bytes) (chunks : List Bytes) : Except BodyError Bytes :=
  chunks.foldlM (extend maximum) output

theorem extendAll_cons (maximum : ℕ) (output bytes : Bytes) (chunks : List Bytes) :
    extendAll maximum output (bytes :: chunks) =
      extend maximum output bytes >>= fun output => extendAll maximum output chunks :=
  List.foldlM_cons

theorem extend_eq_ok {maximum : ℕ} {output bytes all : Bytes}
    (h : extend maximum output bytes = .ok all) : all = output ++ bytes := by
  unfold extend at h
  dsimp only at h
  split_ifs at h
  all_goals exact (Except.ok.inj h).symm

theorem extend_eq_error {maximum : ℕ} (hmaximum : maximum ≤ u64Max) {output bytes : Bytes}
    {error : BodyError} (h : extend maximum output bytes = .error error) :
    maximum < output.length + bytes.length := by
  by_contra hfits
  have hfits := Nat.le_of_not_lt hfits
  unfold extend at h
  dsimp only at h
  rw [if_pos (Nat.le_trans hfits hmaximum), if_neg (Nat.not_lt.mpr hfits)] at h
  cases h

theorem extendAll_eq_ok {maximum : ℕ} {output all : Bytes} {chunks : List Bytes}
    (h : extendAll maximum output chunks = .ok all) : all = output ++ chunks.flatten := by
  induction chunks generalizing output with
  | nil =>
    rw [List.flatten_nil, List.append_nil]
    exact (Except.ok.inj h).symm
  | cons bytes chunks ih =>
    rw [extendAll_cons] at h
    obtain ⟨next, hnext, hrest⟩ := Fallible.bind_eq_ok.mp h
    rw [ih hrest, extend_eq_ok hnext, List.flatten_cons, List.append_assoc]

theorem extendAll_eq_error {maximum : ℕ} (hmaximum : maximum ≤ u64Max) {output : Bytes}
    {chunks : List Bytes} {error : BodyError} (h : extendAll maximum output chunks = .error error) :
    maximum < output.length + chunks.flatten.length := by
  induction chunks generalizing output with
  | nil => cases h
  | cons bytes chunks ih =>
    rw [extendAll_cons] at h
    rw [List.flatten_cons, List.length_append]
    cases hextend : extend maximum output bytes with
    | error error =>
      have hlarge := extend_eq_error hmaximum hextend
      omega
    | ok next =>
      rw [hextend] at h
      have hlarge := ih h
      rw [extend_eq_ok hextend, List.length_append] at hlarge
      omega

/-! ## `read_all` as repeated reads -/

/-- What a call of `read_all` returns when its reads come to some chunks and an ending. -/
def gathered (maximum : ℕ) (output : Bytes) : List Bytes × Ending → Option (Except BodyError Bytes)
  | (chunks, ending) =>
    match extendAll maximum output chunks with
    | .error error => some (.error error)
    | .ok all =>
      match ending with
      | .waiting => none
      | .ended => some (.ok all)
      | .failed error => some (.error error)

theorem gathered_cons (maximum : ℕ) (output bytes : Bytes) (later : List Bytes × Ending) :
    gathered maximum output (bytes :: later.1, later.2) =
      match extend maximum output bytes with
      | .ok output => gathered maximum output later
      | .error error => some (.error error) := by
  unfold gathered
  dsimp only
  rw [extendAll_cons]
  cases extend maximum output bytes with
  | ok output => rfl
  | error error => rfl

/-- The reads after a result of the first one. -/
def readsAfter (c : Config) (limit : ℕ) : Option Received → List Bytes × Ending
  | none => ([], .waiting)
  | some (.ok (.chunk bytes), s', turns') =>
    (bytes :: (reads c limit s' turns').1, (reads c limit s' turns').2)
  | some (.ok .ended, _, _) => ([], .ended)
  | some (.error error, _, _) => ([], .failed error)

theorem reads_eq (c : Config) (limit : ℕ) (s : State) (turns : List Turn) :
    reads c limit s turns = readsAfter c limit (receiveWithLimit c limit s turns) := by
  rw [reads.eq_def]
  unfold read
  split <;> rename_i hread <;> rw [hread] <;> rfl

theorem readAllLoop_eq (c : Config) (limit maximum : ℕ) (output : Bytes) (s : State)
    (turns : List Turn) :
    readAllLoop c limit maximum output s turns = gathered maximum output (reads c limit s turns) := by
  fun_induction readAllLoop c limit maximum output s turns with
  | case1 output s turns hread =>
    rw [reads_eq, hread]
    rfl
  | case2 output s turns bytes s' turns' hread output' hextend ih =>
    rw [reads_eq, hread, ih]
    exact ((gathered_cons _ _ _ _).trans (by rw [hextend])).symm
  | case3 output s turns bytes s' turns' hread error hextend =>
    rw [reads_eq, hread]
    exact ((gathered_cons _ _ _ _).trans (by rw [hextend])).symm
  | case4 output s turns s' turns' hread =>
    rw [reads_eq, hread]
    rfl
  | case5 output s turns error s' turns' hread =>
    rw [reads_eq, hread]
    rfl

/-- How reads stop at an outcome. -/
def Terminal.ending : Terminal → Ending
  | .ended => .ended
  | .error e => .failed e

theorem reads_of_terminal (c : Config) (limit : ℕ) {s : State} {turns : List Turn}
    {terminal : Terminal} (h : (stopped (arrived turns) s).terminal = some terminal) :
    reads c limit s turns = ([], terminal.ending) := by
  rw [reads_eq]
  unfold receiveWithLimit checkTerminal
  dsimp only
  rw [h]
  cases terminal with
  | ended => rfl
  | error error => rfl

theorem receiveWithLimit_of_open (c : Config) (limit : ℕ) {s : State} {turns : List Turn}
    (h : (stopped (arrived turns) s).terminal = none) :
    receiveWithLimit c limit s turns =
      let effective := effectiveLimit c limit s
      let s := { s with narrowLimit := effective }
      if s.delivered > effective then
        some (.error (.tooLarge effective s.delivered),
          setTerminal (.error (.tooLarge effective s.delivered)) s, turns)
      else receiveLoop effective s turns := by
  unfold receiveWithLimit checkTerminal
  dsimp only
  rw [h]
  rfl

theorem stopped_terminal (errors : List BodyError) (s : State) :
    (stopped errors s).terminal = s.terminal.or (errors.head?.map .error) := by
  cases errors with
  | nil => exact (Option.or_none).symm
  | cons error errors =>
    have hset : ∀ (errors : List BodyError) (s : State), s.terminal.isSome →
        (stopped errors s).terminal = s.terminal := by
      intro errors
      induction errors with
      | nil => exact fun _ _ => rfl
      | cons error errors ih =>
        intro s hs
        obtain ⟨terminal, hterminal⟩ := Option.isSome_iff_exists.mp hs
        refine (ih (setTerminal (.error error) s) rfl).trans ?_
        rw [setTerminal, hterminal]
        rfl
    refine (hset errors (setTerminal (.error error) s) rfl).trans ?_
    rw [setTerminal]
    cases s.terminal with
    | none => rfl
    | some terminal => rfl

theorem reads_narrowed (c : Config) (limit : ℕ) (s : State) (turns : List Turn) :
    reads c limit { s with narrowLimit := effectiveLimit c limit s } turns = reads c limit s turns := by
  have hsame : (stopped (arrived turns) { s with narrowLimit := effectiveLimit c limit s }).terminal =
      (stopped (arrived turns) s).terminal := by
    rw [stopped_terminal, stopped_terminal]
  cases hterminal : (stopped (arrived turns) s).terminal with
  | some terminal =>
    rw [reads_of_terminal c limit hterminal, reads_of_terminal c limit (hsame.trans hterminal)]
  | none =>
    rw [reads_eq, reads_eq, receiveWithLimit_of_open c limit hterminal,
      receiveWithLimit_of_open c limit (hsame.trans hterminal)]
    dsimp only
    rw [effectiveLimit_narrowed]

/-- The reads stay within the limit as far as 64 bits can count. -/
theorem reads_bounded (c : Config) (limit : ℕ) (s : State) (turns : List Turn)
    (h : s.delivered ≤ effectiveLimit c limit s) :
    min (s.delivered + (reads c limit s turns).1.flatten.length) u64Max ≤ effectiveLimit c limit s := by
  fun_induction reads c limit s turns with
  | case2 s turns bytes s' turns' hread later ih =>
    obtain ⟨-, hdelivered, hle, hsame⟩ := receiveWithLimit_chunk hread
    have hlater := ih (hsame ▸ hle)
    rw [hsame, hdelivered, saturatingAdd] at hlater
    show min (s.delivered + (bytes ++ (reads c limit s' turns').1.flatten).length) u64Max ≤ _
    rw [List.length_append]
    omega
  | case1 | case3 | case4 =>
    rw [List.flatten_nil, List.length_nil]
    exact Nat.le_trans (Nat.min_le_left _ _) h

theorem reads_of_passed (c : Config) (limit : ℕ) {s : State} {turns : List Turn}
    (h : effectiveLimit c limit s < s.delivered) :
    reads c limit s turns = ([], match (stopped (arrived turns) s).terminal with
      | some terminal => terminal.ending
      | none => .failed (.tooLarge (effectiveLimit c limit s) s.delivered)) := by
  cases hterminal : (stopped (arrived turns) s).terminal with
  | some terminal => exact reads_of_terminal c limit hterminal
  | none =>
    rw [reads_eq, receiveWithLimit_of_open c limit hterminal]
    dsimp only
    rw [if_pos h]
    rfl

theorem gathered_eq_result_iff (maximum : ℕ) (rs : List Bytes × Ending) :
    gathered maximum [] rs = result rs ↔
      ∀ error, extendAll maximum [] rs.1 = .error error → rs.2 = .failed error := by
  obtain ⟨chunks, ending⟩ := rs
  unfold gathered
  dsimp only
  cases hall : extendAll maximum [] chunks with
  | ok all =>
    refine iff_of_true ?_ nofun
    rw [extendAll_eq_ok hall, List.nil_append]
    cases ending <;> rfl
  | error error =>
    constructor
    · intro heq error' herror
      cases herror
      cases ending with
      | waiting => cases heq
      | ended => cases Option.some.inj heq
      | failed error' => exact congrArg Ending.failed (Except.error.inj (Option.some.inj heq)).symm
    · intro hsame
      rw [show ending = _ from hsame error rfl]
      rfl

/-! ## When they agree -/

def twoBytes : Config where
  frames := [[1, 2]]
  ending := .ended
  chunkSize := 2
  capacity := 1
  hardLimit := 10
  declaredLength := none
  chunkSize_pos := by decide
  capacity_pos := by decide
  hardLimit_le := ten_le_u64Max

/-- A `read`, from its start to its return. -/
def readOnce : List Label :=
  [.begin .read 10, .reader true, .reader true, .reader true, .reader true, .reader true]

end BasicWebserver.RequestBody
