import BasicWebserver.Sqlite.System

/-!
# What a label can do

`Move` lists the effects a label of `machine` can have, with what was checked before;
`move_of_step` says that there are no others. The invariants of the pool are proved over `Move`.
-/

namespace BasicWebserver.Sqlite

open Transition

variable {W : Type} {config : Config} {s t : System W}

/-- The open connection a call holds. -/
def Call.connection : Call W → Option (Connection W)
  | .acquired connection _ | .releasing connection => some connection
  | .reopening => none
  | .replacing replacement => replacement

inductive Move (config : Config) (s : System W) : Label W → System W → Prop
  /-- The call is refused, or its statement cannot be prepared. -/
  | stay {a} : Move config s a s
  | acquire {c available purpose} (havailable : s.available = c :: available) :
    Move config s (.acquire purpose) { s with
      available
      leased := s.leased + 1
      highWater := max s.highWater (s.leased + 1)
      calls := .acquired c purpose :: s.calls }
  | release {a j call c calls} (htake : Bag.takeAt s.calls j = some (call, calls))
    (hcall : call.connection = some c) : Move config s a (release c { s with calls })
  | prepare {j query prepared ready reset c c' purpose statement calls}
    (htake : Bag.takeAt s.calls j = some (.acquired c purpose, calls))
    (hstatement : c.takeStatement query prepared = some (statement, c')) :
    Move config s (.work j prepared ready reset) (giveBack c' statement reset { s with calls })
  | start {j query prepared ready reset c c' purpose statement calls}
    (htake : Bag.takeAt s.calls j = some (.acquired c purpose, calls))
    (hstatement : c.takeStatement query prepared = some (statement, c')) :
    Move config s (.work j prepared ready reset) { s with
      calls
      pooled := ⟨{ c' with progressHandler := true }, statement⟩ :: s.pooled }
  | begin {j prepared ready reset c c' purpose calls}
    (htake : Bag.takeAt s.calls j = some (.acquired c purpose, calls))
    (hbegin : c.executeBegin ready = some c') :
    Move config s (.work j prepared ready reset) { s with
      calls
      transactions := ⟨s.begun, some c', none, 1, false, false⟩ :: s.transactions
      begun := s.begun + 1 }
  | stepPooled {j outcome execution pooled}
    (htake : Bag.takeAt s.pooled j = some (execution, pooled))
    (hallows : execution.connection.allows (config.kind execution.statement.query) outcome) :
    Move config s (.stepPooled j outcome) ({ s with
      pooled := ⟨(execution.connection.step outcome).1, { execution.statement with stepped := true }⟩ ::
        pooled }.commit none (execution.connection.step outcome).2)
  | dropPooled {j reset execution pooled}
    (htake : Bag.takeAt s.pooled j = some (execution, pooled)) :
    Move config s (.dropPooled j reset)
      (giveBack { execution.connection with progressHandler := false } execution.statement reset
        { s with pooled })
  | reopen {j calls} (htake : Bag.takeAt s.calls j = some (.reopening, calls)) :
    Move config s (.reopen j true) { s with
      calls := .replacing (some (.open_ s.opened config.statementCacheCapacity)) :: calls
      opened := s.opened + 1 }
  | reopenFailed {j calls} (htake : Bag.takeAt s.calls j = some (.reopening, calls)) :
    Move config s (.reopen j false) { s with calls := .replacing none :: calls }
  | lose {j calls} (htake : Bag.takeAt s.calls j = some (.replacing none, calls)) :
    Move config s (.replace j)
      { endLease s with calls, failedReopens := s.failedReopens + 1 }
  /-- `prepare_columns`, and a start that fails after its statement is prepared. -/
  | prepareTransaction {a k query prepared reset txn c c' statement transactions}
    (htake : Bag.takeAt s.transactions k = some (txn, transactions)) (hrefuses : txn.refuses = false)
    (hconnection : txn.connection = some c)
    (hstatement : c.takeStatement query prepared = some (statement, c')) :
    Move config s a { s with
      transactions :=
        { txn with connection := some (c'.returnStatement statement reset) } :: transactions }
  | startTransaction {k query prepared ready reset txn c c' statement transactions}
    (htake : Bag.takeAt s.transactions k = some (txn, transactions)) (hrefuses : txn.refuses = false)
    (hconnection : txn.connection = some c)
    (hstatement : c.takeStatement query prepared = some (statement, c')) :
    Move config s (.startTransaction k query prepared ready reset) { s with
      transactions :=
        { txn with
          connection := some { c' with progressHandler := true }
          activeExecution := some txn.nextExecution
          nextExecution := max (txn.nextExecution + 1) 1 } :: transactions
      executing := ⟨txn.id, txn.nextExecution, c'.raw, statement⟩ :: s.executing }
  /-- The raw pointer of an execution is used without its connection. -/
  | dangling {a j k e executing txn transactions}
    (he : Bag.takeAt s.executing j = some (e, executing))
    (htake : Bag.takeAt s.transactions k = some (txn, transactions)) (hid : e.transaction = txn.id)
    (htarget : e.target txn = none) : Move config s a { s with broken := true }
  | stepTransaction {j k outcome e executing txn c transactions}
    (he : Bag.takeAt s.executing j = some (e, executing))
    (htake : Bag.takeAt s.transactions k = some (txn, transactions)) (hid : e.transaction = txn.id)
    (hconnection : txn.connection = some c) (hraw : c.raw = e.connection)
    (hallows : c.allows (config.kind e.statement.query) outcome) :
    Move config s (.stepTransaction j k outcome) ({ s with
      executing := { e with statement := { e.statement with stepped := true } } :: executing
      transactions :=
        { txn with
          connection := some (c.step outcome).1
          rolledBack := txn.rolledBack || outcome.rollsBack } :: transactions
      written := s.written ++ (c.finished outcome).map (txn.id, ·)
      strays := if c.transaction.isNone then txn.id :: s.strays else s.strays }.commit
        (some txn.id) (c.step outcome).2)
  | dropExecution {j k reset e executing txn c transactions}
    (he : Bag.takeAt s.executing j = some (e, executing))
    (htake : Bag.takeAt s.transactions k = some (txn, transactions)) (hid : e.transaction = txn.id)
    (hconnection : txn.connection = some c) (hactive : txn.activeExecution = some e.executionId) :
    Move config s (.dropTransactionExecution j k reset) ({ s with
      executing
      transactions :=
        { txn with
          connection := some
            ({ c with progressHandler := false : Connection W }.returnStatement e.statement reset)
          activeExecution := none } :: transactions
      written := s.written ++ c.current.map (txn.id, ·) }.commit (some txn.id) c.autocommitted)
  | dropStaleExecution {j k reset e executing txn c transactions}
    (he : Bag.takeAt s.executing j = some (e, executing))
    (htake : Bag.takeAt s.transactions k = some (txn, transactions)) (hid : e.transaction = txn.id)
    (hconnection : txn.connection = some c) (hactive : txn.activeExecution ≠ some e.executionId) :
    Move config s (.dropTransactionExecution j k reset) ({ s with
      executing
      transactions :=
        { txn with connection := some { c with progressHandler := false : Connection W }.settle } ::
          transactions
      written := s.written ++ c.current.map (txn.id, ·) }.commit (some txn.id) c.autocommitted)
  | finishFailed {k commit outcome txn c c' writes transactions}
    (htake : Bag.takeAt s.transactions k = some (txn, transactions)) (hrefuses : txn.refuses = false)
    (hconnection : txn.connection = some c)
    (hfinish : c.executeFinish commit outcome = (false, c', writes)) :
    Move config s (.finishTransaction k commit outcome) { s with
      transactions :=
        { txn with
          connection := some c'
          rolledBack := txn.rolledBack || outcome.rollsBack } :: transactions }
  | finish {k commit outcome txn c c' writes transactions}
    (htake : Bag.takeAt s.transactions k = some (txn, transactions)) (hrefuses : txn.refuses = false)
    (hconnection : txn.connection = some c)
    (hfinish : c.executeFinish commit outcome = (true, c', writes)) :
    Move config s (.finishTransaction k commit outcome) ({ s with
      transactions := { txn with finished := true, connection := none } :: transactions
      calls := .releasing c' :: s.calls
      commits := if commit then txn.id :: s.commits else s.commits }.commit (some txn.id) writes)
  | dropFinished {k outcome txn transactions}
    (htake : Bag.takeAt s.transactions k = some (txn, transactions))
    (hexecuting : ∀ e ∈ s.executing, e.transaction ≠ txn.id) (hconnection : txn.connection = none) :
    Move config s (.dropTransaction k outcome) { s with transactions }
  | dropReleasing {k outcome txn c c' transactions}
    (htake : Bag.takeAt s.transactions k = some (txn, transactions))
    (hexecuting : ∀ e ∈ s.executing, e.transaction ≠ txn.id)
    (hconnection : txn.connection = some c)
    (hfinish : (txn.finished = true ∧ c' = c) ∨
      ∃ writes, c.executeFinish false outcome = (true, c', writes)) :
    Move config s (.dropTransaction k outcome)
      { s with transactions, calls := .releasing c' :: s.calls }
  | dropClosing {k outcome txn c c' writes transactions}
    (htake : Bag.takeAt s.transactions k = some (txn, transactions))
    (hexecuting : ∀ e ∈ s.executing, e.transaction ≠ txn.id)
    (hconnection : txn.connection = some c)
    (hfinish : c.executeFinish false outcome = (false, c', writes)) :
    Move config s (.dropTransaction k outcome) { s with
      transactions
      calls := .reopening :: s.calls
      closed := c'.raw :: s.closed }

/-! ## Every label is one of them -/

section Labels

variable {j k : ℕ} {query : String} {prepared ready reset ok commit : Bool}

theorem move_acquire {purpose : Purpose} (h : acquire purpose s = some t) :
    Move config s (.acquire purpose) t := by
  unfold acquire at h
  split at h
  · cases h
  · cases h
    exact .acquire ‹_›

theorem move_work (h : work j prepared ready reset s = some t) :
    Move config s (.work j prepared ready reset) t := by
  unfold work at h
  split at h
  · rename_i c query calls htake
    cases h
    unfold preparePooled
    split
    · exact .release htake rfl
    · exact .prepare htake ‹_›
  · rename_i c query calls htake
    cases h
    unfold startPooledExecution
    split
    · exact .release htake rfl
    · split_ifs
      · exact .start htake ‹_›
      · exact .prepare htake ‹_›
  · rename_i c mode calls htake
    cases h
    unfold begin
    split_ifs
    · split
      · exact .release htake rfl
      · exact .begin htake ‹_›
    · exact .release htake rfl
  · cases h
    exact .release ‹_› rfl
  · cases h

theorem move_stepPooled {outcome : StepOutcome W} (h : stepPooled config j outcome s = some t) :
    Move config s (.stepPooled j outcome) t := by
  unfold stepPooled at h
  split at h
  · cases h
  · split_ifs at h with hallows
    cases h
    exact .stepPooled ‹_› hallows

theorem move_dropPooled (h : dropPooled j reset s = some t) :
    Move config s (.dropPooled j reset) t := by
  obtain ⟨⟨execution, pooled⟩, htake, rfl⟩ := Option.map_eq_some_iff.mp h
  exact .dropPooled htake

theorem move_reopen (h : reopen config j ok s = some t) : Move config s (.reopen j ok) t := by
  unfold reopen at h
  split at h
  · cases h
    cases ok with
    | false => exact .reopenFailed ‹_›
    | true => exact .reopen ‹_›
  · cases h

theorem move_replace (h : replace j s = some t) : Move config s (.replace j) t := by
  unfold replace at h
  split at h
  · rename_i replacement calls htake
    cases h
    cases replacement with
    | none => exact .lose htake
    | some c => exact .release (c := c) htake rfl
  · cases h

theorem refuses_of_none {txn : Transaction W} (h : txn.connection = none) : txn.refuses := by
  simp [Transaction.refuses, h]

theorem move_prepareTransaction (h : prepareTransaction k query prepared reset s = some t) :
    Move config s (.prepareTransaction k query prepared reset) t := by
  obtain ⟨⟨txn, transactions⟩, htake, rfl⟩ := Option.map_eq_some_iff.mp h
  dsimp only
  split
  · exact .stay
  · rename_i hrefuses
    split
    · exact absurd (refuses_of_none ‹_›) hrefuses
    · split
      · exact .stay
      · exact .prepareTransaction htake (Bool.eq_false_of_not_eq_true hrefuses) ‹_› ‹_›

theorem move_startTransaction
    (h : startTransactionExecution k query prepared ready reset s = some t) :
    Move config s (.startTransaction k query prepared ready reset) t := by
  obtain ⟨⟨txn, transactions⟩, htake, rfl⟩ := Option.map_eq_some_iff.mp h
  dsimp only
  split
  · exact .stay
  · rename_i hrefuses
    replace hrefuses := Bool.eq_false_of_not_eq_true hrefuses
    split
    · exact absurd (refuses_of_none ‹_›) (Bool.eq_false_iff.mp hrefuses)
    · split
      · exact .stay
      · split
        · exact .startTransaction htake hrefuses ‹_› ‹_›
        · exact .prepareTransaction htake hrefuses ‹_› ‹_›

theorem takeExecution_eq {e : TransactionExecution} {executing : List TransactionExecution}
    {txn : Transaction W} {transactions : List (Transaction W)}
    (h : takeExecution j k s = some ((e, executing), (txn, transactions))) :
    Bag.takeAt s.executing j = some (e, executing) ∧
      Bag.takeAt s.transactions k = some (txn, transactions) ∧ e.transaction = txn.id := by
  unfold takeExecution at h
  split at h
  · split_ifs at h
    cases h
    exact ⟨‹_›, ‹_›, ‹_›⟩
  · cases h

theorem connection_of_target {e : TransactionExecution} {txn : Transaction W} {c : Connection W}
    (h : e.target txn = some c) : txn.connection = some c ∧ c.raw = e.connection := by
  obtain ⟨hc, hraw⟩ := Option.filter_eq_some_iff.mp h
  exact ⟨hc, of_decide_eq_true hraw⟩

theorem move_stepTransaction {outcome : StepOutcome W}
    (h : stepTransaction config j k outcome s = some t) :
    Move config s (.stepTransaction j k outcome) t := by
  unfold stepTransaction at h
  split at h
  · cases h
  · rename_i htake
    obtain ⟨he, htake, hid⟩ := takeExecution_eq htake
    split at h
    · cases h
      exact .dangling he htake hid ‹_›
    · rename_i c htarget
      obtain ⟨hconnection, hraw⟩ := connection_of_target htarget
      split at h
      · cases h
        exact .stepTransaction he htake hid hconnection hraw ‹_›
      · cases h

theorem move_dropTransactionExecution (h : dropTransactionExecution j k reset s = some t) :
    Move config s (.dropTransactionExecution j k reset) t := by
  unfold dropTransactionExecution at h
  split at h
  · cases h
  · rename_i htake
    obtain ⟨he, htake, hid⟩ := takeExecution_eq htake
    split at h
    · cases h
      exact .dangling he htake hid ‹_›
    · rename_i c htarget
      obtain ⟨hconnection, -⟩ := connection_of_target htarget
      dsimp only at h
      split_ifs at h with hactive
      · cases h
        exact .dropExecution he htake hid hconnection hactive
      · cases h
        exact .dropStaleExecution he htake hid hconnection hactive

theorem move_finishTransaction {outcome : ControlOutcome}
    (h : finishTransaction k commit outcome s = some t) :
    Move config s (.finishTransaction k commit outcome) t := by
  obtain ⟨⟨txn, transactions⟩, htake, rfl⟩ := Option.map_eq_some_iff.mp h
  dsimp only
  split
  · exact .stay
  · rename_i hrefuses
    replace hrefuses := Bool.eq_false_of_not_eq_true hrefuses
    split
    · exact absurd (refuses_of_none ‹_›) (Bool.eq_false_iff.mp hrefuses)
    · split
      · exact .finishFailed htake hrefuses ‹_› ‹_›
      · exact .finish htake hrefuses ‹_› ‹_›

theorem move_dropTransaction {outcome : ControlOutcome}
    (h : dropTransaction k outcome s = some t) : Move config s (.dropTransaction k outcome) t := by
  unfold dropTransaction at h
  split at h
  · cases h
  · rename_i txn transactions htake
    split at h
    · cases h
    · rename_i hany
      have hexecuting : ∀ e ∈ s.executing, e.transaction ≠ txn.id := fun e he hid =>
        hany (List.any_eq_true.mpr ⟨e, he, decide_eq_true hid⟩)
      split at h
      · cases h
        exact .dropFinished htake hexecuting ‹_›
      · rename_i c hconnection
        split at h
        · cases h
          exact .dropReleasing htake hexecuting hconnection (.inl ⟨‹_›, rfl⟩)
        · split at h
          · cases h
            exact .dropReleasing htake hexecuting hconnection (.inr ⟨_, ‹_›⟩)
          · cases h
            exact .dropClosing htake hexecuting hconnection ‹_›

end Labels

theorem move_of_step {a : Label W} (h : step config s a = some t) : Move config s a t := by
  cases a with
  | acquire purpose => exact move_acquire h
  | work j prepared ready reset => exact move_work h
  | stepPooled j outcome => exact move_stepPooled h
  | dropPooled j reset => exact move_dropPooled h
  | reopen j ok => exact move_reopen h
  | replace j => exact move_replace h
  | prepareTransaction k query prepared reset => exact move_prepareTransaction h
  | startTransaction k query prepared ready reset => exact move_startTransaction h
  | stepTransaction j k outcome => exact move_stepTransaction h
  | dropTransactionExecution j k reset => exact move_dropTransactionExecution h
  | finishTransaction k commit outcome => exact move_finishTransaction h
  | dropTransaction k outcome => exact move_dropTransaction h

end BasicWebserver.Sqlite
