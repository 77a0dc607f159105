import BasicWebserver.Sqlite.Conservation

/-!
# Pool cleanliness

`acquire` takes the connection that was released last. It is clean as long as no pooled execution
is dropped while its statement has left a transaction open, and the first such drop puts a
connection with an open transaction where `acquire` takes it next.
-/

namespace BasicWebserver.Sqlite

open Transition

variable {W : Type} {config : Config} {s t : System W}

namespace Connection

variable {c c' : Connection W} {statement : NativeStatement} {query : String} {prepared ok : Bool}

/-- Every cached statement is reset. -/
def Reset (c : Connection W) : Prop := ∀ statement ∈ c.statements, statement.stepped = false

/-- Between the statements of a transaction: nothing is being stepped. -/
structure Quiet (c : Connection W) : Prop where
  progressHandler : c.progressHandler = false
  current : c.current = []
  reset : c.Reset

/-- No open transaction, no progress handler and no statement that was stepped and not reset. -/
structure Clean (c : Connection W) : Prop extends c.Quiet where
  transaction : c.transaction = none

theorem clean_open (raw capacity : ℕ) : (open_ raw capacity : Connection W).Clean :=
  ⟨⟨rfl, rfl, fun _ => nofun⟩, rfl⟩

/-! ## Native calls -/

/-- Taking a statement out leaves everything but the cache as it is. -/
structure Took (c c' : Connection W) : Prop where
  transaction : c'.transaction = c.transaction
  progressHandler : c'.progressHandler = c.progressHandler
  current : c'.current = c.current
  reset : c.Reset → c'.Reset

theorem took_of_takeStatement (h : c.takeStatement query prepared = some (statement, c')) :
    c.Took c' := by
  unfold takeStatement at h
  split at h
  · rename_i found statements hfound
    cases h
    exact ⟨rfl, rfl, rfl, fun hreset st hst => hreset st ((Recent.sublist_of_take hfound).subset hst)⟩
  · split_ifs at h
    cases h
    exact ⟨rfl, rfl, rfl, id⟩

@[simp] theorem transaction_returnStatement (c : Connection W) (statement : NativeStatement)
    (ok : Bool) :
    (c.returnStatement statement ok).transaction = c.transaction.map (· ++ c.current) := by
  grind [returnStatement, settle]

theorem reset_returnStatement (h : c.Reset) : (c.returnStatement statement ok).Reset := by
  unfold returnStatement
  dsimp only
  split_ifs
  · exact h
  · exact h
  · intro st hst
    rcases List.mem_cons.mp (Recent.put_sublist.subset hst) with rfl | hst
    · rfl
    · exact h st hst

theorem quiet_returnStatement (h : c.Reset) (hhandler : c.progressHandler = false) :
    (c.returnStatement statement ok).Quiet := by
  refine ⟨?_, ?_, reset_returnStatement h⟩ <;> grind [returnStatement, settle]

theorem clean_returnStatement (h : c.Reset) (hhandler : c.progressHandler = false)
    (htransaction : c.transaction = none) : (c.returnStatement statement ok).Clean := by
  refine ⟨quiet_returnStatement h hhandler, ?_⟩
  rw [transaction_returnStatement, htransaction]
  rfl

theorem Reset.step {outcome : StepOutcome W} (h : c.Reset) : (c.step outcome).1.Reset := by
  unfold Reset
  rw [(c.cache_step outcome).1]
  exact h

theorem Quiet.executeBegin (h : c.Quiet) (hbegin : c.executeBegin ok = some c') : c'.Quiet := by
  grind [Connection.executeBegin, Quiet, Reset]

theorem Quiet.executeFinish {commit finished : Bool} {outcome : ControlOutcome} {writes : List W}
    (h : c.Quiet) (hfinish : c.executeFinish commit outcome = (finished, c', writes)) :
    c'.Quiet ∧ (finished = true → c'.transaction = none) := by
  cases outcome <;> grind [Connection.executeFinish, Quiet, Reset]

end Connection

/-! ## Every release path -/

/-- Idle connections are clean, those of transactions are quiet between statements. -/
def cleanliness : Places W where
  idle := Connection.Clean
  pooled c _ := c.Reset
  transaction := Connection.Quiet
  executing c _ := c.Reset

theorem cleanliness_closed :
    (cleanliness : Places W).Closed config fun c => c.transaction = none where
  open_ raw := Connection.clean_open raw _
  begin h hbegin := h.toQuiet.executeBegin hbegin
  prepare h hstatement :=
    have htook := Connection.took_of_takeStatement hstatement
    Connection.clean_returnStatement (htook.reset h.reset)
      (htook.progressHandler.trans h.progressHandler) (htook.transaction.trans h.transaction)
  start h hstatement := (Connection.took_of_takeStatement hstatement).reset h.reset
  step h := h.step
  drop htransaction h := Connection.clean_returnStatement h rfl htransaction
  prepareTransaction h hstatement :=
    have htook := Connection.took_of_takeStatement hstatement
    Connection.quiet_returnStatement (htook.reset h.reset)
      (htook.progressHandler.trans h.progressHandler)
  startTransaction h hstatement := (Connection.took_of_takeStatement hstatement).reset h.reset
  stepTransaction h := h.step
  dropTransaction h := Connection.quiet_returnStatement h rfl
  finish h hfinish :=
    have hquiet := h.executeFinish hfinish
    ⟨hquiet.1, hquiet.2 rfl⟩
  finishFailed h hfinish := (h.executeFinish hfinish).1

/-! ## Runs -/

/-- A pooled execution is dropped only when its connection has no open transaction. -/
def DropsSettled (s : System W) (a : Label W) : Prop :=
  ∀ j reset execution pooled, a = .dropPooled j reset →
    Bag.takeAt s.pooled j = some (execution, pooled) → execution.connection.transaction = none

/-- The connection `acquire` would return, if any, is clean. -/
def AcquiresClean (s : System W) : Prop :=
  ∀ c available, s.available = c :: available → c.Clean

theorem acquiresClean_of_holds (h : cleanliness.Holds s) : AcquiresClean s :=
  fun c _ havailable => h.available c (havailable ▸ List.mem_cons_self)

theorem not_acquiresClean_of_drop {a : Label W} (hdrop : ¬ DropsSettled s a)
    (h : step config s a = some t) : ¬ AcquiresClean t := by
  unfold DropsSettled at hdrop
  push Not at hdrop
  obtain ⟨j, reset, execution, pooled, rfl, htake, hopen⟩ := hdrop
  have ht : dropPooled j reset s = some t := h
  unfold dropPooled at ht
  rw [htake] at ht
  cases ht
  intro hclean
  have htransaction := (hclean _ _ rfl).transaction
  rw [Connection.transaction_returnStatement, Option.map_eq_none_iff] at htransaction
  exact hopen htransaction

/-- **Pool cleanliness.** In a run, every connection that `acquire` returns or would return is
clean exactly when no pooled execution is dropped while its connection has an open transaction. -/
theorem acquire_clean_iff (config : Config) {as : List (Label W)} {t : System W}
    (h : (machine config).exec (System.init config) as = some t) :
    (∀ bs cs u, as = bs ++ cs → (machine config).exec (System.init config) bs = some u →
      AcquiresClean u) ↔ (machine config).Always DropsSettled (System.init config) as := by
  refine (machine config).always_iff_prefixes
    (P := fun s => Sound config s ∧ cleanliness.Holds s)
    (fun s hs => acquiresClean_of_holds hs.2) ?_ ?_ ⟨sound_init, cleanliness_closed.init⟩ h
  · rintro s a s' ⟨hsound, hs⟩ hdrop ha
    have hm := move_of_step ha
    exact ⟨hsound.move hm, hs.move cleanliness_closed hm hsound.executing (hdrop _ _ _ _)⟩
  · rintro s a s' - hdrop ha
    exact not_acquiresClean_of_drop hdrop ha

/-- One connection; a text other than `BEGIN` has no effect on transactions. -/
def beginConfig : Config := ⟨1, 0, fun query => if query = "BEGIN" then .opens else .plain⟩

/-- A pooled `BEGIN` is stepped to its end and dropped. -/
def beginRun : List (Label Unit) :=
  [.acquire (.start "BEGIN"), .work 0 true true true, .stepPooled 0 (.done [] .opened),
    .dropPooled 0 true]

theorem acquire_clean_iff_beginRun :
    ¬ (machine beginConfig).Always DropsSettled (System.init beginConfig) beginRun := by
  have hrun : ((machine beginConfig).exec (System.init beginConfig) beginRun).isSome := by decide
  intro h
  have hclean := (acquire_clean_iff beginConfig (Option.some_get hrun).symm).mpr h beginRun [] _ rfl
    (Option.some_get hrun).symm _ _ rfl
  exact absurd hclean.transaction (by decide)

theorem acquire_after_begin_in_transaction :
    ¬ ∀ (config : Config) (s : System Unit), (machine config).Reachable s → AcquiresClean s := by
  intro h
  have hrun : ((machine beginConfig).exec (System.init beginConfig) beginRun).isSome := by decide
  have hclean := h beginConfig _ ⟨beginRun, (Option.some_get hrun).symm⟩ _ _ rfl
  exact absurd hclean.transaction (by decide)

end BasicWebserver.Sqlite
