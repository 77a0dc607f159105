import Mathlib.Data.Multiset.MapFold
import Mathlib.Data.Multiset.UnionInter
import BasicWebserver.Sqlite.Leases

/-!
# Transactions and their executions

A transaction knows its active execution by a number, and the execution knows the transaction's
connection by a raw pointer. `Executing` says that the two sides always agree: the active
executions of the transactions are the live executions, each with the pointer to the connection the
transaction still owns.
-/

namespace BasicWebserver.Sqlite

open Transition

variable {W : Type} {config : Config} {s t : System W}

/-- The transaction's side of its active execution. -/
def Transaction.execution (txn : Transaction W) : Option (ℕ × UInt64 × Option ℕ) :=
  txn.activeExecution.map fun executionId =>
    (txn.id, executionId, txn.connection.map Connection.raw)

/-- The execution's side. -/
def TransactionExecution.key (e : TransactionExecution) : ℕ × UInt64 × Option ℕ :=
  (e.transaction, e.executionId, some e.connection)

structure Executing (transactions : List (Transaction W)) (executing : List TransactionExecution)
    (begun : ℕ) : Prop where
  ids : ((transactions : Multiset (Transaction W)).map Transaction.id).Nodup
  begun : ∀ txn ∈ transactions, txn.id < begun
  executions : (transactions : Multiset (Transaction W)).filterMap Transaction.execution =
    (executing : Multiset TransactionExecution).map TransactionExecution.key
  finished : ∀ txn ∈ transactions, txn.finished = txn.connection.isNone

theorem execution_of_not_refuses {txn : Transaction W} (h : txn.refuses = false) :
    txn.activeExecution = none ∧ txn.execution = none ∧ txn.finished = false := by
  unfold Transaction.refuses at h
  simp only [Bool.or_eq_false_iff, Option.isSome_eq_false_iff, Option.isNone_iff_eq_none] at h
  refine ⟨h.2, ?_, h.1.1⟩
  unfold Transaction.execution
  rw [h.2]
  rfl

namespace Executing

variable {transactions rest : List (Transaction W)} {executing executing' : List TransactionExecution}
  {begun k : ℕ} {txn txn' : Transaction W} {e : TransactionExecution}

theorem nil : Executing ([] : List (Transaction W)) [] 0 :=
  ⟨Multiset.nodup_zero, fun _ => nofun, rfl, fun _ => nofun⟩

/-! ## What the two sides know about each other -/

theorem exists_execution (h : Executing transactions executing begun) (he : e ∈ executing) :
    ∃ txn ∈ transactions, txn.execution = some e.key ∧ txn.id = e.transaction := by
  have hkey : e.key ∈ (transactions : Multiset (Transaction W)).filterMap Transaction.execution :=
    h.executions ▸ Multiset.mem_map_of_mem _ (Multiset.mem_coe.mpr he)
  obtain ⟨txn, hmem, htxn⟩ := (Multiset.mem_filterMap _ _).mp hkey
  obtain ⟨x, -, hx⟩ := Option.map_eq_some_iff.mp htxn
  exact ⟨txn, hmem, htxn, congrArg Prod.fst hx⟩

theorem execution_eq (h : Executing transactions executing begun) (he : e ∈ executing)
    (ht : txn ∈ transactions) (hid : e.transaction = txn.id) : txn.execution = some e.key := by
  obtain ⟨other, hmem, hother, hids⟩ := h.exists_execution he
  rw [hid] at hids
  -- transactions are told apart by their ids
  rw [← Multiset.inj_on_of_nodup_map h.ids other hmem txn ht hids]
  exact hother

theorem target_isSome (h : Executing transactions executing begun) (he : e ∈ executing)
    (ht : txn ∈ transactions) (hid : e.transaction = txn.id) : (e.target txn).isSome := by
  obtain ⟨x, -, hx⟩ := Option.map_eq_some_iff.mp (h.execution_eq he ht hid)
  obtain ⟨c, hc, hraw⟩ := Option.map_eq_some_iff.mp (congrArg (Prod.snd ∘ Prod.snd) hx)
  unfold TransactionExecution.target
  rw [hc, Option.filter_some, if_pos (decide_eq_true hraw)]
  rfl

theorem active_eq (h : Executing transactions executing begun) (he : e ∈ executing)
    (ht : txn ∈ transactions) (hid : e.transaction = txn.id) :
    txn.activeExecution = some e.executionId := by
  obtain ⟨x, hactive, hx⟩ := Option.map_eq_some_iff.mp (h.execution_eq he ht hid)
  rw [hactive]
  exact congrArg some (congrArg (Prod.fst ∘ Prod.snd) hx)

theorem exists_of_active (h : Executing transactions executing begun) (ht : txn ∈ transactions)
    {x : UInt64} (hactive : txn.activeExecution = some x) :
    txn.connection.isSome ∧ ∃ e ∈ executing, e.transaction = txn.id := by
  have hexecution : txn.execution = some (txn.id, x, txn.connection.map Connection.raw) := by
    unfold Transaction.execution
    rw [hactive]
    rfl
  have hmem := (Multiset.mem_filterMap _ _).mpr ⟨txn, Multiset.mem_coe.mpr ht, hexecution⟩
  rw [h.executions] at hmem
  obtain ⟨e, he, hkey⟩ := Multiset.mem_map.mp hmem
  obtain ⟨hid, hkey⟩ := Prod.mk.inj hkey
  refine ⟨?_, e, he, hid⟩
  have hraw := (Prod.mk.inj hkey).2
  rw [← Option.isSome_map, ← hraw]
  rfl

theorem active_eq_none (h : Executing transactions executing begun) (ht : txn ∈ transactions)
    (hno : ∀ e ∈ executing, e.transaction ≠ txn.id) : txn.activeExecution = none := by
  cases hactive : txn.activeExecution with
  | none => rfl
  | some x =>
    obtain ⟨-, e, he, hid⟩ := h.exists_of_active ht hactive
    exact absurd hid (hno e he)

theorem single (h : Executing transactions executing begun) :
    ((executing : Multiset TransactionExecution).map TransactionExecution.transaction).Nodup := by
  have hfst : (executing : Multiset TransactionExecution).map TransactionExecution.transaction =
      ((executing : Multiset TransactionExecution).map TransactionExecution.key).map Prod.fst := by
    rw [Multiset.map_map]
    rfl
  rw [hfst, ← h.executions]
  refine Multiset.nodup_of_le ?_ h.ids
  generalize (transactions : Multiset (Transaction W)) = m
  induction m using Multiset.induction_on with
  | empty => exact le_refl _
  | cons txn m ih =>
    cases hexecution : txn.execution with
    | none =>
      rw [Multiset.filterMap_cons_none _ _ hexecution, Multiset.map_cons]
      exact ih.trans (Multiset.le_cons_self _ _)
    | some key =>
      obtain ⟨x, -, rfl⟩ := Option.map_eq_some_iff.mp hexecution
      rw [Multiset.filterMap_cons_some _ _ _ hexecution, Multiset.map_cons, Multiset.map_cons]
      exact Multiset.cons_le_cons _ ih

theorem lt_begun (h : Executing transactions executing begun) (he : e ∈ executing) :
    e.transaction < begun := by
  obtain ⟨txn, hmem, -, hid⟩ := h.exists_execution he
  exact hid ▸ h.begun txn hmem

/-! ## Changing one transaction -/

theorem exchange (h : Executing transactions executing begun)
    (htake : Bag.takeAt transactions k = some (txn, rest)) (hid : txn'.id = txn.id)
    (hfinished : txn'.finished = txn'.connection.isNone)
    (hexecutions : (txn' ::ₘ (rest : Multiset (Transaction W))).filterMap Transaction.execution =
      (executing' : Multiset TransactionExecution).map TransactionExecution.key) :
    Executing (txn' :: rest) executing' begun where
  ids := by
    rw [← Multiset.cons_coe, Multiset.map_cons, hid, ← Multiset.map_cons, ← Bag.coe_of_takeAt htake]
    exact h.ids
  begun := by
    rintro other (_ | ⟨_, hother⟩)
    · exact hid ▸ h.begun txn (Bag.mem_of_takeAt htake)
    · exact h.begun other (Bag.mem_of_mem_rest htake hother)
  executions := hexecutions
  finished := by
    rintro other (_ | ⟨_, hother⟩)
    · exact hfinished
    · exact h.finished other (Bag.mem_of_mem_rest htake hother)

theorem update (h : Executing transactions executing begun)
    (htake : Bag.takeAt transactions k = some (txn, rest)) (hid : txn'.id = txn.id)
    (hexecution : txn'.execution = txn.execution)
    (hfinished : txn'.finished = txn'.connection.isNone) :
    Executing (txn' :: rest) executing begun := by
  refine h.exchange htake hid hfinished ?_
  rw [Multiset.filterMap_cons, hexecution, ← Multiset.filterMap_cons, ← Bag.coe_of_takeAt htake]
  exact h.executions

theorem erase (h : Executing transactions executing begun)
    (htake : Bag.takeAt transactions k = some (txn, rest)) (hactive : txn.activeExecution = none) :
    Executing rest executing begun := by
  have hexecution : txn.execution = none := by
    unfold Transaction.execution
    rw [hactive]
    rfl
  refine ⟨?_, fun other hother => h.begun other (Bag.mem_of_mem_rest htake hother), ?_,
    fun other hother => h.finished other (Bag.mem_of_mem_rest htake hother)⟩
  · have hids := h.ids
    rw [Bag.coe_of_takeAt htake, Multiset.map_cons] at hids
    exact (Multiset.nodup_cons.mp hids).2
  · rw [← h.executions, Bag.coe_of_takeAt htake, Multiset.filterMap_cons_none _ _ hexecution]

theorem start (h : Executing transactions executing begun)
    (htake : Bag.takeAt transactions k = some (txn, rest)) (hid : txn'.id = txn.id)
    (hnone : txn.execution = none) (hsome : txn'.execution = some e.key)
    (hfinished : txn'.finished = txn'.connection.isNone) :
    Executing (txn' :: rest) (e :: executing) begun := by
  refine h.exchange htake hid hfinished ?_
  rw [Multiset.filterMap_cons_some _ _ _ hsome, ← Multiset.cons_coe, Multiset.map_cons,
    ← h.executions, Bag.coe_of_takeAt htake, Multiset.filterMap_cons_none _ _ hnone]

theorem drop {j : ℕ} (h : Executing transactions executing begun)
    (he : Bag.takeAt executing j = some (e, executing'))
    (htake : Bag.takeAt transactions k = some (txn, rest)) (hid : txn'.id = txn.id)
    (hsome : txn.execution = some e.key) (hnone : txn'.execution = none)
    (hfinished : txn'.finished = txn'.connection.isNone) :
    Executing (txn' :: rest) executing' begun := by
  refine h.exchange htake hid hfinished ?_
  have hexecutions := h.executions
  rw [Bag.coe_of_takeAt htake, Multiset.filterMap_cons_some _ _ _ hsome, Bag.coe_of_takeAt he,
    Multiset.map_cons] at hexecutions
  rw [Multiset.filterMap_cons_none _ _ hnone]
  exact (Multiset.cons_inj_right _).mp hexecutions

theorem step {j : ℕ} {e' : TransactionExecution} (h : Executing transactions executing begun)
    (he : Bag.takeAt executing j = some (e, executing'))
    (htake : Bag.takeAt transactions k = some (txn, rest)) (hid : txn'.id = txn.id)
    (hkey : e'.key = e.key) (hexecution : txn'.execution = txn.execution)
    (hfinished : txn'.finished = txn'.connection.isNone) :
    Executing (txn' :: rest) (e' :: executing') begun := by
  refine h.exchange htake hid hfinished ?_
  rw [Multiset.filterMap_cons, hexecution, ← Multiset.filterMap_cons, ← Bag.coe_of_takeAt htake,
    h.executions, Bag.coe_of_takeAt he, ← Multiset.cons_coe, Multiset.map_cons, Multiset.map_cons,
    hkey]

theorem begin (h : Executing transactions executing begun) {c : Connection W} :
    Executing (⟨begun, some c, none, 1, false, false⟩ :: transactions) executing (begun + 1) where
  ids := by
    rw [← Multiset.cons_coe, Multiset.map_cons, Multiset.nodup_cons]
    refine ⟨fun hmem => ?_, h.ids⟩
    obtain ⟨other, hother, hid⟩ := Multiset.mem_map.mp hmem
    exact Nat.lt_irrefl _ (hid ▸ h.begun other hother)
  begun := by
    rintro other (_ | ⟨_, hother⟩)
    · exact Nat.lt_succ_self _
    · exact Nat.lt_succ_of_lt (h.begun other hother)
  executions := by
    rw [← Multiset.cons_coe, Multiset.filterMap_cons_none _ _ rfl]
    exact h.executions
  finished := by
    rintro other (_ | ⟨_, hother⟩)
    · rfl
    · exact h.finished other hother

end Executing

/-! ## Every label keeps them in step -/

theorem Transaction.execution_congr {txn txn' : Transaction W} (hid : txn'.id = txn.id)
    (hactive : txn'.activeExecution = txn.activeExecution)
    (hraw : txn'.connection.map Connection.raw = txn.connection.map Connection.raw) :
    txn'.execution = txn.execution := by
  unfold Transaction.execution
  rw [hid, hactive, hraw]

theorem Executing.move {a : Label W} (hm : Move config s a t)
    (h : Executing s.transactions s.executing s.begun) :
    Executing t.transactions t.executing t.begun := by
  cases hm with
  | stay | acquire | release | prepare | start | stepPooled | dropPooled | reopen | reopenFailed
  | lose | dangling => exact h
  | begin => exact h.begin
  | prepareTransaction htake hrefuses hc hstatement =>
    refine h.update htake rfl (Transaction.execution_congr rfl rfl ?_)
      (execution_of_not_refuses hrefuses).2.2
    rw [hc, Option.map_some, Option.map_some, Connection.raw_returnStatement,
      Connection.raw_takeStatement hstatement]
  | startTransaction htake hrefuses hc hstatement =>
    obtain ⟨-, hnone, hfinished⟩ := execution_of_not_refuses hrefuses
    exact h.start htake rfl hnone rfl hfinished
  | stepTransaction he htake hid hc hraw _ =>
    refine h.step he htake rfl rfl (Transaction.execution_congr rfl rfl ?_) ?_
    · rw [hc, Option.map_some, Option.map_some, Connection.raw_step]
    · exact (h.finished _ (Bag.mem_of_takeAt htake)).trans (by rw [hc]; rfl)
  | dropExecution he htake hid hc hactive =>
    refine h.drop he htake rfl (h.execution_eq (Bag.mem_of_takeAt he) (Bag.mem_of_takeAt htake) hid)
      rfl ?_
    exact (h.finished _ (Bag.mem_of_takeAt htake)).trans (by rw [hc]; rfl)
  | dropStaleExecution he htake hid hc hactive =>
    exact absurd (h.active_eq (Bag.mem_of_takeAt he) (Bag.mem_of_takeAt htake) hid) hactive
  | finishFailed htake hrefuses hc hfinish =>
    refine h.update htake rfl (Transaction.execution_congr rfl rfl ?_)
      (execution_of_not_refuses hrefuses).2.2
    rw [hc, Option.map_some, Option.map_some, Connection.raw_executeFinish hfinish]
  | finish htake hrefuses hc hfinish =>
    obtain ⟨hactive, hnone, -⟩ := execution_of_not_refuses hrefuses
    refine h.update htake rfl (Eq.trans ?_ hnone.symm) rfl
    unfold Transaction.execution
    rw [hactive]
    rfl
  | dropFinished htake hexecuting | dropReleasing htake hexecuting
  | dropClosing htake hexecuting =>
    exact h.erase htake (h.active_eq_none (Bag.mem_of_takeAt htake) hexecuting)

end BasicWebserver.Sqlite
