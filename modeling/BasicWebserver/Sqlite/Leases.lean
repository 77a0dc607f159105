import Mathlib.Data.Multiset.Bind
import Mathlib.Tactic.Abel
import BasicWebserver.Foundation.Lending
import BasicWebserver.Foundation.Ownership
import BasicWebserver.Sqlite.Moves

/-!
# Leases

The pool lends its connections to pooled executions, transactions and calls in progress. Every
label is a move of `Lending`, or none, on the raw handles, and `leased` counts the leases.
-/

namespace BasicWebserver.Sqlite

open Transition

variable {W : Type} {config : Config} {s t : System W}

/-! ## Raw handles -/

namespace Connection

variable {c c' : Connection W} {query : String} {statement : NativeStatement} {prepared ok : Bool}

@[simp] theorem raw_settle (c : Connection W) : c.settle.raw = c.raw := rfl

@[simp] theorem raw_returnStatement (c : Connection W) (statement : NativeStatement) (ok : Bool) :
    (c.returnStatement statement ok).raw = c.raw := by
  grind [returnStatement, settle]

theorem raw_takeStatement (h : c.takeStatement query prepared = some (statement, c')) :
    c'.raw = c.raw := by
  grind [takeStatement]

theorem raw_executeBegin (h : c.executeBegin ok = some c') : c'.raw = c.raw := by
  grind [executeBegin]

@[simp] theorem raw_control (c : Connection W) (effect : Control) :
    (c.control effect).1.raw = c.raw := by
  cases effect <;> rfl

@[simp] theorem raw_step (c : Connection W) (outcome : StepOutcome W) :
    (c.step outcome).1.raw = c.raw := by
  cases outcome with
  | row writes => rfl
  | done writes effect => exact raw_control _ _
  | failed rolledBack => rfl

theorem raw_executeFinish {commit finished : Bool} {outcome : ControlOutcome} {writes : List W}
    (h : c.executeFinish commit outcome = (finished, c', writes)) : c'.raw = c.raw := by
  cases outcome <;> grind [executeFinish]

end Connection

/-! ## The leases of a system -/

def Transaction.lease (t : Transaction W) : Multiset (Option ℕ) :=
  match t.connection with
  | none => 0
  | some connection => {some connection.raw}

def Call.lease (call : Call W) : Option ℕ := call.connection.map Connection.raw

/-- The leases of pooled executions, transactions and calls. -/
def leasesOf (pooled : List (PooledExecution W)) (transactions : List (Transaction W))
    (calls : List (Call W)) : Multiset (Option ℕ) :=
  (pooled : Multiset (PooledExecution W)).map (fun execution => some execution.connection.raw) +
    (transactions : Multiset (Transaction W)).bind Transaction.lease +
    (calls : Multiset (Call W)).map Call.lease

def System.leases (s : System W) : Multiset (Option ℕ) :=
  leasesOf s.pooled s.transactions s.calls

def System.lending (s : System W) : Lending where
  idle := (s.available : Multiset (Connection W)).map Connection.raw
  leases := s.leases
  closed := s.closed
  opened := s.opened
  lost := s.failedReopens

section Leases

variable (pooled : List (PooledExecution W)) (transactions : List (Transaction W))
  (calls : List (Call W))

theorem leasesOf_cons_pooled (execution : PooledExecution W) :
    leasesOf (execution :: pooled) transactions calls =
      some execution.connection.raw ::ₘ leasesOf pooled transactions calls := by
  unfold leasesOf
  rw [← Multiset.cons_coe, Multiset.map_cons, Multiset.cons_add, Multiset.cons_add]

theorem leasesOf_cons_transactions (txn : Transaction W) :
    leasesOf pooled (txn :: transactions) calls =
      txn.lease + leasesOf pooled transactions calls := by
  unfold leasesOf
  rw [← Multiset.cons_coe, Multiset.cons_bind]
  abel

theorem leasesOf_cons_calls (call : Call W) :
    leasesOf pooled transactions (call :: calls) =
      call.lease ::ₘ leasesOf pooled transactions calls := by
  unfold leasesOf
  rw [← Multiset.cons_coe, Multiset.map_cons, Multiset.add_cons]

variable {pooled transactions calls}

theorem leases_of_pooled {j : ℕ} {execution : PooledExecution W}
    (h : Bag.takeAt s.pooled j = some (execution, pooled)) :
    s.leases = some execution.connection.raw ::ₘ leasesOf pooled s.transactions s.calls := by
  unfold System.leases
  rw [← leasesOf_cons_pooled, leasesOf, Bag.coe_of_takeAt h]
  rfl

theorem leases_of_transactions {k : ℕ} {txn : Transaction W}
    (h : Bag.takeAt s.transactions k = some (txn, transactions)) :
    s.leases = txn.lease + leasesOf s.pooled transactions s.calls := by
  unfold System.leases
  rw [← leasesOf_cons_transactions, leasesOf, Bag.coe_of_takeAt h]
  rfl

theorem leases_of_calls {j : ℕ} {call : Call W}
    (h : Bag.takeAt s.calls j = some (call, calls)) :
    s.leases = call.lease ::ₘ leasesOf s.pooled s.transactions calls := by
  unfold System.leases
  rw [← leasesOf_cons_calls, leasesOf, Bag.coe_of_takeAt h]
  rfl

end Leases

theorem Transaction.lease_of_connection {txn : Transaction W} {c : Connection W}
    (h : txn.connection = some c) : txn.lease = {some c.raw} := by
  unfold Transaction.lease
  rw [h]

theorem Transaction.lease_of_none {txn : Transaction W} (h : txn.connection = none) :
    txn.lease = 0 := by
  unfold Transaction.lease
  rw [h]

theorem lending_of_leases {leases : Multiset (Option ℕ)} (h : s.leases = leases) :
    s.lending = ⟨(s.available : Multiset (Connection W)).map Connection.raw, leases, s.closed,
      s.opened, s.failedReopens⟩ := by
  rw [← h]
  rfl

/-! ## Moves -/

/-- The label moves leases as a pool may, and `leased` keeps counting them. -/
structure Lends (s t : System W) : Prop where
  step : Lending.Step s.lending t.lending
  leased : s.leased = s.leases.card → t.leased = t.leases.card

namespace Lends

theorem refl (s : System W) : Lends s s := ⟨.stay _, id⟩

theorem broken (s : System W) : Lends s { s with broken := true } := ⟨.stay _, id⟩

theorem of_step {l l' : Lending} (hstep : Lending.Step l l') (hs : s.lending = l)
    (ht : t.lending = l') (hleased : s.leased = s.leases.card → t.leased = t.leases.card) :
    Lends s t :=
  ⟨hs ▸ ht ▸ hstep, hleased⟩

end Lends

/-- The state of a call that has taken the lease `lease` out of the system. -/
structure Borrowed (lease : Option ℕ) (s s' : System W) : Prop where
  leases : s.leases = lease ::ₘ s'.leases
  available : s'.available = s.available
  closed : s'.closed = s.closed
  opened : s'.opened = s.opened
  failedReopens : s'.failedReopens = s.failedReopens
  leased : s'.leased = s.leased

namespace Borrowed

variable {s' : System W} {lease : Option ℕ} {raw : ℕ} {c : Connection W}

theorem of_pooled {j : ℕ} {execution : PooledExecution W} {pooled : List (PooledExecution W)}
    (h : Bag.takeAt s.pooled j = some (execution, pooled)) :
    Borrowed (some execution.connection.raw) s { s with pooled } :=
  ⟨leases_of_pooled h, rfl, rfl, rfl, rfl, rfl⟩

theorem of_calls {j : ℕ} {call : Call W} {calls : List (Call W)}
    (h : Bag.takeAt s.calls j = some (call, calls)) : Borrowed call.lease s { s with calls } :=
  ⟨leases_of_calls h, rfl, rfl, rfl, rfl, rfl⟩

theorem of_transactions {k : ℕ} {txn : Transaction W} {transactions : List (Transaction W)}
    (h : Bag.takeAt s.transactions k = some (txn, transactions))
    (hc : txn.connection = some c) : Borrowed (some c.raw) s { s with transactions } := by
  refine ⟨?_, rfl, rfl, rfl, rfl, rfl⟩
  rw [leases_of_transactions h, Transaction.lease_of_connection hc]
  exact Multiset.singleton_add _ _

theorem commit (h : Borrowed lease s s') (owner : Option ℕ) (writes : List W) :
    Borrowed lease s (s'.commit owner writes) :=
  { h with }

theorem lending (h : Borrowed lease s s') :
    s.lending = ⟨(s'.available : Multiset (Connection W)).map Connection.raw,
      lease ::ₘ s'.leases, s'.closed, s'.opened, s'.failedReopens⟩ := by
  rw [h.available, h.closed, h.opened, h.failedReopens, ← h.leases]
  rfl

theorem leased_eq {lease' : Option ℕ} (h : Borrowed lease s s')
    (ht : t.leases = lease' ::ₘ s'.leases) (hl : t.leased = s'.leased)
    (hleased : s.leased = s.leases.card) : t.leased = t.leases.card := by
  rw [hl, h.leased, hleased, h.leases, ht, Multiset.card_cons, Multiset.card_cons]

theorem stay (h : Borrowed lease s s') (ht : t.leases = lease ::ₘ s'.leases)
    (hkeep : t.available = s'.available ∧ t.closed = s'.closed ∧ t.opened = s'.opened ∧
      t.failedReopens = s'.failedReopens ∧ t.leased = s'.leased) : Lends s t := by
  obtain ⟨ha, hc, ho, hf, hl⟩ := hkeep
  have hlending : t.lending = s.lending := by
    rw [h.lending, lending_of_leases ht, ha, hc, ho, hf]
  exact ⟨hlending ▸ .stay _, h.leased_eq ht hl⟩

theorem release (h : Borrowed (some raw) s s') (hraw : c.raw = raw) : Lends s (release c s') := by
  subst hraw
  refine .of_step (.giveBack _ _ _ _ _ _) h.lending rfl fun hleased => ?_
  show s'.leased - 1 = s'.leases.card
  rw [h.leased, hleased, h.leases, Multiset.card_cons, Nat.add_sub_cancel]

theorem giveBack {statement : NativeStatement} {reset : Bool} (h : Borrowed (some raw) s s')
    (hraw : c.raw = raw) : Lends s (giveBack c statement reset s') :=
  (h.commit _ _).release (by rw [Connection.raw_returnStatement, hraw])

theorem keep {txn : Transaction W} (h : Borrowed (some raw) s s')
    (hc : txn.connection = some c) (hraw : c.raw = raw)
    (ht : t.leases = leasesOf s'.pooled (txn :: s'.transactions) s'.calls)
    (hkeep : t.available = s'.available ∧ t.closed = s'.closed ∧ t.opened = s'.opened ∧
      t.failedReopens = s'.failedReopens ∧ t.leased = s'.leased) : Lends s t := by
  refine h.stay ?_ hkeep
  rw [ht, leasesOf_cons_transactions, Transaction.lease_of_connection hc, hraw,
    Multiset.singleton_add]
  rfl

end Borrowed

theorem lends_of_move {a : Label W} (h : Move config s a t) : Lends s t := by
  cases h with
  | stay => exact .refl s
  | acquire havailable =>
    rename_i c available purpose
    have hs : s.lending = ⟨c.raw ::ₘ (available : Multiset (Connection W)).map Connection.raw,
        s.leases, s.closed, s.opened, s.failedReopens⟩ := by
      unfold System.lending
      rw [havailable, ← Multiset.cons_coe, Multiset.map_cons]
    have ht := leasesOf_cons_calls s.pooled s.transactions s.calls (.acquired c purpose)
    refine .of_step (.lend _ _ _ _ _ _) hs (lending_of_leases ht) fun hleased => ?_
    exact (congrArg (· + 1) hleased).trans ((congrArg _ ht).trans (Multiset.card_cons _ _)).symm
  | release htake hcall =>
    have hb := Borrowed.of_calls htake
    unfold Call.lease at hb
    rw [hcall] at hb
    exact hb.release rfl
  | prepare htake hstatement =>
    exact (Borrowed.of_calls htake).giveBack (Connection.raw_takeStatement hstatement)
  | start htake hstatement =>
    refine (Borrowed.of_calls htake).stay ?_ ⟨rfl, rfl, rfl, rfl, rfl⟩
    have hraw := Connection.raw_takeStatement hstatement
    exact (leasesOf_cons_pooled _ _ _ _).trans (congrArg (some · ::ₘ _) hraw)
  | begin htake hbegin =>
    exact (Borrowed.of_calls htake).keep rfl (Connection.raw_executeBegin hbegin) rfl
      ⟨rfl, rfl, rfl, rfl, rfl⟩
  | stepPooled htake _ =>
    refine (Borrowed.of_pooled htake).stay ?_ ⟨rfl, rfl, rfl, rfl, rfl⟩
    refine (leasesOf_cons_pooled _ _ _ _).trans ?_
    exact congrArg (some · ::ₘ _) (Connection.raw_step _ _)
  | dropPooled htake => exact (Borrowed.of_pooled htake).giveBack rfl
  | reopen htake =>
    rename_i j calls
    have hb := Borrowed.of_calls htake
    have ht := leasesOf_cons_calls s.pooled s.transactions calls
      (.replacing (some (.open_ s.opened config.statementCacheCapacity)))
    exact .of_step (.replace _ _ _ _ _) hb.lending (lending_of_leases ht) (hb.leased_eq ht rfl)
  | reopenFailed htake =>
    exact (Borrowed.of_calls htake).stay (leasesOf_cons_calls _ _ _ _)
      ⟨rfl, rfl, rfl, rfl, rfl⟩
  | lose htake =>
    have hb := Borrowed.of_calls htake
    refine .of_step (.lose _ _ _ _ _) hb.lending rfl fun hleased => ?_
    exact (congrArg (· - 1) (hleased.trans (congrArg _ hb.leases))).trans
      (by rw [Multiset.card_cons]; rfl)
  | prepareTransaction htake _ hc hstatement =>
    refine (Borrowed.of_transactions htake hc).keep rfl ?_ rfl ⟨rfl, rfl, rfl, rfl, rfl⟩
    rw [Connection.raw_returnStatement, Connection.raw_takeStatement hstatement]
  | startTransaction htake _ hc hstatement =>
    have hraw := Connection.raw_takeStatement hstatement
    refine (Borrowed.of_transactions htake hc).keep rfl ?_ rfl ⟨rfl, rfl, rfl, rfl, rfl⟩
    exact hraw
  | dangling => exact .broken s
  | stepTransaction _ htake _ hc =>
    exact (Borrowed.of_transactions htake hc).keep rfl (Connection.raw_step _ _) rfl
      ⟨rfl, rfl, rfl, rfl, rfl⟩
  | dropExecution _ htake _ hc =>
    refine (Borrowed.of_transactions htake hc).keep rfl ?_ rfl ⟨rfl, rfl, rfl, rfl, rfl⟩
    exact Connection.raw_returnStatement _ _ _
  | dropStaleExecution _ htake _ hc =>
    refine (Borrowed.of_transactions htake hc).keep rfl ?_ rfl ⟨rfl, rfl, rfl, rfl, rfl⟩
    exact Connection.raw_settle _
  | finishFailed htake _ hc hfinish =>
    exact (Borrowed.of_transactions htake hc).keep rfl (Connection.raw_executeFinish hfinish)
      rfl ⟨rfl, rfl, rfl, rfl, rfl⟩
  | finish htake _ hc hfinish =>
    refine (Borrowed.of_transactions htake hc).stay ?_ ⟨rfl, rfl, rfl, rfl, rfl⟩
    refine (leasesOf_cons_transactions _ _ _ _).trans ?_
    rw [Transaction.lease_of_none rfl, zero_add]
    have hraw := Connection.raw_executeFinish hfinish
    exact (leasesOf_cons_calls _ _ _ _).trans (congrArg (some · ::ₘ _) hraw)
  | dropFinished htake _ hc =>
    have hs := leases_of_transactions htake
    rw [Transaction.lease_of_none hc, zero_add] at hs
    exact .of_step (.stay _) (lending_of_leases hs) rfl (·.trans (congrArg _ hs))
  | dropReleasing htake _ hc hfinish =>
    refine (Borrowed.of_transactions htake hc).stay ?_ ⟨rfl, rfl, rfl, rfl, rfl⟩
    refine (leasesOf_cons_calls _ _ _ _).trans (congrArg (some · ::ₘ _) ?_)
    obtain ⟨-, rfl⟩ | ⟨writes, hfinish⟩ := hfinish
    · rfl
    · exact Connection.raw_executeFinish hfinish
  | dropClosing htake _ hc hfinish =>
    rename_i txn c c' writes transactions _
    have hb := Borrowed.of_transactions htake hc
    have ht := leasesOf_cons_calls s.pooled transactions s.calls .reopening
    rw [← Connection.raw_executeFinish hfinish] at hb
    exact .of_step (.close _ _ _ _ _ _) hb.lending (lending_of_leases ht) (hb.leased_eq ht rfl)

end BasicWebserver.Sqlite
