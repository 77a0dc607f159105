import BasicWebserver.Sqlite.Transactions

/-!
# Properties of connections by place

A connection is idle or held by a call, in a pooled execution, in a transaction without an
execution, or in a transaction that executes a statement. A `Places` gives a property for each of
these; it holds in every state if every hosted operation, seen as a function of the one connection
it works on, leads from the property of the old place to that of the new one (`Places.Closed`).
-/

namespace BasicWebserver.Sqlite

open Transition

variable {W : Type} {config : Config} {s t : System W}

structure Places (W : Type) where
  idle : Connection W → Prop
  pooled : Connection W → NativeStatement → Prop
  transaction : Connection W → Prop
  executing : Connection W → NativeStatement → Prop

namespace Places

/-- The transactions' part of `Holds`. -/
structure Transactions (P : Places W) (transactions : List (Transaction W))
    (executing : List TransactionExecution) : Prop where
  idle : ∀ txn ∈ transactions, txn.activeExecution = none →
    ∀ c, txn.connection = some c → P.transaction c
  executing : ∀ e ∈ executing, ∀ txn ∈ transactions, e.transaction = txn.id →
    ∀ c, txn.connection = some c → P.executing c e.statement

structure Holds (P : Places W) (s : System W) : Prop where
  available : ∀ c ∈ s.available, P.idle c
  calls : ∀ call ∈ s.calls, ∀ c, call.connection = some c → P.idle c
  pooled : ∀ execution ∈ s.pooled, P.pooled execution.connection execution.statement
  transactions : P.Transactions s.transactions s.executing

/-- The operations lead from place to place; `D` is known of the connection of a pooled execution
that is dropped. -/
structure Closed (P : Places W) (config : Config) (D : Connection W → Prop) : Prop where
  open_ : ∀ raw, P.idle (.open_ raw config.statementCacheCapacity)
  begin : ∀ {c c' ok}, P.idle c → c.executeBegin ok = some c' → P.transaction c'
  prepare : ∀ {c c' query prepared statement reset}, P.idle c →
    c.takeStatement query prepared = some (statement, c') → P.idle (c'.returnStatement statement reset)
  start : ∀ {c c' query prepared statement}, P.idle c →
    c.takeStatement query prepared = some (statement, c') →
    P.pooled { c' with progressHandler := true } statement
  step : ∀ {c statement outcome}, P.pooled c statement →
    P.pooled (c.step outcome).1 { statement with stepped := true }
  drop : ∀ {c statement reset}, D c → P.pooled c statement →
    P.idle ({ c with progressHandler := false : Connection W }.returnStatement statement reset)
  prepareTransaction : ∀ {c c' query prepared statement reset}, P.transaction c →
    c.takeStatement query prepared = some (statement, c') →
    P.transaction (c'.returnStatement statement reset)
  startTransaction : ∀ {c c' query prepared statement}, P.transaction c →
    c.takeStatement query prepared = some (statement, c') →
    P.executing { c' with progressHandler := true } statement
  stepTransaction : ∀ {c statement outcome}, P.executing c statement →
    P.executing (c.step outcome).1 { statement with stepped := true }
  dropTransaction : ∀ {c statement reset}, P.executing c statement → P.transaction
    ({ c with progressHandler := false : Connection W }.returnStatement statement reset)
  finish : ∀ {c c' commit outcome writes}, P.transaction c →
    c.executeFinish commit outcome = (true, c', writes) → P.idle c'
  finishFailed : ∀ {c c' commit outcome writes}, P.transaction c →
    c.executeFinish commit outcome = (false, c', writes) → P.transaction c'

variable {P : Places W} {D : Connection W → Prop}

/-! ## One transaction changes -/

namespace Transactions

variable {transactions rest : List (Transaction W)} {executing executing' : List TransactionExecution}
  {begun k : ℕ} {txn txn' : Transaction W} {e : TransactionExecution}

theorem exchange (h : P.Transactions transactions executing)
    (htake : Bag.takeAt transactions k = some (txn, rest))
    (hnew : Executing (txn' :: rest) executing' begun)
    (hexecuting : ∀ e ∈ executing', e ∈ executing ∨ e.transaction = txn'.id)
    (hidle : txn'.activeExecution = none → ∀ c, txn'.connection = some c → P.transaction c)
    (hactive : ∀ e ∈ executing', e.transaction = txn'.id →
      ∀ c, txn'.connection = some c → P.executing c e.statement) :
    P.Transactions (txn' :: rest) executing' where
  idle := by
    rintro other (_ | ⟨_, hother⟩)
    · exact hidle
    · exact h.idle other (Bag.mem_of_mem_rest htake hother)
  executing := by
    rintro e he other (_ | ⟨_, hother⟩) hid
    · exact hactive e he hid
    · rcases hexecuting e he with hold | hid'
      · exact h.executing e hold other (Bag.mem_of_mem_rest htake hother) hid
      · -- two transactions would have the id of `txn'`
        have hids := hnew.ids
        rw [← Multiset.cons_coe, Multiset.map_cons, Multiset.nodup_cons] at hids
        refine absurd (Multiset.mem_map_of_mem Transaction.id (Multiset.mem_coe.mpr hother)) ?_
        rw [← hid, hid']
        exact hids.1

theorem exchange_idle (h : P.Transactions transactions executing)
    (htake : Bag.takeAt transactions k = some (txn, rest))
    (hnew : Executing (txn' :: rest) executing' begun) (hsub : ∀ e ∈ executing', e ∈ executing)
    (hnone : txn'.activeExecution = none) (hidle : ∀ c, txn'.connection = some c → P.transaction c) :
    P.Transactions (txn' :: rest) executing' := by
  refine h.exchange htake hnew (fun e he => .inl (hsub e he)) (fun _ => hidle) fun e he hid => ?_
  have := hnew.active_eq he List.mem_cons_self hid
  rw [hnone] at this
  cases this

theorem exchange_executing {c : Connection W} (h : P.Transactions transactions executing)
    (htake : Bag.takeAt transactions k = some (txn, rest))
    (hnew : Executing (txn' :: rest) (e :: executing') begun)
    (hsub : ∀ e ∈ executing', e ∈ executing) (hid : e.transaction = txn'.id)
    (hc : txn'.connection = some c) (hactive : P.executing c e.statement) :
    P.Transactions (txn' :: rest) (e :: executing') := by
  have hsome := hnew.active_eq List.mem_cons_self List.mem_cons_self hid
  refine h.exchange htake hnew ?_ (fun hnone => ?_) ?_
  · rintro other (_ | ⟨_, hother⟩)
    · exact .inr hid
    · exact .inl (hsub other hother)
  · rw [hsome] at hnone
    cases hnone
  · rintro other (_ | ⟨_, hother⟩) hid' c' hc'
    · rw [hc] at hc'
      cases hc'
      exact hactive
    · -- two executions would have the transaction
      have hsingle := hnew.single
      rw [← Multiset.cons_coe, Multiset.map_cons, Multiset.nodup_cons] at hsingle
      refine absurd (Multiset.mem_map_of_mem TransactionExecution.transaction
        (Multiset.mem_coe.mpr hother)) ?_
      rw [hid', ← hid]
      exact hsingle.1

theorem erase (h : P.Transactions transactions executing)
    (htake : Bag.takeAt transactions k = some (txn, rest)) : P.Transactions rest executing :=
  ⟨fun other hother => h.idle other (Bag.mem_of_mem_rest htake hother),
    fun e he other hother => h.executing e he other (Bag.mem_of_mem_rest htake hother)⟩

end Transactions

/-! ## Every label -/

namespace Holds

variable {j : ℕ} {c : Connection W} {call : Call W} {calls : List (Call W)}

theorem of_call (h : P.Holds s) (htake : Bag.takeAt s.calls j = some (call, calls))
    (hc : call.connection = some c) : P.idle c :=
  h.calls call (Bag.mem_of_takeAt htake) c hc

theorem calls_rest (h : P.Holds s) (htake : Bag.takeAt s.calls j = some (call, calls)) :
    ∀ call ∈ calls, ∀ c, call.connection = some c → P.idle c :=
  fun call hcall => h.calls call (Bag.mem_of_mem_rest htake hcall)

theorem pooled_rest {execution : PooledExecution W} {pooled : List (PooledExecution W)}
    (h : P.Holds s) (htake : Bag.takeAt s.pooled j = some (execution, pooled)) :
    ∀ execution ∈ pooled, P.pooled execution.connection execution.statement :=
  fun execution he => h.pooled execution (Bag.mem_of_mem_rest htake he)

theorem cons_call {call : Call W} (hcall : ∀ c, call.connection = some c → P.idle c)
    (hcalls : ∀ call ∈ calls, ∀ c, call.connection = some c → P.idle c) :
    ∀ other ∈ call :: calls, ∀ c, other.connection = some c → P.idle c :=
  List.forall_mem_cons.mpr ⟨hcall, hcalls⟩

theorem move {a : Label W} (hP : P.Closed config D) (hm : Move config s a t) (h : P.Holds s)
    (hs : Executing s.transactions s.executing s.begun)
    (hD : ∀ {j reset execution pooled}, a = .dropPooled j reset →
      Bag.takeAt s.pooled j = some (execution, pooled) → D execution.connection) : P.Holds t := by
  have hnew := hs.move hm
  cases hm with
  | stay | dangling => exact { h with }
  | acquire havailable =>
    rename_i c available purpose
    obtain ⟨hc, hrest⟩ := List.forall_mem_cons.mp (havailable ▸ h.available)
    exact { h with
      available := hrest
      calls := cons_call (fun _ hother => Option.some.inj hother ▸ hc) h.calls }
  | release htake hcall =>
    exact { h with
      available := List.forall_mem_cons.mpr ⟨h.of_call htake hcall, h.available⟩
      calls := h.calls_rest htake }
  | prepare htake hstatement =>
    exact { h with
      available := List.forall_mem_cons.mpr
        ⟨hP.prepare (h.of_call htake rfl) hstatement, h.available⟩
      calls := h.calls_rest htake }
  | start htake hstatement =>
    exact { h with
      calls := h.calls_rest htake
      pooled := List.forall_mem_cons.mpr ⟨hP.start (h.of_call htake rfl) hstatement, h.pooled⟩ }
  | begin htake hbegin =>
    refine { h with
      calls := h.calls_rest htake
      transactions := ⟨List.forall_mem_cons.mpr ⟨fun _ c hc => ?_, h.transactions.idle⟩, ?_⟩ }
    · exact Option.some.inj hc ▸ hP.begin (h.of_call htake rfl) hbegin
    · refine fun e he => List.forall_mem_cons.mpr ⟨fun hid => ?_, h.transactions.executing e he⟩
      exact absurd hid (Nat.ne_of_lt (hs.lt_begun he))
  | stepPooled htake _ =>
    exact { h with
      pooled := List.forall_mem_cons.mpr
        ⟨hP.step (h.pooled _ (Bag.mem_of_takeAt htake)), h.pooled_rest htake⟩ }
  | dropPooled htake =>
    exact { h with
      available := List.forall_mem_cons.mpr
        ⟨hP.drop (hD rfl htake) (h.pooled _ (Bag.mem_of_takeAt htake)), h.available⟩
      pooled := h.pooled_rest htake }
  | reopen htake =>
    exact { h with
      calls := cons_call (fun _ hother => Option.some.inj hother ▸ hP.open_ _)
        (h.calls_rest htake) }
  | reopenFailed htake => exact { h with calls := cons_call (fun _ => nofun) (h.calls_rest htake) }
  | lose htake => exact { h with calls := h.calls_rest htake }
  | prepareTransaction htake hrefuses hc hstatement =>
    have hnone := (execution_of_not_refuses hrefuses).1
    have hold := h.transactions.idle _ (Bag.mem_of_takeAt htake) hnone _ hc
    exact { h with
      transactions := h.transactions.exchange_idle htake hnew (fun _ => id) hnone fun _ hother =>
        Option.some.inj hother ▸ hP.prepareTransaction hold hstatement }
  | startTransaction htake hrefuses hc hstatement =>
    have hnone := (execution_of_not_refuses hrefuses).1
    have hold := h.transactions.idle _ (Bag.mem_of_takeAt htake) hnone _ hc
    exact { h with
      transactions := h.transactions.exchange_executing htake hnew (fun _ => id) rfl rfl
        (hP.startTransaction hold hstatement) }
  | stepTransaction he htake hid hc _ _ =>
    have hold := h.transactions.executing _ (Bag.mem_of_takeAt he) _ (Bag.mem_of_takeAt htake) hid
      _ hc
    exact { h with
      transactions := h.transactions.exchange_executing htake hnew
        (fun _ => Bag.mem_of_mem_rest he) hid rfl (hP.stepTransaction hold) }
  | dropExecution he htake hid hc _ =>
    have hold := h.transactions.executing _ (Bag.mem_of_takeAt he) _ (Bag.mem_of_takeAt htake) hid
      _ hc
    exact { h with
      transactions := h.transactions.exchange_idle htake hnew (fun _ => Bag.mem_of_mem_rest he) rfl
        fun _ hother => Option.some.inj hother ▸ hP.dropTransaction hold }
  | dropStaleExecution he htake hid _ hactive =>
    exact absurd (hs.active_eq (Bag.mem_of_takeAt he) (Bag.mem_of_takeAt htake) hid) hactive
  | finishFailed htake hrefuses hc hfinish =>
    have hnone := (execution_of_not_refuses hrefuses).1
    have hold := h.transactions.idle _ (Bag.mem_of_takeAt htake) hnone _ hc
    exact { h with
      transactions := h.transactions.exchange_idle htake hnew (fun _ => id) hnone fun _ hother =>
        Option.some.inj hother ▸ hP.finishFailed hold hfinish }
  | finish htake hrefuses hc hfinish =>
    have hnone := (execution_of_not_refuses hrefuses).1
    have hold := h.transactions.idle _ (Bag.mem_of_takeAt htake) hnone _ hc
    exact { h with
      calls := cons_call (fun _ hother => Option.some.inj hother ▸ hP.finish hold hfinish) h.calls
      transactions := h.transactions.exchange_idle htake hnew (fun _ => id) hnone fun _ => nofun }
  | dropFinished htake _ _ => exact { h with transactions := h.transactions.erase htake }
  | dropReleasing htake hexecuting hc hfinish =>
    have hmem := Bag.mem_of_takeAt htake
    have hold := h.transactions.idle _ hmem (hs.active_eq_none hmem hexecuting) _ hc
    refine { h with
      calls := cons_call (fun _ hother => Option.some.inj hother ▸ ?_) h.calls
      transactions := h.transactions.erase htake }
    obtain ⟨hfinished, -⟩ | ⟨writes, hfinish⟩ := hfinish
    · -- a finished transaction has no connection
      rw [hs.finished _ hmem, hc] at hfinished
      cases hfinished
    · exact hP.finish hold hfinish
  | dropClosing htake _ _ _ =>
    exact { h with
      calls := cons_call (fun _ => nofun) h.calls
      transactions := h.transactions.erase htake }

end Holds

end Places

end BasicWebserver.Sqlite
