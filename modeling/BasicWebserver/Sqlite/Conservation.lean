import BasicWebserver.Sqlite.Cache

/-!
# Lease conservation

Every reachable state of a pool accounts for its connections: each open connection has one owner,
`leased` counts the leases, places in the pool are lost only by a replacement that could not be
opened, and the assertions of the source hold.
-/

namespace BasicWebserver.Sqlite

open Transition

variable {W : Type} {config : Config} {s t : System W}

/-! ## The invariant -/

structure Sound (config : Config) (s : System W) : Prop where
  conserved : s.lending.Conserved config.size
  leased : s.leased = s.leases.card
  executing : Executing s.transactions s.executing s.begun
  broken : s.broken = false

theorem lending_init :
    (System.init config : System W).lending = ⟨Multiset.range config.size, 0, 0, config.size, 0⟩ := by
  have hidle : ((System.init config : System W).available : Multiset (Connection W)).map
      Connection.raw = Multiset.range config.size := by
    unfold System.init
    rw [Multiset.map_coe, List.map_map, Multiset.range, Multiset.coe_eq_coe]
    exact ((List.reverse_perm _).map _).trans (.of_eq (List.map_id _))
  unfold System.lending
  rw [hidle]
  rfl

theorem sound_init : Sound config (System.init config : System W) where
  conserved := lending_init ▸ Lending.conserved_full config.size
  leased := rfl
  executing := .nil
  broken := rfl

theorem Borrowed.leased_ne_zero {lease : Option ℕ} {s' : System W} (h : Borrowed lease s s')
    (hleased : s.leased = s.leases.card) : s.leased ≠ 0 := by
  rw [hleased, h.leases, Multiset.card_cons]
  exact Nat.succ_ne_zero _

theorem Sound.broken_of_move {a : Label W} (h : Sound config s) (hm : Move config s a t) :
    t.broken = false := by
  have hend : ∀ {lease : Option ℕ} {s' : System W}, Borrowed lease s s' →
      (s.broken || decide (s.leased = 0)) = false := fun hb => by
    rw [h.broken, decide_eq_false (hb.leased_ne_zero h.leased)]
    rfl
  cases hm with
  | release htake _ | prepare htake _ | lose htake => exact hend (.of_calls htake)
  | dropPooled htake => exact hend (.of_pooled htake)
  | dangling he htake hid htarget =>
    have hsome := h.executing.target_isSome (Bag.mem_of_takeAt he) (Bag.mem_of_takeAt htake) hid
    rw [htarget] at hsome
    cases hsome
  | _ => exact h.broken

theorem Sound.move {a : Label W} (h : Sound config s) (hm : Move config s a t) : Sound config t where
  conserved := h.conserved.step (lends_of_move hm).step
  leased := (lends_of_move hm).leased h.leased
  executing := h.executing.move hm
  broken := h.broken_of_move hm

theorem sound_of_reachable (h : (machine config).Reachable s) : Sound config s :=
  (machine config).invariant sound_init (fun _ _ _ hs ha => hs.move (move_of_step ha)) h

theorem Places.Closed.init {P : Places W} {D : Connection W → Prop} (hP : P.Closed config D) :
    P.Holds (System.init config) := by
  refine ⟨fun c hc => ?_, fun _ => nofun, fun _ => nofun, ⟨fun _ => nofun, fun _ => nofun⟩⟩
  obtain ⟨raw, -, rfl⟩ := List.mem_map.mp hc
  exact hP.open_ raw

theorem Places.holds_of_reachable {P : Places W} (hP : P.Closed config fun _ => True)
    (h : (machine config).Reachable s) : P.Holds s := by
  refine (Machine.invariant (machine config) (P := fun s => Sound config s ∧ P.Holds s)
    ⟨sound_init, hP.init⟩ ?_ h).2
  rintro s a t ⟨hsound, hs⟩ ha
  have hm := move_of_step ha
  exact ⟨hsound.move hm, hs.move hP hm hsound.executing fun _ _ => trivial⟩

/-! ## Owners -/

/-- Who can own a connection. -/
inductive Owner (W : Type)
  | idle
  | execution (execution : PooledExecution W)
  | transaction (txn : Transaction W)
  | call (call : Call W)

/-- The owners of the connection with the given handle. -/
def System.owners (s : System W) (raw : ℕ) : List (Owner W) :=
  (s.available.filter fun c => c.raw = raw).map (fun _ => .idle) ++
    (s.pooled.filter fun execution => execution.connection.raw = raw).map .execution ++
    (s.transactions.filter fun txn => txn.connection.any (·.raw = raw)).map .transaction ++
    (s.calls.filter fun call => call.connection.any (·.raw = raw)).map .call

/-- The open connections outside the idle list. -/
def System.outside (s : System W) : List (Connection W) :=
  s.pooled.map PooledExecution.connection ++ s.transactions.filterMap Transaction.connection ++
    s.calls.filterMap Call.connection

/-- The calls of `discard` that have closed their connection and have no replacement. -/
def System.discards (s : System W) : ℕ := (s.calls.filter (·.connection.isNone)).length

theorem count_map_coe {α β : Type} [DecidableEq β] {l : List α} {f : α → β} {b : β}
    {p : α → Bool} (h : ∀ x, p x = true ↔ f x = b) :
    ((l : Multiset α).map f).count b = (l.filter p).length := by
  rw [Multiset.count_map, Multiset.filter_coe, Multiset.coe_card]
  refine congrArg _ (List.filter_congr fun x _ => ?_)
  rw [Bool.eq_iff_iff, decide_eq_true_iff, h, eq_comm]

theorem any_raw_iff (c : Option (Connection W)) (raw : ℕ) :
    c.any (·.raw = raw) = true ↔ c.map Connection.raw = some raw := by
  cases c <;> simp

theorem count_transactions (transactions : List (Transaction W)) (raw : ℕ) :
    ((transactions : Multiset (Transaction W)).bind Transaction.lease).count (some raw) =
      (transactions.filter fun txn => txn.connection.any (·.raw = raw)).length := by
  induction transactions with
  | nil => rfl
  | cons txn transactions ih =>
    rw [← Multiset.cons_coe, Multiset.cons_bind, Multiset.count_add, ih, List.filter_cons]
    cases hc : txn.connection with
    | none =>
      rw [Transaction.lease_of_none hc, Multiset.count_zero, Nat.zero_add]
      rfl
    | some c =>
      rw [Transaction.lease_of_connection hc, Multiset.count_singleton]
      by_cases hraw : c.raw = raw
      · simp [hraw, Nat.add_comm]
      · simp [hraw, Ne.symm hraw]

theorem length_owners (s : System W) (raw : ℕ) :
    (s.owners raw).length = s.lending.idle.count raw + s.lending.leases.count (some raw) := by
  have hidle : s.lending.idle.count raw = (s.available.filter fun c => c.raw = raw).length :=
    count_map_coe fun c => decide_eq_true_iff
  have hpooled : ((s.pooled : Multiset (PooledExecution W)).map fun execution =>
      some execution.connection.raw).count (some raw) =
        (s.pooled.filter fun execution => execution.connection.raw = raw).length :=
    count_map_coe fun execution => by rw [decide_eq_true_iff, Option.some.injEq]
  have hcalls : ((s.calls : Multiset (Call W)).map Call.lease).count (some raw) =
      (s.calls.filter fun call => call.connection.any (·.raw = raw)).length :=
    count_map_coe fun call => any_raw_iff _ _
  have hleases : s.lending.leases.count (some raw) = _ + _ + _ :=
    (Multiset.count_add _ _ _).trans (congrArg (· + _) (Multiset.count_add _ _ _))
  unfold System.owners
  simp only [List.length_append, List.length_map]
  rw [hidle, hleases, hpooled, hcalls, count_transactions]
  omega

theorem length_filterMap_add_isNone (calls : List (Call W)) :
    (calls.filterMap Call.connection).length + (calls.filter (·.connection.isNone)).length =
      calls.length := by
  induction calls with
  | nil => rfl
  | cons call calls ih =>
    rw [List.filter_cons, List.length_cons, ← ih]
    cases hc : call.connection with
    | none => rw [List.filterMap_cons_none hc]; rfl
    | some c =>
      rw [List.filterMap_cons_some hc, List.length_cons]
      exact Nat.succ_add _ _

theorem card_transactions (transactions : List (Transaction W)) :
    ((transactions : Multiset (Transaction W)).bind Transaction.lease).card =
      (transactions.filterMap Transaction.connection).length := by
  induction transactions with
  | nil => rfl
  | cons txn transactions ih =>
    rw [← Multiset.cons_coe, Multiset.cons_bind, Multiset.card_add, ih]
    cases hc : txn.connection with
    | none => rw [List.filterMap_cons_none hc, Transaction.lease_of_none hc]; exact Nat.zero_add _
    | some c =>
      rw [List.filterMap_cons_some hc, Transaction.lease_of_connection hc, List.length_cons]
      exact Nat.add_comm _ _

theorem card_leases (s : System W) : s.leases.card = s.outside.length + s.discards := by
  have hcalls := length_filterMap_add_isNone s.calls
  unfold System.leases leasesOf System.outside System.discards
  rw [Multiset.card_add, Multiset.card_add, Multiset.card_map, Multiset.card_map, card_transactions,
    Multiset.coe_card, Multiset.coe_card, List.length_append, List.length_append, List.length_map]
  omega

/-! ## The accounts of a reachable state -/

theorem Sound.length_owners (h : Sound config s) (raw : ℕ) :
    (s.owners raw).length = if raw < s.opened ∧ raw ∉ s.closed then 1 else 0 := by
  have hcount := h.conserved.count raw
  rw [← Sqlite.length_owners] at hcount
  change _ + Multiset.count raw (s.closed : Multiset ℕ) = if raw < s.opened then 1 else 0 at hcount
  by_cases hlt : raw < s.opened
  · rw [if_pos hlt] at hcount
    by_cases hmem : raw ∈ s.closed
    · have hpos := Multiset.count_pos.mpr (Multiset.mem_coe.mpr hmem)
      rw [if_neg fun hopen => hopen.2 hmem]
      omega
    · rw [Multiset.count_eq_zero_of_notMem (Multiset.mem_coe.not.mpr hmem), Nat.add_zero] at hcount
      rw [hcount, if_pos ⟨hlt, hmem⟩]
  · rw [if_neg hlt] at hcount
    rw [if_neg fun hopen => hlt hopen.1]
    omega

theorem Sound.place (h : Sound config s) :
    s.available.length + s.leased + s.failedReopens = config.size := by
  have hplaces := h.conserved.places
  unfold System.lending at hplaces
  rw [Multiset.card_map, Multiset.coe_card, ← h.leased] at hplaces
  exact hplaces

/-- All open connections. -/
def System.connections (s : System W) : List (Connection W) := s.available ++ s.outside

theorem Places.Holds.forall_connections {P : Places W} {Q : Connection W → Prop} (h : P.Holds s)
    (hs : Sound config s) (hidle : ∀ c, P.idle c → Q c) (hpooled : ∀ c statement, P.pooled c statement → Q c)
    (htransaction : ∀ c, P.transaction c → Q c)
    (hexecuting : ∀ c statement, P.executing c statement → Q c) : ∀ c ∈ s.connections, Q c := by
  intro c hc
  simp only [System.connections, System.outside, List.mem_append, List.mem_map,
    List.mem_filterMap] at hc
  rcases hc with hc | (⟨execution, he, rfl⟩ | ⟨txn, htxn, hc⟩) | ⟨call, hcall, hc⟩
  · exact hidle c (h.available c hc)
  · exact hpooled _ _ (h.pooled execution he)
  · cases hactive : txn.activeExecution with
    | none => exact htransaction c (h.transactions.idle txn htxn hactive c hc)
    | some x =>
      obtain ⟨-, e, he, hid⟩ := hs.executing.exists_of_active htxn hactive
      exact hexecuting c _ (h.transactions.executing e he txn htxn hid c hc)
  · exact hidle c (h.calls call hcall c hc)

theorem cached_of_reachable (h : (machine config).Reachable s) :
    ∀ c ∈ s.connections, c.Cached config :=
  (Places.holds_of_reachable caches_closed h).forall_connections (sound_of_reachable h)
    (fun _ => id) (fun _ _ => Connection.Lacks.cached) (fun _ => id)
    (fun _ _ => Connection.Lacks.cached)

/-- **Lease conservation.** In every reachable state each open connection has exactly one owner;
`leased` is the number of connections outside the idle list and of the discards that have none, and
the idle connections and the leases make up the pool but for the failed reopens; a transaction is
unfinished exactly while it owns a connection, and with an active execution it is; no assertion has
failed; and every statement cache has distinct texts in most-recently-returned order within its
capacity. -/
theorem lease_conservation (config : Config) {s : System W} (h : (machine config).Reachable s) :
    (∀ raw, raw < s.opened ∧ raw ∉ s.closed → ∃ owner, s.owners raw = [owner]) ∧
    (∀ raw, ¬ (raw < s.opened ∧ raw ∉ s.closed) → s.owners raw = []) ∧
    s.leased = s.outside.length + s.discards ∧
    s.available.length + s.leased + s.failedReopens = config.size ∧
    (∀ txn ∈ s.transactions, txn.finished = txn.connection.isNone ∧
      (txn.activeExecution.isSome → txn.finished = false ∧ txn.connection.isSome)) ∧
    s.broken = false ∧
    ∀ c ∈ s.connections, (c.statements.map NativeStatement.query).Nodup ∧
      c.statements.length ≤ config.statementCacheCapacity ∧
      c.statements.Pairwise fun statement older => older.returnedAt < statement.returnedAt := by
  have hsound := sound_of_reachable h
  refine ⟨fun raw hraw => ?_, fun raw hraw => ?_, ?_, hsound.place, fun txn htxn => ?_,
    hsound.broken, fun c hc => ?_⟩
  · exact List.length_eq_one_iff.mp ((hsound.length_owners raw).trans (if_pos hraw))
  · exact List.length_eq_zero_iff.mp ((hsound.length_owners raw).trans (if_neg hraw))
  · rw [hsound.leased, card_leases]
  · have hfinished := hsound.executing.finished txn htxn
    refine ⟨hfinished, fun hactive => ?_⟩
    obtain ⟨x, hx⟩ := Option.isSome_iff_exists.mp hactive
    have hsome := (hsound.executing.exists_of_active htxn hx).1
    rw [hfinished]
    exact ⟨Option.isNone_eq_false_iff.mpr hsome, hsome⟩
  · have hcached := cached_of_reachable h c hc
    exact ⟨hcached.recent.nodup, hcached.capacity ▸ hcached.recent.length_le, hcached.recent.recent⟩

/-- A pooled execution was dropped while a transaction executes a statement. -/
def mixedRun : List (Label Unit) :=
  [.acquire (.start "SELECT 1"), .work 0 true true true, .acquire (.begin 1),
    .work 0 true true true, .startTransaction 0 "UPDATE t SET x = 1" true true true,
    .stepPooled 0 (.row []), .stepTransaction 0 0 (.done [()] .none), .dropPooled 0 true]

theorem lease_conservation_mixedRun :
    ∃ s : System Unit, (machine ⟨2, 1, fun _ => .plain⟩).exec (System.init ⟨2, 1, fun _ => .plain⟩)
      mixedRun = some s ∧ s.leased = 1 ∧ s.leased = s.outside.length + s.discards ∧
      ∃ owner, s.owners 0 = [owner] := by
  have hrun : ((machine ⟨2, 1, fun _ => .plain⟩).exec (System.init ⟨2, 1, fun _ => .plain⟩)
    mixedRun).isSome := by decide
  obtain ⟨s, hs⟩ := Option.isSome_iff_exists.mp hrun
  have haccounts := lease_conservation ⟨2, 1, fun _ => .plain⟩ ⟨mixedRun, hs⟩
  cases hs
  exact ⟨_, rfl, rfl, haccounts.2.2.1, haccounts.1 0 ⟨by decide, by decide⟩⟩

/-- While `discard` opens a replacement, its lease has no connection. -/
theorem leased_ne_outside_while_discarding :
    ¬ ∀ (config : Config) (s : System Unit), (machine config).Reachable s →
      s.leased = s.outside.length := by
  intro h
  have hleased := h ⟨1, 0, fun _ => .plain⟩ _
    ⟨[.acquire (.begin 0), .work 0 true true true, .dropTransaction 0 (.failed false)], rfl⟩
  cases hleased

end BasicWebserver.Sqlite
