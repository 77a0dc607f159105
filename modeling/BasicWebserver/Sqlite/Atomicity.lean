import BasicWebserver.Sqlite.Cleanliness

/-!
# Transaction atomicity

What is committed through a transaction handle. SQLite can roll a transaction back by itself; the
host does not notice, and the next statement started through the handle runs in autocommit mode.
While no statement is stepped after such a rollback, the handle's writes are committed together by
a commit that succeeded, or not at all.
-/

namespace BasicWebserver.Sqlite

open Transition

variable {W : Type} {config : Config} {s t : System W} {i : ℕ}

/-! ## The writes of a handle -/

/-- The committed writes of the transaction. -/
def System.committedBy (s : System W) (i : ℕ) : List W :=
  (s.committed.filter (·.1 = some i)).map Prod.snd

/-- The writes of the transaction's finished statements. -/
def System.writtenBy (s : System W) (i : ℕ) : List W :=
  (s.written.filter (·.1 = i)).map Prod.snd

theorem committedBy_eq (h : t.committed = s.committed) : t.committedBy i = s.committedBy i := by
  unfold System.committedBy
  rw [h]

theorem committedBy_append_self {writes : List W}
    (h : t.committed = s.committed ++ writes.map (some i, ·)) :
    t.committedBy i = s.committedBy i ++ writes := by
  unfold System.committedBy
  rw [h, List.filter_append, List.map_append, List.filter_map]
  simp [Function.comp_def]

theorem committedBy_append_ne {writes : List W} {owner : Option ℕ} (hne : owner ≠ some i)
    (h : t.committed = s.committed ++ writes.map (owner, ·)) :
    t.committedBy i = s.committedBy i := by
  unfold System.committedBy
  rw [h, List.filter_append, List.map_append, List.filter_map]
  simp [Function.comp_def, hne]

theorem writtenBy_append_self {writes : List W} (h : t.written = s.written ++ writes.map (i, ·)) :
    t.writtenBy i = s.writtenBy i ++ writes := by
  unfold System.writtenBy
  rw [h, List.filter_append, List.map_append, List.filter_map]
  simp [Function.comp_def]

theorem writtenBy_append_ne {writes : List W} {owner : ℕ} (hne : owner ≠ i)
    (h : t.written = s.written ++ writes.map (owner, ·)) : t.writtenBy i = s.writtenBy i := by
  unfold System.writtenBy
  rw [h, List.filter_append, List.map_append, List.filter_map]
  simp [Function.comp_def, hne]

/-! ## Between statements -/

/-- No statement has pending writes outside an execution. -/
def settled : Places W where
  idle c := c.current = []
  pooled _ _ := True
  transaction c := c.current = []
  executing _ _ := True

@[simp] theorem Connection.current_returnStatement (c : Connection W) (statement : NativeStatement)
    (ok : Bool) : (c.returnStatement statement ok).current = [] := by
  grind [Connection.returnStatement, Connection.settle]

theorem Connection.current_executeFinish {c c' : Connection W} {commit finished : Bool}
    {outcome : ControlOutcome} {writes : List W}
    (h : c.executeFinish commit outcome = (finished, c', writes)) : c'.current = c.current := by
  cases outcome <;> grind [Connection.executeFinish]

theorem settled_closed : (settled : Places W).Closed config fun _ => True where
  open_ _ := rfl
  begin h hbegin := by
    unfold Connection.executeBegin at hbegin
    split_ifs at hbegin
    cases hbegin
    exact h
  prepare _ _ := Connection.current_returnStatement _ _ _
  start _ _ := trivial
  step _ := trivial
  drop _ _ := Connection.current_returnStatement _ _ _
  prepareTransaction _ _ := Connection.current_returnStatement _ _ _
  startTransaction _ _ := trivial
  stepTransaction _ := trivial
  dropTransaction _ := Connection.current_returnStatement _ _ _
  finish h hfinish := (Connection.current_executeFinish hfinish).trans h
  finishFailed h hfinish := (Connection.current_executeFinish hfinish).trans h

/-! ## The invariant of a handle -/

/-- The connection of the unfinished transaction `txn`, whose finished statements wrote `written`:
either the transaction is open with these writes, or SQLite has rolled it back and nothing is
pending. -/
def Transaction.Agrees (txn : Transaction W) (written : List W) (c : Connection W) : Prop :=
  if txn.rolledBack then c.transaction = none ∧ c.current = [] else c.transaction = some written

structure Atomic (config : Config) (i : ℕ) (s : System W) : Prop where
  stray : i ∉ s.strays
  plain : ∀ e ∈ s.executing, e.transaction = i → config.kind e.statement.query = .plain
  fresh : s.begun ≤ i → s.writtenBy i = [] ∧ s.committedBy i = [] ∧ i ∉ s.commits
  live : ∀ txn ∈ s.transactions, txn.id = i → ∀ c, txn.connection = some c →
    s.committedBy i = [] ∧ i ∉ s.commits ∧ txn.Agrees (s.writtenBy i) c
  whole : s.committedBy i = if i ∈ s.commits then s.writtenBy i else []

/-! ## Operations on the handle's connection -/

namespace Transaction.Agrees

variable {txn txn' : Transaction W} {written : List W} {c c' : Connection W}

theorem congr (h : txn.Agrees written c) (hrolledBack : txn'.rolledBack = txn.rolledBack)
    (htransaction : c'.transaction = c.transaction) (hcurrent : txn.rolledBack → c'.current = []) :
    txn'.Agrees written c' := by
  grind [Transaction.Agrees]

theorem step {outcome : StepOutcome W} (h : txn.Agrees written c) (hlive : txn.rolledBack = false)
    (hallows : c.allows .plain outcome)
    (hrolledBack : txn'.rolledBack = (txn.rolledBack || outcome.rollsBack)) :
    (c.step outcome).2 = [] ∧ txn'.Agrees (written ++ c.finished outcome) (c.step outcome).1 := by
  unfold Transaction.Agrees at h ⊢
  rw [hlive, if_neg Bool.false_ne_true] at h
  rw [hlive, Bool.false_or] at hrolledBack
  rw [hrolledBack]
  cases outcome with
  | row writes =>
    refine ⟨rfl, ?_⟩
    rw [StepOutcome.rollsBack, if_neg Bool.false_ne_true]
    exact h.trans (by rw [Connection.finished, List.append_nil])
  | done writes effect =>
    cases effect with
    | none =>
      rw [StepOutcome.rollsBack, if_neg Bool.false_ne_true]
      unfold Connection.step Connection.control Connection.settle Connection.autocommitted
      dsimp only
      rw [h]
      exact ⟨rfl, rfl⟩
    | opened | committed | rolledBack => cases hallows
  | failed rolledBack =>
    refine ⟨rfl, ?_⟩
    cases rolledBack with
    | true => exact ⟨rfl, rfl⟩
    | false => exact h.trans (by rw [Connection.finished, List.append_nil])

theorem autocommitted_eq (h : txn.Agrees written c) : c.autocommitted = [] := by
  grind [Transaction.Agrees, Connection.autocommitted]

theorem drop {statement : NativeStatement} {ok : Bool} (h : txn.Agrees written c)
    (hrolledBack : txn'.rolledBack = txn.rolledBack) : txn'.Agrees (written ++ c.current)
      ({ c with progressHandler := false : Connection W }.returnStatement statement ok) := by
  unfold Transaction.Agrees at h ⊢
  rw [hrolledBack, Connection.transaction_returnStatement, Connection.current_returnStatement]
  split_ifs at h ⊢ with hrb <;> simp [h]

theorem finishFailed {commit : Bool} {outcome : ControlOutcome} {writes : List W}
    (h : txn.Agrees written c) (hcurrent : c.current = [])
    (hfinish : c.executeFinish commit outcome = (false, c', writes))
    (hrolledBack : txn'.rolledBack = (txn.rolledBack || outcome.rollsBack)) :
    txn'.Agrees written c' := by
  cases outcome <;> grind [Transaction.Agrees, Connection.executeFinish, ControlOutcome.rollsBack]

theorem finish {commit : Bool} {outcome : ControlOutcome} {writes : List W}
    (h : txn.Agrees written c) (hfinish : c.executeFinish commit outcome = (true, c', writes)) :
    writes = if commit then written else [] := by
  cases outcome <;> grind [Transaction.Agrees, Connection.executeFinish]

end Transaction.Agrees

theorem Connection.query_of_takeStatement {c c' : Connection W} {query : String} {prepared : Bool}
    {statement : NativeStatement} (h : c.takeStatement query prepared = some (statement, c')) :
    statement.query = query := by
  have hkey {found statements} (h : Recent.take NativeStatement.query query c.statements =
      some (found, statements)) := Recent.key_of_take h
  grind [Connection.takeStatement]

/-! ## Every label -/

/-- The SQL texts started through the handle have no transaction control. -/
def PlainSql (config : Config) (i : ℕ) (s : System W) (a : Label W) : Prop :=
  ∀ k query prepared ready reset txn rest, a = .startTransaction k query prepared ready reset →
    Bag.takeAt s.transactions k = some (txn, rest) → txn.id = i → config.kind query = .plain

/-- No statement is stepped through the handle after SQLite rolled its transaction back. -/
def StepsLive (i : ℕ) (s : System W) (a : Label W) : Prop :=
  ∀ j k outcome txn rest, a = .stepTransaction j k outcome →
    Bag.takeAt s.transactions k = some (txn, rest) → txn.id = i → txn.rolledBack = false

namespace Atomic

variable {k : ℕ} {txn txn' : Transaction W} {rest : List (Transaction W)}

theorem init : Atomic config i (System.init config : System W) :=
  ⟨List.not_mem_nil, fun _ => nofun, fun _ => ⟨rfl, rfl, List.not_mem_nil⟩, fun _ => nofun, rfl⟩

theorem frame (h : Atomic config i s) (hbegun : s.begun ≤ t.begun)
    (hlogs : t.writtenBy i = s.writtenBy i ∧ t.committedBy i = s.committedBy i ∧
      (i ∈ t.commits ↔ i ∈ s.commits) ∧ (i ∈ t.strays ↔ i ∈ s.strays))
    (hexecuting : ∀ e ∈ t.executing, e ∈ s.executing ∨ e.transaction ≠ i)
    (htransactions : ∀ txn ∈ t.transactions, txn ∈ s.transactions ∨ txn.id ≠ i) :
    Atomic config i t := by
  constructor <;> grind [Atomic]

theorem exchange (hs : Executing s.transactions s.executing s.begun)
    (htake : Bag.takeAt s.transactions k = some (txn, rest)) (hi : txn.id = i)
    (htransactions : t.transactions = txn' :: rest) (hbegun : t.begun = s.begun)
    (hexecuting : ∀ e ∈ t.executing, e.transaction = i → config.kind e.statement.query = .plain)
    (hstray : i ∉ t.strays)
    (hlive : ∀ c, txn'.connection = some c →
      t.committedBy i = [] ∧ i ∉ t.commits ∧ txn'.Agrees (t.writtenBy i) c)
    (hwhole : t.committedBy i = if i ∈ t.commits then t.writtenBy i else []) : Atomic config i t where
  stray := hstray
  plain := hexecuting
  fresh hle := by
    have hlt := hs.begun txn (Bag.mem_of_takeAt htake)
    omega
  live := by
    rw [htransactions]
    rintro other (_ | ⟨_, hother⟩) hid
    · exact hlive
    · -- ids are distinct
      have hids := hs.ids
      rw [Bag.coe_of_takeAt htake, Multiset.map_cons, Multiset.nodup_cons] at hids
      refine absurd (Multiset.mem_map_of_mem Transaction.id (Multiset.mem_coe.mpr hother)) ?_
      rw [hid, ← hi]
      exact hids.1
  whole := hwhole

theorem advance {c c' : Connection W} (writes : List W) (h : Atomic config i s)
    (hs : Executing s.transactions s.executing s.begun)
    (htake : Bag.takeAt s.transactions k = some (txn, rest)) (hi : txn.id = i)
    (hc : txn.connection = some c) (htransactions : t.transactions = txn' :: rest)
    (hc' : txn'.connection = some c') (hbegun : t.begun = s.begun)
    (hexecuting : ∀ e ∈ t.executing, e.transaction = i → config.kind e.statement.query = .plain)
    (hstray : i ∉ t.strays) (hcommits : t.commits = s.commits)
    (hcommitted : t.committed = s.committed)
    (hwritten : t.written = s.written ++ writes.map (i, ·))
    (hagrees : txn'.Agrees (s.writtenBy i ++ writes) c') : Atomic config i t := by
  obtain ⟨hnone, hnotMem, -⟩ := h.live txn (Bag.mem_of_takeAt htake) hi c hc
  have hcommitted' : t.committedBy i = [] := (committedBy_eq hcommitted).trans hnone
  rw [← hcommits] at hnotMem
  refine exchange hs htake hi htransactions hbegun hexecuting hstray (fun other hother => ?_) ?_
  · rw [hc'] at hother
    cases hother
    rw [writtenBy_append_self hwritten]
    exact ⟨hcommitted', hnotMem, hagrees⟩
  · rw [if_neg hnotMem]
    exact hcommitted'

theorem mem_or_ne (htake : Bag.takeAt s.transactions k = some (txn, rest))
    (hid : txn'.id = txn.id) (hi : txn.id ≠ i) :
    ∀ other ∈ txn' :: rest, other ∈ s.transactions ∨ other.id ≠ i :=
  List.forall_mem_cons.mpr
    ⟨.inr (hid ▸ hi), fun _ hother => .inl (Bag.mem_of_mem_rest htake hother)⟩

theorem begin {c : Connection W} {calls : List (Call W)} (h : Atomic config i s)
    (hc : c.transaction = some []) :
    Atomic config i { s with
      calls
      transactions := ⟨s.begun, some c, none, 1, false, false⟩ :: s.transactions
      begun := s.begun + 1 } where
  stray := h.stray
  plain := h.plain
  fresh hle := h.fresh (Nat.le_of_succ_le hle)
  live := by
    refine List.forall_mem_cons.mpr ⟨fun hid c' hc' => ?_, h.live⟩
    obtain ⟨hwritten, hcommitted, hcommits⟩ := h.fresh (Nat.le_of_eq hid)
    obtain rfl := Option.some.inj hc'
    exact ⟨hcommitted, hcommits, hc.trans (congrArg some hwritten.symm)⟩
  whole := h.whole

theorem move {a : Label W} (hm : Move config s a t) (h : Atomic config i s) (hsound : Sound config s)
    (hsettled : settled.Holds s) (hplain : PlainSql config i s a) (hlive : StepsLive i s a) :
    Atomic config i t := by
  have hs := hsound.executing
  cases hm with
  | stay | acquire | release | start | reopen | reopenFailed | lose | dangling =>
    exact h.frame le_rfl ⟨rfl, rfl, Iff.rfl, Iff.rfl⟩ (fun _ => .inl) fun _ => .inl
  | prepare | stepPooled | dropPooled =>
    exact h.frame le_rfl ⟨rfl, committedBy_append_ne (Option.some_ne_none i).symm rfl, Iff.rfl, Iff.rfl⟩ (fun _ => .inl)
      fun _ => .inl
  | begin htake hbegin =>
    refine h.begin ?_
    unfold Connection.executeBegin at hbegin
    split_ifs at hbegin
    cases hbegin
    rfl
  | prepareTransaction htake hrefuses hc hstatement =>
    rename_i txn c c' statement rest
    by_cases hi : txn.id = i
    · have hmem := Bag.mem_of_takeAt htake
      have hcurrent := hsettled.transactions.idle txn hmem (execution_of_not_refuses hrefuses).1 c hc
      have htook := Connection.took_of_takeStatement hstatement
      have htransaction : c'.transaction.map (· ++ c'.current) = c.transaction := by
        rw [htook.transaction, htook.current, hcurrent]
        simp
      refine h.advance [] hs htake hi hc rfl rfl rfl h.plain h.stray rfl rfl
        (List.append_nil _).symm ?_
      rw [List.append_nil]
      exact (h.live txn hmem hi c hc).2.2.congr rfl
        ((Connection.transaction_returnStatement _ _ _).trans htransaction)
        fun _ => Connection.current_returnStatement _ _ _
    · exact h.frame le_rfl ⟨rfl, rfl, Iff.rfl, Iff.rfl⟩ (fun _ => .inl) (mem_or_ne htake rfl hi)
  | startTransaction htake hrefuses hc hstatement =>
    rename_i k query prepared ready reset txn c c' statement rest
    by_cases hi : txn.id = i
    · have hmem := Bag.mem_of_takeAt htake
      have hcurrent := hsettled.transactions.idle txn hmem (execution_of_not_refuses hrefuses).1 c hc
      have htook := Connection.took_of_takeStatement hstatement
      refine h.advance [] hs htake hi hc rfl rfl rfl ?_ h.stray rfl rfl (List.append_nil _).symm ?_
      · refine List.forall_mem_cons.mpr ⟨fun _ => ?_, h.plain⟩
        rw [Connection.query_of_takeStatement hstatement]
        exact hplain k query prepared ready reset txn rest rfl htake hi
      · rw [List.append_nil]
        exact (h.live txn hmem hi c hc).2.2.congr rfl htook.transaction
          fun _ => htook.current.trans hcurrent
    · refine h.frame le_rfl ⟨rfl, rfl, Iff.rfl, Iff.rfl⟩ ?_ (mem_or_ne htake rfl hi)
      exact List.forall_mem_cons.mpr ⟨.inr hi, fun _ => .inl⟩
  | stepTransaction he htake hid hc hraw hallows =>
    rename_i j k outcome e executing txn c rest
    have hmem := Bag.mem_of_takeAt htake
    by_cases hi : txn.id = i
    · have hkind := h.plain e (Bag.mem_of_takeAt he) (hid.trans hi)
      have hrolledBack := hlive j k outcome txn rest rfl htake hi
      have hagrees := (h.live txn hmem hi c hc).2.2
      rw [hkind] at hallows
      have hstep : _ ∧ Transaction.Agrees { txn with
          connection := some (c.step outcome).1
          rolledBack := txn.rolledBack || outcome.rollsBack } _ _ :=
        hagrees.step hrolledBack hallows rfl
      obtain ⟨hnone, hagrees'⟩ := hstep
      refine h.advance (c.finished outcome) hs htake hi hc rfl rfl rfl ?_ ?_ rfl ?_ (hi ▸ rfl) hagrees'
      · exact List.forall_mem_cons.mpr ⟨fun _ => hkind, fun other hother =>
          h.plain other (Bag.mem_of_mem_rest he hother)⟩
      · have hopen := hagrees
        unfold Transaction.Agrees at hopen
        rw [hrolledBack, if_neg Bool.false_ne_true] at hopen
        show i ∉ if c.transaction.isNone then txn.id :: s.strays else s.strays
        rw [hopen]
        exact h.stray
      · show s.committed ++ (c.step outcome).2.map (some txn.id, ·) = s.committed
        rw [hnone]
        exact List.append_nil _
    · refine h.frame le_rfl ⟨writtenBy_append_ne hi rfl, committedBy_append_ne (mt Option.some.inj hi) rfl,
        Iff.rfl, ?_⟩ ?_ (mem_or_ne htake rfl hi)
      · show (i ∈ if c.transaction.isNone then txn.id :: s.strays else s.strays) ↔ i ∈ s.strays
        split_ifs
        · exact List.mem_cons.trans (or_iff_right (Ne.symm hi))
        · exact Iff.rfl
      · exact List.forall_mem_cons.mpr
          ⟨.inr (hid ▸ hi), fun _ hother => .inl (Bag.mem_of_mem_rest he hother)⟩
  | dropExecution he htake hid hc _ =>
    rename_i j k reset e executing txn c rest hactive
    have hrest : ∀ other ∈ executing, other ∈ s.executing := fun _ => Bag.mem_of_mem_rest he
    by_cases hi : txn.id = i
    · have hagrees := (h.live txn (Bag.mem_of_takeAt htake) hi c hc).2.2
      refine h.advance c.current hs htake hi hc rfl rfl rfl
        (fun other hother => h.plain other (hrest other hother)) h.stray rfl ?_ (hi ▸ rfl)
        (hagrees.drop rfl)
      show s.committed ++ c.autocommitted.map (some txn.id, ·) = s.committed
      rw [hagrees.autocommitted_eq]
      exact List.append_nil _
    · exact h.frame le_rfl ⟨writtenBy_append_ne hi rfl,
        committedBy_append_ne (mt Option.some.inj hi) rfl, Iff.rfl, Iff.rfl⟩
        (fun other hother => .inl (hrest other hother)) (mem_or_ne htake rfl hi)
  | dropStaleExecution he htake hid _ hactive =>
    exact absurd (hs.active_eq (Bag.mem_of_takeAt he) (Bag.mem_of_takeAt htake) hid) hactive
  | finishFailed htake hrefuses hc hfinish =>
    rename_i k commit outcome txn c c' writes rest
    have hmem := Bag.mem_of_takeAt htake
    by_cases hi : txn.id = i
    · have hcurrent := hsettled.transactions.idle txn hmem (execution_of_not_refuses hrefuses).1 c hc
      refine h.advance [] hs htake hi hc rfl rfl rfl h.plain h.stray rfl rfl
        (List.append_nil _).symm ?_
      rw [List.append_nil]
      exact (h.live txn hmem hi c hc).2.2.finishFailed hcurrent hfinish rfl
    · exact h.frame le_rfl ⟨rfl, rfl, Iff.rfl, Iff.rfl⟩ (fun _ => .inl) (mem_or_ne htake rfl hi)
  | finish htake hrefuses hc hfinish =>
    rename_i k commit outcome txn c c' writes rest
    by_cases hi : txn.id = i
    · obtain ⟨hnone, hnotMem, hagrees⟩ := h.live txn (Bag.mem_of_takeAt htake) hi c hc
      subst hi
      refine exchange hs htake rfl rfl rfl h.plain h.stray (fun _ => nofun) ?_
      refine (committedBy_append_self rfl).trans ?_
      show s.committedBy txn.id ++ writes =
        if txn.id ∈ (if commit then txn.id :: s.commits else s.commits) then s.writtenBy txn.id else []
      rw [hnone, hagrees.finish hfinish, List.nil_append]
      cases commit with
      | true => exact (if_pos List.mem_cons_self).symm
      | false => exact (if_neg hnotMem).symm
    · refine h.frame le_rfl ⟨rfl, committedBy_append_ne (mt Option.some.inj hi) rfl, ?_, Iff.rfl⟩
        (fun _ => .inl) (mem_or_ne htake rfl hi)
      show (i ∈ if commit then txn.id :: s.commits else s.commits) ↔ i ∈ s.commits
      split_ifs
      · exact List.mem_cons.trans (or_iff_right (Ne.symm hi))
      · exact Iff.rfl
  | dropFinished htake | dropReleasing htake | dropClosing htake =>
    exact h.frame le_rfl ⟨rfl, rfl, Iff.rfl, Iff.rfl⟩ (fun _ => .inl)
      fun _ hother => .inl (Bag.mem_of_mem_rest htake hother)

end Atomic

/-! ## Runs -/

/-- A step through the handle after SQLite rolled its transaction back runs in autocommit mode. -/
theorem stray_of_step {a : Label W} (h : Atomic config i s) (hsound : Sound config s)
    (hsteps : ¬ StepsLive i s a) (hstep : step config s a = some t) : i ∈ t.strays := by
  unfold StepsLive at hsteps
  push Not at hsteps
  obtain ⟨j, k, outcome, txn, rest, rfl, htake, hi, hrolledBack⟩ := hsteps
  have hstep' : stepTransaction config j k outcome s = some t := hstep
  unfold stepTransaction at hstep'
  split at hstep'
  · cases hstep'
  · rename_i e executing txn' rest' hexecution
    obtain ⟨he, htake', hid⟩ := takeExecution_eq hexecution
    obtain ⟨rfl, -⟩ := Prod.mk.inj (Option.some.inj (htake.symm.trans htake'))
    have hmem := Bag.mem_of_takeAt htake
    split at hstep'
    · rename_i htarget
      have hsome := hsound.executing.target_isSome (Bag.mem_of_takeAt he) hmem hid
      rw [htarget] at hsome
      cases hsome
    · rename_i c htarget
      have hagrees := (h.live txn hmem hi c (connection_of_target htarget).1).2.2
      unfold Transaction.Agrees at hagrees
      rw [if_pos (Bool.eq_true_of_not_eq_false hrolledBack)] at hagrees
      split at hstep'
      · cases hstep'
        show i ∈ if c.transaction.isNone then txn.id :: s.strays else s.strays
        rw [hagrees.1, hi]
        exact List.mem_cons_self
      · cases hstep'

theorem strays_of_move {a : Label W} (hm : Move config s a t) (h : i ∈ s.strays) : i ∈ t.strays := by
  cases hm with
  | stepTransaction =>
    show i ∈ if _ then _ else _
    split_ifs
    · exact List.mem_cons_of_mem _ h
    · exact h
  | _ => exact h

/-- **Transaction atomicity.** In a run with no transaction control in the SQL of handle `i`: no
statement of the handle has run in autocommit mode, and its writes are committed whole by a commit
that succeeded or not at all, exactly when no statement was stepped through the handle after SQLite
had rolled its transaction back. -/
theorem transaction_atomic_iff (config : Config) (i : ℕ) {as : List (Label W)} {t : System W}
    (h : (machine config).exec (System.init config) as = some t)
    (hplain : (machine config).Always (PlainSql config i) (System.init config) as) :
    (i ∉ t.strays ∧ t.committedBy i = if i ∈ t.commits then t.writtenBy i else []) ↔
      (machine config).Always (StepsLive i) (System.init config) as := by
  let P := fun s : System W => Sound config s ∧ settled.Holds s ∧ Atomic config i s
  have hinit : P (System.init config) := ⟨sound_init, settled_closed.init, .init⟩
  have hkeep : ∀ s a s', P s → PlainSql config i s a → StepsLive i s a →
      (machine config).step s a = some s' → P s' := by
    rintro s a s' ⟨hsound, hsettled, hatomic⟩ hplain hlive ha
    have hm := move_of_step ha
    exact ⟨hsound.move hm, hsettled.move settled_closed hm hsound.executing fun _ _ => trivial,
      hatomic.move hm hsound hsettled hplain hlive⟩
  constructor
  · rintro ⟨hstray, -⟩
    refine ((machine config).always_iff_under (P := P) (B := fun s => i ∈ s.strays)
      (fun s hs => hs.2.2.stray) hkeep ?_ ?_ hinit hplain h).mp hstray
    · rintro s a s' ⟨hsound, -, hatomic⟩ - hsteps ha
      exact stray_of_step hatomic hsound hsteps ha
    · exact fun s a s' hs ha => strays_of_move (move_of_step ha) hs
  · intro hlive
    have ht := (machine config).invariant_of_always
      (fun s a s' hs hC ha => hkeep s a s' hs hC.1 hC.2 ha) hinit
      ((machine config).always_and hplain hlive) h
    exact ⟨ht.2.2.stray, ht.2.2.whole⟩

/-- A statement fails and SQLite rolls the transaction back; the next one is done. -/
def rolledBackRun : List (Label Unit) :=
  [.acquire (.begin 0), .work 0 true true true, .startTransaction 0 "INSERT" true true true,
    .stepTransaction 0 0 (.failed true), .dropTransactionExecution 0 0 true,
    .startTransaction 0 "UPDATE" true true true, .stepTransaction 0 0 (.done [()] .none)]

/-- One connection, on which no text has transaction control. -/
def plainConfig : Config := ⟨1, 0, fun _ => .plain⟩

theorem rolledBackRun_isSome :
    ((machine plainConfig).exec (System.init plainConfig) rolledBackRun).isSome := by decide

theorem transaction_atomic_iff_rolledBackRun :
    ¬ (machine plainConfig).Always (StepsLive 0) (System.init plainConfig) rolledBackRun := by
  intro h
  have hatomic := (transaction_atomic_iff plainConfig 0 (Option.some_get rolledBackRun_isSome).symm
    ((machine plainConfig).always_of_forall fun _ _ _ _ _ _ _ _ _ _ _ _ => rfl)).mpr h
  exact absurd hatomic.1 (by decide)

theorem autocommit_after_rollback :
    ¬ ∀ (config : Config) (i : ℕ) (s : System Unit), (∀ query, config.kind query = .plain) →
      (machine config).Reachable s →
      i ∉ s.strays ∧ s.committedBy i = if i ∈ s.commits then s.writtenBy i else [] := by
  intro h
  have hatomic := h plainConfig 0 _ (fun _ => rfl) ⟨rolledBackRun, (Option.some_get rolledBackRun_isSome).symm⟩
  exact absurd hatomic.2 (by decide)

end BasicWebserver.Sqlite
