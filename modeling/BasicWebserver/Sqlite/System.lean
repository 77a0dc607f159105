import BasicWebserver.Foundation.Bag
import BasicWebserver.Foundation.Machine
import BasicWebserver.Sqlite.Connection

/-!
# A connection pool with its executions and transactions

`DatabasePool`, `TransactionShared` and `Execution` of `src/sqlite.rs`. A label of `machine` is one
critical section of the pool's or a transaction's mutex together with the native calls made next to
it, which nobody else can observe. A hosted call that leases a connection is in progress between
the critical section that takes the lease and the one that ends it (`Call`). What native calls
answer is in the label.

An execution of a transaction keeps the transaction alive, so `dropTransaction` happens only when
there is none. The statement handles, the result rows and the error texts are left out.
-/

namespace BasicWebserver.Sqlite

open Transition

/-- The pool's configuration, and what SQLite makes of a SQL text. -/
structure Config where
  size : ℕ
  statementCacheCapacity : ℕ
  kind : String → Kind

/-- `Execution` with `ExecutionOwner::Pool`. -/
structure PooledExecution (W : Type) where
  connection : Connection W
  statement : NativeStatement

/-- `Execution` with `ExecutionOwner::Transaction`. -/
structure TransactionExecution where
  transaction : ℕ
  executionId : UInt64
  /-- The raw pointer to the transaction's connection. -/
  connection : ℕ
  statement : NativeStatement

/-- `TransactionState`. -/
structure Transaction (W : Type) where
  /-- The number of the transaction. -/
  id : ℕ
  connection : Option (Connection W)
  activeExecution : Option UInt64
  nextExecution : UInt64
  finished : Bool
  /-- SQLite has rolled the transaction back by itself. -/
  rolledBack : Bool

/-- What an acquired connection is for. -/
inductive Purpose
  | prepare (query : String)
  | start (query : String)
  | begin (mode : ℤ)
  deriving DecidableEq

/-- A hosted call or a drop that holds a lease. -/
inductive Call (W : Type)
  | acquired (connection : Connection W) (purpose : Purpose)
  /-- before `release` -/
  | releasing (connection : Connection W)
  /-- in `discard`, the connection is closed -/
  | reopening
  /-- in `discard`, before its critical section -/
  | replacing (replacement : Option (Connection W))

structure System (W : Type) where
  /-- The idle connections, the last one of the vector first. -/
  available : List (Connection W)
  leased : ℕ
  highWater : ℕ
  pooled : List (PooledExecution W)
  executing : List TransactionExecution
  transactions : List (Transaction W)
  calls : List (Call W)
  /-- How many connections were opened, each with the next raw handle. -/
  opened : ℕ
  begun : ℕ
  /-- The committed writes, with the number of the transaction they were made through. -/
  committed : List (Option ℕ × W)
  /-- The writes of the finished statements of each transaction. -/
  written : List (ℕ × W)
  /-- The transactions whose commit returned `Ok`. -/
  commits : List ℕ
  /-- The transactions through which a statement ran in autocommit mode. -/
  strays : List ℕ
  /-- The raw handles closed by `discard`. -/
  closed : List ℕ
  failedReopens : ℕ
  /-- An `expect` or a `debug_assert!` failed, or a dangling raw pointer was used. -/
  broken : Bool

section Steps

variable {W : Type} (config : Config)

/-- `DatabasePool::open`. -/
def System.init : System W where
  available :=
    (List.range config.size).reverse.map fun raw => .open_ raw config.statementCacheCapacity
  leased := 0
  highWater := 0
  pooled := []
  executing := []
  transactions := []
  calls := []
  opened := config.size
  begun := 0
  committed := []
  written := []
  commits := []
  strays := []
  closed := []
  failedReopens := 0
  broken := false

def System.commit (s : System W) (owner : Option ℕ) (writes : List W) : System W :=
  { s with committed := s.committed ++ writes.map (owner, ·) }

/-! ## The pool -/

/-- `DatabasePool::acquire` when a connection is available. -/
def acquire (purpose : Purpose) (s : System W) : Option (System W) :=
  match s.available with
  | [] => none
  | connection :: available =>
    some { s with
      available
      leased := s.leased + 1
      highWater := max s.highWater (s.leased + 1)
      calls := .acquired connection purpose :: s.calls }

/-- The lease ends; `debug_assert!(state.leased > 0)`. -/
def endLease (s : System W) : System W :=
  { s with leased := s.leased - 1, broken := s.broken || s.leased = 0 }

def release (connection : Connection W) (s : System W) : System W :=
  let s := endLease s
  { s with available := connection :: s.available }

/-- `return_statement` followed by `release`. -/
def giveBack (connection : Connection W) (statement : NativeStatement) (reset : Bool)
    (s : System W) : System W :=
  release (connection.returnStatement statement reset) (s.commit none connection.autocommitted)

/-- `prepare_columns` on a pooled connection. -/
def preparePooled (connection : Connection W) (query : String) (prepared reset : Bool)
    (s : System W) : System W :=
  match connection.takeStatement query prepared with
  | none => release connection s
  | some (statement, connection) => giveBack connection statement reset s

/-- `start_pooled_execution`; `ready` says whether binding and the deadline succeed. -/
def startPooledExecution (connection : Connection W) (query : String)
    (prepared ready reset : Bool) (s : System W) : System W :=
  match connection.takeStatement query prepared with
  | none => release connection s
  | some (statement, connection) =>
    if ready then
      { s with pooled := ⟨{ connection with progressHandler := true }, statement⟩ :: s.pooled }
    else giveBack connection statement reset s

/-- `hosted_sqlite_begin` on its leased connection. -/
def begin (connection : Connection W) (mode : ℤ) (ok : Bool) (s : System W) : System W :=
  if mode = 0 ∨ mode = 1 ∨ mode = 2 then
    match connection.executeBegin ok with
    | none => release connection s
    | some connection =>
      { s with
        transactions := ⟨s.begun, some connection, none, 1, false, false⟩ :: s.transactions
        begun := s.begun + 1 }
  else release connection s

/-- The rest of the hosted call that acquired a connection. -/
def work (j : ℕ) (prepared ready reset : Bool) (s : System W) : Option (System W) :=
  match Bag.takeAt s.calls j with
  | some (.acquired connection (.prepare query), calls) =>
    some (preparePooled connection query prepared reset { s with calls })
  | some (.acquired connection (.start query), calls) =>
    some (startPooledExecution connection query prepared ready reset { s with calls })
  | some (.acquired connection (.begin mode), calls) =>
    some (begin connection mode ready { s with calls })
  | some (.releasing connection, calls) => some (release connection { s with calls })
  | _ => none

/-- `hosted_sqlite_next_row` on a pooled execution. -/
def stepPooled (j : ℕ) (outcome : StepOutcome W) (s : System W) : Option (System W) :=
  match Bag.takeAt s.pooled j with
  | none => none
  | some (execution, pooled) =>
    if execution.connection.allows (config.kind execution.statement.query) outcome then
      let (connection, committed) := execution.connection.step outcome
      some ({ s with
        pooled := ⟨connection, { execution.statement with stepped := true }⟩ :: pooled }.commit
          none committed)
    else none

/-- `Drop` of a pooled execution. -/
def dropPooled (j : ℕ) (reset : Bool) (s : System W) : Option (System W) :=
  (Bag.takeAt s.pooled j).map fun (execution, pooled) =>
    giveBack { execution.connection with progressHandler := false } execution.statement reset
      { s with pooled }

/-- `DatabasePool::discard` opens a replacement. -/
def reopen (j : ℕ) (ok : Bool) (s : System W) : Option (System W) :=
  match Bag.takeAt s.calls j with
  | some (.reopening, calls) =>
    let replacement := if ok then some (.open_ s.opened config.statementCacheCapacity) else none
    some { s with
      calls := .replacing replacement :: calls
      opened := if ok then s.opened + 1 else s.opened }
  | _ => none

/-- The critical section of `DatabasePool::discard`. -/
def replace (j : ℕ) (s : System W) : Option (System W) :=
  match Bag.takeAt s.calls j with
  | some (.replacing replacement, calls) =>
    let s := endLease s
    some { s with
      calls
      available := replacement.toList ++ s.available
      failedReopens := if replacement.isNone then s.failedReopens + 1 else s.failedReopens }
  | _ => none

/-! ## Transactions -/

/-- A transaction that refuses a call: it has finished, or an execution is active. -/
def Transaction.refuses (t : Transaction W) : Bool :=
  t.finished || t.connection.isNone || t.activeExecution.isSome

/-- `prepare_columns` on a transaction. -/
def prepareTransaction (k : ℕ) (query : String) (prepared reset : Bool) (s : System W) :
    Option (System W) :=
  (Bag.takeAt s.transactions k).map fun (t, transactions) =>
    if t.refuses then s
    else
      match t.connection with
      | none => { s with broken := true }
      | some connection =>
        match connection.takeStatement query prepared with
        | none => s
        | some (statement, connection) =>
          { s with
            transactions :=
              { t with connection := some (connection.returnStatement statement reset) } ::
                transactions }

def startTransactionExecution (k : ℕ) (query : String) (prepared ready reset : Bool)
    (s : System W) : Option (System W) :=
  (Bag.takeAt s.transactions k).map fun (t, transactions) =>
    if t.refuses then s
    else
      match t.connection with
      | none => { s with broken := true }
      | some connection =>
        match connection.takeStatement query prepared with
        | none => s
        | some (statement, connection) =>
          if ready then
            { s with
              transactions :=
                { t with
                  connection := some { connection with progressHandler := true }
                  activeExecution := some t.nextExecution
                  nextExecution := max (t.nextExecution + 1) 1 } :: transactions
              executing := ⟨t.id, t.nextExecution, connection.raw, statement⟩ :: s.executing }
          else
            { s with
              transactions :=
                { t with connection := some (connection.returnStatement statement reset) } ::
                  transactions }

/-- The execution at `j`, its transaction at `k`, and the others. -/
def takeExecution (j k : ℕ) (s : System W) :
    Option ((TransactionExecution × List TransactionExecution) ×
      (Transaction W × List (Transaction W))) :=
  match Bag.takeAt s.executing j, Bag.takeAt s.transactions k with
  | some e, some t => if e.1.transaction = t.1.id then some (e, t) else none
  | _, _ => none

/-- The connection behind the execution's raw pointer. -/
def TransactionExecution.target (e : TransactionExecution) (t : Transaction W) :
    Option (Connection W) :=
  t.connection.filter fun connection => connection.raw = e.connection

/-- `hosted_sqlite_next_row` on an execution of a transaction. -/
def stepTransaction (j k : ℕ) (outcome : StepOutcome W) (s : System W) : Option (System W) :=
  match takeExecution j k s with
  | none => none
  | some ((e, executing), (t, transactions)) =>
    match e.target t with
    | none => some { s with broken := true }
    | some connection =>
      if connection.allows (config.kind e.statement.query) outcome then
        let (connection', committed) := connection.step outcome
        some ({ s with
          executing := { e with statement := { e.statement with stepped := true } } :: executing
          transactions :=
            { t with
              connection := some connection'
              rolledBack := t.rolledBack || outcome.rollsBack } :: transactions
          written := s.written ++ (connection.finished outcome).map (t.id, ·)
          strays := if connection.transaction.isNone then t.id :: s.strays else s.strays }.commit
            (some t.id) committed)
      else none

/-- `Drop` of an execution of a transaction. -/
def dropTransactionExecution (j k : ℕ) (reset : Bool) (s : System W) : Option (System W) :=
  match takeExecution j k s with
  | none => none
  | some ((e, executing), (t, transactions)) =>
    match e.target t with
    | none => some { s with broken := true }
    | some connection =>
      let connection := { connection with progressHandler := false }
      if t.activeExecution = some e.executionId then
        some ({ s with
          executing
          transactions :=
            { t with
              connection := some (connection.returnStatement e.statement reset)
              activeExecution := none } :: transactions
          written := s.written ++ connection.current.map (t.id, ·) }.commit
            (some t.id) connection.autocommitted)
      else
        some ({ s with
          executing
          transactions := { t with connection := some connection.settle } :: transactions
          written := s.written ++ connection.current.map (t.id, ·) }.commit
            (some t.id) connection.autocommitted)

/-- `hosted_sqlite_txn_finish` up to `release`. -/
def finishTransaction (k : ℕ) (commit : Bool) (outcome : ControlOutcome) (s : System W) :
    Option (System W) :=
  (Bag.takeAt s.transactions k).map fun (t, transactions) =>
    if t.refuses then s
    else
      match t.connection with
      | none => { s with broken := true }
      | some connection =>
        match connection.executeFinish commit outcome with
        | (false, connection, _) =>
          { s with
            transactions :=
              { t with
                connection := some connection
                rolledBack := t.rolledBack || outcome.rollsBack } :: transactions }
        | (true, connection, writes) =>
          { s with
            transactions := { t with finished := true, connection := none } :: transactions
            calls := .releasing connection :: s.calls
            commits := if commit then t.id :: s.commits else s.commits }.commit (some t.id) writes

/-- `Drop` of `TransactionShared`, up to the critical section of `release` or to the reopening. -/
def dropTransaction (k : ℕ) (outcome : ControlOutcome) (s : System W) : Option (System W) :=
  match Bag.takeAt s.transactions k with
  | none => none
  | some (t, transactions) =>
    if s.executing.any fun e => e.transaction = t.id then none
    else
      match t.connection with
      | none => some { s with transactions }
      | some connection =>
        if t.finished then
          some { s with transactions, calls := .releasing connection :: s.calls }
        else
          match connection.executeFinish false outcome with
          | (true, connection, _) =>
            some { s with transactions, calls := .releasing connection :: s.calls }
          | (false, connection, _) =>
            -- `discard` closes the connection first
            some { s with
              transactions
              calls := .reopening :: s.calls
              closed := connection.raw :: s.closed }

/-! ## The machine -/

inductive Label (W : Type)
  | acquire (purpose : Purpose)
  | work (j : ℕ) (prepared ready reset : Bool)
  | stepPooled (j : ℕ) (outcome : StepOutcome W)
  | dropPooled (j : ℕ) (reset : Bool)
  | reopen (j : ℕ) (ok : Bool)
  | replace (j : ℕ)
  | prepareTransaction (k : ℕ) (query : String) (prepared reset : Bool)
  | startTransaction (k : ℕ) (query : String) (prepared ready reset : Bool)
  | stepTransaction (j k : ℕ) (outcome : StepOutcome W)
  | dropTransactionExecution (j k : ℕ) (reset : Bool)
  | finishTransaction (k : ℕ) (commit : Bool) (outcome : ControlOutcome)
  | dropTransaction (k : ℕ) (outcome : ControlOutcome)

def step (s : System W) : Label W → Option (System W)
  | .acquire purpose => acquire purpose s
  | .work j prepared ready reset => work j prepared ready reset s
  | .stepPooled j outcome => stepPooled config j outcome s
  | .dropPooled j reset => dropPooled j reset s
  | .reopen j ok => reopen config j ok s
  | .replace j => replace j s
  | .prepareTransaction k query prepared reset => prepareTransaction k query prepared reset s
  | .startTransaction k query prepared ready reset =>
    startTransactionExecution k query prepared ready reset s
  | .stepTransaction j k outcome => stepTransaction config j k outcome s
  | .dropTransactionExecution j k reset => dropTransactionExecution j k reset s
  | .finishTransaction k commit outcome => finishTransaction k commit outcome s
  | .dropTransaction k outcome => dropTransaction k outcome s

/-- A pool opened with the configuration. -/
def machine : Machine (System W) (Label W) := ⟨System.init config, step config⟩

end Steps

end BasicWebserver.Sqlite
