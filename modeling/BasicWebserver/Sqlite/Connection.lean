import BasicWebserver.Foundation.Recent

/-!
# SQLite connections

What the host keeps for a connection (`Connection` and `NativeStatement` of `src/sqlite.rs`) and
what SQLite keeps for it: the writes of the open transaction, the writes of the statement that is
being stepped, and the progress handler. No transaction is autocommit mode, in which a statement's
writes are committed when it is done or reset. A native call decides in its outcome whether it fails
and, when it fails, whether SQLite rolls the whole transaction back by itself, as it may after an
interrupt during a write, a full disk or an I/O error.
-/

namespace BasicWebserver.Sqlite

/-- What a statement can do to the transaction of its connection. -/
inductive Kind
  /-- no transaction control -/
  | plain
  /-- `BEGIN` or `SAVEPOINT` -/
  | opens
  /-- `COMMIT`, `END`, `ROLLBACK` or `RELEASE` -/
  | closes
  deriving DecidableEq

/-- What a statement that is done has done to the transaction. -/
inductive Control
  | none
  | opened
  | committed
  | rolledBack
  deriving DecidableEq

/-- The result of `sqlite3_step`, with the writes made in it. -/
inductive StepOutcome (W : Type)
  | row (writes : List W)
  | done (writes : List W) (control : Control)
  | failed (rolledBack : Bool)
  deriving DecidableEq

/-- The result of `sqlite3_exec` on a control statement. -/
inductive ControlOutcome
  | ok
  | failed (rolledBack : Bool)
  deriving DecidableEq

/-- SQLite rolls the transaction back by itself. -/
def StepOutcome.rollsBack {W : Type} : StepOutcome W → Bool
  | .failed rolledBack => rolledBack
  | .row _ | .done _ _ => false

def ControlOutcome.rollsBack : ControlOutcome → Bool
  | .failed rolledBack => rolledBack
  | .ok => false

structure NativeStatement where
  query : String
  /-- `sqlite3_step` was called since the last reset. -/
  stepped : Bool
  /-- When the statement was last returned to the cache. -/
  returnedAt : ℕ
  deriving DecidableEq

structure Connection (W : Type) where
  /-- The native handle. -/
  raw : ℕ
  /-- The finished statements' writes in the open transaction; `none` in autocommit mode. -/
  transaction : Option (List W)
  /-- The writes of the statement being stepped. -/
  current : List W
  progressHandler : Bool
  statements : List NativeStatement
  statementCacheCapacity : ℕ
  /-- How many statements were returned to the cache. -/
  returns : ℕ
  deriving DecidableEq

namespace Connection

variable {W : Type}

/-- `Connection::open`. -/
def open_ (raw statementCacheCapacity : ℕ) : Connection W where
  raw := raw
  transaction := none
  current := []
  progressHandler := false
  statements := []
  statementCacheCapacity := statementCacheCapacity
  returns := 0

/-! ## Native calls -/

/-- The writes that are committed when the statement being stepped is done or reset. -/
def autocommitted (c : Connection W) : List W :=
  match c.transaction with
  | none => c.current
  | some _ => []

/-- The statement being stepped is done or reset. -/
def settle (c : Connection W) : Connection W :=
  { c with transaction := c.transaction.map (· ++ c.current), current := [] }

/-- The outcomes SQLite has for a statement of the given kind. -/
def allows (c : Connection W) (kind : Kind) : StepOutcome W → Bool
  | .row _ | .done _ .none | .failed _ => true
  | .done _ .opened => kind = .opens && c.transaction.isNone
  | .done _ .committed | .done _ .rolledBack => kind = .closes && c.transaction.isSome

/-- The transaction after the statement's effect on it, and what that commits. -/
def control (c : Connection W) : Control → Connection W × List W
  | .none => (c, [])
  | .opened => ({ c with transaction := some [] }, [])
  | .committed => ({ c with transaction := none }, c.transaction.getD [])
  | .rolledBack => ({ c with transaction := none }, [])

/-- `sqlite3_step`; the second component is what it commits. -/
def step (c : Connection W) : StepOutcome W → Connection W × List W
  | .row writes => ({ c with current := c.current ++ writes }, [])
  | .done writes effect =>
    let c := { c with current := c.current ++ writes }
    let (c', committed) := c.settle.control effect
    (c', c.autocommitted ++ committed)
  | .failed rolledBack =>
    ({ c with current := [], transaction := if rolledBack then none else c.transaction }, [])

/-- The writes of the statement being stepped, if it is done. -/
def finished (c : Connection W) : StepOutcome W → List W
  | .done writes _ => c.current ++ writes
  | .row _ | .failed _ => []

/-- `execute_control` with a `BEGIN`, which fails inside a transaction. -/
def executeBegin (c : Connection W) (ok : Bool) : Option (Connection W) :=
  if ok && c.transaction.isNone then some { c with transaction := some [] } else none

/-- `execute_control` with a `COMMIT` or `ROLLBACK`, which fails in autocommit mode: whether it
succeeded, the connection after it and what it commits. -/
def executeFinish (c : Connection W) (commit : Bool) :
    ControlOutcome → Bool × Connection W × List W
  | .ok =>
    match c.transaction with
    | none => (false, c, [])
    | some writes => (true, { c with transaction := none }, if commit then writes else [])
  | .failed rolledBack =>
    (false, { c with transaction := if rolledBack then none else c.transaction }, [])

/-! ## The statement cache -/

/-- A cached statement with the same text, or a new one if it can be prepared. -/
def takeStatement (c : Connection W) (query : String) (prepared : Bool) :
    Option (NativeStatement × Connection W) :=
  match Recent.take NativeStatement.query query c.statements with
  | some (statement, statements) => some (statement, { c with statements })
  | none => if prepared then some (⟨query, false, 0⟩, c) else none

/-- `ok` says whether `sqlite3_reset` and `sqlite3_clear_bindings` returned `SQLITE_OK`; otherwise
the statement is dropped, which resets it too. -/
def returnStatement (c : Connection W) (statement : NativeStatement) (ok : Bool) : Connection W :=
  let c := c.settle
  if !ok then c
  else if c.statementCacheCapacity = 0 then c
  else
    { c with
      statements := Recent.put c.statementCacheCapacity
        { statement with stepped := false, returnedAt := c.returns } c.statements
      returns := c.returns + 1 }

end Connection

end BasicWebserver.Sqlite
