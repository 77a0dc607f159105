import BasicWebserver.Sqlite.Places

/-!
# Statement caches

The statement cache of a connection is a bounded list in most-recently-returned order. While a
statement is out of the cache, no other with its text is in it, so that returning it keeps the texts
distinct.
-/

namespace BasicWebserver.Sqlite

variable {W : Type} {config : Config}

namespace Connection

variable {c c' : Connection W} {statement : NativeStatement} {query : String} {prepared ok : Bool}

/-- The cache is in order, with the configured capacity. -/
structure Cached (config : Config) (c : Connection W) : Prop where
  capacity : c.statementCacheCapacity = config.statementCacheCapacity
  recent : Recent.WellFormed NativeStatement.query NativeStatement.returnedAt
    c.statementCacheCapacity c.returns c.statements

/-- The statement was taken from the cache, or prepared because it was not there. -/
structure Lacks (config : Config) (c : Connection W) (statement : NativeStatement) : Prop where
  cached : c.Cached config
  notMem : statement.query ∉ c.statements.map NativeStatement.query

theorem Cached.congr (h : c.Cached config) (hstatements : c'.statements = c.statements)
    (hcapacity : c'.statementCacheCapacity = c.statementCacheCapacity)
    (hreturns : c'.returns = c.returns) : c'.Cached config := by
  exact ⟨hcapacity ▸ h.capacity, by simpa [hstatements, hcapacity, hreturns] using h.recent⟩

theorem cached_open (raw : ℕ) :
    (open_ raw config.statementCacheCapacity : Connection W).Cached config :=
  ⟨rfl, .nil⟩

theorem Cached.takeStatement (h : c.Cached config)
    (htake : c.takeStatement query prepared = some (statement, c')) : c'.Lacks config statement := by
  unfold Connection.takeStatement at htake
  split at htake
  · rename_i found statements hfound
    cases htake
    refine ⟨⟨h.capacity, h.recent.sublist (Recent.sublist_of_take hfound)⟩, ?_⟩
    rw [Recent.key_of_take hfound]
    exact Recent.notMem_of_take hfound h.recent.nodup
  · rename_i hfound
    split_ifs at htake
    cases htake
    exact ⟨h, Recent.notMem_of_take_eq_none hfound⟩

theorem Lacks.returnStatement (h : c.Lacks config statement) :
    (c.returnStatement statement ok).Cached config := by
  obtain ⟨hcached, hnotMem⟩ := h
  unfold Connection.returnStatement
  dsimp only
  split_ifs
  · exact hcached.congr rfl rfl rfl
  · exact hcached.congr rfl rfl rfl
  · exact ⟨hcached.capacity, hcached.recent.put rfl hnotMem⟩

theorem Cached.executeBegin (h : c.Cached config) (hbegin : c.executeBegin ok = some c') :
    c'.Cached config := by
  grind [Connection.executeBegin, Cached]

theorem Cached.executeFinish {commit finished : Bool} {outcome : ControlOutcome} {writes : List W}
    (h : c.Cached config) (hfinish : c.executeFinish commit outcome = (finished, c', writes)) :
    c'.Cached config := by
  cases outcome <;> grind [Connection.executeFinish, Cached]

theorem cache_step (c : Connection W) (outcome : StepOutcome W) :
    (c.step outcome).1.statements = c.statements ∧
      (c.step outcome).1.statementCacheCapacity = c.statementCacheCapacity ∧
      (c.step outcome).1.returns = c.returns := by
  cases outcome with
  | row writes => exact ⟨rfl, rfl, rfl⟩
  | done writes effect => cases effect <;> exact ⟨rfl, rfl, rfl⟩
  | failed rolledBack => exact ⟨rfl, rfl, rfl⟩

theorem Lacks.step {outcome : StepOutcome W} (h : c.Lacks config statement) :
    (c.step outcome).1.Lacks config { statement with stepped := true } := by
  obtain ⟨hstatements, hcapacity, hreturns⟩ := c.cache_step outcome
  refine ⟨h.cached.congr hstatements hcapacity hreturns, ?_⟩
  rw [hstatements]
  exact h.notMem

end Connection

/-- Caches are in order everywhere. -/
def caches (config : Config) : Places W where
  idle := Connection.Cached config
  pooled := Connection.Lacks config
  transaction := Connection.Cached config
  executing := Connection.Lacks config

theorem caches_closed : (caches config : Places W).Closed config fun _ => True where
  open_ := Connection.cached_open
  begin h hbegin := h.executeBegin hbegin
  prepare h hstatement := (h.takeStatement hstatement).returnStatement
  start h hstatement :=
    have hlacks := h.takeStatement hstatement
    ⟨hlacks.cached.congr rfl rfl rfl, hlacks.notMem⟩
  step h := h.step
  drop _ h := Connection.Lacks.returnStatement ⟨h.cached.congr rfl rfl rfl, h.notMem⟩
  prepareTransaction h hstatement := (h.takeStatement hstatement).returnStatement
  startTransaction h hstatement :=
    have hlacks := h.takeStatement hstatement
    ⟨hlacks.cached.congr rfl rfl rfl, hlacks.notMem⟩
  stepTransaction h := h.step
  dropTransaction h := Connection.Lacks.returnStatement ⟨h.cached.congr rfl rfl rfl, h.notMem⟩
  finish h hfinish := h.executeFinish hfinish
  finishFailed h hfinish := h.executeFinish hfinish

end BasicWebserver.Sqlite
