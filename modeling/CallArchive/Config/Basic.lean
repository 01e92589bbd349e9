import CallArchive.Failure
import CallArchive.Ingest.Ingestion

/-!
# Configuration

Where the database is and how records are ingested. `validate` accepts the configurations that a run
can use, and names the first field that it cannot.
-/

namespace CallArchive

structure Config where
  path : String
  busyTimeout : Nat
  batchSize : Nat
  retryLimit : Nat
  retryBackoff : Nat
  workers : Nat
  deriving DecidableEq, Repr

/-- The longest time, in milliseconds, that the engine can be told to wait for a lock. -/
def maxBusyTimeout : Nat := 2 ^ 31 - 1

/-- How long it waits if nothing else is said. -/
def defaultBusyTimeout : Nat := 5000

namespace Config

/-- The name of the file that holds the configuration, unless another is named. -/
def fileName : String := "metadb.toml"

def default : Config :=
  { path := "metadata.db"
    busyTimeout := defaultBusyTimeout
    batchSize := Ingest.defaultBatchSize
    retryLimit := Ingest.RetryPolicy.defaultLimit
    retryBackoff := Ingest.RetryPolicy.defaultBackoff
    workers := 1 }

def check (c : Config) : Except ConfigError Unit := do
  if !(1 ≤ c.batchSize ∧ c.batchSize ≤ Ingest.maxBatchSize) then
    throw (.invalid
      s!"ingest.batch_size must be between 1 and {Ingest.maxBatchSize}, got {c.batchSize}")
  if c.retryLimit = 0 then throw (.invalid "ingest.retry_limit must be at least 1")
  if c.workers = 0 then throw (.invalid "ingest.workers must be at least 1")
  if c.path = "" then throw (.invalid "store.path must not be empty")

def validate (c : Config) : Except ConfigError Config := do
  c.check
  return c

/-- How a run with this configuration ingests records. -/
def settings (c : Config) : Ingest.Settings :=
  ⟨Ingest.clampBatchSize c.batchSize, .new c.retryLimit c.retryBackoff⟩

theorem check_default : default.check = .ok () := rfl

end Config

end CallArchive
