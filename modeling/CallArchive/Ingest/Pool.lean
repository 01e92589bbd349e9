import CallArchive.Ingest.Ingestion
import CallArchive.Ingest.Progress

/-!
# Pools of workers

Workers take records from one queue. A `Board` holds the queue, a ledger for each worker, and what
the observer has been told; its steps are that a worker takes a job (`take`), finishes it (`finish`)
or dies over it (`die`). `conclude` adds up the ledgers: the job of a worker that died is lost, and
so are the jobs that nobody took. `runWorkers` lets one worker after the other empty the queue.
-/

namespace CallArchive.Ingest

open Store (RowId)

/-- A record with the label by which reports name it. -/
structure Job where
  label : String
  text : String
  deriving DecidableEq, Repr

structure JobOutcome where
  label : String
  packageId : Option RowId
  failure : Option FailureClass
  message : Option String
  deriving DecidableEq, Repr

structure Summary where
  succeeded : Nat
  failed : Tally FailureClass
  arcs : ArcReport
  outcomes : List JobOutcome

namespace Summary

def empty : Summary := ⟨0, .empty, .empty, []⟩

def failedCount (s : Summary) : Nat := s.failed.total FailureClass.all

def total (s : Summary) : Nat := s.succeeded + s.failedCount

def failures (s : Summary) : List (FailureClass × Nat) := s.failed.entries FailureClass.all

def recordFailure (s : Summary) (label : String) (c : FailureClass) (message : String) : Summary :=
  { s with
    failed := s.failed.add c
    outcomes := s.outcomes ++ [⟨label, none, some c, some message⟩] }

def record (s : Summary) (label : String) : Except Error Report → Summary
  | .ok report =>
    { s with
      succeeded := s.succeeded + 1
      arcs := s.arcs.merge report.arcs
      outcomes := s.outcomes ++ [⟨label, some report.written.packageId, none, none⟩] }
  | .error e => s.recordFailure label e.failureClass e.message

/-- A job without a result counts as a fatal failure. -/
def recordLost (s : Summary) (label message : String) : Summary :=
  s.recordFailure label .fatal message

def absorb (s other : Summary) : Summary :=
  ⟨s.succeeded + other.succeeded, s.failed.merge other.failed, s.arcs.merge other.arcs,
    s.outcomes ++ other.outcomes⟩

end Summary

def diedMessage : String := "worker panicked while ingesting this record"

def leftoverMessage : String := "not processed: no worker left to take it"

/-- What a worker has done, what it is at, and whether it has died. -/
structure Ledger where
  summary : Summary
  inFlight : Option String
  dead : Bool

def Ledger.empty : Ledger := ⟨.empty, none, false⟩

structure Board where
  queue : List Job
  ledgers : List Ledger
  progress : List ProgressEvent

namespace Board

def new (workers : Nat) (jobs : List Job) : Board :=
  ⟨jobs, List.replicate workers .empty, [.begin jobs.length]⟩

def modifyLedger (b : Board) (worker : Nat) (f : Ledger → Ledger) : Board :=
  { b with ledgers := b.ledgers.modify worker f }

/-- The worker takes the next job, if there is one. -/
def take (b : Board) (worker : Nat) : Option (Job × Board) :=
  match b.queue with
  | [] => none
  | job :: rest =>
    let b := { b with queue := rest }
    some (job, b.modifyLedger worker fun l => { l with inFlight := some job.label })

theorem take_eq_some_iff {b board : Board} {worker : Nat} {job : Job} :
    b.take worker = some (job, board) ↔ ∃ rest, b.queue = job :: rest ∧
      { b with queue := rest }.modifyLedger worker (fun l => { l with inFlight := some job.label })
        = board := by
  unfold take
  cases b.queue with
  | nil => simp
  | cons first rest =>
    simp only [Option.some.injEq, Prod.mk.injEq, List.cons.injEq]
    constructor
    · rintro ⟨rfl, rfl⟩
      exact ⟨rest, ⟨rfl, rfl⟩, rfl⟩
    · rintro ⟨_, ⟨rfl, rfl⟩, rfl⟩
      exact ⟨rfl, rfl⟩

def failureText : Except Error Report → Option String
  | .ok _ => none
  | .error e => some e.message

def finish (b : Board) (worker : Nat) (label : String) (result : Except Error Report) : Board :=
  let b := { b with progress := b.progress ++ [ProgressEvent.done label (failureText result)] }
  b.modifyLedger worker fun l =>
    { l with inFlight := none, summary := l.summary.record label result }

def die (b : Board) (worker : Nat) : Board := b.modifyLedger worker fun l => { l with dead := true }

/-- A summary with the events told so far. -/
structure Tallying where
  summary : Summary
  progress : List ProgressEvent

def lose (t : Tallying) (label message : String) : Tallying :=
  ⟨t.summary.recordLost label message, t.progress ++ [.done label (some message)]⟩

/-- The job over which a worker died comes before what it had finished. -/
def absorbLedger (t : Tallying) (l : Ledger) : Tallying :=
  let t := match l.dead, l.inFlight with
    | true, some label => lose t label diedMessage
    | _, _ => t
  { t with summary := t.summary.absorb l.summary }

def conclude (b : Board) : Summary × List ProgressEvent :=
  let t := b.ledgers.foldl absorbLedger ⟨.empty, b.progress⟩
  let t := b.queue.foldl (fun t job => lose t job.label leftoverMessage) t
  (t.summary, t.progress ++ [.finished])

end Board

/-! ## Running the workers -/

/-- What a worker needs from a world `ω`: to be set up, to process a record, and to be put down. -/
structure Workplace (ω : Type) where
  open? : (worker : Nat) → ω → Except Error Unit × ω
  process : (worker : Nat) → Job → ω → Option (Except Error Report) × ω
  close : (worker : Nat) → ω → ω

namespace Workplace

variable {ω : Type}

/-- Sets up the workers from `worker` on; the first failure ends it. -/
def openFrom (w : Workplace ω) : (count worker : Nat) → ω → Except Error Unit × ω
  | 0, _, s => (.ok (), s)
  | count + 1, worker, s =>
    match w.open? worker s with
    | (.ok (), s) => openFrom w count (worker + 1) s
    | (.error e, s) => (.error e, s)

/-- A worker takes jobs until none are left, or until it dies. -/
def drain (w : Workplace ω) (worker : Nat) : (jobs : Nat) → Board → ω → Board × ω
  | 0, b, s => (b, w.close worker s)
  | jobs + 1, b, s =>
    match b.take worker with
    | none => (b, w.close worker s)
    | some (job, b) =>
      match w.process worker job s with
      | (some result, s) => drain w worker jobs (b.finish worker job.label result) s
      | (none, s) => (b.die worker, s)

def drainFrom (w : Workplace ω) : (count worker : Nat) → Board → ω → Board × ω
  | 0, _, b, s => (b, s)
  | count + 1, worker, b, s =>
    let (b, s) := w.drain worker b.queue.length b s
    drainFrom w count (worker + 1) b s

/-- What a pool answers: nothing has begun if a worker could not be set up. -/
structure PoolRun (ω : Type) where
  result : Except Error Summary
  progress : List ProgressEvent
  world : ω

/-- There are no more workers than jobs, and at least one. -/
def workersFor (workers jobs : Nat) : Nat := min (max workers 1) (max jobs 1)

def runWorkers (w : Workplace ω) (workers : Nat) (jobs : List Job) (s : ω) : PoolRun ω :=
  let count := workersFor workers jobs.length
  match w.openFrom count 0 s with
  | (.error e, s) => ⟨.error e, [], s⟩
  | (.ok (), s) =>
    let (b, s) := w.drainFrom count 0 (.new count jobs) s
    let (summary, progress) := b.conclude
    ⟨.ok summary, progress, s⟩

end Workplace

end CallArchive.Ingest
