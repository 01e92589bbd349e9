import CallArchive.Ingest.Pool

/-!
# Workers on stores

A workshop is what the workers of a pool work with: a stock of stores, the number of stores asked
for, the pauses made so far, and the state of the notifier. All workers share one store, or each has
a connection of its own to one file.
-/

namespace CallArchive.Ingest

open Store (ConnectionName)

/-- Where the stores of the workers come from. -/
inductive Stock where
  | shared (store : Store)
  | separate (file : Store.File)

structure Workshop (ν : Type) where
  stock : Stock
  requests : Nat
  pauses : List Nat
  channel : ν

/-- How the workers of a workshop work. Some requests for a store may be refused. -/
structure WorkshopRules (ν : Type) where
  settings : Settings
  notifier : Notifier ν
  refused : (request : Nat) → Option StoreError

def WorkshopRules.refuseNone : (request : Nat) → Option StoreError := fun _ => none

namespace Workshop

def new (stock : Stock) (channel : ν) : Workshop ν := ⟨stock, 0, [], channel⟩

def connectionOf (worker : Nat) : ConnectionName := s!"worker {worker}"

/-- The store of a worker that has been set up. -/
def Stock.storeOf (worker : Nat) : Stock → Store
  | .shared s => s
  | .separate file =>
    { file, connection := connectionOf worker, isOpen := true, faults := .never, history := .none }

def Stock.putBack (s : Store) : Stock → Stock
  | .shared _ => .shared s
  | .separate _ => .separate s.file

def Stock.connect (worker : Nat) : Stock → Except StoreError Unit × Stock
  | .shared s => (.ok (), .shared s)
  | .separate file =>
    let (result, file) := file.connect (connectionOf worker)
    (result, .separate file)

/-- A worker needs a store, and then its notifier has to start. -/
def setUp (rules : WorkshopRules ν) (worker : Nat) (w : Workshop ν) :
    Except Error Unit × Workshop ν :=
  let request := w.requests
  let w := { w with requests := request + 1 }
  match rules.refused request with
  | some e => (.error (.store e), w)
  | none =>
    let (connected, stock) := Stock.connect worker w.stock
    let w := { w with stock }
    match connected with
    | .error e => (.error (.store e), w)
    | .ok () =>
      let (started, channel) := rules.notifier.start w.channel
      (started.mapError .notify, { w with channel })

/-- A worker that its notification breaks leaves no result. -/
def process (rules : WorkshopRules ν) (worker : Nat) (job : Job) (w : Workshop ν) :
    Option (Except Error Report) × Workshop ν :=
  let run := ingest rules.settings rules.notifier job.text (Stock.storeOf worker w.stock) w.channel
  let w := { w with
    stock := Stock.putBack run.store w.stock
    pauses := w.pauses ++ run.pauses
    channel := run.channel }
  (if run.crashed then none else some run.result, w)

def putDown (rules : WorkshopRules ν) (w : Workshop ν) : Workshop ν :=
  { w with channel := (rules.notifier.close w.channel).2 }

def workplace (rules : WorkshopRules ν) : Workplace (Workshop ν) :=
  { open? := setUp rules, process := process rules, close := fun _ => putDown rules }

/-- Has the workers ingest the jobs. -/
def run (rules : WorkshopRules ν) (workers : Nat) (jobs : List Job) (w : Workshop ν) :
    Workplace.PoolRun (Workshop ν) :=
  (workplace rules).runWorkers workers jobs w

end Workshop

end CallArchive.Ingest
