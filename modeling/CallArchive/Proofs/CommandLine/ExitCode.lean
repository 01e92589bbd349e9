import CallArchive.CommandLine.Run
import CallArchive.Files.Disk
import CallArchive.Proofs.CommandLine.Words
import CallArchive.Proofs.Except
import CallArchive.Proofs.Ingest.Accounted

/-!
# Exit codes

What a command line is in trouble about decides its exit code, as long as no name and no cause has a
word that stands for another code (`code_of_trouble`). So the code changes when a file is called
after the configuration or the database (`code_of_renamed`).
-/

namespace CallArchive.CommandLine

open Files (Disk Host Path)

variable {σ α β ε : Type}

/-! ## What a command yields -/

/-- Every result of a command is as `Q` says, and it never fails because some records, but not all,
have been stored. -/
def Yields (Q : α → Prop) (a : CommandM (StateM σ) α) : Prop :=
  ∀ s, match (a.run s : Except CommandError α × σ).1 with
    | .ok x => Q x
    | .error e => e.concern ≠ .partialSuccess

/-- It never fails so, whatever its results. -/
def Spares (a : CommandM (StateM σ) α) : Prop := Yields (fun _ => True) a

section

variable {Q : α → Prop} {R : β → Prop} {a : CommandM (StateM σ) α}

theorem Yields.pure {x : α} (h : Q x) : Yields (σ := σ) Q (pure x) := fun _ => h

theorem Yields.mono {Q' : α → Prop} (h : Yields Q a) (hQ : ∀ x, Q x → Q' x) : Yields Q' a := by
  intro s
  have hs := h s
  cases hresult : (a.run s : Except CommandError α × σ).1 with
  | error e => rwa [hresult] at hs
  | ok x =>
    rw [hresult] at hs
    exact hQ x hs

theorem Yields.throw {e : CommandError} (he : e.concern ≠ .partialSuccess)
    (g : α → CommandM (StateM σ) β) : Yields R (throw e >>= g) := fun _ => he

theorem Yields.attempt {place : ε → CommandError} {step : StateM σ (Except ε α)}
    (hplace : ∀ x, (place x).concern ≠ .partialSuccess) (hstep : ∀ s x, (step s).1 = .ok x → Q x) :
    Yields Q (attempt place step) := by
  intro s
  change match (step s).1.mapError place with | .ok x => Q x | .error e => _
  cases h : (step s).1 with
  | error x => exact hplace x
  | ok x => exact hstep s x h

theorem Yields.bind {g : α → CommandM (StateM σ) β} (ha : Yields Q a)
    (hg : ∀ x, Q x → Yields R (g x)) : Yields R (a >>= g) := by
  intro s
  have hfirst := ha s
  rcases hrun : (a.run s : Except CommandError α × σ) with ⟨e | x, t⟩
  · rw [hrun] at hfirst
    rw [stateful_run_bind, hrun]
    exact hfirst
  · rw [hrun] at hfirst
    rw [stateful_run_bind, hrun]
    exact hg x hfirst t

theorem Spares.lift (step : StateM σ α) : Spares (liftM step : CommandM (StateM σ) α) :=
  fun _ => trivial

theorem Spares.attempt {place : ε → CommandError} {step : StateM σ (Except ε α)}
    (hplace : ∀ x, (place x).concern ≠ .partialSuccess) : Spares (attempt place step) :=
  Yields.attempt hplace fun _ _ _ => trivial

theorem Spares.bind {g : α → CommandM (StateM σ) β} (ha : Spares a) (hg : ∀ x, Yields R (g x)) :
    Yields R (a >>= g) := Yields.bind ha fun x _ => hg x

theorem Spares.mapM {f : α → CommandM (StateM σ) β} (hf : ∀ x, Spares (f x)) (xs : List α) :
    Spares (xs.mapM f) := by
  induction xs with
  | nil => exact Yields.pure trivial
  | cons x xs ih =>
    rw [List.mapM_cons]
    exact (hf x).bind fun y => ih.bind fun ys => .pure trivial

end

/-! ## Commands -/

section

variable (host : Host (StateM σ))

theorem spares_loadConfig (p : Path) (db : Option Path) (workers : Option Nat) :
    Spares (loadConfig host p db workers) :=
  (Spares.attempt nofun).bind fun _ => Spares.attempt nofun

theorem spares_openDatabase (busyTimeout : Nat) (p : Path) :
    Spares (openDatabase host busyTimeout p) := by
  unfold openDatabase
  refine (Spares.attempt nofun).bind fun place => ?_
  split
  · exact .throw (by nofun) _
  · exact (Spares.attempt nofun).bind fun db => .pure trivial

theorem spares_expand (inputs : List String) :
    Spares (attempt .inputs (Files.Search.expand host inputs)) := Spares.attempt nofun

theorem spares_readJob (p : Path) : Spares (readJob host p) :=
  (Spares.attempt nofun).bind fun _ => .pure trivial

theorem runInit_yields (config : Path) (db : Option Path) (force : Bool) :
    Yields (fun d => d.failure = none) (runInit host config db force) := by
  unfold runInit
  refine (Spares.lift _).bind fun found => ?_
  split
  · exact .throw (by nofun) _
  · refine (Spares.attempt nofun).bind fun text => (Spares.attempt nofun).bind fun _ => ?_
    split
    · refine (Spares.attempt nofun).bind fun _ => ?_
      exact (spares_openDatabase host _ _).bind fun _ => .pure rfl
    · exact (spares_openDatabase host _ _).bind fun _ => .pure rfl

theorem runStatus_yields (config : Path) (db : Option Path) (json : Bool) :
    Yields (fun d => d.failure = none) (runStatus host config db json) := by
  unfold runStatus
  refine (spares_loadConfig host config db none).bind fun c => (Spares.lift _).bind fun found => ?_
  split
  all_goals
    dsimp only
    split
    · exact .throw (by nofun) _
    · refine (spares_openDatabase host _ _).bind fun opened => ?_
      exact (Spares.lift _).bind fun size => .pure rfl

theorem runValidate_yields (inputs : List String) (json : Bool) :
    Yields (fun d => ∀ e ∈ d.failure, e.concern ≠ .partialSuccess)
      (runValidate host inputs json) := by
  unfold runValidate
  refine (spares_expand host inputs).bind fun files => (Spares.lift _).bind fun reports => ?_
  refine .pure fun e he => ?_
  dsimp only at he
  split at he
  · cases he
  · cases he
    nofun

/-! ## The run over the records -/

/-- The jobs of an `ingest`, and the summary of the run over them. -/
def ingestRun (inputs : List String) (config : Path) (db : Option Path) (workers : Option Nat) :
    CommandM (StateM σ) (List Ingest.Job × Ingest.Summary) := do
  let c ← loadConfig host config db workers
  let files ← attempt .inputs (Files.Search.expand host inputs)
  let jobs ← files.mapM (readJob host)
  let (place, database) ← openDatabase host c.busyTimeout c.path
  let rules : Ingest.WorkshopRules Unit :=
    { settings := c.settings, notifier := .silent, refused := Ingest.WorkshopRules.refuseNone }
  let run := Ingest.Workshop.run rules c.workers jobs (.new (.separate ⟨database, none⟩) ())
  if let .separate file := run.world.stock then host.savePlace file.committed place
  let summary ← attempt (.ingestionNotStarted c.path) (pure run.result)
  return (jobs, summary)

def ingestText (json quiet : Bool) (s : Ingest.Summary) : String :=
  if json then documentText s.document else if quiet then "" else summaryText s

theorem runIngest_eq (inputs : List String) (config : Path) (db : Option Path)
    (workers : Option Nat) (json quiet : Bool) :
    runIngest host inputs config db workers json quiet =
      (do
        let (_, summary) ← ingestRun host inputs config db workers
        return ⟨ingestText json quiet summary, summaryFailure summary⟩) := by
  simp only [runIngest, ingestRun, bind_assoc]
  refine congrArg _ (funext fun c => congrArg _ (funext fun files => congrArg _ (funext fun jobs =>
    congrArg _ (funext fun opened => ?_))))
  generalize Ingest.Workshop.run _ c.workers jobs _ = r
  obtain ⟨result, progress, ⟨stock, requests, pauses, channel⟩⟩ := r
  cases stock with
  | shared store =>
    simp only [bind_assoc, pure_bind]
    rfl
  | separate file =>
    simp only [bind_assoc, pure_bind]
    rfl

theorem total_of_run {ν : Type} {rules : Ingest.WorkshopRules ν} {workers : Nat}
    {jobs : List Ingest.Job} {w : Ingest.Workshop ν} {summary : Ingest.Summary}
    (h : (Ingest.Workshop.run rules workers jobs w).result = .ok summary) :
    summary.succeeded + summary.failedCount = jobs.length := by
  obtain ⟨fs, crew, hcrew, hover, hanswer⟩ := Ingest.Crew.exists_crew _ h
  have haccounted := (Ingest.Crew.accounted_answer hcrew hover).total
  rwa [hanswer] at haccounted

/-- The summary is about as many records as there are jobs. -/
theorem ingestRun_yields (inputs : List String) (config : Path) (db : Option Path)
    (workers : Option Nat) :
    Yields (fun p => p.2.succeeded + p.2.failedCount = p.1.length)
      (ingestRun host inputs config db workers) := by
  unfold ingestRun
  refine (spares_loadConfig host config db workers).bind fun c =>
    (spares_expand host inputs).bind fun files => ?_
  refine (Spares.mapM (spares_readJob host) files).bind fun jobs =>
    (spares_openDatabase host _ _).bind fun opened => ?_
  dsimp only
  generalize hrun : Ingest.Workshop.run _ c.workers jobs _ = r
  have htotal : ∀ summary, r.result = .ok summary →
      summary.succeeded + summary.failedCount = jobs.length := fun _ h => total_of_run (hrun ▸ h)
  have hlast : Yields (fun p => p.2.succeeded + p.2.failedCount = p.1.length)
      (do
        let summary ← attempt (.ingestionNotStarted c.path) (pure r.result : StateM σ _)
        return (jobs, summary)) :=
    Yields.bind (.attempt nofun fun _ summary h => htotal summary h) fun _ h => .pure h
  split
  · exact (Spares.lift _).bind fun _ => hlast
  · exact hlast

end

/-! ## Trouble -/

/-- The failure with which a command has ended. -/
def failure? : Except CommandError Done → Option CommandError
  | .error e => some e
  | .ok d => d.failure

/-- Why a command line is not carried out: it does not say what to do, or its command fails. -/
inductive Trouble where
  | usage
  | command (e : CommandError)
  deriving DecidableEq

def Trouble.code : Trouble → Nat
  | .usage => usageCode
  | .command e => CommandError.codeWith e.concern e.namesConfig e.namesDatabase

/-- The same trouble, perhaps over other names that have the same words of exit codes in them. -/
inductive Trouble.Alike : Trouble → Trouble → Prop where
  | usage : Alike .usage .usage
  | command {e e' : CommandError} (concern : e'.concern = e.concern)
      (config : e'.namesConfig = e.namesConfig) (database : e'.namesDatabase = e.namesDatabase) :
      Alike (.command e) (.command e')

theorem Trouble.Alike.code_eq {t t' : Trouble} (h : Alike t t') : t'.code = t.code := by
  cases h with
  | usage => rfl
  | command concern config database => rw [code, code, concern, config, database]

section

variable (host : Host (StateM σ)) (arguments : List String) (s : σ)

/-- The trouble with a command line on a host in a state. -/
def trouble? : Option Trouble :=
  match Request.ofArguments arguments with
  | .run command quiet =>
    (failure? ((runCommand host quiet command).run s : Except CommandError Done × σ).1).map .command
  | .version | .help _ => none
  | .nothing | .refused _ => some .usage

theorem run_code :
    (run host arguments s).1.code = ((trouble? host arguments s).map Trouble.code).getD 0 := by
  unfold run trouble?
  cases Request.ofArguments arguments with
  | run command quiet =>
    simp only [conclude, bind, StateT.bind]
    rcases ((runCommand host quiet command).run s : Except CommandError Done × σ) with ⟨_ | d, s'⟩
    · exact CommandError.exitCode_eq _
    · obtain ⟨output, _ | e⟩ := d
      · rfl
      · exact CommandError.exitCode_eq e
  | version => rfl
  | help topic => rfl
  | nothing => rfl
  | refused e => rfl

/-- An `ingest` that comes to its end has stored some of the records, but not all. -/
def StoresSome : Prop :=
  ∃ inputs config db workers json quiet jobs summary,
    Request.ofArguments arguments = .run (.ingest inputs config db workers json) quiet ∧
    ((ingestRun host inputs config db workers).run s : Except CommandError _ × σ).1
      = .ok (jobs, summary) ∧
    0 < summary.succeeded ∧ summary.succeeded < jobs.length

theorem failure?_runIngest (inputs : List String) (config : Path) (db : Option Path)
    (workers : Option Nat) (json quiet : Bool) :
    failure? ((runIngest host inputs config db workers json quiet).run s
      : Except CommandError Done × σ).1 =
      match ((ingestRun host inputs config db workers).run s : Except CommandError _ × σ).1 with
      | .ok (_, summary) => summaryFailure summary
      | .error e => some e := by
  rw [runIngest_eq, stateful_run_bind]
  rcases ((ingestRun host inputs config db workers).run s : Except CommandError _ × σ) with
    ⟨_ | ⟨jobs, summary⟩, s'⟩ <;> rfl

theorem Yields.failure? {a : CommandM (StateM σ) Done} (s : σ)
    (h : Yields (fun d => ∀ e ∈ d.failure, e.concern ≠ .partialSuccess) a) :
    ¬ ∃ e ∈ failure? (a.run s : Except CommandError Done × σ).1, e.concern = .partialSuccess := by
  rintro ⟨e, he, hconcern⟩
  have hs := h s
  cases hresult : (a.run s : Except CommandError Done × σ).1 with
  | error e' =>
    rw [hresult] at hs he
    cases he
    exact hs hconcern
  | ok d =>
    rw [hresult] at hs he
    exact hs e he hconcern

theorem summaryFailure_partial {summary : Ingest.Summary} :
    (∃ e ∈ summaryFailure summary, e.concern = .partialSuccess) ↔
      0 < summary.succeeded ∧ 0 < summary.failedCount := by
  unfold summaryFailure
  split
  · next h => simp [h]
  · next h =>
    split
    · next hsome => exact ⟨fun _ => ⟨hsome, Nat.pos_of_ne_zero h⟩, fun _ => ⟨_, rfl, rfl⟩⟩
    · next hnone =>
      refine ⟨?_, fun hsome => absurd hsome.1 hnone⟩
      rintro ⟨e, he, hconcern⟩
      cases he
      cases hconcern

theorem runIngest_partial (inputs : List String) (config : Path) (db : Option Path)
    (workers : Option Nat) (json quiet : Bool) :
    (∃ e ∈ failure? ((runIngest host inputs config db workers json quiet).run s
      : Except CommandError Done × σ).1, e.concern = .partialSuccess) ↔
      ∃ jobs summary, ((ingestRun host inputs config db workers).run s
          : Except CommandError _ × σ).1 = .ok (jobs, summary) ∧
        0 < summary.succeeded ∧ summary.succeeded < jobs.length := by
  have hs := ingestRun_yields host inputs config db workers s
  rw [failure?_runIngest]
  cases hresult : ((ingestRun host inputs config db workers).run s
    : Except CommandError _ × σ).1 with
  | error e =>
    rw [hresult] at hs
    constructor
    · rintro ⟨e', he', hconcern⟩
      cases he'
      exact absurd hconcern hs
    · rintro ⟨jobs, summary, h, -⟩
      cases h
  | ok p =>
    obtain ⟨jobs, summary⟩ := p
    rw [hresult] at hs
    have htotal : summary.succeeded + summary.failedCount = jobs.length := hs
    refine summaryFailure_partial.trans ⟨fun h => ⟨jobs, summary, rfl, h.1, by omega⟩, ?_⟩
    rintro ⟨jobs', summary', h, hsome, hless⟩
    obtain ⟨rfl, rfl⟩ := Prod.mk.inj (Except.ok.inj h)
    exact ⟨hsome, by omega⟩

/-- A command fails over some of the records exactly if it has stored some, but not all. -/
theorem runCommand_partial (quiet : Bool) (command : Command) :
    (∃ e ∈ failure? ((runCommand host quiet command).run s : Except CommandError Done × σ).1,
      e.concern = .partialSuccess) ↔
      ∃ inputs config db workers json jobs summary,
        command = .ingest inputs config db workers json ∧
        ((ingestRun host inputs config db workers).run s : Except CommandError _ × σ).1
          = .ok (jobs, summary) ∧
        0 < summary.succeeded ∧ summary.succeeded < jobs.length := by
  cases command with
  | ingest inputs config db workers json =>
    refine (runIngest_partial host s inputs config db workers json quiet).trans ⟨?_, ?_⟩
    · rintro ⟨jobs, summary, h⟩
      exact ⟨inputs, config, db, workers, json, jobs, summary, rfl, h⟩
    · rintro ⟨_, _, _, _, _, jobs, summary, heq, h⟩
      cases heq
      exact ⟨jobs, summary, h⟩
  | init config db force =>
    have hyields := runInit_yields host config db force
    refine iff_of_false ((hyields.mono fun d hd => ?_).failure? s) ?_
    · simp [hd]
    · rintro ⟨_, _, _, _, _, _, _, heq, -⟩
      cases heq
  | validate inputs json =>
    refine iff_of_false ((runValidate_yields host inputs json).failure? s) ?_
    rintro ⟨_, _, _, _, _, _, _, heq, -⟩
    cases heq
  | status config db json =>
    have hyields := runStatus_yields host config db json
    refine iff_of_false ((hyields.mono fun d hd => ?_).failure? s) ?_
    · simp [hd]
    · rintro ⟨_, _, _, _, _, _, _, heq, -⟩
      cases heq

theorem trouble?_partial :
    (∃ e, trouble? host arguments s = some (.command e) ∧ e.concern = .partialSuccess) ↔
      StoresSome host arguments s := by
  unfold trouble? StoresSome
  cases Request.ofArguments arguments with
  | run command quiet =>
    simp only [Option.map_eq_some_iff, Trouble.command.injEq, exists_eq_right, Request.run.injEq]
    refine (runCommand_partial host s quiet command).trans ⟨?_, ?_⟩
    · rintro ⟨inputs, config, db, workers, json, jobs, summary, heq, h⟩
      exact ⟨inputs, config, db, workers, json, quiet, jobs, summary, ⟨heq, rfl⟩, h⟩
    · rintro ⟨inputs, config, db, workers, json, _, jobs, summary, ⟨heq, -⟩, h⟩
      exact ⟨inputs, config, db, workers, json, jobs, summary, heq, h⟩
  | _ => simp

end

/-! ## What a code says -/

theorem Trouble.code_ne_zero (t : Trouble) : t.code ≠ 0 := by
  cases t with
  | usage => decide
  | command e => exact CommandError.codeWith_ne_zero

theorem Trouble.code_eq_two_iff {t : Trouble} :
    t.code = 2 ↔ t = .usage ∨ ∃ e, t = .command e ∧
      (e.concern = .configuration ∨ e.concern ≠ .partialSuccess ∧ e.namesConfig = true) := by
  cases t with
  | usage => simp [code, usageCode]
  | command e =>
    have hpanic := CommandError.concern_ne_panic (e := e)
    simp only [code, CommandError.codeWith_eq_two_iff, reduceCtorEq, command.injEq, false_or,
      exists_eq_left']
    tauto

theorem Trouble.code_eq_four_iff {t : Trouble} :
    t.code = 4 ↔ ∃ e, t = .command e ∧ e.namesConfig = false ∧
      (e.concern = .database ∨ e.concern = .other ∧ e.namesDatabase = true) := by
  cases t with
  | usage => simp [code, usageCode]
  | command e => simp [code, CommandError.codeWith_eq_four_iff]

theorem Trouble.code_eq_ten_iff {t : Trouble} :
    t.code = 10 ↔ ∃ e, t = .command e ∧ e.concern = .partialSuccess := by
  cases t with
  | usage => simp [code, usageCode]
  | command e => simp [code, CommandError.codeWith_eq_ten_iff]

theorem run_code_of_trouble {host : Host (StateM σ)} {arguments : List String} {s : σ} {t : Trouble}
    (h : trouble? host arguments s = some t) : (run host arguments s).1.code = t.code := by
  rw [run_code, h]
  rfl

/-- The exit code is 0 exactly if there is no trouble, and 10 exactly if some records, but not all,
have been stored. Troubles that are alike have the same code. It is 2 if the command line does not
say what to do or there is something with the configuration, and 4 if there is something with the
database; but a name or a cause that has the word of another code in it brings that code. -/
theorem code_of_trouble (host : Host (StateM σ)) (arguments : List String) (s : σ) :
    ((run host arguments s).1.code = 0 ↔ trouble? host arguments s = none) ∧
    ((run host arguments s).1.code = 10 ↔ StoresSome host arguments s) ∧
    ∀ t, trouble? host arguments s = some t →
      (∀ (τ : Type) (host' : Host (StateM τ)) (arguments' : List String) (s' : τ) (t' : Trouble),
        trouble? host' arguments' s' = some t' → t.Alike t' →
        (run host' arguments' s').1.code = (run host arguments s).1.code) ∧
      ((run host arguments s).1.code = 2 ↔ t = .usage ∨ ∃ e, t = .command e ∧
        (e.concern = .configuration ∨ e.concern ≠ .partialSuccess ∧ e.namesConfig = true)) ∧
      ((run host arguments s).1.code = 4 ↔ ∃ e, t = .command e ∧ e.namesConfig = false ∧
        (e.concern = .database ∨ e.concern = .other ∧ e.namesDatabase = true)) := by
  refine ⟨?_, ?_, fun t ht => ⟨fun τ host' arguments' s' t' ht' halike => ?_, ?_, ?_⟩⟩
  · rw [run_code]
    cases trouble? host arguments s with
    | none => simp
    | some t => simp [t.code_ne_zero]
  · rw [← trouble?_partial, run_code]
    cases trouble? host arguments s with
    | none => simp
    | some t => simp [Trouble.code_eq_ten_iff]
  · rw [run_code_of_trouble ht, run_code_of_trouble ht', halike.code_eq]
  · rw [run_code_of_trouble ht, Trouble.code_eq_two_iff]
  · rw [run_code_of_trouble ht, Trouble.code_eq_four_iff]

def emptyDisk : Disk := ⟨.empty, []⟩

theorem code_of_trouble_databaseNotFound :
    trouble? Disk.host ["status", "--db", "calls.db"] emptyDisk
      = some (.command (.databaseNotFound "calls.db")) ∧
    (run Disk.host ["status", "--db", "graphs.db"] emptyDisk).1.code
      = (run Disk.host ["status", "--db", "calls.db"] emptyDisk).1.code ∧
    (run Disk.host ["status", "--db", "calls.db"] emptyDisk).1.code = 4 ∧
    ¬ StoresSome Disk.host ["status", "--db", "calls.db"] emptyDisk := by
  have htrouble : trouble? Disk.host ["status", "--db", "calls.db"] emptyDisk
      = some (.command (.databaseNotFound "calls.db")) := by decide +kernel
  have hother : trouble? Disk.host ["status", "--db", "graphs.db"] emptyDisk
      = some (.command (.databaseNotFound "graphs.db")) := by decide +kernel
  obtain ⟨-, hten, hknown⟩ := code_of_trouble Disk.host ["status", "--db", "calls.db"] emptyDisk
  obtain ⟨hrenamed, -, hfour⟩ := hknown _ htrouble
  have hcode := hfour.mpr ⟨_, rfl, by decide +kernel, .inl rfl⟩
  refine ⟨htrouble, hrenamed _ _ _ _ _ hother (.command rfl ?_ ?_), hcode, hten.not.mp ?_⟩
  · decide +kernel
  · decide +kernel
  · rw [hcode]
    decide

/-- A database that is not there counts as trouble with the configuration if it is called after it,
and a pattern that is wrong counts as trouble with the database. -/
theorem code_of_renamed :
    (∀ name ∈ ["calls.db", "config.db"],
      trouble? Disk.host ["status", "--db", name] emptyDisk
        = some (.command (.databaseNotFound name))) ∧
    (run Disk.host ["status", "--db", "calls.db"] emptyDisk).1.code = 4 ∧
    (run Disk.host ["status", "--db", "config.db"] emptyDisk).1.code = 2 ∧
    (∀ name ∈ ["packages[", "database["],
      trouble? Disk.host ["ingest", name] emptyDisk
        = some (.command (.inputs (.badPattern name (.brackets 8))))) ∧
    (run Disk.host ["ingest", "packages["] emptyDisk).1.code = 1 ∧
    (run Disk.host ["ingest", "database["] emptyDisk).1.code = 4 := by
  have hstatus : ∀ name ∈ ["calls.db", "config.db"],
      trouble? Disk.host ["status", "--db", name] emptyDisk
        = some (.command (.databaseNotFound name)) := by decide +kernel
  have hingest : ∀ name ∈ ["packages[", "database["],
      trouble? Disk.host ["ingest", name] emptyDisk
        = some (.command (.inputs (.badPattern name (.brackets 8)))) := by decide +kernel
  refine ⟨hstatus, ?_, ?_, hingest, ?_, ?_⟩
  · exact (run_code_of_trouble (hstatus "calls.db" (by decide))).trans (by decide +kernel)
  · exact (run_code_of_trouble (hstatus "config.db" (by decide))).trans (by decide +kernel)
  · exact (run_code_of_trouble (hingest "packages[" (by decide))).trans (by decide +kernel)
  · exact (run_code_of_trouble (hingest "database[" (by decide))).trans (by decide +kernel)

end CallArchive.CommandLine
