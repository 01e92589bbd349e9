import CallArchive.Proofs.Ingest.Shared
import CallArchive.Proofs.Store.Answers

/-!
# Ids that have been committed are permanent

Storing a record goes along every course of databases, as single statements do
(`goes_storeRecord`), and so does what is committed in a file through any steps of its connections
(`moves_afterSteps`). With the course on which no row is lost this says that what has once been
committed stays: whatever happens later, its rows are there, and whoever writes or asks for their
keys is answered their ids (`identities_permanent`).
-/

namespace CallArchive.Ingest

open Store (RowId Row Change Connections Course Database File FaultPlan Goes
  run_change_bind_eq_some run_change_eq_some)
open Time (Instant)

/-! ## Storing a record -/

section Goes

variable {R : Database → Database → Prop} (hR : Course R)

include hR

theorem goes_lift {α : Type} (o : Option α) : Goes R (StateT.lift o : Change α) := by
  intro db a db' h
  cases o with
  | none => cases h
  | some b =>
    obtain ⟨-, rfl⟩ := Prod.mk.inj (Option.some.inj h)
    exact hR.refl db

theorem goes_storeDependency (versionId : RowId) (d : DependencySpec) :
    Goes R (storeDependency versionId d) :=
  hR.bind (hR.upsertPackage _).change fun _ =>
    hR.bind (hR.insertDependency _).change fun _ => hR.pure _

theorem goes_storeModule (versionId : RowId) (createdAt : Option Instant) (m : ModuleSpec) :
    Goes R (storeModule versionId createdAt m) := by
  refine hR.bind (hR.upsertModule _).change fun moduleId => ?_
  have hsource : Goes R (storeSource versionId moduleId createdAt m.sourceFile) := by
    cases m.sourceFile with
    | none => exact hR.pure ()
    | some path => exact hR.bind (hR.upsertFile _).change fun fileId => (hR.linkFile _).change
  exact hR.bind hsource fun _ => hR.pure _

theorem goes_storeCallables (batchSize : Nat) (pending : List PendingCallable) :
    Goes R (storeCallables batchSize pending) :=
  hR.foldlM (fun _ _ => hR.bind (hR.upsertCallables _).change fun _ => hR.pure _) _ _

theorem goes_storeExternals (known : Externals) (arcs : List ExternalArc) :
    Goes R (storeExternals known arcs) := by
  induction arcs generalizing known with
  | nil => exact hR.pure _
  | cons arc rest ih =>
    have hone : Goes R (storeExternal known arc.target) := by
      unfold storeExternal
      cases known.get? arc.target with
      | some id => exact hR.pure _
      | none => exact hR.bind (hR.upsertCallable _).change fun _ => hR.pure _
    exact hR.bind hone fun p => hR.bind (ih p.2) fun _ => hR.pure _

theorem goes_storeEdges (batchSize : Nat) (ids : IdMap) (pending : List PendingEdge) :
    Goes R (storeEdges batchSize ids pending) :=
  hR.bind (goes_lift hR _) fun _ =>
    hR.foldlM (fun _ _ => hR.bind (hR.upsertEdges _).change fun _ => hR.pure _) _ _

theorem goes_storeRecord (batchSize : Nat) (v : Validated) : Goes R (storeRecord batchSize v) := by
  have hnodes : Goes R (storeNodes batchSize v) := by
    unfold storeNodes
    refine hR.bind (hR.upsertPackage _).change fun packageId => ?_
    refine hR.bind (hR.upsertVersion _).change fun versionId => ?_
    refine hR.bind (hR.forIn (goes_storeDependency hR versionId) _) fun _ => ?_
    refine hR.bind (hR.mapM (goes_storeModule hR versionId _) _) fun pending => ?_
    refine hR.bind (goes_storeCallables hR batchSize _) fun ids => ?_
    exact hR.bind (goes_storeExternals hR [] _) fun _ => hR.pure _
  exact hR.bind hnodes fun p => hR.bind (goes_storeEdges hR batchSize p.2.1 p.2.2) fun _ => hR.pure _

end Goes

/-- The ids that are reported are those of the package and the version. -/
theorem assigns_storeRecord {old db db' : Database} {batchSize : Nat} {v : Validated} {w : Written}
    (hdb : old.Advances db) (hr : db.Regular)
    (h : (storeRecord batchSize v).run db = some (w, db')) :
    old.packages.Assigns ⟨v.product, v.forge⟩ w.packageId ∧
      old.versions.Assigns ⟨w.packageId, v.generator, v.version⟩ w.versionId := by
  simp only [storeRecord, storeNodes, bind_assoc, pure_bind] at h
  obtain ⟨packageId, db₁, hpackage, h⟩ := run_change_bind_eq_some h
  obtain ⟨versionId, db₂, hversion, h⟩ := run_change_bind_eq_some h
  -- the ids go through all that is stored after them
  have hids : w.packageId = packageId ∧ w.versionId = versionId := by
    obtain ⟨-, db₃, -, h⟩ := run_change_bind_eq_some h
    obtain ⟨pending, db₄, -, h⟩ := run_change_bind_eq_some h
    obtain ⟨ids, db₅, -, h⟩ := run_change_bind_eq_some h
    obtain ⟨externals, db₆, -, h⟩ := run_change_bind_eq_some h
    obtain ⟨-, db₇, -, h⟩ := run_change_bind_eq_some h
    obtain ⟨rfl, -⟩ := Prod.mk.inj (Option.some.inj h)
    exact ⟨rfl, rfl⟩
  have hpackage := run_change_eq_some hpackage
  have hversion := run_change_eq_some hversion
  have hbetween : db.Advances db₁ := Database.advances_course.upsertPackage _ hpackage
  rw [hids.1, hids.2]
  exact ⟨(Database.upserts_package _).assigns Database.identified_packages hdb hr hpackage,
    (Database.upserts_version _).assigns Database.identified_versions (hdb.trans hbetween)
      (hr.advances hbetween) hversion⟩

/-! ## Steps -/

section Moves

variable {R : Database → Database → Prop} (hR : Course R)

include hR

theorem moves_ingest {ν : Type} (settings : Settings) (notifier : Notifier ν) (text : String)
    (s : Store) (channel : ν) :
    File.Moves R s.file (ingest settings notifier text s channel).store.file := by
  unfold ingest
  cases check text with
  | error cause => exact .refl hR s.file
  | ok v =>
    have houtcome := outcome_writeRecord settings v s
    simp only [ingestValidated]
    generalize settings.retry.runTransaction (fun _ => writeRecord settings.batchSize v) s = run
      at houtcome ⊢
    cases houtcome with
    | failed => exact .refl hR s.file
    | committed hi hf =>
      intro _
      exact ⟨goes_storeRecord hR settings.batchSize v hf, .of_writer_none rfl⟩

theorem moves_answer (c : Connections) (step : Step) :
    File.Moves R c.file (answer c step).2.file := by
  cases step with
  | event e =>
    cases e with
    | connect name faults => exact c.moves_connect hR name faults
    | leave name => exact .disconnect hR c.file name
    | ask name r => exact c.moves_run hR name (r.moves hR)
  | read name query =>
    have hread : ∀ s : Store, File.Moves R s.file
        ((discard (Store.readRows query)).run s : Except Error Unit × Store).2.file := by
      intro s
      obtain ⟨result, hrun⟩ := run_discard_readRows s query
      rw [hrun]
      exact .refl hR s.file
    exact c.moves_run hR name hread
  | ingest name settings notifier text channel =>
    simp only [answer, ingestAt]
    split
    · next s hs =>
      rw [← Connections.file_of_store? hs]
      exact moves_ingest hR settings notifier text s channel
    · exact .refl hR c.file

/-- The connections after many steps. -/
def afterSteps (c : Connections) (steps : List Step) : Connections :=
  steps.foldl (fun c step => (answer c step).2) c

theorem moves_afterSteps (c : Connections) (steps : List Step) :
    File.Moves R c.file (afterSteps c steps).file := by
  induction steps generalizing c with
  | nil => exact .refl hR c.file
  | cons step steps ih => exact .trans hR (moves_answer hR c step) (ih _)

end Moves

/-! ## What is committed is permanent -/

/-- What the connections begin with: a new file, or a store in memory. -/
inductive Origin where
  | file
  | memory (faults : FaultPlan)

def Origin.connections : Origin → Connections
  | .file => .ofFile .new
  | .memory faults => .ofStore (.inMemory faults)

/-- What connections have of the content `old`, which has been committed before: all its rows, in
what is committed and in what each of them sees, and for the keys of these rows their ids, whoever
writes a row, asks for one or ingests a record. -/
structure Permanent (old : Database) (c : Connections) : Prop where
  committed : old.Retains c.file.committed
  views : ∀ name, old.Retains (c.file.view name)
  upsertPackage : ∀ p, c.Answers (Store.upsertPackage p) (old.packages.Assigns ⟨p.name, p.forge⟩)
  upsertVersion : ∀ v, c.Answers (Store.upsertVersion v)
    (old.versions.Assigns ⟨v.package, v.generator, v.version⟩)
  upsertModule : ∀ m, c.Answers (Store.upsertModule m)
    (old.modules.Assigns ⟨m.version, m.namespace⟩)
  upsertFile : ∀ f, c.Answers (Store.upsertFile f) (old.files.Assigns ⟨f.version, f.path⟩)
  upsertCallable : ∀ x, c.Answers (Store.upsertCallable x) (old.callables.Assigns x.key)
  upsertCallables : ∀ xs, c.Answers (Store.upsertCallables xs)
    (List.Forall₂ (fun x id => old.callables.Assigns x.key id) xs)
  package? : ∀ r ∈ old.packages.rows,
    c.Finds (Store.package? r.key.name r.key.forge) fun found => found.id = r.id
  version? : ∀ r ∈ old.versions.rows,
    c.Finds (Store.version? r.key.package r.key.generator r.key.version) fun found =>
      found.id = r.id
  module? : ∀ r ∈ old.modules.rows,
    c.Finds (Store.module? r.key.version r.key.namespace) fun found => found.id = r.id
  file? : ∀ r ∈ old.files.rows,
    c.Finds (Store.file? r.key.version r.key.path) fun found => found.id = r.id
  callable? : ∀ r ∈ old.callables.rows, ∃ address resolved, r.key = .of address resolved ∧
    c.Finds (Store.callable? address resolved) fun found => found.id = r.id
  ingest : ∀ name s, c.store? name = some s → ∀ {ν : Type} (settings : Settings)
    (notifier : Notifier ν) (text : String) (channel : ν) (report : Report),
    (ingest settings notifier text s channel).result = .ok report →
      ∃ v, check text = .ok v ∧
        old.packages.Assigns ⟨v.product, v.forge⟩ report.written.packageId ∧
        old.versions.Assigns ⟨report.written.packageId, v.generator, v.version⟩
          report.written.versionId

theorem assigns_ingest {old : Database} {s : Store} (hdb : old.Advances s.file.committed)
    (hr : s.file.committed.Regular) {ν : Type} {settings : Settings} {notifier : Notifier ν}
    {text : String} {channel : ν} {report : Report}
    (h : (ingest settings notifier text s channel).result = .ok report) :
    ∃ v, check text = .ok v ∧
      old.packages.Assigns ⟨v.product, v.forge⟩ report.written.packageId ∧
      old.versions.Assigns ⟨report.written.packageId, v.generator, v.version⟩
        report.written.versionId := by
  unfold ingest at h
  cases hc : check text with
  | error cause =>
    rw [hc] at h
    cases h
  | ok v =>
    have houtcome := outcome_writeRecord settings v s
    simp only [hc, ingestValidated] at h
    generalize settings.retry.runTransaction (fun _ => writeRecord settings.batchSize v) s = run
      at houtcome h
    cases houtcome with
    | failed => cases h
    | committed hi hf =>
      obtain rfl := Except.ok.inj h
      exact ⟨v, rfl, assigns_storeRecord hdb hr hf⟩

theorem permanent_of_advances {old : Database} {c : Connections} (hold : old.Regular)
    (hcommitted : old.Advances c.file.committed) (hview : ∀ name, old.Advances (c.file.view name)) :
    Permanent old c := by
  have h : c.Follow old := ⟨hold, hview⟩
  exact {
    committed := hcommitted.retains (hold.advances hcommitted)
    views := fun name => (hview name).retains (hold.advances (hview name))
    upsertPackage := fun p => Connections.answers_upsert (Database.upserts_package p)
      Database.identified_packages .package h
    upsertVersion := fun v => Connections.answers_upsert (Database.upserts_version v)
      Database.identified_versions .version h
    upsertModule := fun m => Connections.answers_upsert (Database.upserts_module m)
      Database.identified_modules .module h
    upsertFile := fun f => Connections.answers_upsert (Database.upserts_file f)
      Database.identified_files .file h
    upsertCallable := fun x => Connections.answers_upsert (Database.upserts_callable x)
      Database.identified_callables .callable h
    upsertCallables := fun xs => Connections.answers_upsertCallables xs h
    package? := fun r hr => Connections.finds_row Database.identified_packages h hr
      (Connections.reads_package r.key.name r.key.forge)
    version? := fun r hr => Connections.finds_row Database.identified_versions h hr
      (Connections.reads_version r.key.package r.key.generator r.key.version)
    module? := fun r hr => Connections.finds_row Database.identified_modules h hr
      (Connections.reads_module r.key.version r.key.namespace)
    file? := fun r hr => Connections.finds_row Database.identified_files h hr
      (Connections.reads_file r.key.version r.key.path)
    callable? := fun r hr => by
      obtain ⟨address, resolved, hkey⟩ := hold.flags r.key (List.mem_map_of_mem hr)
      refine ⟨address, resolved, hkey, ?_⟩
      exact Connections.finds_row Database.identified_callables h hr
        (hkey ▸ Connections.reads_callable address resolved)
    ingest := fun name s hs _ settings notifier text channel report hok => by
      rw [← Connections.file_of_store? hs] at hcommitted
      exact assigns_ingest hcommitted (hold.advances hcommitted) hok }

/-- Whatever connections of a database have done, what is committed then stays whatever they do
after it: no row goes, and the ids of rows are for good. -/
theorem identities_permanent (origin : Origin) (earlier later : List Step) :
    Permanent (afterSteps origin.connections earlier).file.committed
      (afterSteps (afterSteps origin.connections earlier) later) := by
  have hcourse := Database.advances_course
  have horigin : File.Moves Database.Advances .new origin.connections.file := by
    cases origin with
    | file => exact .refl hcourse .new
    | memory faults => exact .write hcourse hcourse.prepare
  obtain ⟨hfirst, hleads⟩ :=
    File.Moves.trans hcourse horigin (moves_afterSteps hcourse _ earlier) (.of_writer_none rfl)
  obtain ⟨hthen, hleads⟩ := moves_afterSteps hcourse _ later hleads
  have hregular := Database.Regular.empty.advances hfirst
  exact permanent_of_advances hregular hthen fun name => hthen.trans (hleads.view hcourse name)

/-- A package is taken back, and another one is committed. -/
def takenBack : List Step :=
  [.event (.connect "a" .never), .event (.ask "a" .begin),
    .event (.ask "a" (.package (.named "p" "m"))), .event (.ask "a" .rollback),
    .event (.ask "a" (.package (.named "q" "m")))]

/-- The file is opened again, stores the record of the package that was taken back, and is left in
a transaction. -/
def openedAgain : List Step :=
  [.event (.leave "a"), .event (.connect "b" .never),
    .ingest "b" ⟨1, .new 1 0⟩ Notifier.silent smallRecord (), .event (.ask "b" .begin),
    .event (.ask "b" (.package (.named "r" "m")))]

theorem identities_permanent_openedAgain :
    (afterSteps Origin.file.connections takenBack).file.committed.packages.rows.map Row.identity
        = [(1, ⟨"q", "m"⟩)] ∧
      Permanent (afterSteps Origin.file.connections takenBack).file.committed
        (afterSteps (afterSteps Origin.file.connections takenBack) openedAgain) ∧
      ((afterSteps (afterSteps Origin.file.connections takenBack) openedAgain).run "b"
        (Store.upsertPackage (.named "q" "m"))).1.toOption = some 1 := by
  refine ⟨by decide +kernel, identities_permanent .file takenBack openedAgain, ?_⟩
  decide +kernel

end CallArchive.Ingest
