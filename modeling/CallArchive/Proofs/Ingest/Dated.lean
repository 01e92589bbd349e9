import CallArchive.Proofs.Ingest.Effect
import CallArchive.Proofs.Store.Requests
import CallArchive.Proofs.Time.Instant

/-!
# The times that a store shows of a record

A record is stored with one time, which its version, its modules and its methods show. It is written
as a timestamp and read again, and a year with a sign is not read (`shownTime`): of all timestamps
those from the year 0 to the year 9999 survive.
-/

namespace CallArchive.Ingest

open Store (RowId NewCallable PackageRecord VersionRecord ModuleRecord CallableRecord PackageKey
  VersionKey ModuleKey CallableKey CallableData DigestData Database Table Row Stamp)
open Time (Instant)

/-! ## Times as texts -/

/-- The time that is shown for milliseconds since the epoch. -/
def shownTime (millis : Option Int) : Option Instant :=
  (millis.bind Instant.ofMillis?).filter (·.HasPlainYear)

theorem timeOf_timeText (millis : Option Int) :
    Database.timeOf (Database.timeText (millis.bind Instant.ofMillis?)) = shownTime millis := by
  rw [shownTime]
  cases h : millis.bind Instant.ofMillis? with
  | none => rfl
  | some i =>
    obtain ⟨m, -, hm⟩ := Option.bind_eq_some_iff.mp h
    rw [Database.timeText, Option.map_some, Database.timeOf, Option.bind_some,
      Instant.ofText?_text .digits (Instant.nanos_ofMillis hm), Option.filter_some]
    simp only [decide_eq_true_eq]

/-- What is lost are the times before the year 0 and after the year 9999. -/
theorem shownTime_eq_iff {millis : Option Int} :
    shownTime millis = millis.bind Instant.ofMillis? ↔
      ∀ m, millis = some m → (Instant.ofMillis? m).isSome = true →
        -62167219200000 ≤ m ∧ m ≤ 253402300799999 := by
  cases millis with
  | none => exact iff_of_true rfl nofun
  | some m =>
    rw [shownTime, Option.bind_some]
    cases h : Instant.ofMillis? m with
    | none => simp [h]
    | some i =>
      simp [Option.filter_some, ← Instant.hasPlainYear_ofMillis_iff h, h]

/-! ## The rows of a record -/

section Rows

variable {v : Validated} {db : Database}

theorem createdAt_combine {old new : Stamp} {t : Option String} (hold : old.createdAt = t)
    (hnew : new.createdAt = t) : (old.combine new).createdAt = t := by
  rw [Stamp.combine, hold, hnew, Option.or_self]

/-- The only version of the database has the time of the record. -/
theorem createdAt_versions (h : db.versions.rows = []) :
    ∀ r ∈ (nodesAfter v db).versions.rows,
      r.data.createdAt = Database.timeText (createdAt v) := by
  refine Table.forall_rows_upsertAll
    (P := fun (_ : VersionKey) (data : Stamp) => data.createdAt = Database.timeText (createdAt v))
    (h ▸ nofun) createdAt_combine ?_
  intro e he
  rw [List.mem_singleton.mp he]
  rfl

theorem createdAt_modules (h : db.modules.rows = []) :
    ∀ r ∈ (nodesAfter v db).modules.rows, r.data.digest = none ∧
      r.data.stamp.createdAt = Database.timeText (createdAt v) := by
  refine Table.forall_rows_upsertAll (P := fun (_ : ModuleKey) (data : DigestData) =>
    data.digest = none ∧ data.stamp.createdAt = Database.timeText (createdAt v)) (h ▸ nofun) ?_ ?_
  · intro _ old new hold hnew
    refine ⟨?_, createdAt_combine hold.2 hnew.2⟩
    rw [DigestData.combine, hold.1, hnew.1]
    rfl
  · intro e he
    obtain ⟨m, -, rfl⟩ := List.mem_map.mp he
    exact ⟨rfl, rfl⟩

/-- What is called outside the package has no time, but it has other keys than the methods. -/
theorem createdAt_callables (h : db.callables.rows = []) :
    ∀ r ∈ (nodesAfter v db).callables.rows, ∀ address, r.key = .of address true →
      r.data.stamp.createdAt = Database.timeText (createdAt v) := by
  refine Table.forall_rows_upsertAll (P := fun (key : CallableKey) (data : CallableData) =>
    ∀ address, key = .of address true →
      data.stamp.createdAt = Database.timeText (createdAt v)) (h ▸ nofun) ?_ ?_
  · exact fun hold hnew address hkey => createdAt_combine (hold address hkey) (hnew address hkey)
  · intro e he address hkey
    obtain ⟨c, hc, rfl⟩ := List.mem_map.mp he
    rcases newCallables_cases hc with ⟨module, address, rfl⟩ | ⟨target, rfl⟩
    · rfl
    · exact absurd (CallableKey.of_inj.mp hkey).2 Bool.false_ne_true

end Rows

/-! ## What is read -/

/-- The store finds what the record has stored, and shows the time with it. -/
structure Dated (g : CallGraph) (s : Store) (time : Option Instant) : Prop where
  version : ∃ (p : PackageRecord) (r : VersionRecord),
    ((Store.package? g.product g.forge).run s : Except Error _ × Store) = (.ok (some p), s) ∧
    ((Store.version? p.id g.generator g.version).run s : Except Error _ × Store)
      = (.ok (some r), s) ∧
    r.createdAt = time ∧
    ∀ type ∈ g.types, ∃ m : ModuleRecord,
      ((Store.module? r.id type.1).run s : Except Error _ × Store) = (.ok (some m), s) ∧
      m.createdAt = time
  callables : ∀ method ∈ g.methods, ∃ c : CallableRecord,
    ((Store.callable? method.2 true).run s : Except Error _ × Store) = (.ok (some c), s) ∧
    c.createdAt = time

section Reading

variable {g : CallGraph} {v : Validated} {db : Database}

theorem exists_version (h : db.versions.rows = []) :
    ∃ r : VersionRecord, (nodesAfter v db).version? (packageId v db) v.generator v.version = some r ∧
      r.id = versionId v db ∧ r.createdAt = Database.timeOf (Database.timeText (createdAt v)) := by
  obtain ⟨r, hmem, hfind, -⟩ := Table.exists_row (versionKey_mem : versionKey v db ∈ _)
  refine ⟨Database.versionRecord r, congrArg (Option.map Database.versionRecord) hfind, ?_,
    congrArg Database.timeOf (createdAt_versions h r hmem)⟩
  exact (Table.idOf_of_idOf? (congrArg (Option.map Row.id) hfind)).symm

theorem exists_module (h : db.modules.rows = []) (hv : CallGraph.Validates g v)
    {type : String × ClassType} (htype : type ∈ g.types) :
    ∃ m : ModuleRecord, (nodesAfter v db).module? (versionId v db) type.1 = .ok (some m) ∧
      m.createdAt = Database.timeOf (Database.timeText (createdAt v)) := by
  obtain ⟨spec, hspec, hnamespace⟩ := (hv.exists_module_iff
    (P := fun outline => outline.namespace = type.1)).mpr ⟨type, htype, rfl⟩
  have hstored : ⟨versionId v db, spec.namespace⟩ ∈ (nodesAfter v db).modules.keys :=
    moduleKey_mem hspec
  obtain ⟨r, hmem, hfind, -⟩ := Table.exists_row hstored
  obtain ⟨hdigest, htime⟩ := createdAt_modules h r hmem
  have hkey : spec.namespace = type.1 := hnamespace
  rw [hkey] at hfind
  refine ⟨⟨r.id, r.key.version, r.key.namespace, none, Database.timeOf r.data.stamp.createdAt,
    Database.documentOf r.data.stamp.metadata⟩, ?_, congrArg Database.timeOf htime⟩
  rw [Database.module?, hfind, Option.mapM_some, Database.moduleRecord, hdigest]
  rfl

theorem exists_callable (h : db.callables.rows = []) (hv : CallGraph.Validates g v)
    {method : String × String} (hmethod : method ∈ g.methods) :
    ∃ c : CallableRecord, (nodesAfter v db).callable? method.2 true = some c ∧
      c.createdAt = Database.timeOf (Database.timeText (createdAt v)) := by
  obtain ⟨m, hm, haddress⟩ := (hv.exists_method_iff
    (P := fun outline => outline.2 = method.2)).mpr ⟨method, hmethod, rfl⟩
  have hstored : .of m.address true ∈ (nodesAfter v db).callables.keys := methodKey_mem hm
  obtain ⟨r, hmem, hfind, hkey⟩ := Table.exists_row hstored
  have haddress : m.address = method.2 := haddress
  refine ⟨Database.callableRecord true r, ?_,
    congrArg Database.timeOf (createdAt_callables h r hmem _ hkey)⟩
  rw [haddress] at hfind
  exact congrArg (Option.map (Database.callableRecord true)) hfind

/-- An idle store reads what is committed. -/
theorem Idle.view_eq {s : Store} (h : Idle s) : s.view = s.file.committed :=
  Store.File.view_of_not_isWriter (by rw [Store.File.isWriter, h.free]; rfl)

theorem exists_package (v : Validated) (db : Database) :
    ∃ p : PackageRecord, (nodesAfter v db).package? v.product v.forge = some p ∧
      p.id = packageId v db := by
  obtain ⟨r, -, hfind, -⟩ := Table.exists_row (packageKey_mem : _ ∈ (nodesAfter v db).packages.keys)
  exact ⟨Database.packageRecord r, congrArg (Option.map Database.packageRecord) hfind,
    (Table.idOf_of_idOf? (congrArg (Option.map Row.id) hfind)).symm⟩

/-- A store that has just what a record has stored finds it with the time of the record. -/
theorem dated_of_view {s : Store} {edges : List Store.EdgeRow} (hs : s.isOpen = true)
    (hview : s.view = { nodesAfter v db with edges }) (hvalid : g.validate = .ok v)
    (hversions : db.versions.rows = []) (hmodules : db.modules.rows = [])
    (hcallables : db.callables.rows = []) :
    Dated g s (shownTime (CallGraph.millis g.timestamp)) := by
  have hv := CallGraph.validate_ok hvalid
  have htime : Database.timeOf (Database.timeText (createdAt v))
      = shownTime (CallGraph.millis g.timestamp) := by
    rw [createdAt, timeOf_timeText, CallGraph.millis_of_validate hvalid]
  have hquery {α : Type} (query : Database → α)
      (heq : query { nodesAfter v db with edges } = query (nodesAfter v db)) :
      ((Store.read query).run s : Except Error α × Store)
        = (.ok (query (nodesAfter v db)), s) := by
    rw [Store.run_read hs, hview, heq]
  obtain ⟨p, hp, hpid⟩ := exists_package v db
  obtain ⟨r, hr, hrid, hrtime⟩ := exists_version (v := v) hversions
  constructor
  · refine ⟨p, r, ?_, ?_, hrtime.trans htime, fun type htype => ?_⟩
    · rw [← hv.product_eq, ← hv.forge_eq, ← hp]
      exact hquery (·.package? v.product v.forge) rfl
    · rw [hpid, ← hv.generator_eq, ← hv.version_eq, ← hr]
      exact hquery (·.version? (packageId v db) v.generator v.version) rfl
    · obtain ⟨m, hm, hmtime⟩ := exists_module hmodules hv htype
      refine ⟨m, ?_, hmtime.trans htime⟩
      have hread : s.view.module? (versionId v db) type.1 = .ok (some m) := by
        rw [hview]
        exact hm
      rw [hrid, Store.module?, Store.run_readRows hs, hread]
      rfl
  · intro method hmethod
    obtain ⟨c, hc, hctime⟩ := exists_callable hcallables hv hmethod
    refine ⟨c, ?_, hctime.trans htime⟩
    rw [← hc]
    exact hquery (·.callable? method.2 true) rfl

end Reading

variable {ν : Type} {size : Nat} {retry : RetryPolicy} {notifier : Notifier ν} {text : String}
  {store : Store} {channel : ν} {report : Report}

/-- A record that is ingested into a store without rows is found there with the time that is shown
for its timestamp: exactly its own, if that is in the years 0 to 9999, else none. -/
theorem ingest_dated (hempty : store.file.committed.counts.total = 0)
    (hr : (ingest ⟨clampBatchSize size, retry⟩ notifier text store channel).result = .ok report) :
    ∃ g, CallGraph.ofText text = .ok g ∧
      Dated g (ingest ⟨clampBatchSize size, retry⟩ notifier text store channel).store
        (shownTime (CallGraph.millis g.timestamp)) ∧
      (shownTime (CallGraph.millis g.timestamp)
          = (CallGraph.millis g.timestamp).bind Instant.ofMillis? ↔
        ∀ m, CallGraph.millis g.timestamp = some m → (Instant.ofMillis? m).isSome = true →
          -62167219200000 ≤ m ∧ m ≤ 253402300799999) := by
  have hrows : store.file.committed.versions.rows = [] ∧ store.file.committed.modules.rows = [] ∧
      store.file.committed.callables.rows = [] := by
    simp only [Store.Counts.total, Database.counts, Table.size] at hempty
    refine ⟨?_, ?_, ?_⟩ <;> exact List.eq_nil_of_length_eq_zero (by omega)
  obtain ⟨hversions, hmodules, hcallables⟩ := hrows
  unfold ingest at hr ⊢
  cases hc : check text with
  | error cause =>
    rw [hc] at hr
    cases hr
  | ok v =>
    rw [hc] at hr
    obtain ⟨g, hg, hvalid⟩ := bind_ok_iff.mp hc
    obtain ⟨-, hrecord, hidle, -⟩ := ingestValidated_ok (clampBatchSize_pos size) hr
    obtain ⟨es, -, edges, -, -, hafter⟩ := recordAfter_eq_some_iff.mp hrecord
    exact ⟨g, hg, dated_of_view hidle.isOpen (hidle.view_eq.trans hafter.symm) hvalid hversions
      hmodules hcallables, shownTime_eq_iff⟩

/-- The record of one method with a timestamp. -/
def timedRecord (timestamp : String) : String :=
  "\x7b\"product\":\"p\",\"forge\":\"m\",\"version\":\"1\",\"generator\":\"g\",\"depset\":[]," ++
  "\"timestamp\":" ++ timestamp ++
  ",\"cha\":\x7b\"n\":[\x7b\"1\":\"/n/C.m()V\"\x7d]\x7d,\"graph\":[[[1,1]]]\x7d"

/-- The last millisecond of the year 9999 is still shown. -/
theorem ingest_dated_lastPlain : ∃ report g,
    (ingest ⟨clampBatchSize 1, .new 1 0⟩ Notifier.silent (timedRecord "253402300799999")
      (.inMemory .never) ()).result = .ok report ∧
    Dated g (ingest ⟨clampBatchSize 1, .new 1 0⟩ Notifier.silent (timedRecord "253402300799999")
      (.inMemory .never) ()).store (some ⟨253402300799, 999000000⟩) := by
  have hok : (ingest ⟨clampBatchSize 1, .new 1 0⟩ Notifier.silent (timedRecord "253402300799999")
      (.inMemory .never) ()).result.toOption.isSome = true := by decide +kernel
  obtain ⟨report, hr⟩ := ok_of_isSome hok
  obtain ⟨g, hg, hdated, -⟩ := ingest_dated (by decide +kernel) hr
  have hshown : (CallGraph.ofText (timedRecord "253402300799999")).toOption.map
      (fun g => shownTime (CallGraph.millis g.timestamp))
        = some (some ⟨253402300799, 999000000⟩) := by decide +kernel
  rw [hg] at hshown
  have htime : shownTime (CallGraph.millis g.timestamp) = some ⟨253402300799, 999000000⟩ :=
    Option.some.inj hshown
  exact ⟨report, g, hr, htime ▸ hdated⟩

/-- The millisecond after it is a time as well, but is not shown. -/
theorem ingest_undated :
    (CallGraph.ofText (timedRecord "253402300800000")).toOption.map
        (fun g => (CallGraph.millis g.timestamp).bind Instant.ofMillis?)
      = some (some ⟨253402300800, 0⟩) ∧
    ((Store.version? 1 "g" "1").run (ingest ⟨clampBatchSize 1, .new 1 0⟩ Notifier.silent
        (timedRecord "253402300800000") (.inMemory .never) ()).store :
        Except Error (Option VersionRecord) × Store).1.toOption.map (Option.map (·.createdAt))
      = some (some none) := by decide +kernel

end CallArchive.Ingest
