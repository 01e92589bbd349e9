import CallArchive.Proofs.Ingest.AllOrNothing
import CallArchive.Proofs.Ingest.Stages

/-!
# What a record makes of the database

The rows that a record asks for, under the ids that they get, and the database with them
(`nodesAfter`, which has everything but the edges). `run_storeRecord` puts the stages together: the
record is stored unless an edge has no ends or its document cannot be merged. Ingesting it commits
that (`ingestValidated_ok`).
-/

namespace CallArchive.Ingest

open Store (RowId NewPackage NewVersion NewCallable NewEdge PackageKey PackageData VersionKey
  ModuleKey FileKey CallableKey CallableData DigestData DependencyRow EdgeRow Database Table Stamp
  Link Change change run_change_bind fresh mem_fresh)
open Time (Instant)

section Rows

variable (v : Validated) (db : Database)

def createdAt : Option Instant := v.millis.bind Instant.ofMillis?

def packageEntries : List (PackageKey × PackageData) :=
  (NewPackage.named v.product v.forge).entry :: v.dependencies.map dependencyEntry

def packageId : RowId :=
  (db.packages.upsertAll PackageData.combine (packageEntries v)).idOf ⟨v.product, v.forge⟩

def versionKey : VersionKey := ⟨packageId v db, v.generator, v.version⟩

def versionEntry : VersionKey × Stamp :=
  (NewVersion.mk (packageId v db) v.generator v.version (createdAt v) none).entry

def versionId : RowId :=
  (db.versions.upsertAll Stamp.combine [versionEntry v db]).idOf (versionKey v db)

def dependencyRows : List DependencyRow :=
  v.dependencies.map (dependencyRow (versionId v db)
    (db.packages.upsertAll PackageData.combine (packageEntries v)))

def moduleEntries : List (ModuleKey × DigestData) :=
  v.modules.map (moduleEntry (versionId v db) (createdAt v))

def fileEntries : List (FileKey × DigestData) :=
  v.modules.filterMap (fileRow? (versionId v db) (createdAt v))

def linkRows : List Link :=
  v.modules.filterMap (linkRow? (versionId v db)
    (db.modules.upsertAll DigestData.combine (moduleEntries v db))
    (db.files.upsertAll DigestData.combine (fileEntries v db)))

/-- The methods of the record as they are to be stored. -/
def pendingMethods : List PendingCallable :=
  (v.modules.map (pendingOf (versionId v db) (createdAt v)
    (db.modules.upsertAll DigestData.combine (moduleEntries v db)))).flatten

/-- The addresses outside the package, each once. -/
def externalTargets : List String := fresh [] (v.externalArcs.map (·.target))

def newCallables : List NewCallable :=
  (pendingMethods v db).map (·.callable) ++ (externalTargets v).map .external

/-- The database with all that the record asks for apart from the edges. -/
def nodesAfter : Database :=
  { db with
    packages := db.packages.upsertAll PackageData.combine (packageEntries v)
    versions := db.versions.upsertAll Stamp.combine [versionEntry v db]
    dependencies := db.dependencies ++ fresh db.dependencies (dependencyRows v db)
    modules := db.modules.upsertAll DigestData.combine (moduleEntries v db)
    files := db.files.upsertAll DigestData.combine (fileEntries v db)
    links := db.links ++ fresh db.links (linkRows v db)
    callables := db.callables.upsertAll CallableData.combine
      ((newCallables v db).map NewCallable.entry) }

def idMap : IdMap := IdMap.ofList (storedIds (nodesAfter v db).callables (pendingMethods v db))

def pendingEdges : List PendingEdge :=
  v.internalArcs.map internalEdge ++ v.externalArcs.map (externalEdge (nodesAfter v db).callables)

def newEdges : Except Error (List NewEdge) := (idMap v db).remap (pendingEdges v db)

def written : Written :=
  { packageId := packageId v db
    versionId := versionId v db
    modules := v.modules.length
    internalCallables := (pendingMethods v db).length
    externalCallables := (externalTargets v).length
    edges := (pendingEdges v db).length }

/-- The record with its edges written into those that are there. -/
def recordAfter : Option (Written × Database) :=
  (newEdges v db).toOption.bind fun es =>
    (Database.putEdges db.edges es).toOption.map fun edges =>
      (written v db, { nodesAfter v db with edges })

end Rows

theorem recordAfter_eq_some_iff {v : Validated} {db after : Database} {w : Written} :
    recordAfter v db = some (w, after) ↔
      ∃ es, newEdges v db = .ok es ∧ ∃ edges, Database.putEdges db.edges es = .ok edges ∧
        written v db = w ∧ { nodesAfter v db with edges } = after := by
  simp only [recordAfter, Option.bind_eq_some_iff, Option.map_eq_some_iff, toOption_eq_some_iff,
    Prod.mk.injEq]

/-! ## Ids -/

section Ids

variable {v : Validated} {db : Database}

theorem packageKey_mem : ⟨v.product, v.forge⟩ ∈ (nodesAfter v db).packages.keys :=
  Table.mem_keys_upsertAll_of_mem (e := (NewPackage.named v.product v.forge).entry)
    List.mem_cons_self

theorem versionKey_mem : versionKey v db ∈ (nodesAfter v db).versions.keys :=
  Table.mem_keys_upsertAll_of_mem (e := versionEntry v db) List.mem_cons_self

theorem dependencyKey_mem {d : DependencySpec} (h : d ∈ v.dependencies) :
    ⟨d.product, d.forge⟩ ∈ (nodesAfter v db).packages.keys :=
  Table.mem_keys_upsertAll_of_mem (e := dependencyEntry d)
    (List.mem_cons_of_mem _ (List.mem_map_of_mem h))

theorem moduleKey_mem {m : ModuleSpec} (h : m ∈ v.modules) :
    ⟨versionId v db, m.namespace⟩ ∈ (nodesAfter v db).modules.keys :=
  mem_keys_modules (versionId v db) (createdAt v) db.modules h

theorem fileKey_mem {m : ModuleSpec} {path : String} (h : m ∈ v.modules)
    (hp : m.sourceFile = some path) :
    ⟨versionId v db, path⟩ ∈ (nodesAfter v db).files.keys :=
  mem_keys_files (versionId v db) (createdAt v) db.files h hp

/-- A callable of the record is a method of a module or an address outside. -/
theorem newCallables_cases {c : NewCallable} (h : c ∈ newCallables v db) :
    (∃ module address, c = .internal module address (createdAt v)) ∨
      ∃ address, c = .external address := by
  rcases List.mem_append.mp h with h | h
  · obtain ⟨p, hp, rfl⟩ := List.mem_map.mp h
    obtain ⟨ps, hps, hp⟩ := List.mem_flatten.mp hp
    obtain ⟨m, -, rfl⟩ := List.mem_map.mp hps
    obtain ⟨method, -, rfl⟩ := List.mem_map.mp hp
    exact .inl ⟨_, method.address, rfl⟩
  · obtain ⟨address, -, rfl⟩ := List.mem_map.mp h
    exact .inr ⟨address, rfl⟩

theorem callableKey_mem {c : NewCallable} (h : c ∈ newCallables v db) :
    c.key ∈ (nodesAfter v db).callables.keys :=
  mem_keys_callables h db

theorem pendingKey_mem {p : PendingCallable} (h : p ∈ pendingMethods v db) :
    p.callable.key ∈ (nodesAfter v db).callables.keys :=
  callableKey_mem (List.mem_append_left _ (List.mem_map_of_mem h))

theorem externalKey_mem {arc : ExternalArc} (h : arc ∈ v.externalArcs) :
    .of arc.target false ∈ (nodesAfter v db).callables.keys := by
  have htarget : arc.target ∈ externalTargets v :=
    mem_fresh.mpr ⟨List.mem_map_of_mem h, List.not_mem_nil⟩
  exact callableKey_mem (c := .external arc.target)
    (List.mem_append_right _ (List.mem_map_of_mem htarget))

/-! ## The stages together -/

theorem packageId_eq (v : Validated) (db : Database) :
    packageId v db = (db.packages.upsertAll PackageData.combine
      [(NewPackage.named v.product v.forge).entry]).idOf ⟨v.product, v.forge⟩ := by
  have hmem : (⟨v.product, v.forge⟩ : PackageKey) ∈ (db.packages.upsertAll PackageData.combine
      [(NewPackage.named v.product v.forge).entry]).keys :=
    Table.mem_keys_upsertAll_of_mem (e := (NewPackage.named v.product v.forge).entry)
      List.mem_cons_self
  exact Table.idOf_upsertAll hmem

def packageAfter (v : Validated) (db : Database) : Database :=
  { db with
    packages := db.packages.upsertAll PackageData.combine
      [(NewPackage.named v.product v.forge).entry] }

def versionAfter (v : Validated) (db : Database) : Database :=
  { packageAfter v db with
    versions := db.versions.upsertAll Stamp.combine [versionEntry v db] }

def modulesAfter (v : Validated) (db : Database) : Database :=
  afterModules (versionId v db) (createdAt v) v.modules
    (afterDependencies (versionId v db) v.dependencies (versionAfter v db))

def methodsAfter (v : Validated) (db : Database) : Database :=
  afterCallables ((pendingMethods v db).map (·.callable)) (modulesAfter v db)

theorem nodesAfter_eq (v : Validated) (db : Database) :
    nodesAfter v db = afterExternals [] (v.externalArcs.map (·.target)) (methodsAfter v db) := by
  rw [afterExternals, methodsAfter, ← afterCallables_append]
  rfl

theorem run_package :
    (change (Database.upsertPackage (.named v.product v.forge))).run db
      = some (packageId v db, packageAfter v db) := by
  rw [packageId_eq]
  exact run_upsertPackage db (.named v.product v.forge)

theorem run_version :
    (change (Database.upsertVersion
        ⟨packageId v db, v.generator, v.version, createdAt v, none⟩)).run (packageAfter v db)
      = some (versionId v db, versionAfter v db) := by
  have hid : (packageAfter v db).packages.hasId (packageId v db) = true := by
    rw [packageId_eq]
    exact Table.hasId_idOf (Table.mem_keys_upsertAll_of_mem
      (e := (NewPackage.named v.product v.forge).entry) List.mem_cons_self)
  exact run_upsertVersion (packageAfter v db)
    (v := ⟨packageId v db, v.generator, v.version, createdAt v, none⟩) hid

/-- The module of a method is there. -/
theorem hasId?_pending {p : PendingCallable} (h : p ∈ pendingMethods v db) :
    (modulesAfter v db).modules.hasId? p.callable.module = true := by
  obtain ⟨ps, hps, hp⟩ := List.mem_flatten.mp h
  obtain ⟨m, hm, rfl⟩ := List.mem_map.mp hps
  obtain ⟨method, -, rfl⟩ := List.mem_map.mp hp
  have hkey : ⟨versionId v db, m.namespace⟩ ∈ (nodesAfter v db).modules.keys := moduleKey_mem hm
  exact Table.hasId_idOf hkey

theorem idMap_eq (v : Validated) (db : Database) :
    idMap v db = IdMap.ofList (storedIds (methodsAfter v db).callables (pendingMethods v db)) := by
  rw [idMap, nodesAfter_eq, afterExternals, methodsAfter, storedIds_afterCallables]

/-- What the local ids stand for. -/
theorem idMap_stored {id : LocalId} {stored : RowId}
    (h : Assoc.get? id (idMap v db) = some stored) :
    ∃ p ∈ pendingMethods v db, p.id = id ∧
      (nodesAfter v db).callables.idOf p.callable.key = stored := by
  obtain ⟨p, hp, heq⟩ := List.mem_map.mp ((IdMap.mem_of_get?_insertAll h).resolve_right nofun)
  obtain ⟨hid, hstored⟩ := Prod.mk.inj heq
  exact ⟨p, hp, hid, hstored⟩

theorem hasId_of_idMap {id : LocalId} {stored : RowId}
    (h : Assoc.get? id (idMap v db) = some stored) :
    (nodesAfter v db).callables.hasId stored = true := by
  obtain ⟨p, hp, -, rfl⟩ := idMap_stored h
  exact Table.hasId_idOf (pendingKey_mem hp)

theorem endsExist_newEdges {es : List NewEdge} (h : newEdges v db = .ok es) :
    ∀ e ∈ es, EndsExist (nodesAfter v db) e := by
  intro e he
  obtain ⟨p, hp, hresolve⟩ := (mem_of_mapM_ok h).mp he
  obtain ⟨hsource, htarget, -⟩ := IdMap.resolveEdge_ok_iff.mp hresolve
  rcases List.mem_append.mp hp with hp | hp
  · obtain ⟨arc, -, rfl⟩ := List.mem_map.mp hp
    exact ⟨hasId_of_idMap (IdMap.resolve_local_ok_iff.mp hsource),
      hasId_of_idMap (IdMap.resolve_local_ok_iff.mp htarget)⟩
  · obtain ⟨arc, harc, rfl⟩ := List.mem_map.mp hp
    refine ⟨hasId_of_idMap (IdMap.resolve_local_ok_iff.mp hsource), ?_⟩
    rw [← IdMap.resolve_stored_ok_iff.mp htarget]
    exact Table.hasId_idOf (externalKey_mem harc)

theorem run_methods {batchSize : Nat} (hs : 0 < batchSize) :
    (storeCallables batchSize (pendingMethods v db)).run (modulesAfter v db)
      = some (idMap v db, methodsAfter v db) := by
  rw [idMap_eq]
  exact run_storeCallables hs fun p hp => hasId?_pending hp

theorem run_externals (v : Validated) (db : Database) :
    ∃ externals : Externals, (storeExternals [] v.externalArcs).run (methodsAfter v db) =
        some ((v.externalArcs.map (externalEdge (nodesAfter v db).callables), externals),
          nodesAfter v db) ∧
      externals.length = (externalTargets v).length := by
  have hknown : Known [] (methodsAfter v db) := fun _ _ h => nomatch h
  obtain ⟨externals, hrun, hkeys⟩ := run_storeExternals hknown v.externalArcs
  refine ⟨externals, by rw [nodesAfter_eq]; exact hrun, ?_⟩
  have hlength := congrArg List.length hkeys
  rw [Assoc.keys, List.length_map] at hlength
  exact hlength

theorem run_edges {batchSize : Nat} (hs : 0 < batchSize) :
    (storeEdges batchSize (idMap v db) (pendingEdges v db)).run (nodesAfter v db) =
      (newEdges v db).toOption.bind fun es =>
        (Database.putEdges db.edges es).toOption.map fun edges =>
          (es.length, { nodesAfter v db with edges }) :=
  run_storeEdges hs fun _ => endsExist_newEdges

theorem run_storeNodes {batchSize : Nat} (hs : 0 < batchSize) :
    (storeNodes batchSize v).run db
      = some ((written v db, idMap v db, pendingEdges v db), nodesAfter v db) := by
  have hversion : (versionAfter v db).versions.hasId (versionId v db) = true :=
    Table.hasId_idOf (versionKey_mem : versionKey v db ∈ _)
  have hdependencies := run_storeDependencies hversion v.dependencies
  have hlater : (afterDependencies (versionId v db) v.dependencies
    (versionAfter v db)).versions.hasId (versionId v db) = true := hversion
  have hmodules := run_storeModules (versionId v db) (createdAt v) hlater v.modules
  obtain ⟨externals, hexternals, hlength⟩ := run_externals v db
  refine (Store.run_change_bind_some run_package).trans ?_
  refine (Store.run_change_bind_some run_version).trans ?_
  refine (Store.run_change_bind_some hdependencies).trans ?_
  refine (Store.run_change_bind_some hmodules).trans ?_
  refine (Store.run_change_bind_some (run_methods hs)).trans ?_
  refine (Store.run_change_bind_some hexternals).trans ?_
  rw [written, ← hlength]
  rfl

theorem run_storeRecord {batchSize : Nat} (hs : 0 < batchSize) :
    (storeRecord batchSize v).run db = recordAfter v db := by
  refine (Store.run_change_bind_some (run_storeNodes hs)).trans ?_
  change ((storeEdges batchSize (idMap v db) (pendingEdges v db)).run (nodesAfter v db)).bind _ = _
  rw [run_edges hs, recordAfter]
  cases newEdges v db with
  | error cause => rfl
  | ok es =>
    simp only [Except.toOption, Option.bind_some]
    cases Database.putEdges db.edges es <;> rfl

end Ids

/-! ## Ingestion -/

section Ingestion

variable {ν : Type} {settings : Settings} {notifier : Notifier ν} {v : Validated} {store : Store}
  {channel : ν}

/-- A store is idle before and after, and its file has what the record makes of it. -/
theorem ingestValidated_ok (hs : 0 < settings.batchSize) {r : Report}
    (hr : (ingestValidated settings notifier v store channel).result = .ok r) :
    Idle store ∧
      recordAfter v store.file.committed = some (r.written,
        (ingestValidated settings notifier v store channel).store.file.committed) ∧
      Idle (ingestValidated settings notifier v store channel).store ∧
      r = report v r.written r.attempts := by
  have houtcome := outcome_writeRecord settings v store
  unfold ingestValidated at hr ⊢
  generalize settings.retry.runTransaction (fun _ => writeRecord settings.batchSize v) store = run
    at hr houtcome ⊢
  cases houtcome with
  | failed _ _ => cases hr
  | committed hi hf =>
    obtain rfl := Except.ok.inj hr
    rw [run_storeRecord hs] at hf
    exact ⟨hi, hf, ⟨hi.isOpen, rfl⟩, rfl⟩

/-- Where no write is failed the first attempt stores the record. -/
theorem ingestValidated_of_not_strikes (hs : 0 < settings.batchSize) (hi : Idle store)
    (hf : ¬ Strikes store.faults) {w : Written} {db : Database}
    (h : recordAfter v store.file.committed = some (w, db)) :
    (ingestValidated settings notifier v store channel).result = .ok (report v w 1) := by
  rw [← run_storeRecord hs] at h
  have hresult := runTransaction_of_not_strikes settings.retry
    (writing_writeRecord settings.batchSize v).performs hi hf h
  unfold ingestValidated
  generalize settings.retry.runTransaction (fun _ => writeRecord settings.batchSize v) store = run
    at hresult ⊢
  simp only [hresult]

end Ingestion

end CallArchive.Ingest
