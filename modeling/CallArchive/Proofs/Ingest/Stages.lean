import CallArchive.Proofs.Ingest.Changes
import CallArchive.Proofs.Store.Grown
import CallArchive.Proofs.Store.Statements

/-!
# The stages of writing a record

What each stage makes of the database. All rows go in under ids that stand in the tables after the
stage, so these are stated with the ids of the tables as they are then (`Table.idOf`). No stage
fails for a missing reference: what a row refers to has been written before.
-/

namespace CallArchive.Ingest

open Store (RowId NewPackage NewVersion NewModule NewFile NewCallable NewEdge PackageKey PackageData
  VersionKey ModuleKey FileKey CallableKey CallableData DigestData DependencyRow Database Table
  EdgeRow Stamp Link Change change run_change_bind run_change_of_ok fresh fresh_append fresh_cons
  fresh_eq_nil)
open Time (Instant)

variable {db : Database}

/-! ## Single rows -/

theorem run_upsertPackage (db : Database) (p : NewPackage) :
    (change (Database.upsertPackage p)).run db =
      some ((db.packages.upsertAll PackageData.combine [p.entry]).idOf p.entry.1,
        { db with packages := db.packages.upsertAll PackageData.combine [p.entry] }) :=
  run_change_of_ok (Database.upsertPackage_ok_iff.mpr ⟨Table.idOf_upsertAll_cons.symm, rfl⟩)

theorem run_upsertVersion (db : Database) {v : NewVersion}
    (h : db.packages.hasId v.package = true) :
    (change (Database.upsertVersion v)).run db =
      some ((db.versions.upsertAll Stamp.combine [v.entry]).idOf v.entry.1,
        { db with versions := db.versions.upsertAll Stamp.combine [v.entry] }) :=
  run_change_of_ok
    (Database.upsertVersion_ok_iff.mpr ⟨.inr h, Table.idOf_upsertAll_cons.symm, rfl⟩)

theorem run_upsertModule (db : Database) {m : NewModule}
    (h : db.versions.hasId m.version = true) :
    (change (Database.upsertModule m)).run db =
      some ((db.modules.upsertAll DigestData.combine [m.entry]).idOf m.entry.1,
        { db with modules := db.modules.upsertAll DigestData.combine [m.entry] }) :=
  run_change_of_ok
    (Database.upsertModule_ok_iff.mpr ⟨.inr h, Table.idOf_upsertAll_cons.symm, rfl⟩)

theorem run_upsertFile (db : Database) {f : NewFile} (h : db.versions.hasId f.version = true) :
    (change (Database.upsertFile f)).run db =
      some ((db.files.upsertAll DigestData.combine [f.entry]).idOf f.entry.1,
        { db with files := db.files.upsertAll DigestData.combine [f.entry] }) :=
  run_change_of_ok
    (Database.upsertFile_ok_iff.mpr ⟨.inr h, Table.idOf_upsertAll_cons.symm, rfl⟩)

theorem run_upsertCallable (db : Database) {c : NewCallable}
    (h : db.modules.hasId? c.module = true) :
    (change (Database.upsertCallable c)).run db =
      some ((db.callables.upsertAll CallableData.combine [c.entry]).idOf c.key,
        { db with callables := db.callables.upsertAll CallableData.combine [c.entry] }) :=
  run_change_of_ok
    (Database.upsertCallable_ok_iff.mpr ⟨.inr h, Table.idOf_upsertAll_cons.symm, rfl⟩)

theorem run_insertDependency (db : Database) {d : Store.NewDependency}
    (hv : db.versions.hasId d.version = true) (hp : db.packages.hasId d.package = true) :
    ∃ isNew, (change (Database.insertDependency d)).run db = some (isNew, { db with
      dependencies := db.dependencies ++ fresh db.dependencies [d.row] }) := by
  by_cases hd : d.row ∈ db.dependencies
  · refine ⟨false, run_change_of_ok (Database.insertDependency_ok_iff.mpr (.inl ⟨hd, rfl, ?_⟩))⟩
    simp [fresh, hd]
  · refine ⟨true, run_change_of_ok
      (Database.insertDependency_ok_iff.mpr (.inr ⟨hd, rfl, ⟨hv, hp⟩, ?_⟩))⟩
    simp [fresh, hd]

theorem run_linkFile (db : Database) {link : Link} (hm : db.modules.hasId link.module = true)
    (hf : db.files.hasId link.file = true) :
    (change (Database.linkFile link)).run db =
      some ((), { db with links := db.links ++ fresh db.links [link] }) := by
  refine run_change_of_ok (Database.linkFile_ok_iff.mpr ?_)
  by_cases hl : link ∈ db.links
  · exact .inl ⟨hl, by simp [fresh, hl]⟩
  · exact .inr ⟨hl, ⟨hm, hf⟩, by simp [fresh, hl]⟩

/-! ## Dependencies -/

def dependencyEntry (d : DependencySpec) : PackageKey × PackageData :=
  (NewPackage.named d.product d.forge).entry

def dependencyRow (versionId : RowId) (packages : Table PackageKey PackageData)
    (d : DependencySpec) : DependencyRow :=
  ⟨versionId, packages.idOf ⟨d.product, d.forge⟩, Database.rangesText d.ranges⟩

/-- The database once the dependencies of a version have been written. -/
def afterDependencies (versionId : RowId) (ds : List DependencySpec) (db : Database) : Database :=
  let packages := db.packages.upsertAll PackageData.combine (ds.map dependencyEntry)
  { db with
    packages
    dependencies := db.dependencies
      ++ fresh db.dependencies (ds.map (dependencyRow versionId packages)) }

theorem afterDependencies_nil (versionId : RowId) (db : Database) :
    afterDependencies versionId [] db = db := by
  simp [afterDependencies, fresh]

theorem afterDependencies_cons (versionId : RowId) (d : DependencySpec)
    (ds : List DependencySpec) (db : Database) :
    afterDependencies versionId (d :: ds) db
      = afterDependencies versionId ds (afterDependencies versionId [d] db) := by
  have hmem : (⟨d.product, d.forge⟩ : PackageKey) ∈
      (db.packages.upsertAll PackageData.combine [dependencyEntry d]).keys :=
    Table.mem_keys_upsertAll_of_mem (e := dependencyEntry d) List.mem_cons_self
  -- the row has the same id under the packages that are yet to come
  have hrow : dependencyRow versionId (db.packages.upsertAll PackageData.combine
        (dependencyEntry d :: ds.map dependencyEntry)) d
      = dependencyRow versionId
        (db.packages.upsertAll PackageData.combine [dependencyEntry d]) d :=
    congrArg (DependencyRow.mk versionId · _) (Table.idOf_upsertAll hmem)
  simp only [afterDependencies, List.map_cons, List.map_nil]
  rw [hrow, fresh_cons, ← List.append_assoc]
  rfl

theorem run_storeDependency {versionId : RowId} (hv : db.versions.hasId versionId = true)
    (d : DependencySpec) :
    (storeDependency versionId d).run db = some ((), afterDependencies versionId [d] db) := by
  rw [storeDependency, run_change_bind, run_upsertPackage, Option.bind_some, run_change_bind]
  dsimp only
  have hp : (db.packages.upsertAll PackageData.combine [dependencyEntry d]).hasId
      ((db.packages.upsertAll PackageData.combine [dependencyEntry d]).idOf
        ⟨d.product, d.forge⟩) = true :=
    Table.hasId_idOf (Table.mem_keys_upsertAll_of_mem List.mem_cons_self)
  obtain ⟨isNew, hrow⟩ := run_insertDependency { db with
    packages := db.packages.upsertAll PackageData.combine [dependencyEntry d] }
    (d := ⟨versionId, _, d.ranges⟩) hv hp
  exact hrow ▸ rfl

theorem run_storeDependencies {versionId : RowId} (hv : db.versions.hasId versionId = true)
    (ds : List DependencySpec) :
    (forIn ds PUnit.unit fun d _ => do
        storeDependency versionId d
        return .yield PUnit.unit : Change PUnit).run db
      = some ((), afterDependencies versionId ds db) := by
  induction ds generalizing db with
  | nil => exact congrArg (fun db => some ((), db)) (afterDependencies_nil versionId db).symm
  | cons d ds ih =>
    rw [List.forIn_cons, bind_assoc, run_change_bind, run_storeDependency hv, Option.bind_some,
      afterDependencies_cons versionId d ds]
    have hafter : (afterDependencies versionId [d] db).versions.hasId versionId = true := hv
    exact ih hafter

/-! ## Modules -/

def moduleEntry (versionId : RowId) (createdAt : Option Instant) (m : ModuleSpec) :
    ModuleKey × DigestData :=
  (NewModule.mk versionId m.namespace none createdAt (some m.metadata)).entry

def fileRow? (versionId : RowId) (createdAt : Option Instant) (m : ModuleSpec) :
    Option (FileKey × DigestData) :=
  m.sourceFile.map fun path => (NewFile.mk versionId path none createdAt none).entry

def linkRow? (versionId : RowId) (modules : Table ModuleKey DigestData)
    (files : Table FileKey DigestData) (m : ModuleSpec) : Option Link :=
  m.sourceFile.map fun path =>
    ⟨modules.idOf ⟨versionId, m.namespace⟩, files.idOf ⟨versionId, path⟩⟩

def pendingOf (versionId : RowId) (createdAt : Option Instant)
    (modules : Table ModuleKey DigestData) (m : ModuleSpec) : List PendingCallable :=
  m.methods.map fun method =>
    ⟨method.id, .internal (modules.idOf ⟨versionId, m.namespace⟩) method.address createdAt⟩

/-- The database once the modules of a version and their files have been written. -/
def afterModules (versionId : RowId) (createdAt : Option Instant) (ms : List ModuleSpec)
    (db : Database) : Database :=
  let modules := db.modules.upsertAll DigestData.combine
    (ms.map (moduleEntry versionId createdAt))
  let files := db.files.upsertAll DigestData.combine
    (ms.filterMap (fileRow? versionId createdAt))
  { db with
    modules
    files
    links := db.links ++ fresh db.links (ms.filterMap (linkRow? versionId modules files)) }

section Modules

variable (versionId : RowId) (createdAt : Option Instant)

theorem mem_keys_modules (modules : Table ModuleKey DigestData) {m : ModuleSpec}
    {ms : List ModuleSpec} (h : m ∈ ms) :
    ⟨versionId, m.namespace⟩ ∈ (modules.upsertAll DigestData.combine
      (ms.map (moduleEntry versionId createdAt))).keys :=
  Table.mem_keys_upsertAll_of_mem (e := moduleEntry versionId createdAt m)
    (List.mem_map_of_mem h)

theorem mem_keys_files (files : Table FileKey DigestData) {m : ModuleSpec}
    {ms : List ModuleSpec} {path : String} (h : m ∈ ms) (hp : m.sourceFile = some path) :
    ⟨versionId, path⟩ ∈ (files.upsertAll DigestData.combine
      (ms.filterMap (fileRow? versionId createdAt))).keys :=
  Table.mem_keys_upsertAll_of_mem
    (e := (NewFile.mk versionId path none createdAt none).entry)
    (List.mem_filterMap.mpr ⟨m, h, by rw [fileRow?, hp]; rfl⟩)

/-- A link has its ids under all modules and files that are yet to come. -/
theorem linkRow?_upsertAll {modules : Table ModuleKey DigestData} {files : Table FileKey DigestData}
    {m : ModuleSpec} (hm : ⟨versionId, m.namespace⟩ ∈ modules.keys)
    (hf : ∀ path, m.sourceFile = some path → ⟨versionId, path⟩ ∈ files.keys)
    (ms : List (ModuleKey × DigestData)) (fs : List (FileKey × DigestData)) :
    linkRow? versionId (modules.upsertAll DigestData.combine ms)
      (files.upsertAll DigestData.combine fs) m = linkRow? versionId modules files m := by
  cases hp : m.sourceFile with
  | none => simp only [linkRow?, hp, Option.map_none]
  | some path =>
    simp only [linkRow?, hp, Option.map_some]
    rw [Table.idOf_upsertAll hm, Table.idOf_upsertAll (hf path hp)]

theorem afterModules_nil (db : Database) : afterModules versionId createdAt [] db = db := by
  simp [afterModules, fresh]

theorem afterModules_cons (m : ModuleSpec) (ms : List ModuleSpec) (db : Database) :
    afterModules versionId createdAt (m :: ms) db
      = afterModules versionId createdAt ms (afterModules versionId createdAt [m] db) := by
  have hmem := List.mem_singleton_self m
  let first := afterModules versionId createdAt [m] db
  -- the link has the same ids under the modules and files that are yet to come
  have hlinks : [m].filterMap (linkRow? versionId
        (first.modules.upsertAll DigestData.combine (ms.map (moduleEntry versionId createdAt)))
        (first.files.upsertAll DigestData.combine (ms.filterMap (fileRow? versionId createdAt))))
      = [m].filterMap (linkRow? versionId first.modules first.files) :=
    List.filterMap_congr fun x hx => by
      obtain rfl := List.mem_singleton.mp hx
      exact linkRow?_upsertAll versionId (mem_keys_modules versionId createdAt db.modules hmem)
        (fun _ => mem_keys_files versionId createdAt db.files hmem) _ _
  rw [← List.singleton_append]
  simp only [first, afterModules, List.map_append, List.filterMap_append, Table.upsertAll_append,
    fresh_append, ← List.append_assoc] at hlinks ⊢
  rw [hlinks]

theorem run_storeFile {moduleId : RowId} (hv : db.versions.hasId versionId = true)
    (hm : db.modules.hasId moduleId = true) (path : String) :
    (storeFile versionId moduleId createdAt path).run db = some ((), { db with
      files := db.files.upsertAll DigestData.combine
        [(NewFile.mk versionId path none createdAt none).entry]
      links := db.links ++ fresh db.links [⟨moduleId, (db.files.upsertAll DigestData.combine
        [(NewFile.mk versionId path none createdAt none).entry]).idOf ⟨versionId, path⟩⟩] }) := by
  rw [storeFile, run_change_bind, run_upsertFile db hv, Option.bind_some]
  exact run_linkFile _ hm (Table.hasId_idOf (Table.mem_keys_upsertAll_of_mem List.mem_cons_self))

theorem run_storeModule (hv : db.versions.hasId versionId = true) (m : ModuleSpec) :
    (storeModule versionId createdAt m).run db =
      some (pendingOf versionId createdAt (afterModules versionId createdAt [m] db).modules m,
        afterModules versionId createdAt [m] db) := by
  have hm := Table.hasId_idOf (mem_keys_modules versionId createdAt db.modules
    (List.mem_singleton_self m))
  rw [storeModule, run_change_bind, run_upsertModule db hv, Option.bind_some, run_change_bind]
  cases hp : m.sourceFile with
  | none =>
    simp only [afterModules, List.filterMap_cons, fileRow?, linkRow?, hp, Option.map_none,
      List.filterMap_nil, fresh, List.append_nil]
    rfl
  | some path =>
    simp only [storeSource]
    rw [run_storeFile versionId createdAt _ _ path]
    · simp only [afterModules, List.filterMap_cons, fileRow?, linkRow?, hp, Option.map_some,
        List.filterMap_nil]
      rfl
    · exact hv
    · exact hm

theorem run_storeModules (hv : db.versions.hasId versionId = true) (ms : List ModuleSpec) :
    (ms.mapM (storeModule versionId createdAt)).run db =
      some (ms.map (pendingOf versionId createdAt (afterModules versionId createdAt ms db).modules),
        afterModules versionId createdAt ms db) := by
  induction ms generalizing db with
  | nil => exact congrArg (fun db => some ([], db)) (afterModules_nil versionId createdAt db).symm
  | cons m ms ih =>
    have hafter : (afterModules versionId createdAt [m] db).versions.hasId versionId = true := hv
    have hid : (afterModules versionId createdAt (m :: ms) db).modules.idOf ⟨versionId, m.namespace⟩
        = (afterModules versionId createdAt [m] db).modules.idOf ⟨versionId, m.namespace⟩ :=
      Table.idOf_upsertAll
        (mem_keys_modules versionId createdAt db.modules (List.mem_singleton_self m))
    rw [List.mapM_cons, run_change_bind, run_storeModule versionId createdAt hv, Option.bind_some,
      run_change_bind, ih hafter, ← afterModules_cons versionId createdAt m ms]
    simp only [List.map_cons, pendingOf, hid]
    rfl

end Modules

/-! ## Callables -/

/-- The database once callables have been written. -/
def afterCallables (cs : List NewCallable) (db : Database) : Database :=
  { db with callables := db.callables.upsertAll CallableData.combine (cs.map NewCallable.entry) }

theorem afterCallables_append (cs later : List NewCallable) (db : Database) :
    afterCallables (cs ++ later) db = afterCallables later (afterCallables cs db) := by
  simp only [afterCallables, List.map_append, Table.upsertAll_append]

theorem mem_keys_callables {c : NewCallable} {cs : List NewCallable} (h : c ∈ cs)
    (db : Database) : c.key ∈ (afterCallables cs db).callables.keys :=
  Table.mem_keys_upsertAll_of_mem (e := c.entry) (List.mem_map_of_mem h)

theorem idOf_afterCallables {k : CallableKey} (h : k ∈ db.callables.keys)
    (cs : List NewCallable) : (afterCallables cs db).callables.idOf k = db.callables.idOf k :=
  Table.idOf_upsertAll h

theorem upsertCallables_eq (db : Database) {cs : List NewCallable}
    (h : ∀ c ∈ cs, db.modules.hasId? c.module = true) :
    Database.upsertCallables cs db =
      .ok (cs.map fun c => (afterCallables cs db).callables.idOf c.key, afterCallables cs db) := by
  induction cs generalizing db with
  | nil => rfl
  | cons c cs ih =>
    refine Database.upsertCallables_cons_ok_iff.mpr ⟨_, _, Database.upsertCallable_ok_iff.mpr
      ⟨.inr (h c List.mem_cons_self), rfl, rfl⟩, _,
      ih (afterCallables [c] db) fun c' hc' => h c' (List.mem_cons_of_mem _ hc'), ?_⟩
    rw [List.map_cons]
    congr 1
    exact Table.idOf_upsertAll_cons.symm

/-- The ids of methods, by their local ids. -/
def storedIds (callables : Table CallableKey CallableData) (pending : List PendingCallable) :
    List (LocalId × RowId) :=
  pending.map fun p => (p.id, callables.idOf p.callable.key)

theorem run_storeCallableChunk (ids : IdMap) {chunk : List PendingCallable}
    (h : ∀ p ∈ chunk, db.modules.hasId? p.callable.module = true) :
    (storeCallableChunk ids chunk).run db =
      some (ids.insertAll (storedIds (afterCallables (chunk.map (·.callable)) db).callables chunk),
        afterCallables (chunk.map (·.callable)) db) := by
  have hrun := run_change_of_ok (upsertCallables_eq db (List.forall_mem_map.mpr h))
  rw [storeCallableChunk, run_change_bind, hrun, Option.bind_some, List.map_map, List.zip_map']
  rfl

/-- Methods keep their ids whatever callables are yet to come. -/
theorem storedIds_afterCallables (pending : List PendingCallable) (later : List NewCallable)
    (db : Database) :
    storedIds (afterCallables later
        (afterCallables (pending.map (·.callable)) db)).callables pending
      = storedIds (afterCallables (pending.map (·.callable)) db).callables pending :=
  List.map_congr_left fun p hp =>
    congrArg (p.id, ·) (idOf_afterCallables (mem_keys_callables (List.mem_map_of_mem hp) db) later)

theorem run_storeCallableChunks (db : Database) {css : List (List PendingCallable)}
    (h : ∀ p ∈ css.flatten, db.modules.hasId? p.callable.module = true) (ids : IdMap) :
    (css.foldlM storeCallableChunk ids).run db =
      some (ids.insertAll (storedIds
          (afterCallables (css.flatten.map (·.callable)) db).callables css.flatten),
        afterCallables (css.flatten.map (·.callable)) db) := by
  induction css generalizing db ids with
  | nil => rfl
  | cons chunk css ih =>
    rw [List.flatten_cons] at h ⊢
    obtain ⟨hchunk, hrest⟩ := List.forall_mem_append.mp h
    rw [List.foldlM_cons, run_change_bind, run_storeCallableChunk ids hchunk, Option.bind_some]
    refine (ih (afterCallables (chunk.map (·.callable)) db) hrest _).trans ?_
    rw [← IdMap.insertAll_append, List.map_append, afterCallables_append]
    conv_rhs => rw [storedIds, List.map_append, ← storedIds, ← storedIds,
      storedIds_afterCallables]

theorem run_storeCallables {batchSize : Nat} (hs : 0 < batchSize)
    {pending : List PendingCallable}
    (h : ∀ p ∈ pending, db.modules.hasId? p.callable.module = true) :
    (storeCallables batchSize pending).run db =
      some (IdMap.ofList (storedIds
          (afterCallables (pending.map (·.callable)) db).callables pending),
        afterCallables (pending.map (·.callable)) db) := by
  rw [← flatten_chunks hs pending] at h
  have hrun := run_storeCallableChunks db h []
  rw [flatten_chunks hs] at hrun
  exact hrun

/-! ## Callables outside the package -/

/-- The database once callables outside the package have been written that are not known yet. -/
def afterExternals (known addresses : List String) (db : Database) : Database :=
  afterCallables ((fresh known addresses).map NewCallable.external) db

theorem afterExternals_cons (known : List String) (address : String) (addresses : List String)
    (db : Database) :
    afterExternals known (address :: addresses) db
      = afterExternals (known ++ fresh known [address]) addresses
          (afterExternals known [address] db) := by
  simp only [afterExternals]
  rw [fresh_cons, List.map_append, afterCallables_append]

/-- The known addresses have the ids of their callables. -/
def Known (known : Externals) (db : Database) : Prop :=
  ∀ address id, known.get? address = some id →
    db.callables.idOf? (.of address false) = some id

theorem Known.afterCallables {known : Externals} (h : Known known db) (cs : List NewCallable) :
    Known known (afterCallables cs db) :=
  fun address id hget => Table.idOf?_upsertAll (h address id hget)

def externalEdge (callables : Table CallableKey CallableData) (arc : ExternalArc) : PendingEdge :=
  ⟨.local arc.source, .stored (callables.idOf (.of arc.target false)), arc.metadata⟩

theorem run_storeExternal {known : Externals} (h : Known known db) (address : String) :
    ∃ known', (storeExternal known address).run db =
        some (((afterExternals known.keys [address] db).callables.idOf (.of address false), known'),
          afterExternals known.keys [address] db) ∧
      Known known' (afterExternals known.keys [address] db) ∧
      known'.keys = known.keys ++ fresh known.keys [address] ∧
      .of address false ∈ (afterExternals known.keys [address] db).callables.keys := by
  cases hget : known.get? address with
  | some id =>
    have hmem : address ∈ known.keys := Assoc.get?_isSome_iff.mp (by rw [hget]; rfl)
    have hfresh : fresh known.keys [address] = [] :=
      fresh_eq_nil (List.forall_mem_singleton.mpr hmem)
    have hafter : afterExternals known.keys [address] db = db := by
      rw [afterExternals, hfresh]
      rfl
    have hid := h address id hget
    rw [hafter]
    refine ⟨known, ?_, h, by rw [hfresh, List.append_nil], Table.mem_keys_of_idOf? hid⟩
    rw [storeExternal, hget, Table.idOf_of_idOf? hid]
    rfl
  | none =>
    have hmem : address ∉ known.keys := fun hmem => by
      have hsome := Assoc.get?_isSome_iff.mpr hmem
      rw [hget] at hsome
      cases hsome
    have hfresh : fresh known.keys [address] = [address] := by simp [fresh, hmem]
    have hafter : afterExternals known.keys [address] db
        = afterCallables [.external address] db := by
      rw [afterExternals, hfresh]
      rfl
    have hkey : .of address false ∈ (afterCallables [.external address] db).callables.keys :=
      mem_keys_callables (List.mem_singleton_self (NewCallable.external address)) db
    rw [hafter]
    refine ⟨known.put address ((afterCallables [.external address] db).callables.idOf
      (.of address false)), ?_, ?_, ?_, hkey⟩
    · rw [storeExternal, hget]
      simp only
      rw [run_change_bind, run_upsertCallable db rfl]
      rfl
    · intro other id hother
      rw [Assoc.get?_put] at hother
      split at hother
      · next heq =>
        obtain rfl := Option.some.inj hother
        rw [← heq]
        exact Table.idOf?_eq_some_idOf hkey
      · exact h.afterCallables _ other id hother
    · rw [Assoc.keys_put, if_neg hmem, hfresh]

theorem run_storeExternals {known : Externals} (h : Known known db) (arcs : List ExternalArc) :
    ∃ known', (storeExternals known arcs).run db =
        some ((arcs.map (externalEdge
            (afterExternals known.keys (arcs.map (·.target)) db).callables), known'),
          afterExternals known.keys (arcs.map (·.target)) db) ∧
      known'.keys = known.keys ++ fresh known.keys (arcs.map (·.target)) := by
  induction arcs generalizing known db with
  | nil => exact ⟨known, rfl, (List.append_nil _).symm⟩
  | cons arc arcs ih =>
    obtain ⟨known₁, hrun₁, hknown₁, hkeys₁, hmem⟩ := run_storeExternal h arc.target
    obtain ⟨known₂, hrun₂, hkeys₂⟩ := ih hknown₁
    rw [hkeys₁, ← afterExternals_cons] at hrun₂
    have hid : (afterExternals known.keys ((arc :: arcs).map (·.target)) db).callables.idOf
          (.of arc.target false)
        = (afterExternals known.keys [arc.target] db).callables.idOf (.of arc.target false) := by
      rw [List.map_cons, afterExternals_cons known.keys arc.target (arcs.map _)]
      exact idOf_afterCallables hmem _
    refine ⟨known₂, ?_, ?_⟩
    · rw [storeExternals, run_change_bind, hrun₁, Option.bind_some, run_change_bind]
      simp only
      rw [hrun₂, List.map_cons, externalEdge, hid]
      rfl
    · rw [hkeys₂, hkeys₁, List.map_cons, fresh_cons known.keys arc.target (arcs.map _),
        List.append_assoc]

/-! ## Edges -/

/-- Both ends of the edge are there. -/
def EndsExist (db : Database) (e : NewEdge) : Prop :=
  db.callables.hasId e.source = true ∧ db.callables.hasId e.target = true

theorem run_upsertEdges {es : List NewEdge} (h : ∀ e ∈ es, EndsExist db e) :
    (change (Database.upsertEdges es)).run db =
      (Database.putEdges db.edges es).toOption.map fun edges =>
        (es.length, { db with edges }) := by
  have hmay : es.all db.edgeMayStand = true := List.all_eq_true.mpr fun e he =>
    Database.edgeMayStand_iff.mpr (.inr (h e he))
  change (Database.upsertEdges es db).toOption = _
  simp only [Database.upsertEdges, if_pos hmay]
  cases Database.putEdges db.edges es <;> rfl

theorem putEdges_append (edges : List EdgeRow) (xs ys : List NewEdge) :
    Database.putEdges edges (xs ++ ys)
      = Database.putEdges edges xs >>= fun edges => Database.putEdges edges ys :=
  List.foldlM_append

theorem run_storeEdgeChunks (db : Database) {css : List (List NewEdge)}
    (h : ∀ e ∈ css.flatten, EndsExist db e) (n : Nat) :
    (css.foldlM (fun n chunk => do return n + (← change (Database.upsertEdges chunk))) n
        : Change Nat).run db =
      (Database.putEdges db.edges css.flatten).toOption.map fun edges =>
        (n + css.flatten.length, { db with edges }) := by
  induction css generalizing db n with
  | nil => rfl
  | cons chunk css ih =>
    rw [List.flatten_cons] at h ⊢
    obtain ⟨hchunk, hrest⟩ := List.forall_mem_append.mp h
    rw [List.foldlM_cons, bind_assoc, run_change_bind, run_upsertEdges hchunk, putEdges_append]
    cases hput : Database.putEdges db.edges chunk with
    | error e => rfl
    | ok edges =>
      refine (ih { db with edges } hrest (n + chunk.length)).trans ?_
      rw [List.length_append, Nat.add_assoc]
      rfl

theorem run_storeEdges {batchSize : Nat} (hs : 0 < batchSize) {ids : IdMap}
    {pending : List PendingEdge}
    (h : ∀ es, ids.remap pending = .ok es → ∀ e ∈ es, EndsExist db e) :
    (storeEdges batchSize ids pending).run db =
      (ids.remap pending).toOption.bind fun es =>
        (Database.putEdges db.edges es).toOption.map fun edges =>
          (es.length, { db with edges }) := by
  cases hr : ids.remap pending with
  | error e =>
    rw [storeEdges, run_change_bind, hr]
    rfl
  | ok es =>
    have hends := h es hr
    rw [← flatten_chunks hs es] at hends
    have hrun := run_storeEdgeChunks db hends 0
    rw [flatten_chunks hs, Nat.zero_add] at hrun
    rw [storeEdges, run_change_bind, hr]
    exact hrun

end CallArchive.Ingest
