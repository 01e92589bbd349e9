import CallArchive.Proofs.Ingest.Stored
import CallArchive.Proofs.Validation.Validated

/-!
# The effect of a record

A record names keys of rows in every table. Once it is ingested the keys that it names have rows,
and apart from the data of those rows nothing has changed (`Stored`). Keys contain ids, which are
those of the rows that are there afterwards.
-/

namespace CallArchive.Ingest

open Store (RowId NewCallable NewEdge PackageKey PackageData ModuleKey FileKey CallableKey
  CallableData DigestData DependencyRow EdgeRow Database Table Row Stamp Link Grown grown_fresh
  grown_putEdges)

/-! ## What a record names -/

section Named

variable (g : CallGraph) (v : Validated) (w : Written) (db : Database)

def NamesPackage (k : PackageKey) : Prop :=
  k = ⟨g.product, g.forge⟩ ∨ ∃ d ∈ g.dependencies, k = ⟨d.product, d.forge⟩

/-- The row of a dependency has the normal forms of its ranges. -/
structure RowOf (packages : Table PackageKey PackageData) (d : Dependency) (row : DependencyRow) :
    Prop where
  version : row.version = w.versionId
  package : packages.idOf? ⟨d.product, d.forge⟩ = some row.package
  ranges : row.ranges = Database.rangesText (d.ranges.map VersionRange.text)

def NamesDependency (row : DependencyRow) : Prop :=
  ∃ d ∈ g.dependencies, RowOf w db.packages d row

def NamesModule (k : ModuleKey) : Prop := ∃ t ∈ g.types, k = ⟨w.versionId, t.1⟩

/-- The type says that it is from the file. -/
def FromFile (t : String × ClassType) (path : String) : Prop :=
  t.2.sourceFile = some path ∧ path ≠ ""

def NamesFile (k : FileKey) : Prop :=
  ∃ t ∈ g.types, ∃ path, FromFile t path ∧ k = ⟨w.versionId, path⟩

def NamesLink (l : Link) : Prop :=
  ∃ t ∈ g.types, ∃ path, FromFile t path ∧
    db.modules.idOf? ⟨w.versionId, t.1⟩ = some l.module ∧
    db.files.idOf? ⟨w.versionId, path⟩ = some l.file

def NamesCallable (k : CallableKey) : Prop :=
  (∃ m ∈ g.methods, k = .of m.2 true) ∨ ∃ arc ∈ v.externalArcs, k = .of arc.target false

/-- The callable of the method with the local id has the id. -/
def MethodAt (id : LocalId) (stored : RowId) : Prop :=
  ∃ m ∈ g.methods, LocalId.ofText? m.1 = some id ∧
    db.callables.idOf? (.of m.2 true) = some stored

def JoinsInternal (arc : InternalArc) (ends : RowId × RowId) : Prop :=
  MethodAt g db arc.source ends.1 ∧ MethodAt g db arc.target ends.2

def JoinsExternal (arc : ExternalArc) (ends : RowId × RowId) : Prop :=
  MethodAt g db arc.source ends.1 ∧ db.callables.idOf? (.of arc.target false) = some ends.2

def NamesEdge (ends : RowId × RowId) : Prop :=
  (∃ arc ∈ v.internalArcs, JoinsInternal g db arc ends) ∨
    ∃ arc ∈ v.externalArcs, JoinsExternal g db arc ends

end Named

/-- The rows of a record have been added to what there was before. -/
structure Stored (g : CallGraph) (v : Validated) (w : Written) (before after : Database) :
    Prop where
  package_id : after.packages.idOf? ⟨g.product, g.forge⟩ = some w.packageId
  version_id : after.versions.idOf? ⟨w.packageId, g.generator, g.version⟩ = some w.versionId
  packages : Grown Row.key (fun r => (r.id, r.key)) (NamesPackage g)
    before.packages.rows after.packages.rows
  versions : Grown Row.key (fun r => (r.id, r.key)) (· = ⟨w.packageId, g.generator, g.version⟩)
    before.versions.rows after.versions.rows
  dependencies : Grown id id (NamesDependency g w after) before.dependencies after.dependencies
  one_list : ∀ d e row, RowOf w after.packages d row → RowOf w after.packages e row →
    d.ranges.map VersionRange.text = e.ranges.map VersionRange.text
  modules : Grown Row.key (fun r => (r.id, r.key)) (NamesModule g w)
    before.modules.rows after.modules.rows
  files : Grown Row.key (fun r => (r.id, r.key)) (NamesFile g w)
    before.files.rows after.files.rows
  links : Grown id id (NamesLink g w after) before.links after.links
  callables : Grown Row.key (fun r => (r.id, r.key, r.data.module)) (NamesCallable g v)
    before.callables.rows after.callables.rows
  edges : Grown EdgeRow.ends EdgeRow.ends (NamesEdge g v after) before.edges after.edges
  internal : ∀ arc ∈ v.internalArcs, ∃! ends, JoinsInternal g after arc ends
  external : ∀ arc ∈ v.externalArcs, ∃! ends, JoinsExternal g after arc ends
  settings : after.settings = before.settings

variable {g : CallGraph} {v : Validated} {db : Database}

/-! ## Packages, modules and files -/

theorem packageEntry_iff (hv : CallGraph.Validates g v) (k : PackageKey) :
    k ∈ (packageEntries v).map Prod.fst ↔ NamesPackage g k := by
  have hproduct := hv.product_eq
  have hforge := hv.forge_eq
  rw [packageEntries, hv.dependencies_eq, hproduct, hforge, List.map_cons, List.mem_cons,
    List.map_map, List.map_map, List.mem_map]
  refine or_congr_right (exists_congr fun d => and_congr_right fun _ => ?_)
  exact eq_comm

theorem moduleEntry_iff (hv : CallGraph.Validates g v) (k : ModuleKey) :
    k ∈ (moduleEntries v db).map Prod.fst ↔ NamesModule g (written v db) k := by
  have hmodules := hv.exists_module_iff (P := fun t => k = ⟨versionId v db, t.namespace⟩)
  rw [moduleEntries, List.map_map, List.mem_map]
  refine Iff.trans (exists_congr fun m => and_congr_right fun _ => eq_comm) hmodules

theorem fromFile_iff {t : String × ClassType} {path : String} :
    (CallGraph.typeOutline t).sourceFile = some path ↔ FromFile t path := by
  simp [CallGraph.typeOutline, FromFile, Option.filter_eq_some_iff]

theorem fileEntry_iff (hv : CallGraph.Validates g v) (k : FileKey) :
    k ∈ (fileEntries v db).map Prod.fst ↔ NamesFile g (written v db) k := by
  have hmodules := hv.exists_module_iff
    (P := fun t => ∃ path, t.sourceFile = some path ∧ k = ⟨versionId v db, path⟩)
  have hentry : k ∈ (fileEntries v db).map Prod.fst ↔ ∃ m ∈ v.modules,
      ∃ path, m.sourceFile = some path ∧ k = ⟨versionId v db, path⟩ := by
    simp only [fileEntries, List.mem_map, List.mem_filterMap, fileRow?, Option.map_eq_some_iff]
    constructor
    · rintro ⟨_, ⟨m, hm, path, hpath, rfl⟩, rfl⟩
      exact ⟨m, hm, path, hpath, rfl⟩
    · rintro ⟨m, hm, path, hpath, rfl⟩
      exact ⟨_, ⟨m, hm, path, hpath, rfl⟩, rfl⟩
  refine hentry.trans (hmodules.trans ?_)
  simp only [fromFile_iff]
  rfl

/-! ## Dependencies and links -/

theorem dependencyRow_iff (hv : CallGraph.Validates g v) (row : DependencyRow) :
    row ∈ dependencyRows v db ↔ NamesDependency g (written v db) (nodesAfter v db) row := by
  rw [dependencyRows, List.mem_map]
  constructor
  · rintro ⟨s, hs, rfl⟩
    have hid : (nodesAfter v db).packages.idOf? ⟨s.product, s.forge⟩
        = some ((nodesAfter v db).packages.idOf ⟨s.product, s.forge⟩) :=
      Table.idOf?_eq_some_idOf (dependencyKey_mem hs)
    rw [hv.dependencies_eq] at hs
    obtain ⟨d, hd, rfl⟩ := List.mem_map.mp hs
    exact ⟨d, hd, ⟨rfl, hid, rfl⟩⟩
  · obtain ⟨version, package, ranges⟩ := row
    rintro ⟨d, hd, hversion, hpackage, hranges⟩
    refine ⟨d.spec, hv.dependencies_eq ▸ List.mem_map_of_mem hd, ?_⟩
    have hid := Table.idOf_of_idOf? hpackage
    simp only at hversion hid hranges
    rw [hversion, hranges, ← hid]
    rfl

/-- A row is that of one list of ranges only. -/
theorem RowOf.ranges_eq {w : Written} {packages : Table PackageKey PackageData}
    {d e : Dependency} {row : DependencyRow} (h : RowOf w packages d row)
    (h' : RowOf w packages e row) :
    d.ranges.map VersionRange.text = e.ranges.map VersionRange.text :=
  Json.print_ofTexts_inj.mp (h.ranges.symm.trans h'.ranges)

theorem linkRow_iff (hv : CallGraph.Validates g v) (l : Link) :
    l ∈ linkRows v db ↔ NamesLink g (written v db) (nodesAfter v db) l := by
  have hmodules := hv.exists_module_iff (P := fun t => ∃ path, t.sourceFile = some path ∧
    (nodesAfter v db).modules.idOf? ⟨versionId v db, t.namespace⟩ = some l.module ∧
    (nodesAfter v db).files.idOf? ⟨versionId v db, path⟩ = some l.file)
  have hrow : l ∈ linkRows v db ↔ ∃ m ∈ v.modules, ∃ path, m.sourceFile = some path ∧
      (nodesAfter v db).modules.idOf? ⟨versionId v db, m.namespace⟩ = some l.module ∧
      (nodesAfter v db).files.idOf? ⟨versionId v db, path⟩ = some l.file := by
    simp only [linkRows, List.mem_filterMap, linkRow?, Option.map_eq_some_iff]
    refine exists_congr fun m => and_congr_right fun hm => exists_congr fun path =>
      and_congr_right fun hpath => ?_
    rw [Table.idOf?_eq_some_idOf (moduleKey_mem hm),
      Table.idOf?_eq_some_idOf (fileKey_mem hm hpath)]
    obtain ⟨module, file⟩ := l
    rw [Link.mk.injEq, Option.some.injEq, Option.some.injEq]
    rfl
  refine hrow.trans (hmodules.trans ?_)
  simp only [fromFile_iff]
  rfl

/-! ## Callables -/

/-- Under which local ids and keys methods are written. -/
theorem pendingMethods_keys (v : Validated) (db : Database) :
    (pendingMethods v db).map (fun p => (p.id, p.callable.key))
      = v.methods.map fun m => (m.id, .of m.address true) := by
  rw [pendingMethods, Validated.methods, List.flatMap_def, List.map_flatten, List.map_flatten,
    List.map_map, List.map_map]
  congr 1
  refine List.map_congr_left fun m _ => ?_
  simp only [Function.comp, pendingOf, List.map_map]
  rfl

theorem exists_pending_iff {P : LocalId × CallableKey → Prop} :
    (∃ p ∈ pendingMethods v db, P (p.id, p.callable.key))
      ↔ ∃ m ∈ v.methods, P (m.id, .of m.address true) :=
  CallGraph.Validates.exists_of_map_eq (pendingMethods_keys v db)

theorem methodKey_mem {m : Method} (h : m ∈ v.methods) :
    .of m.address true ∈ (nodesAfter v db).callables.keys := by
  obtain ⟨p, hp, hkey⟩ := (exists_pending_iff (P := (·.2 = .of m.address true))).mpr ⟨m, h, rfl⟩
  exact hkey ▸ pendingKey_mem hp

theorem callableEntry_iff (hv : CallGraph.Validates g v) (k : CallableKey) :
    k ∈ ((newCallables v db).map NewCallable.entry).map Prod.fst ↔ NamesCallable g v k := by
  have hmethods : (∃ p ∈ pendingMethods v db, k = p.callable.key)
      ↔ ∃ m ∈ g.methods, k = .of m.2 true :=
    (exists_pending_iff (P := fun p => k = p.2)).trans
      (hv.exists_method_iff (P := fun m => k = .of m.2 true))
  have hexternals : (∃ a ∈ externalTargets v, k = .of a false)
      ↔ ∃ arc ∈ v.externalArcs, k = .of arc.target false := by
    simp [externalTargets, Store.mem_fresh]
  rw [NamesCallable, ← hmethods, ← hexternals, newCallables, List.map_append, List.map_append,
    List.mem_append]
  simp only [List.map_map, List.mem_map]
  exact or_congr (exists_congr fun _ => and_congr_right fun _ => eq_comm)
    (exists_congr fun _ => and_congr_right fun _ => eq_comm)

theorem storedIds_eq (v : Validated) (db : Database) :
    storedIds (nodesAfter v db).callables (pendingMethods v db) =
      v.methods.map fun m => (m.id, (nodesAfter v db).callables.idOf (.of m.address true)) := by
  have hpairs := congrArg
    (List.map fun p : LocalId × CallableKey => (p.1, (nodesAfter v db).callables.idOf p.2))
    (pendingMethods_keys v db)
  rw [List.map_map, List.map_map] at hpairs
  exact hpairs

/-- A local id stands for the callable of the method that has it. -/
theorem get?_idMap_iff (hv : CallGraph.Validates g v) {id : LocalId} {stored : RowId} :
    Assoc.get? id (idMap v db) = some stored ↔ MethodAt g (nodesAfter v db) id stored := by
  have hnodup : ((storedIds (nodesAfter v db).callables (pendingMethods v db)).map
      Prod.fst).Nodup := by
    rw [storedIds_eq, List.map_map]
    exact hv.ids_nodup
  have hmethod : MethodAt g (nodesAfter v db) id stored ↔ ∃ m ∈ v.methods, some m.id = some id ∧
      (nodesAfter v db).callables.idOf? (.of m.address true) = some stored :=
    (hv.exists_method_iff (P := fun m => m.1 = some id ∧
      (nodesAfter v db).callables.idOf? (.of m.2 true) = some stored)).symm
  rw [idMap, IdMap.get?_ofList_iff hnodup, storedIds_eq, List.mem_map, hmethod]
  refine exists_congr fun m => and_congr_right fun hm => ?_
  rw [Table.idOf?_eq_some_idOf (methodKey_mem hm), Prod.mk.injEq, Option.some.injEq,
    Option.some.injEq]

/-! ## Edges -/

/-- The key of the method with a local id. -/
def methodKey (v : Validated) (id : LocalId) : CallableKey :=
  .of ((MethodTable.address? v.methods id).getD "") true

/-- The edges of a record between the keys of callables. -/
def namedEdges (v : Validated) : List ((CallableKey × CallableKey) × Json.Members) :=
  v.internalArcs.map (fun arc => ((methodKey v arc.source, methodKey v arc.target), [])) ++
    v.externalArcs.map fun arc => ((methodKey v arc.source, .of arc.target false), arc.metadata)

def edgeBetween (callables : Table CallableKey CallableData)
    (e : (CallableKey × CallableKey) × Json.Members) : NewEdge :=
  ⟨callables.idOf e.1.1, callables.idOf e.1.2, e.2⟩

theorem exists_method {id : LocalId} (h : id ∈ v.methods.map (·.id)) :
    ∃ m ∈ v.methods, m.id = id ∧ methodKey v id = .of m.address true := by
  obtain ⟨m, hm, rfl⟩ := List.mem_map.mp h
  have hsome : (v.methods.find? (·.id == m.id)).isSome = true :=
    List.find?_isSome.mpr ⟨m, hm, beq_self_eq_true _⟩
  obtain ⟨m', hfind⟩ := Option.isSome_iff_exists.mp hsome
  have hid := List.find?_some hfind
  refine ⟨m', List.mem_of_find?_eq_some hfind, beq_iff_eq.mp hid, ?_⟩
  rw [methodKey, MethodTable.address?, MethodTable.find?, hfind]
  rfl

theorem methodKey_stored {id : LocalId} (h : id ∈ v.methods.map (·.id)) (db : Database) :
    methodKey v id ∈ (nodesAfter v db).callables.keys := by
  obtain ⟨m, hm, -, hkey⟩ := exists_method h
  exact hkey ▸ methodKey_mem hm

theorem namedEdge_stored (hv : CallGraph.Validates g v) (db : Database)
    {e : (CallableKey × CallableKey) × Json.Members} (he : e ∈ namedEdges v) :
    e.1.1 ∈ (nodesAfter v db).callables.keys ∧ e.1.2 ∈ (nodesAfter v db).callables.keys := by
  rcases List.mem_append.mp he with he | he
  · obtain ⟨arc, harc, rfl⟩ := List.mem_map.mp he
    obtain ⟨hsource, htarget⟩ := hv.ends_internal harc
    exact ⟨methodKey_stored hsource db, methodKey_stored htarget db⟩
  · obtain ⟨arc, harc, rfl⟩ := List.mem_map.mp he
    exact ⟨methodKey_stored (hv.source_external harc) db, externalKey_mem harc⟩

theorem resolve_method (hv : CallGraph.Validates g v) {id : LocalId}
    (h : id ∈ v.methods.map (·.id)) :
    (idMap v db).resolve (.local id) = .ok ((nodesAfter v db).callables.idOf (methodKey v id)) := by
  obtain ⟨m, hm, rfl, hkey⟩ := exists_method h
  obtain ⟨m', hm', hid, haddress⟩ := (hv.exists_method_iff (P := fun o => o.1 = some m.id ∧
    .of o.2 true = methodKey v m.id)).mp ⟨m, hm, rfl, hkey.symm⟩
  have hstored := Table.idOf?_eq_some_idOf (methodKey_stored h db)
  rw [← haddress] at hstored ⊢
  exact IdMap.resolve_local_ok_iff.mpr ((get?_idMap_iff hv).mpr ⟨m', hm', hid, hstored⟩)

/-- Validation has seen to it that all edges have ends. -/
theorem newEdges_eq (hv : CallGraph.Validates g v) (db : Database) :
    newEdges v db = .ok ((namedEdges v).map (edgeBetween (nodesAfter v db).callables)) := by
  have hinternal : (v.internalArcs.map internalEdge).mapM (idMap v db).resolveEdge =
      .ok (v.internalArcs.map fun arc => edgeBetween (nodesAfter v db).callables
        ((methodKey v arc.source, methodKey v arc.target), [])) := by
    rw [List.mapM_map]
    refine mapM_ok_of_forall fun arc harc => IdMap.resolveEdge_ok_iff.mpr ?_
    obtain ⟨hsource, htarget⟩ := hv.ends_internal harc
    exact ⟨resolve_method hv hsource, resolve_method hv htarget, rfl⟩
  have hexternal : (v.externalArcs.map (externalEdge (nodesAfter v db).callables)).mapM
      (idMap v db).resolveEdge = .ok (v.externalArcs.map fun arc =>
        edgeBetween (nodesAfter v db).callables
          ((methodKey v arc.source, .of arc.target false), arc.metadata)) := by
    rw [List.mapM_map]
    refine mapM_ok_of_forall fun arc harc => IdMap.resolveEdge_ok_iff.mpr ?_
    exact ⟨resolve_method hv (hv.source_external harc), rfl, rfl⟩
  rw [newEdges, IdMap.remap, pendingEdges, List.mapM_append, hinternal, hexternal, namedEdges,
    List.map_append, List.map_map, List.map_map]
  rfl

/-- The ends of an edge whose local ids are resolved. -/
def Resolved (ids : IdMap) (p : PendingEdge) (ends : RowId × RowId) : Prop :=
  ids.resolve p.source = .ok ends.1 ∧ ids.resolve p.target = .ok ends.2

theorem joinsInternal_iff (hv : CallGraph.Validates g v) {arc : InternalArc}
    {ends : RowId × RowId} :
    JoinsInternal g (nodesAfter v db) arc ends ↔ Resolved (idMap v db) (internalEdge arc) ends := by
  rw [JoinsInternal, ← get?_idMap_iff hv, ← get?_idMap_iff hv]
  exact and_congr IdMap.resolve_local_ok_iff.symm IdMap.resolve_local_ok_iff.symm

theorem joinsExternal_iff (hv : CallGraph.Validates g v) {arc : ExternalArc}
    (harc : arc ∈ v.externalArcs) {ends : RowId × RowId} :
    JoinsExternal g (nodesAfter v db) arc ends ↔
      Resolved (idMap v db) (externalEdge (nodesAfter v db).callables arc) ends := by
  rw [JoinsExternal, ← get?_idMap_iff hv, Table.idOf?_eq_some_idOf (externalKey_mem harc),
    Option.some.injEq]
  exact and_congr IdMap.resolve_local_ok_iff.symm IdMap.resolve_stored_ok_iff.symm

section Edges

variable {es : List NewEdge} (h : newEdges v db = .ok es)

include h

theorem ends_iff_resolved {ends : RowId × RowId} :
    ends ∈ es.map NewEdge.ends ↔ ∃ p ∈ pendingEdges v db, Resolved (idMap v db) p ends := by
  simp only [mem_ends_of_remap h, PendingEdge.Joins, Resolved, resolve_ok_iff]

theorem edgeEnds_iff (hv : CallGraph.Validates g v) (ends : RowId × RowId) :
    ends ∈ es.map NewEdge.ends ↔ NamesEdge g v (nodesAfter v db) ends := by
  rw [ends_iff_resolved h, NamesEdge, pendingEdges]
  simp only [List.mem_append, List.mem_map, or_and_right, exists_or, exists_exists_and_eq_and]
  refine or_congr ?_ ?_
  · exact exists_congr fun arc => and_congr_right fun _ => (joinsInternal_iff hv).symm
  · exact exists_congr fun arc => and_congr_right fun harc => (joinsExternal_iff hv harc).symm

/-- Every edge that is to be written has ends, and only these. -/
theorem existsUnique_resolved {p : PendingEdge} (hp : p ∈ pendingEdges v db) :
    ∃! ends, Resolved (idMap v db) p ends := by
  obtain ⟨e, he⟩ := ok_of_mapM_ok h hp
  obtain ⟨hsource, htarget, -⟩ := IdMap.resolveEdge_ok_iff.mp he
  refine ⟨e.ends, ⟨hsource, htarget⟩, fun ends hends => ?_⟩
  have hfst := Except.ok.inj (hends.1.symm.trans hsource)
  have hsnd := Except.ok.inj (hends.2.symm.trans htarget)
  exact Prod.ext hfst hsnd

theorem existsUnique_internal (hv : CallGraph.Validates g v) {arc : InternalArc}
    (harc : arc ∈ v.internalArcs) : ∃! ends, JoinsInternal g (nodesAfter v db) arc ends := by
  simp only [joinsInternal_iff hv]
  exact existsUnique_resolved h (List.mem_append_left _ (List.mem_map_of_mem harc))

theorem existsUnique_external (hv : CallGraph.Validates g v) {arc : ExternalArc}
    (harc : arc ∈ v.externalArcs) : ∃! ends, JoinsExternal g (nodesAfter v db) arc ends := by
  simp only [joinsExternal_iff hv harc]
  exact existsUnique_resolved h (List.mem_append_right _ (List.mem_map_of_mem harc))

end Edges

/-! ## The whole record -/

theorem module_absorb (key : CallableKey) (data : CallableData)
    (r : Row CallableKey CallableData) :
    ((Table.absorb CallableData.combine key data r).id,
        (Table.absorb CallableData.combine key data r).key,
        (Table.absorb CallableData.combine key data r).data.module)
      = (r.id, r.key, r.data.module) := by
  unfold Table.absorb
  split <;> rfl

theorem grown_versions (hv : CallGraph.Validates g v) :
    Grown Row.key (fun r => (r.id, r.key)) (· = ⟨packageId v db, g.generator, g.version⟩)
      db.versions.rows (nodesAfter v db).versions.rows := by
  have hgrown : Grown Row.key (fun r => (r.id, r.key)) (· ∈ [versionEntry v db].map Prod.fst)
      db.versions.rows (nodesAfter v db).versions.rows :=
    Table.grown_upsertAll Table.id_key_absorb db.versions [versionEntry v db]
  have hkey : versionKey v db = ⟨packageId v db, g.generator, g.version⟩ := by
    rw [versionKey, hv.generator_eq, hv.version_eq]
  refine hgrown.congr fun k => ?_
  rw [List.map_cons, List.map_nil, List.mem_singleton, ← hkey]
  rfl

theorem stored_recordAfter (hv : CallGraph.Validates g v) {w : Written} {after : Database}
    (h : recordAfter v db = some (w, after)) : Stored g v w db after := by
  obtain ⟨es, hes, edges, hedges, rfl, rfl⟩ := recordAfter_eq_some_iff.mp h
  have hpackage : (nodesAfter v db).packages.idOf? ⟨g.product, g.forge⟩ = some (packageId v db) :=
    hv.product_eq ▸ hv.forge_eq ▸ Table.idOf?_eq_some_idOf packageKey_mem
  have hversion : (nodesAfter v db).versions.idOf? ⟨packageId v db, g.generator, g.version⟩
      = some (versionId v db) :=
    hv.generator_eq ▸ hv.version_eq ▸ Table.idOf?_eq_some_idOf versionKey_mem
  exact
    { package_id := hpackage
      version_id := hversion
      packages := (Table.grown_upsertAll Table.id_key_absorb _ _).congr (packageEntry_iff hv)
      versions := grown_versions hv
      dependencies := (grown_fresh _ _).congr (dependencyRow_iff hv)
      one_list := fun _ _ _ => RowOf.ranges_eq
      modules := (Table.grown_upsertAll Table.id_key_absorb _ _).congr (moduleEntry_iff hv)
      files := (Table.grown_upsertAll Table.id_key_absorb _ _).congr (fileEntry_iff hv)
      links := (grown_fresh _ _).congr (linkRow_iff hv)
      callables := (Table.grown_upsertAll module_absorb _ _).congr (callableEntry_iff hv)
      edges := (grown_putEdges hedges).congr (edgeEnds_iff hes hv)
      internal := fun _ => existsUnique_internal hes hv
      external := fun _ => existsUnique_external hes hv
      settings := rfl }

/-- A record that is ingested has its rows in the database, and nothing else has changed. -/
theorem ingest_stored {ν : Type} {size : Nat} {retry : RetryPolicy} {notifier : Notifier ν}
    {text : String} {store : Store} {channel : ν} {report : Report}
    (hr : (ingest ⟨clampBatchSize size, retry⟩ notifier text store channel).result = .ok report) :
    ∃ g v, CallGraph.ofText text = .ok g ∧ g.validate = .ok v ∧
      Stored g v report.written store.file.committed
        (ingest ⟨clampBatchSize size, retry⟩ notifier text store channel).store.file.committed ∧
      (ingest ⟨clampBatchSize size, retry⟩ notifier text store channel).store.file.writer
        = none := by
  unfold ingest at hr ⊢
  cases hc : check text with
  | error cause =>
    rw [hc] at hr
    cases hr
  | ok v =>
    rw [hc] at hr
    obtain ⟨g, hg, hvalid⟩ := bind_ok_iff.mp hc
    obtain ⟨-, hrecord, hidle, -⟩ := ingestValidated_ok (clampBatchSize_pos size) hr
    have hstored := stored_recordAfter (CallGraph.validate_ok hvalid) hrecord
    exact ⟨g, v, hg, hvalid, hstored, hidle.free⟩

/-- A record with a dependency, two methods of a class that is in a file, an arc that is given twice
and a call to another product. -/
def widerRecord : String :=
  "\x7b\"product\":\"p\",\"forge\":\"m\",\"version\":\"1\",\"generator\":\"g\"," ++
  "\"depset\":[[[\"q\",\"m\",[\"[1]\"]]]]," ++
  "\"cha\":\x7b\"n\":[\x7b\"1\":\"/n/C.m()V\",\"2\":\"/n/C.k()V\"\x7d,[],[],\"C\"]\x7d," ++
  "\"graph\":[[[1,1],[2,1],[2,1]],[[2,\"//q/x/Y.y()V\",\x7b\x7d]]]\x7d"

/-- A store that has the first of the methods, with its arc. -/
def halfFull : Store :=
  { Store.inMemory .never with
    file := ⟨{ Database.empty with
      packages := ⟨[⟨2, ⟨"p", "m"⟩, ⟨none, none, none⟩⟩], 2⟩
      versions := ⟨[⟨1, ⟨2, "g", "1"⟩, ⟨none, none⟩⟩], 1⟩
      modules := ⟨[⟨1, ⟨1, "n"⟩, ⟨none, ⟨none, none⟩⟩⟩], 1⟩
      callables := ⟨[⟨3, .of "/n/C.m()V" true, ⟨some 1, ⟨none, none⟩⟩⟩], 3⟩
      edges := [⟨3, 3, "\x7b\"w\":1\x7d"⟩] }, none⟩ }

/-- The callable and the edge that are there stay, and what else the record names is added once. -/
theorem ingest_stored_widerRecord : ∃ report g v,
    (ingest ⟨clampBatchSize 2, .new 1 0⟩ Notifier.silent widerRecord halfFull ()).result
      = .ok report ∧
    Stored g v report.written halfFull.file.committed
      (ingest ⟨clampBatchSize 2, .new 1 0⟩ Notifier.silent widerRecord halfFull
        ()).store.file.committed ∧
    (ingest ⟨clampBatchSize 2, .new 1 0⟩ Notifier.silent widerRecord halfFull
      ()).store.file.committed.callables.rows.map (fun r => (r.id, r.data.module))
        = [(3, some 1), (5, some 1), (6, none)] ∧
    (ingest ⟨clampBatchSize 2, .new 1 0⟩ Notifier.silent widerRecord halfFull
      ()).store.file.committed.edges.map EdgeRow.ends = [(3, 3), (5, 3), (5, 6)] := by
  obtain ⟨hok, hcallables, hedges⟩ :
      (ingest ⟨clampBatchSize 2, .new 1 0⟩ Notifier.silent widerRecord halfFull
        ()).result.toOption.isSome = true ∧
      (ingest ⟨clampBatchSize 2, .new 1 0⟩ Notifier.silent widerRecord halfFull
        ()).store.file.committed.callables.rows.map (fun r => (r.id, r.data.module))
          = [(3, some 1), (5, some 1), (6, none)] ∧
      (ingest ⟨clampBatchSize 2, .new 1 0⟩ Notifier.silent widerRecord halfFull
        ()).store.file.committed.edges.map EdgeRow.ends = [(3, 3), (5, 3), (5, 6)] := by
    decide +kernel
  obtain ⟨report, hr⟩ := ok_of_isSome hok
  obtain ⟨g, v, -, -, hstored, -⟩ := ingest_stored hr
  exact ⟨report, g, v, hr, hstored, hcallables, hedges⟩

end CallArchive.Ingest
