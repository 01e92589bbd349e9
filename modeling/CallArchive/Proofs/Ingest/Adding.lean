import CallArchive.Proofs.Ingest.Effect
import CallArchive.Proofs.Store.Contents

/-!
# What a record adds

What a record adds to what a database holds depends on the record alone (`addRecord`), whatever ids
its rows get (`contents_recordAfter`).
-/

namespace CallArchive.Ingest

open Store (RowId NewCallable NewEdge NewPackage NewVersion PackageKey PackageData VersionKey
  ModuleKey FileKey CallableKey CallableData DigestData DependencyRow EdgeRow Database Table Row
  Stamp Link Naming VersionName ModuleName FileName fresh mem_fresh nodup_append_fresh putAll
  grown_putEdges Contents NamedCallable nameCallable nameCallable_kept nameDependency edgeText?
  edgeText?_putEdges mem_of_edgeText? mergeText)
open Time (Instant)

variable {v : Validated} {db : Database}

/-! ## Linked databases stay linked -/

theorem linked_nodesAfter (h : db.Linked) (v : Validated) : (nodesAfter v db).Linked where
  packages := h.packages.upsertAll _
  versions := h.versions.upsertAll _
  modules := h.modules.upsertAll _
  files := h.files.upsertAll _
  callables := h.callables.upsertAll _
  dependencies := nodup_append_fresh h.dependencies
  links := nodup_append_fresh h.links
  ends := h.ends
  versionPackage := Table.forall_keys_upsertAll
    (fun k hk => Table.hasId_upsertAll (h.versionPackage k hk))
    (List.forall_mem_singleton.mpr (Table.hasId_idOf packageKey_mem))
  dependencyEnds := by
    intro d hd
    rcases List.mem_append.mp hd with hd | hd
    · exact ⟨Table.hasId_upsertAll (h.dependencyEnds d hd).1,
        Table.hasId_upsertAll (h.dependencyEnds d hd).2⟩
    · obtain ⟨s, hs, rfl⟩ := List.mem_map.mp (mem_fresh.mp hd).1
      exact ⟨Table.hasId_idOf versionKey_mem, Table.hasId_idOf (dependencyKey_mem hs)⟩
  moduleVersion := Table.forall_keys_upsertAll
    (fun k hk => Table.hasId_upsertAll (h.moduleVersion k hk)) fun e he => by
      obtain ⟨m, -, rfl⟩ := List.mem_map.mp he
      exact Table.hasId_idOf versionKey_mem
  fileVersion := Table.forall_keys_upsertAll
    (fun k hk => Table.hasId_upsertAll (h.fileVersion k hk)) fun e he => by
      obtain ⟨m, -, hm⟩ := List.mem_filterMap.mp he
      obtain ⟨path, -, rfl⟩ := Option.map_eq_some_iff.mp hm
      exact Table.hasId_idOf versionKey_mem
  linkEnds := by
    intro l hl
    rcases List.mem_append.mp hl with hl | hl
    · exact ⟨Table.hasId_upsertAll (h.linkEnds l hl).1, Table.hasId_upsertAll (h.linkEnds l hl).2⟩
    · obtain ⟨m, hm, hrow⟩ := List.mem_filterMap.mp (mem_fresh.mp hl).1
      obtain ⟨path, hpath, rfl⟩ := Option.map_eq_some_iff.mp hrow
      exact ⟨Table.hasId_idOf (moduleKey_mem hm), Table.hasId_idOf (fileKey_mem hm hpath)⟩
  callableModule := Table.forall_data_upsertAll
    (P := fun data : CallableData => (nodesAfter v db).modules.hasId? data.module = true)
    (fun r hr => Database.hasId?_mono Table.hasId_upsertAll (h.callableModule r hr))
    (fun hold => hold) fun e he => by
      obtain ⟨c, hc, rfl⟩ := List.mem_map.mp he
      rcases List.mem_append.mp hc with hc | hc
      · obtain ⟨p, hp, rfl⟩ := List.mem_map.mp hc
        exact hasId?_pending hp
      · obtain ⟨a, -, rfl⟩ := List.mem_map.mp hc
        rfl
  edgeEnds := fun e he =>
    ⟨Table.hasId_upsertAll (h.edgeEnds e he).1, Table.hasId_upsertAll (h.edgeEnds e he).2⟩

theorem linked_recordAfter (h : db.Linked) {w : Written} {after : Database}
    (hr : recordAfter v db = some (w, after)) : after.Linked := by
  obtain ⟨es, hes, edges, hput, -, rfl⟩ := recordAfter_eq_some_iff.mp hr
  have hnodes := linked_nodesAfter h v
  have hgrown := grown_putEdges hput
  refine { hnodes with ends := hgrown.nodup h.ends, edgeEnds := fun e he => ?_ }
  rcases (hgrown.keys e.ends).mp (List.mem_map_of_mem he) with hold | hnew
  · obtain ⟨e', he', hends⟩ := List.mem_map.mp hold
    obtain ⟨hsource, htarget⟩ := Prod.mk.inj hends
    exact hsource ▸ htarget ▸ hnodes.edgeEnds e' he'
  · obtain ⟨e', he', hends⟩ := List.mem_map.mp hnew
    obtain ⟨hsource, htarget⟩ := Prod.mk.inj hends
    exact hsource ▸ htarget ▸ endsExist_newEdges hes e' he'

/-! ## What a record adds -/

section Record

variable (v : Validated)

def versionName : VersionName := (⟨v.product, v.forge⟩, v.generator, v.version)

def namedVersion : VersionName × Stamp := (versionName v, Database.stamp (createdAt v) none)

def namedDependencies : List (Option PackageKey × String) :=
  v.dependencies.map fun d => (some ⟨d.product, d.forge⟩, Database.rangesText d.ranges)

def namedModules : List (ModuleName × DigestData) :=
  v.modules.map fun m =>
    ((versionName v, m.namespace), ⟨none, Database.stamp (createdAt v) (some m.metadata)⟩)

def namedFiles : List (FileName × DigestData) :=
  v.modules.filterMap fun m => m.sourceFile.map fun path =>
    ((versionName v, path), ⟨none, Database.stamp (createdAt v) none⟩)

def namedLinks : List (ModuleName × FileName) :=
  v.modules.filterMap fun m => m.sourceFile.map fun path =>
    ((versionName v, m.namespace), (versionName v, path))

def namedMethods : List (CallableKey × NamedCallable) :=
  v.modules.flatMap fun m => m.methods.map fun method =>
    (.of method.address true, ⟨some (versionName v, m.namespace), Database.stamp (createdAt v) none⟩)

def namedExternals : List (CallableKey × NamedCallable) :=
  (externalTargets v).map fun address => (.of address false, ⟨none, Database.stamp none none⟩)

end Record

/-- What is held once a record has been stored. -/
def addRecord (c : Contents) (v : Validated) : Contents where
  packages := putAll (Table.take PackageData.combine) c.packages (packageEntries v)
  versions := putAll (Table.take Stamp.combine) c.versions [namedVersion v]
  dependencies n := if n = versionName v
    then c.dependencies n ++ fresh (c.dependencies n) (namedDependencies v)
    else c.dependencies n
  modules := putAll (Table.take DigestData.combine) c.modules (namedModules v)
  files := putAll (Table.take DigestData.combine) c.files (namedFiles v)
  links n := c.links n ∨ n ∈ namedLinks v
  callables := putAll (Table.take NamedCallable.combine) c.callables
    (namedMethods v ++ namedExternals v)
  edges := putAll mergeText c.edges (namedEdges v)

theorem version_of_mem {r : DependencyRow} (h : r ∈ dependencyRows v db) :
    r.version = versionId v db := by
  obtain ⟨d, -, rfl⟩ := List.mem_map.mp h
  rfl

section Stored

variable {edges : List EdgeRow} (h : db.Linked) (h' : Database.Linked { nodesAfter v db with edges })

include h h'

theorem namesKept_recordAfter : Database.NamesKept h h' :=
  .of_idOf? h h' (fun _ _ => Table.idOf?_upsertAll) (fun _ _ => Table.idOf?_upsertAll)
    (fun _ _ => Table.idOf?_upsertAll) (fun _ _ => Table.idOf?_upsertAll)
    fun _ _ => Table.idOf?_upsertAll

omit h in
theorem packageId_named : h'.packageNames.id? ⟨v.product, v.forge⟩ = some (packageId v db) :=
  Table.idOf?_eq_some_idOf packageKey_mem

omit h in
theorem versionId_named : h'.versionNames.id? (versionName v) = some (versionId v db) :=
  Option.bind_eq_some_iff.mpr ⟨versionKey v db,
    Naming.key?_eq_some_iff.mpr ⟨packageId_named h', rfl⟩, Table.idOf?_eq_some_idOf versionKey_mem⟩

theorem packages_recordAfter : h'.contents.packages = (addRecord h.contents v).packages :=
  Table.data?_upsertAll _ _ _

theorem versions_recordAfter : h'.contents.versions = (addRecord h.contents v).versions :=
  funext fun n => (namesKept_recordAfter h h').packages.bind_upsertAll VersionKey.parts
    (fun k hk => h.exists_packageName (h.versionPackage k hk)) Stamp.combine (packageId_named h')
    [((v.generator, v.version), Database.stamp (createdAt v) none)] n

theorem modules_recordAfter : h'.contents.modules = (addRecord h.contents v).modules := by
  funext n
  have hput := (namesKept_recordAfter h h').versions.bind_upsertAll ModuleKey.parts
    (fun k hk => h.exists_versionName (h.moduleVersion k hk)) DigestData.combine
    (versionId_named h') (v.modules.map fun m =>
      (m.namespace, ⟨none, Database.stamp (createdAt v) (some m.metadata)⟩)) n
  rw [List.map_map, List.map_map] at hput
  exact hput

theorem files_recordAfter : h'.contents.files = (addRecord h.contents v).files := by
  funext n
  have hput := (namesKept_recordAfter h h').versions.bind_upsertAll FileKey.parts
    (fun k hk => h.exists_versionName (h.fileVersion k hk)) DigestData.combine
    (versionId_named h') (v.modules.filterMap fun m => m.sourceFile.map fun path =>
      (path, ⟨none, Database.stamp (createdAt v) none⟩)) n
  simp only [List.map_filterMap, Option.map_map] at hput
  exact hput

/-! ## Dependencies and links -/

/-- What there was is held under the same names. -/
theorem dependencies_kept {n : VersionName} {id : RowId} (hid : h'.versionNames.id? n = some id) :
    (db.dependencies.filter (·.version = id)).map (nameDependency h'.packageNames)
      = h.contents.dependencies n := by
  have hkept := namesKept_recordAfter h h'
  change _ = (h.versionNames.id? n).elim [] _
  cases hold : h.versionNames.id? n with
  | some id' =>
    obtain rfl := Option.some.inj ((hkept.versions n id' hold).symm.trans hid)
    refine List.map_congr_left fun r hr => ?_
    obtain ⟨k, hk⟩ := h.exists_packageName (h.dependencyEnds r (List.mem_filter.mp hr).1).2
    have hname := h.packageNames.name?_iff.mpr hk
    rw [nameDependency, nameDependency, hname, hkept.packages.name? hname]
  | none =>
    have hnone : db.dependencies.filter (·.version = id) = [] := by
      refine List.filter_eq_nil_iff.mpr fun r hr hversion => ?_
      obtain ⟨m, hm⟩ := h.exists_versionName (h.dependencyEnds r hr).1
      rw [of_decide_eq_true hversion] at hm
      obtain rfl := h'.versionNames.name_inj (hkept.versions m id hm) hid
      rw [hold] at hm
      cases hm
    rw [hnone]
    rfl

omit h in
theorem namedDependencies_eq :
    (dependencyRows v db).map (nameDependency h'.packageNames) = namedDependencies v := by
  rw [dependencyRows, List.map_map]
  refine List.map_congr_left fun d hd => ?_
  have hname : h'.packageNames.name? ((nodesAfter v db).packages.idOf ⟨d.product, d.forge⟩)
      = some ⟨d.product, d.forge⟩ :=
    h'.packageNames.name?_iff.mpr (Table.idOf?_eq_some_idOf (dependencyKey_mem hd))
  exact congrArg (·, Database.rangesText d.ranges) hname

omit h in
/-- The new dependencies of a version are those without a row of that version. -/
theorem fresh_rows :
    (fresh db.dependencies (dependencyRows v db)).map (nameDependency h'.packageNames)
      = fresh ((db.dependencies.filter (·.version = versionId v db)).map
          (nameDependency h'.packageNames)) (namedDependencies v) := by
  have hsame : fresh db.dependencies (dependencyRows v db)
      = fresh (db.dependencies.filter (·.version = versionId v db)) (dependencyRows v db) :=
    Store.fresh_congr fun r hr => by simp [version_of_mem hr]
  rw [hsame, ← namedDependencies_eq h']
  refine Store.fresh_map fun r hr r' hr' heq => ?_
  have hversion' : r'.version = versionId v db := by
    rcases List.mem_append.mp hr' with hr' | hr'
    · exact of_decide_eq_true (List.mem_filter.mp hr').2
    · exact version_of_mem hr'
  obtain ⟨d, hd, rfl⟩ := List.mem_map.mp hr
  have hid : (nodesAfter v db).packages.idOf? ⟨d.product, d.forge⟩ = some _ :=
    Table.idOf?_eq_some_idOf (dependencyKey_mem hd)
  have hname := h'.packageNames.name?_iff.mpr hid
  obtain ⟨hpackage, hranges⟩ := Prod.mk.inj heq
  have hid' := h'.packageNames.name?_iff.mp (hpackage.symm.trans hname)
  obtain ⟨version, package, ranges⟩ := r'
  obtain rfl : version = versionId v db := hversion'
  obtain rfl : package = _ := Option.some.inj (hid'.symm.trans hid)
  obtain rfl : _ = ranges := hranges
  rfl

theorem dependencies_recordAfter :
    h'.contents.dependencies = (addRecord h.contents v).dependencies := by
  funext n
  change (h'.versionNames.id? n).elim [] _ = if n = versionName v then _ else _
  cases hn : h'.versionNames.id? n with
  | none =>
    have hne : n ≠ versionName v := by
      rintro rfl
      rw [versionId_named h'] at hn
      cases hn
    have hold : h.versionNames.id? n = none := by
      cases hold : h.versionNames.id? n with
      | none => rfl
      | some id => rw [(namesKept_recordAfter h h').versions n id hold] at hn; cases hn
    rw [if_neg hne]
    change [] = (h.versionNames.id? n).elim [] _
    rw [hold]
    rfl
  | some id =>
    have hold := dependencies_kept h h' hn
    change ((db.dependencies ++ fresh db.dependencies (dependencyRows v db)).filter
      (·.version = id)).map _ = _
    rw [List.filter_append, List.map_append, hold]
    split
    · next heq =>
      subst heq
      obtain rfl := Option.some.inj ((versionId_named h').symm.trans hn)
      rw [List.filter_eq_self.mpr fun r hr => decide_eq_true (version_of_mem (mem_fresh.mp hr).1),
        fresh_rows h', hold]
    · next hne =>
      have hnone : (fresh db.dependencies (dependencyRows v db)).filter (·.version = id) = [] := by
        refine List.filter_eq_nil_iff.mpr fun r hr hversion => hne ?_
        have hsame := (version_of_mem (mem_fresh.mp hr).1).symm.trans (of_decide_eq_true hversion)
        exact h'.versionNames.name_inj hn (hsame ▸ versionId_named h')
      rw [hnone, List.map_nil, List.append_nil]

omit h in
theorem moduleId_named {m : ModuleSpec} (hm : m ∈ v.modules) :
    h'.moduleNames.id? (versionName v, m.namespace)
      = some ((nodesAfter v db).modules.idOf ⟨versionId v db, m.namespace⟩) :=
  Option.bind_eq_some_iff.mpr ⟨⟨versionId v db, m.namespace⟩,
    Naming.key?_eq_some_iff.mpr ⟨versionId_named h', rfl⟩,
    Table.idOf?_eq_some_idOf (moduleKey_mem hm)⟩

omit h in
theorem fileId_named {m : ModuleSpec} {path : String} (hm : m ∈ v.modules)
    (hpath : m.sourceFile = some path) :
    h'.fileNames.id? (versionName v, path)
      = some ((nodesAfter v db).files.idOf ⟨versionId v db, path⟩) :=
  Option.bind_eq_some_iff.mpr ⟨⟨versionId v db, path⟩,
    Naming.key?_eq_some_iff.mpr ⟨versionId_named h', rfl⟩,
    Table.idOf?_eq_some_idOf (fileKey_mem hm hpath)⟩

theorem links_recordAfter : h'.contents.links = (addRecord h.contents v).links := by
  have hkept := namesKept_recordAfter h h'
  funext ⟨m, f⟩
  refine propext ⟨?_, ?_⟩
  · rintro ⟨l, hl, hm, hf⟩
    rcases List.mem_append.mp hl with hl | hl
    · obtain ⟨m', hm'⟩ := h.exists_moduleName (h.linkEnds l hl).1
      obtain ⟨f', hf'⟩ := h.exists_fileName (h.linkEnds l hl).2
      obtain rfl := h'.moduleNames.name_inj (hkept.modules m' _ hm') hm
      obtain rfl := h'.fileNames.name_inj (hkept.files f' _ hf') hf
      exact .inl ⟨l, hl, hm', hf'⟩
    · obtain ⟨spec, hspec, hrow⟩ := List.mem_filterMap.mp (mem_fresh.mp hl).1
      obtain ⟨path, hpath, rfl⟩ := Option.map_eq_some_iff.mp hrow
      obtain rfl := h'.moduleNames.name_inj hm (moduleId_named h' hspec)
      obtain rfl := h'.fileNames.name_inj hf (fileId_named h' hspec hpath)
      exact .inr (List.mem_filterMap.mpr ⟨spec, hspec, by rw [hpath]; rfl⟩)
  · rintro (⟨l, hl, hm, hf⟩ | hnamed)
    · exact ⟨l, List.mem_append_left _ hl, hkept.modules m _ hm, hkept.files f _ hf⟩
    · obtain ⟨spec, hspec, hrow⟩ := List.mem_filterMap.mp hnamed
      obtain ⟨path, hpath, heq⟩ := Option.map_eq_some_iff.mp hrow
      obtain ⟨rfl, rfl⟩ := Prod.mk.inj heq
      refine ⟨⟨_, _⟩, ?_, moduleId_named h' hspec, fileId_named h' hspec hpath⟩
      have hlink : Link.mk ((nodesAfter v db).modules.idOf ⟨versionId v db, spec.namespace⟩)
          ((nodesAfter v db).files.idOf ⟨versionId v db, path⟩) ∈ linkRows v db :=
        List.mem_filterMap.mpr ⟨spec, hspec, by rw [linkRow?, hpath]; rfl⟩
      change _ ∈ db.links ++ fresh db.links (linkRows v db)
      rw [List.mem_append, mem_fresh]
      exact (em _).imp_right fun hnew => ⟨hlink, hnew⟩

/-! ## Callables -/

omit h in
theorem namedCallables_eq :
    ((newCallables v db).map NewCallable.entry).map
        (fun e => (e.1, nameCallable h'.moduleNames e.2))
      = namedMethods v ++ namedExternals v := by
  rw [newCallables, List.map_append, List.map_append]
  congr 1
  · rw [pendingMethods, List.map_flatten, List.map_flatten, List.map_flatten, namedMethods,
      List.flatMap_def]
    simp only [List.map_map]
    congr 1
    refine List.map_congr_left fun m hm => ?_
    have hname := h'.moduleNames.name?_iff.mpr (moduleId_named h' hm)
    simp only [Function.comp, pendingOf, List.map_map]
    refine List.map_congr_left fun method _ => ?_
    exact congrArg (fun name => (CallableKey.of method.address true,
      NamedCallable.mk name (Database.stamp (createdAt v) none))) hname
  · simp only [List.map_map]
    rfl

theorem callables_recordAfter : h'.contents.callables = (addRecord h.contents v).callables := by
  funext k
  have hkept := namesKept_recordAfter h h'
  have hdata : (nodesAfter v db).callables.data?
      = putAll (Table.take CallableData.combine) db.callables.data?
        ((newCallables v db).map NewCallable.entry) := Table.data?_upsertAll _ _ _
  have hold : (fun k => (db.callables.data? k).map (nameCallable h'.moduleNames))
      = h.contents.callables := by
    funext k
    change _ = (db.callables.data? k).map (nameCallable h.moduleNames)
    cases hr : db.callables.data? k with
    | none => rfl
    | some data =>
      obtain ⟨r, hf, rfl⟩ := Option.map_eq_some_iff.mp hr
      have hmodule := h.callableModule r (Table.find?_some_key hf).1
      exact congrArg some (nameCallable_kept h hkept.modules hmodule)
  change ((nodesAfter v db).callables.data? k).map (nameCallable h'.moduleNames) = _
  rw [hdata, Store.map_putAll _ (Store.nameCallable_take h'.moduleNames), namedCallables_eq h', hold]
  rfl

/-! ## Edges -/

theorem edges_recordAfter {g : CallGraph} (hv : CallGraph.Validates g v) {es : List NewEdge}
    (hes : newEdges v db = .ok es) (hput : Database.putEdges db.edges es = .ok edges) :
    h'.contents.edges = (addRecord h.contents v).edges := by
  obtain rfl := Except.ok.inj ((newEdges_eq hv db).symm.trans hes)
  have hkept := namesKept_recordAfter h h'
  have hold : ∀ ends, edgeText? db.edges ends ≠ none →
      ∃ n, h.callableNames.pair? n = some ends := fun ends hends => by
    obtain ⟨e, he, rfl⟩ := mem_of_edgeText? hends
    obtain ⟨hsource, htarget⟩ := h.edgeEnds e he
    obtain ⟨source, hs⟩ := h.exists_callableName hsource
    obtain ⟨target, ht⟩ := h.exists_callableName htarget
    exact ⟨(source, target), Naming.pair?_eq_some_iff.mpr ⟨hs, ht⟩⟩
  have hnamed : ∀ e ∈ namedEdges v, h'.callableNames.pair? e.1
      = some ((nodesAfter v db).callables.idOf e.1.1, (nodesAfter v db).callables.idOf e.1.2) :=
    fun e he => Naming.pair?_eq_some_iff.mpr
      ⟨Table.idOf?_eq_some_idOf (namedEdge_stored hv db he).1,
        Table.idOf?_eq_some_idOf (namedEdge_stored hv db he).2⟩
  funext n
  have hputAll := Store.bind_putAll mergeText hkept.callables.pair? h'.callableNames.pair?_inj hold
    (fun k => ((nodesAfter v db).callables.idOf k.1, (nodesAfter v db).callables.idOf k.2)) hnamed n
  change (h'.callableNames.pair? n).bind (edgeText? edges) = _
  rw [edgeText?_putEdges hput, List.map_map]
  exact hputAll

end Stored

/-- What a record adds does not depend on the ids that its rows get. -/
theorem contents_recordAfter {g : CallGraph} (hv : CallGraph.Validates g v) (h : db.Linked)
    {w : Written} {after : Database} (h' : after.Linked)
    (hr : recordAfter v db = some (w, after)) : h'.contents = addRecord h.contents v := by
  obtain ⟨es, hes, edges, hput, -, rfl⟩ := recordAfter_eq_some_iff.mp hr
  exact Contents.ext (packages_recordAfter h h') (versions_recordAfter h h')
    (dependencies_recordAfter h h') (modules_recordAfter h h') (files_recordAfter h h')
    (links_recordAfter h h') (callables_recordAfter h h') (edges_recordAfter h h' hv hes hput)

end CallArchive.Ingest
