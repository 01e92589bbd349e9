import CallArchive.Proofs.Store.Statements

/-!
# Consistent databases

`Consistent` is the representation invariant: no key and no id stands twice in a table, every
reference names a row, and the documents of edges read back. The empty database is consistent, and
every statement keeps a database so (`Keeps`), whatever it is given, if only the documents given for
edges read back. In a consistent database merging such documents never fails (`putEdges_ok`).
-/

namespace CallArchive.Store.Database

open Json (ReadsBack)

structure Consistent (db : Database) : Prop where
  packages : db.packages.Sound
  versions : db.versions.Sound
  modules : db.modules.Sound
  files : db.files.Sound
  callables : db.callables.Sound
  dependencies : db.dependencies.Nodup
  links : db.links.Nodup
  ends : (db.edges.map EdgeRow.ends).Nodup
  flags : ∀ k ∈ db.callables.keys, ∃ address resolved, k = .of address resolved
  versionPackage : ∀ k ∈ db.versions.keys, db.packages.hasId k.package = true
  dependencyEnds : ∀ d ∈ db.dependencies,
    db.versions.hasId d.version = true ∧ db.packages.hasId d.package = true
  moduleVersion : ∀ k ∈ db.modules.keys, db.versions.hasId k.version = true
  fileVersion : ∀ k ∈ db.files.keys, db.versions.hasId k.version = true
  linkEnds : ∀ l ∈ db.links, db.modules.hasId l.module = true ∧ db.files.hasId l.file = true
  callableModule : ∀ r ∈ db.callables.rows, db.modules.hasId? r.data.module = true
  edgeEnds : ∀ e ∈ db.edges,
    db.callables.hasId e.source = true ∧ db.callables.hasId e.target = true
  documents : ∀ e ∈ db.edges, ∃ m, ReadsBack m ∧ e.metadata = documentText m

theorem Consistent.empty : empty.Consistent where
  packages := .empty
  versions := .empty
  modules := .empty
  files := .empty
  callables := .empty
  dependencies := List.nodup_nil
  links := List.nodup_nil
  ends := List.nodup_nil
  flags := fun _ h => nomatch h
  versionPackage := fun _ h => nomatch h
  dependencyEnds := fun _ h => nomatch h
  moduleVersion := fun _ h => nomatch h
  fileVersion := fun _ h => nomatch h
  linkEnds := fun _ h => nomatch h
  callableModule := fun _ h => nomatch h
  edgeEnds := fun _ h => nomatch h
  documents := fun _ h => nomatch h

/-! ## Edges of a consistent database -/

theorem Consistent.kept {db : Database} (h : db.Consistent) : Documents.Kept db.edges :=
  ⟨h.ends, h.documents⟩

theorem Consistent.putEdges_ok {db : Database} (h : db.Consistent) {new : List NewEdge}
    (hnew : ∀ e ∈ new, ReadsBack e.metadata) : ∃ edges, putEdges db.edges new = .ok edges := by
  obtain ⟨edges, hput, -⟩ := Documents.putEdges_shown h.kept.shown hnew
  exact ⟨edges, hput⟩

/-! ## What statements keep -/

/-- The statement takes the databases with a property to such ones. -/
def Keeps (P : Database → Prop) {α : Type} (s : Statement α) : Prop :=
  ∀ {db a db'}, s db = .ok (a, db') → P db → P db'

theorem hasId?_mono {κ δ : Type} {t u : Table κ δ} {id : Option RowId}
    (h : ∀ {i}, t.hasId i = true → u.hasId i = true) (hi : t.hasId? id = true) :
    u.hasId? id = true := by
  cases id with
  | none => rfl
  | some i => exact h hi

theorem keeps_upsertPackage (p : NewPackage) : Keeps Consistent (upsertPackage p) := by
  intro db id db' hs h
  obtain ⟨-, rfl⟩ := upsertPackage_ok_iff.mp hs
  exact { h with
    packages := h.packages.upsert _ _
    versionPackage := fun k hk => Table.hasId_upsert (h.versionPackage k hk)
    dependencyEnds := fun d hd =>
      ⟨(h.dependencyEnds d hd).1, Table.hasId_upsert (h.dependencyEnds d hd).2⟩ }

theorem keeps_upsertVersion (v : NewVersion) : Keeps Consistent (upsertVersion v) := by
  intro db id db' hs h
  obtain ⟨hmay, -, rfl⟩ := upsertVersion_ok_iff.mp hs
  exact { h with
    versions := h.versions.upsert _ _
    versionPackage := Table.forall_keys_upsert h.versionPackage hmay.resolve_left
    dependencyEnds := fun d hd =>
      ⟨Table.hasId_upsert (h.dependencyEnds d hd).1, (h.dependencyEnds d hd).2⟩
    moduleVersion := fun k hk => Table.hasId_upsert (h.moduleVersion k hk)
    fileVersion := fun k hk => Table.hasId_upsert (h.fileVersion k hk) }

theorem keeps_insertDependency (d : NewDependency) : Keeps Consistent (insertDependency d) := by
  intro db isNew db' hs h
  rcases insertDependency_ok_iff.mp hs with ⟨-, -, rfl⟩ | ⟨hnew, -, hends, rfl⟩
  · exact h
  · exact { h with
      dependencies := List.nodup_append.mpr ⟨h.dependencies, List.nodup_singleton _,
        fun a ha b hb hab => hnew (List.mem_singleton.mp hb ▸ hab ▸ ha)⟩
      dependencyEnds := List.forall_mem_append.mpr
        ⟨h.dependencyEnds, List.forall_mem_singleton.mpr hends⟩ }

theorem keeps_upsertModule (m : NewModule) : Keeps Consistent (upsertModule m) := by
  intro db id db' hs h
  obtain ⟨hmay, -, rfl⟩ := upsertModule_ok_iff.mp hs
  exact { h with
    modules := h.modules.upsert _ _
    moduleVersion := Table.forall_keys_upsert h.moduleVersion hmay.resolve_left
    linkEnds := fun l hl => ⟨Table.hasId_upsert (h.linkEnds l hl).1, (h.linkEnds l hl).2⟩
    callableModule := fun r hr => hasId?_mono Table.hasId_upsert (h.callableModule r hr) }

theorem keeps_upsertFile (f : NewFile) : Keeps Consistent (upsertFile f) := by
  intro db id db' hs h
  obtain ⟨hmay, -, rfl⟩ := upsertFile_ok_iff.mp hs
  exact { h with
    files := h.files.upsert _ _
    fileVersion := Table.forall_keys_upsert h.fileVersion hmay.resolve_left
    linkEnds := fun l hl => ⟨(h.linkEnds l hl).1, Table.hasId_upsert (h.linkEnds l hl).2⟩ }

theorem keeps_linkFile (link : Link) : Keeps Consistent (linkFile link) := by
  intro db u db' hs h
  rcases linkFile_ok_iff.mp hs with ⟨-, rfl⟩ | ⟨hnew, hends, rfl⟩
  · exact h
  · exact { h with
      links := List.nodup_append.mpr ⟨h.links, List.nodup_singleton _,
        fun a ha b hb hab => hnew (List.mem_singleton.mp hb ▸ hab ▸ ha)⟩
      linkEnds := List.forall_mem_append.mpr
        ⟨h.linkEnds, List.forall_mem_singleton.mpr hends⟩ }

theorem keeps_upsertCallable (c : NewCallable) : Keeps Consistent (upsertCallable c) := by
  intro db id db' hs h
  obtain ⟨hmay, -, rfl⟩ := upsertCallable_ok_iff.mp hs
  exact { h with
    callables := h.callables.upsert _ _
    flags := Table.forall_keys_upsert h.flags fun _ => ⟨c.address, c.resolved, rfl⟩
    -- the row that has the key keeps its module, so the new one is not looked at
    callableModule := Table.forall_data_upsert
      (P := fun data : CallableData => db.modules.hasId? data.module = true) h.callableModule
      (fun hold => hold) hmay.resolve_left
    edgeEnds := fun e he =>
      ⟨Table.hasId_upsert (h.edgeEnds e he).1, Table.hasId_upsert (h.edgeEnds e he).2⟩ }

theorem keeps_upsertCallables {P : Database → Prop} (cs : List NewCallable)
    (hone : ∀ c, Keeps P (upsertCallable c)) : Keeps P (upsertCallables cs) := by
  intro db ids db' hs h
  induction cs generalizing db ids with
  | nil =>
    obtain ⟨-, rfl⟩ := Prod.mk.inj (Except.ok.inj hs)
    exact h
  | cons c cs ih =>
    obtain ⟨id, db₁, h1, later, h2, -⟩ := upsertCallables_cons_ok_iff.mp hs
    exact ih h2 (hone c h1 h)

theorem keeps_upsertEdges {new : List NewEdge} (hnew : ∀ e ∈ new, ReadsBack e.metadata) :
    Keeps Consistent (upsertEdges new) := by
  intro db n db' hs h
  obtain ⟨edges, hput, hmay, -, rfl⟩ := upsertEdges_ok_iff.mp hs
  obtain ⟨edges', hput', hshown⟩ := Documents.putEdges_shown h.kept.shown hnew
  obtain rfl := Except.ok.inj (hput.symm.trans hput')
  have holdEnds : ∀ p ∈ db.edges.map EdgeRow.ends,
      db.callables.hasId p.1 = true ∧ db.callables.hasId p.2 = true := fun p hp => by
    obtain ⟨e, he, rfl⟩ := List.mem_map.mp hp
    exact h.edgeEnds e he
  exact { h with
    ends := hshown.ends_eq ▸ hshown.keys_nodup
    edgeEnds := fun e he => by
      have hkey : e.ends ∈ edges.map EdgeRow.ends := List.mem_map_of_mem he
      rw [hshown.ends_eq, Table.mem_keys_upsertAll, ← h.kept.shown.ends_eq] at hkey
      rcases hkey with hkey | hkey
      · exact holdEnds _ hkey
      · obtain ⟨_, hentry, heq⟩ := List.mem_map.mp hkey
        obtain ⟨new, hmem, rfl⟩ := List.mem_map.mp hentry
        obtain ⟨hsource, htarget⟩ := Prod.mk.inj heq
        rw [← hsource, ← htarget]
        exact (edgeMayStand_iff.mp (hmay new hmem)).elim (holdEnds _) id
    documents := fun e he => by
      rw [hshown.edges_eq] at he
      obtain ⟨r, hr, rfl⟩ := List.mem_map.mp he
      exact ⟨r.data, hshown.readsBack r hr, rfl⟩ }

theorem consistent_addSetting {key value : String} {db : Database} (h : db.Consistent) :
    (db.addSetting key value).Consistent := by
  unfold addSetting
  split
  · exact h
  · exact { h with }

theorem keeps_prepare : Keeps Consistent prepare := by
  intro db u db' hs h
  simp only [prepare] at hs
  split at hs
  · cases hs
  · split at hs
    · obtain ⟨-, rfl⟩ := Prod.mk.inj (Except.ok.inj hs)
      exact consistent_addSetting h
    · cases hs

end CallArchive.Store.Database
