import CallArchive.Proofs.Store.Course
import CallArchive.Proofs.Store.Grown

/-!
# Content that is never lost

Every statement leaves the rows that it finds in their places, with their ids and keys, and puts new
ones after them (`Database.Advances`, `advances_course`). In a table whose ids and keys are unique
the ids of its rows are then taken for good: what stands later under the key of a row has the id of
that row, and nothing else has it (`Table.Assigns`).
-/

namespace CallArchive.Store

/-- What an upsert never changes of a row. -/
def Row.identity {κ δ : Type} (r : Row κ δ) : RowId × κ := (r.id, r.key)

/-! ## Tables -/

namespace Table

variable {κ δ : Type} {t u v : Table κ δ}

structure Advances (t u : Table κ δ) : Prop where
  kept : t.rows.map Row.identity <+: u.rows.map Row.identity
  sound : t.Sound → u.Sound

theorem Advances.refl (t : Table κ δ) : t.Advances t := ⟨List.prefix_rfl, id⟩

theorem Advances.trans (h : t.Advances u) (h' : u.Advances v) : t.Advances v :=
  ⟨h.kept.trans h'.kept, h'.sound ∘ h.sound⟩

theorem Advances.upsert [DecidableEq κ] (combine : δ → δ → δ) (t : Table κ δ) (key : κ) (data : δ) :
    t.Advances (t.upsert combine key data).2 := by
  have hgrown : Grown Row.key Row.identity (· = key) t.rows (t.upsert combine key data).2.rows :=
    grown_upsert id_key_absorb t key data
  exact ⟨hgrown.kept, fun h => h.upsert key data⟩

theorem Advances.exists_row (h : t.Advances u) {r : Row κ δ} (hr : r ∈ t.rows) :
    ∃ r' ∈ u.rows, r'.id = r.id ∧ r'.key = r.key := by
  have hmem : r.identity ∈ u.rows.map Row.identity :=
    h.kept.subset (List.mem_map_of_mem hr)
  obtain ⟨r', hr', heq⟩ := List.mem_map.mp hmem
  exact ⟨r', hr', Prod.mk.inj heq⟩

/-- As far as the ids of the rows of `t` go, `id` is the one for `key`. -/
def Assigns (t : Table κ δ) (key : κ) (id : RowId) : Prop :=
  ∀ r ∈ t.rows, id = r.id ↔ key = r.key

theorem Advances.assigns (h : t.Advances u) (hu : u.Sound) {r' : Row κ δ} (hr' : r' ∈ u.rows) :
    t.Assigns r'.key r'.id := by
  intro r hr
  obtain ⟨r'', hr'', hid, hkey⟩ := h.exists_row hr
  rw [← hid, ← hkey]
  constructor
  · intro heq
    rw [List.inj_on_of_nodup_map hu.ids_nodup hr' hr'' heq]
  · intro heq
    rw [List.inj_on_of_nodup_map hu.keys_nodup hr' hr'' heq]

theorem Advances.assigns_of_idOf? [DecidableEq κ] (h : t.Advances u) (hu : u.Sound) {key : κ}
    {id : RowId} (hid : u.idOf? key = some id) : t.Assigns key id := by
  obtain ⟨r, hr, rfl⟩ := Option.map_eq_some_iff.mp hid
  obtain ⟨hmem, rfl⟩ := find?_some_key hr
  exact h.assigns hu hmem

theorem Advances.find? [DecidableEq κ] (h : t.Advances u) (hu : u.Sound) {r : Row κ δ}
    (hr : r ∈ t.rows) : ∃ r', u.find? r.key = some r' ∧ r'.id = r.id := by
  obtain ⟨r', hr', hid, hkey⟩ := h.exists_row hr
  have hmem : r.key ∈ u.keys := hkey ▸ List.mem_map_of_mem hr'
  cases hf : u.find? r.key with
  | none => exact absurd hmem (find?_eq_none_iff.mp hf)
  | some found =>
    obtain ⟨hfound, hfoundKey⟩ := find?_some_key hf
    exact ⟨found, rfl, (h.assigns hu hfound r hr).mpr hfoundKey⟩

/-- The rows of `t` are in `u`, and no id of theirs stands under another key. -/
structure Retains (t u : Table κ δ) : Prop where
  rows : ∀ r ∈ t.rows, ∃ r' ∈ u.rows, r'.id = r.id ∧ r'.key = r.key
  ids : ∀ r' ∈ u.rows, t.Assigns r'.key r'.id

theorem Advances.retains (h : t.Advances u) (hu : u.Sound) : t.Retains u :=
  ⟨fun _ hr => h.exists_row hr, fun _ hr' => h.assigns hu hr'⟩

end Table

/-! ## Digests -/

/-- The digest, if there is one, is what the store itself has written. -/
def DigestData.Own (data : DigestData) : Prop :=
  ∀ content ∈ data.digest, ∃ bytes, content = .own bytes

theorem DigestData.Own.of_bytes (digest : Option Bytes) (stamp : Stamp) :
    Own ⟨digest.map .own, stamp⟩ := by
  intro content h
  obtain ⟨bytes, -, rfl⟩ := Option.map_eq_some_iff.mp h
  exact ⟨bytes, rfl⟩

theorem DigestData.Own.combine {old new : DigestData} (hold : old.Own) (hnew : new.Own) :
    (old.combine new).Own := by
  intro content h
  rcases Option.or_eq_some_iff.mp h with h | ⟨-, h⟩
  · exact hnew content h
  · exact hold content h

def Table.OwnDigests {κ : Type} (t : Table κ DigestData) : Prop := ∀ r ∈ t.rows, r.data.Own

theorem Table.OwnDigests.upsert {κ : Type} [DecidableEq κ] {t : Table κ DigestData}
    (h : t.OwnDigests) (key : κ) {data : DigestData} (hdata : data.Own) :
    (t.upsert DigestData.combine key data).2.OwnDigests :=
  forall_data_upsert h (fun hold => hold.combine hdata) fun _ => hdata

/-! ## Flags -/

/-- The flags of all callables are such as the store writes. -/
def Table.OwnFlags (t : Table CallableKey CallableData) : Prop :=
  ∀ k ∈ t.keys, ∃ address resolved, k = .of address resolved

theorem Table.OwnFlags.upsert {t : Table CallableKey CallableData} (h : t.OwnFlags)
    (c : NewCallable) (data : CallableData) :
    (t.upsert CallableData.combine c.key data).2.OwnFlags :=
  forall_keys_upsert h fun _ => ⟨c.address, c.resolved, rfl⟩

/-! ## Databases -/

namespace Database

structure Advances (db db' : Database) : Prop where
  settings : db.settings <+: db'.settings
  packages : db.packages.Advances db'.packages
  versions : db.versions.Advances db'.versions
  dependencies : db.dependencies <+: db'.dependencies
  modules : db.modules.Advances db'.modules
  files : db.files.Advances db'.files
  links : db.links <+: db'.links
  callables : db.callables.Advances db'.callables
  ends : db.edges.map EdgeRow.ends <+: db'.edges.map EdgeRow.ends
  moduleDigests : db.modules.OwnDigests → db'.modules.OwnDigests
  fileDigests : db.files.OwnDigests → db'.files.OwnDigests
  flags : db.callables.OwnFlags → db'.callables.OwnFlags

theorem Advances.refl (db : Database) : db.Advances db :=
  ⟨List.prefix_rfl, .refl _, .refl _, List.prefix_rfl, .refl _, .refl _, List.prefix_rfl, .refl _,
    List.prefix_rfl, id, id, id⟩

theorem Advances.trans {db db' db'' : Database} (h : db.Advances db') (h' : db'.Advances db'') :
    db.Advances db'' where
  settings := h.settings.trans h'.settings
  packages := h.packages.trans h'.packages
  versions := h.versions.trans h'.versions
  dependencies := h.dependencies.trans h'.dependencies
  modules := h.modules.trans h'.modules
  files := h.files.trans h'.files
  links := h.links.trans h'.links
  callables := h.callables.trans h'.callables
  ends := h.ends.trans h'.ends
  moduleDigests := h'.moduleDigests ∘ h.moduleDigests
  fileDigests := h'.fileDigests ∘ h.fileDigests
  flags := h'.flags ∘ h.flags

theorem advances_prepare : Follows Advances prepare := by
  intro db u db' h
  have hsettings : db.Advances (db.addSetting versionSetting schemaVersion) := by
    unfold addSetting
    split
    · exact .refl db
    · exact { Advances.refl db with settings := List.prefix_append _ _ }
  simp only [prepare] at h
  split at h
  · cases h
  · split at h
    · obtain ⟨-, rfl⟩ := Prod.mk.inj (Except.ok.inj h)
      exact hsettings
    · cases h

/-- No statement loses a row or gives it another id. -/
theorem advances_course : Course Advances where
  refl := .refl
  trans := .trans
  prepare := advances_prepare
  upsertPackage := fun p db id db' h => by
    obtain ⟨-, rfl⟩ := upsertPackage_ok_iff.mp h
    exact { Advances.refl db with packages := .upsert _ _ _ _ }
  upsertVersion := fun v db id db' h => by
    obtain ⟨-, -, rfl⟩ := upsertVersion_ok_iff.mp h
    exact { Advances.refl db with versions := .upsert _ _ _ _ }
  insertDependency := fun d db isNew db' h => by
    rcases insertDependency_ok_iff.mp h with ⟨-, -, rfl⟩ | ⟨-, -, -, rfl⟩
    · exact .refl db
    · exact { Advances.refl db with dependencies := List.prefix_append _ _ }
  upsertModule := fun m db id db' h => by
    obtain ⟨-, -, rfl⟩ := upsertModule_ok_iff.mp h
    exact { Advances.refl db with
      modules := .upsert _ _ _ _
      moduleDigests := fun hown => hown.upsert _ (.of_bytes m.digest _) }
  upsertFile := fun f db id db' h => by
    obtain ⟨-, -, rfl⟩ := upsertFile_ok_iff.mp h
    exact { Advances.refl db with
      files := .upsert _ _ _ _
      fileDigests := fun hown => hown.upsert _ (.of_bytes f.digest _) }
  linkFile := fun l db u db' h => by
    rcases linkFile_ok_iff.mp h with ⟨-, rfl⟩ | ⟨-, -, rfl⟩
    · exact .refl db
    · exact { Advances.refl db with links := List.prefix_append _ _ }
  upsertCallable := fun c db id db' h => by
    obtain ⟨-, -, rfl⟩ := upsertCallable_ok_iff.mp h
    exact { Advances.refl db with
      callables := .upsert _ _ _ _
      flags := fun hown => hown.upsert c _ }
  upsertEdges := fun es db n db' h => by
    obtain ⟨edges, hput, -, -, rfl⟩ := upsertEdges_ok_iff.mp h
    exact { Advances.refl db with ends := (grown_putEdges hput).kept }

/-- Ids and keys are unique, and the store itself has written the digests and the flags. -/
structure Regular (db : Database) : Prop where
  packages : db.packages.Sound
  versions : db.versions.Sound
  modules : db.modules.Sound
  files : db.files.Sound
  callables : db.callables.Sound
  moduleDigests : db.modules.OwnDigests
  fileDigests : db.files.OwnDigests
  flags : db.callables.OwnFlags

theorem Regular.empty : Database.empty.Regular where
  packages := .empty
  versions := .empty
  modules := .empty
  files := .empty
  callables := .empty
  moduleDigests := fun _ h => nomatch h
  fileDigests := fun _ h => nomatch h
  flags := fun _ h => nomatch h

theorem Regular.advances {db db' : Database} (h : db.Regular) (h' : db.Advances db') :
    db'.Regular where
  packages := h'.packages.sound h.packages
  versions := h'.versions.sound h.versions
  modules := h'.modules.sound h.modules
  files := h'.files.sound h.files
  callables := h'.callables.sound h.callables
  moduleDigests := h'.moduleDigests h.moduleDigests
  fileDigests := h'.fileDigests h.fileDigests
  flags := h'.flags h.flags

/-- Every row is still there: those with an id with that and their key, edges between the same
ends, the others as they were. -/
structure Retains (old new : Database) : Prop where
  settings : old.settings ⊆ new.settings
  packages : old.packages.Retains new.packages
  versions : old.versions.Retains new.versions
  dependencies : old.dependencies ⊆ new.dependencies
  modules : old.modules.Retains new.modules
  files : old.files.Retains new.files
  links : old.links ⊆ new.links
  callables : old.callables.Retains new.callables
  edges : old.edges.map EdgeRow.ends ⊆ new.edges.map EdgeRow.ends

theorem Advances.retains {old new : Database} (h : old.Advances new) (hnew : new.Regular) :
    old.Retains new where
  settings := h.settings.subset
  packages := h.packages.retains hnew.packages
  versions := h.versions.retains hnew.versions
  dependencies := h.dependencies.subset
  modules := h.modules.retains hnew.modules
  files := h.files.retains hnew.files
  links := h.links.subset
  callables := h.callables.retains hnew.callables
  edges := h.ends.subset

/-! ## Tables with ids -/

/-- A table of a database in which every row has an id. -/
structure Identified {κ δ : Type} (table : Database → Table κ δ) : Prop where
  advances : ∀ {db db'}, Advances db db' → (table db).Advances (table db')
  sound : ∀ {db}, Regular db → (table db).Sound

theorem identified_packages : Identified packages := ⟨Advances.packages, Regular.packages⟩

theorem identified_versions : Identified versions := ⟨Advances.versions, Regular.versions⟩

theorem identified_modules : Identified modules := ⟨Advances.modules, Regular.modules⟩

theorem identified_files : Identified files := ⟨Advances.files, Regular.files⟩

theorem identified_callables : Identified callables := ⟨Advances.callables, Regular.callables⟩

/-- The statement answers the id that its key has afterwards. -/
structure Upserts {κ δ : Type} [DecidableEq κ] (table : Database → Table κ δ) (key : κ)
    (st : Statement RowId) : Prop where
  follows : Follows Advances st
  idOf? : ∀ {db id db'}, st db = .ok (id, db') → (table db').idOf? key = some id

theorem upserts_package (p : NewPackage) :
    Upserts packages ⟨p.name, p.forge⟩ (upsertPackage p) where
  follows := advances_course.upsertPackage p
  idOf? h := by
    obtain ⟨rfl, rfl⟩ := upsertPackage_ok_iff.mp h
    exact Table.idOf?_upsert_self

theorem upserts_version (v : NewVersion) :
    Upserts versions ⟨v.package, v.generator, v.version⟩ (upsertVersion v) where
  follows := advances_course.upsertVersion v
  idOf? h := by
    obtain ⟨-, rfl, rfl⟩ := upsertVersion_ok_iff.mp h
    exact Table.idOf?_upsert_self

theorem upserts_module (m : NewModule) :
    Upserts modules ⟨m.version, m.namespace⟩ (upsertModule m) where
  follows := advances_course.upsertModule m
  idOf? h := by
    obtain ⟨-, rfl, rfl⟩ := upsertModule_ok_iff.mp h
    exact Table.idOf?_upsert_self

theorem upserts_file (f : NewFile) : Upserts files ⟨f.version, f.path⟩ (upsertFile f) where
  follows := advances_course.upsertFile f
  idOf? h := by
    obtain ⟨-, rfl, rfl⟩ := upsertFile_ok_iff.mp h
    exact Table.idOf?_upsert_self

theorem upserts_callable (c : NewCallable) : Upserts callables c.key (upsertCallable c) where
  follows := advances_course.upsertCallable c
  idOf? h := by
    obtain ⟨-, rfl, rfl⟩ := upsertCallable_ok_iff.mp h
    exact Table.idOf?_upsert_self

/-- An upsert answers the id of the row that has had its key, and of no other. -/
theorem Upserts.assigns {κ δ : Type} [DecidableEq κ] {table : Database → Table κ δ} {key : κ}
    {st : Statement RowId} (h : Upserts table key st) (ht : Identified table)
    {old db db' : Database} {id : RowId} (hdb : old.Advances db) (hr : db.Regular)
    (hst : st db = .ok (id, db')) : (table old).Assigns key id := by
  have hafter : db.Advances db' := h.follows hst
  exact (ht.advances (hdb.trans hafter)).assigns_of_idOf? (ht.sound (hr.advances hafter))
    (h.idOf? hst)

theorem assigns_upsertCallables {old db db' : Database} {cs : List NewCallable} {ids : List RowId}
    (hdb : old.Advances db) (hr : db.Regular) (hst : upsertCallables cs db = .ok (ids, db')) :
    List.Forall₂ (fun c id => old.callables.Assigns c.key id) cs ids := by
  induction cs generalizing db ids with
  | nil =>
    obtain ⟨rfl, -⟩ := Prod.mk.inj (Except.ok.inj hst)
    exact .nil
  | cons c cs ih =>
    obtain ⟨id, between, hone, later, hrest, rfl⟩ := upsertCallables_cons_ok_iff.mp hst
    have hstep : db.Advances between := advances_course.upsertCallable c hone
    exact .cons ((upserts_callable c).assigns identified_callables hdb hr hone)
      (ih (hdb.trans hstep) (hr.advances hstep) hrest)

end Database

end CallArchive.Store
