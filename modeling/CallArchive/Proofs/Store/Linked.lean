import CallArchive.Proofs.Store.Consistent
import CallArchive.Proofs.Store.Naming

/-!
# Names for the rows of a database

In a `Linked` database no key and no id stands twice and every reference names a row; it is what a
consistent database is whatever the documents of its edges. Then a version is named by its package,
and modules and files by their version.
-/

namespace CallArchive.Store

/-! ## Keys within what they refer to -/

def VersionKey.parts : RowId × String × String ≃ VersionKey where
  toFun p := ⟨p.1, p.2.1, p.2.2⟩
  invFun k := (k.package, k.generator, k.version)

def ModuleKey.parts : RowId × String ≃ ModuleKey where
  toFun p := ⟨p.1, p.2⟩
  invFun k := (k.version, k.namespace)

def FileKey.parts : RowId × String ≃ FileKey where
  toFun p := ⟨p.1, p.2⟩
  invFun k := (k.version, k.path)

/-- Package, generator and version. -/
abbrev VersionName := PackageKey × String × String

abbrev ModuleName := VersionName × String

abbrev FileName := VersionName × String

namespace Database

/-- Consistent but for the documents of edges. -/
structure Linked (db : Database) : Prop where
  packages : db.packages.Sound
  versions : db.versions.Sound
  modules : db.modules.Sound
  files : db.files.Sound
  callables : db.callables.Sound
  dependencies : db.dependencies.Nodup
  links : db.links.Nodup
  ends : (db.edges.map EdgeRow.ends).Nodup
  versionPackage : ∀ k ∈ db.versions.keys, db.packages.hasId k.package = true
  dependencyEnds : ∀ d ∈ db.dependencies,
    db.versions.hasId d.version = true ∧ db.packages.hasId d.package = true
  moduleVersion : ∀ k ∈ db.modules.keys, db.versions.hasId k.version = true
  fileVersion : ∀ k ∈ db.files.keys, db.versions.hasId k.version = true
  linkEnds : ∀ l ∈ db.links, db.modules.hasId l.module = true ∧ db.files.hasId l.file = true
  callableModule : ∀ r ∈ db.callables.rows, db.modules.hasId? r.data.module = true
  edgeEnds : ∀ e ∈ db.edges,
    db.callables.hasId e.source = true ∧ db.callables.hasId e.target = true

theorem Consistent.linked {db : Database} (h : db.Consistent) : db.Linked :=
  { h with }

namespace Linked

variable {db : Database} (h : db.Linked)

/-! ## Names -/

def packageNames : Naming PackageKey := .ofTable h.packages

def versionNames : Naming VersionName := h.packageNames.within h.versions VersionKey.parts

def moduleNames : Naming ModuleName := h.versionNames.within h.modules ModuleKey.parts

def fileNames : Naming FileName := h.versionNames.within h.files FileKey.parts

def callableNames : Naming CallableKey := .ofTable h.callables

theorem exists_packageName {id : RowId} (hid : db.packages.hasId id = true) :
    ∃ n, h.packageNames.id? n = some id :=
  h.packages.exists_key hid

theorem exists_versionName {id : RowId} (hid : db.versions.hasId id = true) :
    ∃ n, h.versionNames.id? n = some id :=
  h.packageNames.exists_within h.versions VersionKey.parts
    (fun k hk => h.exists_packageName (h.versionPackage k hk)) hid

theorem exists_moduleName {id : RowId} (hid : db.modules.hasId id = true) :
    ∃ n, h.moduleNames.id? n = some id :=
  h.versionNames.exists_within h.modules ModuleKey.parts
    (fun k hk => h.exists_versionName (h.moduleVersion k hk)) hid

theorem exists_fileName {id : RowId} (hid : db.files.hasId id = true) :
    ∃ n, h.fileNames.id? n = some id :=
  h.versionNames.exists_within h.files FileKey.parts
    (fun k hk => h.exists_versionName (h.fileVersion k hk)) hid

theorem exists_callableName {id : RowId} (hid : db.callables.hasId id = true) :
    ∃ n, h.callableNames.id? n = some id :=
  h.callables.exists_key hid

end Linked

/-- No id has been given to another name. -/
structure NamesKept {db db' : Database} (h : db.Linked) (h' : db'.Linked) : Prop where
  packages : h'.packageNames.Extends h.packageNames
  versions : h'.versionNames.Extends h.versionNames
  modules : h'.moduleNames.Extends h.moduleNames
  files : h'.fileNames.Extends h.fileNames
  callables : h'.callableNames.Extends h.callableNames

section NamesKept

variable {db db' db'' : Database} {h : db.Linked} {h' : db'.Linked} {h'' : db''.Linked}

theorem NamesKept.refl (h : db.Linked) : NamesKept h h := ⟨.refl _, .refl _, .refl _, .refl _, .refl _⟩

theorem NamesKept.trans (h₁ : NamesKept h h') (h₂ : NamesKept h' h'') : NamesKept h h'' :=
  ⟨h₂.packages.trans h₁.packages, h₂.versions.trans h₁.versions, h₂.modules.trans h₁.modules,
    h₂.files.trans h₁.files, h₂.callables.trans h₁.callables⟩

/-- As when all keys have the ids that they had. -/
theorem NamesKept.of_idOf? (h : db.Linked) (h' : db'.Linked)
    (packages : ∀ k id, db.packages.idOf? k = some id → db'.packages.idOf? k = some id)
    (versions : ∀ k id, db.versions.idOf? k = some id → db'.versions.idOf? k = some id)
    (modules : ∀ k id, db.modules.idOf? k = some id → db'.modules.idOf? k = some id)
    (files : ∀ k id, db.files.idOf? k = some id → db'.files.idOf? k = some id)
    (callables : ∀ k id, db.callables.idOf? k = some id → db'.callables.idOf? k = some id) :
    NamesKept h h' := by
  have hpackages : h'.packageNames.Extends h.packageNames := packages
  have hversions : h'.versionNames.Extends h.versionNames := hpackages.within versions _
  exact ⟨hpackages, hversions, hversions.within modules _, hversions.within files _, callables⟩

end NamesKept

end Database

end CallArchive.Store
