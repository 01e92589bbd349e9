import CallArchive.Proofs.Store.Advances

/-!
# What connections are told of rows

An action may be performed at every connection of a file. Where the content `old` has been
committed before, an upsert answers as the ids of `old` are assigned (`answers_upsert`), and a query
for the key of a row of `old` finds a row with its id (`finds_row`).
-/

namespace CallArchive.Store

theorem Wrote.exists_run {α : Type} {s : Store} {f : Change α} {nothing : Prop}
    {out : Except Error α × Store} {x : α} (h : Wrote s f nothing out) (hout : out.1 = .ok x) :
    ∃ db, f.run s.view = some (x, db) := by
  cases h with
  | done _ hf =>
    obtain rfl := Except.ok.inj hout
    exact ⟨_, hf⟩
  | skipped _ hf =>
    obtain rfl := Except.ok.inj hout
    exact ⟨_, hf s.view⟩
  | refused => cases hout

/-- A digest that the store itself has written can be read. -/
theorem DigestData.Own.read {data : DigestData} (h : data.Own) (index : Nat) (name : String) :
    ∃ digest, data.digest.mapM (Content.read index name) = .ok digest := by
  cases hd : data.digest with
  | none => exact ⟨none, rfl⟩
  | some content =>
    obtain ⟨bytes, rfl⟩ := h content hd
    exact ⟨some bytes, rfl⟩

namespace Connections

variable {α ρ : Type}

/-- Whatever the action answers at a connection, it is as said. -/
def Answers (c : Connections) (a : Action α) (P : α → Prop) : Prop :=
  ∀ name x, (c.run name a).1 = .ok x → P x

/-- The query finds something that is as said at every connection that is open. -/
def Finds (c : Connections) (query : Action (Option ρ)) (P : ρ → Prop) : Prop :=
  ∀ name s, c.store? name = some s → s.isOpen = true →
    ∃ found, (c.run name query).1 = .ok (some found) ∧ P found

/-- The connections see databases that have come from `old`, which was regular. -/
structure Follow (old : Database) (c : Connections) : Prop where
  regular : old.Regular
  view : ∀ name, old.Advances (c.file.view name)

variable {c : Connections} {old : Database}

theorem Follow.store (h : c.Follow old) {name : ConnectionName} {s : Store}
    (hs : c.store? name = some s) : old.Advances s.view ∧ s.view.Regular := by
  have hview := h.view s.connection
  rw [← file_of_store? hs] at hview
  exact ⟨hview, h.regular.advances hview⟩

/-! ## Upserts -/

/-- What a write answers it has done to what its connection sees. -/
theorem answers_of_wrote {a : Action α} {st : Statement α} {nothing : Prop} {P : α → Prop}
    (ha : ∀ s, Wrote s (change st) nothing (a.run s : Except Error α × Store))
    (h : c.Follow old)
    (hst : ∀ {db x db'}, old.Advances db → db.Regular → st db = .ok (x, db') → P x) :
    c.Answers a P := by
  intro name x hx
  cases hs : c.store? name with
  | none =>
    rw [Connections.run, hs] at hx
    cases hx
  | some s =>
    rw [run_of_store? hs] at hx
    obtain ⟨hview, hregular⟩ := h.store hs
    obtain ⟨db, hrun⟩ := (ha s).exists_run hx
    exact hst hview hregular (run_change_eq_some hrun)

theorem answers_upsert {κ δ : Type} [DecidableEq κ] {table : Database → Table κ δ} {key : κ}
    {st : Statement RowId} (hst : Database.Upserts table key st) (ht : Database.Identified table)
    (kind : WriteKind) (h : c.Follow old) :
    c.Answers (write kind st) ((table old).Assigns key) :=
  answers_of_wrote (wrote_write kind st) h fun hdb hr hok => hst.assigns ht hdb hr hok

theorem answers_upsertCallables (cs : List NewCallable) (h : c.Follow old) :
    c.Answers (upsertCallables cs)
      (List.Forall₂ (fun x id => old.callables.Assigns x.key id) cs) :=
  answers_of_wrote (wrote_writeMany .callables cs fun _ => rfl) h
    Database.assigns_upsertCallables

/-! ## Queries -/

/-- The query reads the row that has the key. -/
structure Reads {κ δ : Type} [DecidableEq κ] (table : Database → Table κ δ) (key : κ)
    (query : Action (Option ρ)) (id : ρ → RowId) : Prop where
  found : ∀ {s : Store} {r}, s.isOpen = true → s.view.Regular → (table s.view).find? key = some r →
    ∃ found, (query.run s : Except Error (Option ρ) × Store).1 = .ok (some found) ∧ id found = r.id

theorem reads_package (name forge : String) :
    Reads Database.packages ⟨name, forge⟩ (package? name forge) PackageRecord.id where
  found ho _ hr := by
    rw [package?, run_read ho, Database.package?, hr]
    exact ⟨_, rfl, rfl⟩

theorem reads_version (package : RowId) (generator version : String) :
    Reads Database.versions ⟨package, generator, version⟩ (version? package generator version)
      VersionRecord.id where
  found ho _ hr := by
    rw [version?, run_read ho, Database.version?, hr]
    exact ⟨_, rfl, rfl⟩

theorem reads_callable (address : String) (resolved : Bool) :
    Reads Database.callables (.of address resolved) (callable? address resolved)
      CallableRecord.id where
  found ho _ hr := by
    rw [callable?, run_read ho, Database.callable?, hr]
    exact ⟨_, rfl, rfl⟩

theorem reads_module (version : RowId) (ns : String) :
    Reads Database.modules ⟨version, ns⟩ (module? version ns) ModuleRecord.id where
  found {s r} ho hregular hr := by
    obtain ⟨digest, hdigest⟩ :=
      (hregular.moduleDigests r (Table.find?_some_key hr).1).read 3 "sha256"
    rw [module?, run_readRows ho, Database.module?, hr]
    simp only [Option.mapM_some, Database.moduleRecord, hdigest]
    exact ⟨_, rfl, rfl⟩

theorem reads_file (version : RowId) (path : String) :
    Reads Database.files ⟨version, path⟩ (file? version path) FileRecord.id where
  found {s r} ho hregular hr := by
    obtain ⟨digest, hdigest⟩ :=
      (hregular.fileDigests r (Table.find?_some_key hr).1).read 3 "checksum"
    rw [file?, run_readRows ho, Database.file?, hr]
    simp only [Option.mapM_some, Database.fileRecord, hdigest]
    exact ⟨_, rfl, rfl⟩

/-- What has been committed is found under its id. -/
theorem finds_row {κ δ : Type} [DecidableEq κ] {table : Database → Table κ δ}
    {query : Action (Option ρ)} {id : ρ → RowId} (ht : Database.Identified table)
    (h : c.Follow old) {r : Row κ δ} (hr : r ∈ (table old).rows)
    (hquery : Reads table r.key query id) : c.Finds query fun found => id found = r.id := by
  intro name s hs ho
  obtain ⟨hview, hregular⟩ := h.store hs
  obtain ⟨r', hr', hid⟩ := (ht.advances hview).find? (ht.sound hregular) hr
  rw [run_of_store? hs, ← hid]
  exact hquery.found ho hregular hr'

end Connections

end CallArchive.Store
