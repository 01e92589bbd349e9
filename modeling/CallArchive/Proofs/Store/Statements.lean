import CallArchive.Proofs.Except
import CallArchive.Proofs.Store.Edges

/-!
# What the statements do

A row to be written has a key and columns, its entry. The statements that write one row upsert its
entry if the key has a row or the reference of the row names one (the lemmas `_ok_iff`); those that
write many upsert all entries in order.

Combining columns is associative and combining with the same changes nothing, so the tables can be
written again without an effect (`Table.rows_upsertAll_again`).
-/

namespace CallArchive.Store

open Json (ReadsBack)

/-! ## Combining columns -/

theorem PackageData.band : Table.Band combine fun _ => True where
  closed := fun _ _ => trivial
  assoc := fun _ _ _ => by simp only [combine, Option.or_assoc]
  idem := fun {a} _ => by simp only [combine, Option.or_self]

theorem Stamp.combine_assoc (a b c : Stamp) :
    (a.combine b).combine c = a.combine (b.combine c) := by
  simp only [combine, Option.or_assoc]

theorem Stamp.combine_self (a : Stamp) : a.combine a = a := by
  simp only [combine, Option.or_self]

theorem Stamp.band : Table.Band combine fun _ => True where
  closed := fun _ _ => trivial
  assoc := fun {a b c} _ _ _ => combine_assoc a b c
  idem := fun {a} _ => combine_self a

theorem DigestData.band : Table.Band combine fun _ => True where
  closed := fun _ _ => trivial
  assoc := fun _ _ _ => by simp only [combine, Option.or_assoc, Stamp.combine_assoc]
  idem := fun {a} _ => by simp only [combine, Option.or_self, Stamp.combine_self]

theorem CallableData.band : Table.Band combine fun _ => True where
  closed := fun _ _ => trivial
  assoc := fun _ _ _ => by simp only [combine, Stamp.combine_assoc]
  idem := fun {a} _ => by simp only [combine, Stamp.combine_self]

/-! ## Entries -/

def NewPackage.entry (p : NewPackage) : PackageKey × PackageData :=
  (⟨p.name, p.forge⟩, ⟨p.projectName, p.repository, Database.timeText p.createdAt⟩)

def NewVersion.entry (v : NewVersion) : VersionKey × Stamp :=
  (⟨v.package, v.generator, v.version⟩, Database.stamp v.createdAt v.metadata)

def NewDependency.row (d : NewDependency) : DependencyRow :=
  ⟨d.version, d.package, Database.rangesText d.ranges⟩

def NewModule.entry (m : NewModule) : ModuleKey × DigestData :=
  (⟨m.version, m.namespace⟩, ⟨m.digest.map .own, Database.stamp m.createdAt m.metadata⟩)

def NewFile.entry (f : NewFile) : FileKey × DigestData :=
  (⟨f.version, f.path⟩, ⟨f.digest.map .own, Database.stamp f.createdAt f.metadata⟩)

def NewCallable.entry (c : NewCallable) : CallableKey × CallableData :=
  (c.key, Database.callableData c)

namespace Database

variable {db db' : Database}

/-! ## Statements of one row -/

theorem upsertPackage_ok_iff {p : NewPackage} {id : RowId} :
    upsertPackage p db = .ok (id, db') ↔
      (db.packages.upsert PackageData.combine p.entry.1 p.entry.2).1 = id ∧
      { db with packages := (db.packages.upsert PackageData.combine p.entry.1 p.entry.2).2 }
        = db' := by
  simp [upsertPackage, NewPackage.entry]

theorem upsertVersion_ok_iff {v : NewVersion} {id : RowId} :
    upsertVersion v db = .ok (id, db') ↔
      (v.entry.1 ∈ db.versions.keys ∨ db.packages.hasId v.package = true) ∧
      (db.versions.upsert Stamp.combine v.entry.1 v.entry.2).1 = id ∧
      { db with versions := (db.versions.upsert Stamp.combine v.entry.1 v.entry.2).2 } = db' := by
  rw [← Table.hasKey_iff, ← Bool.or_eq_true]
  simp only [upsertVersion, NewVersion.entry]
  split <;> simp_all

theorem upsertModule_ok_iff {m : NewModule} {id : RowId} :
    upsertModule m db = .ok (id, db') ↔
      (m.entry.1 ∈ db.modules.keys ∨ db.versions.hasId m.version = true) ∧
      (db.modules.upsert DigestData.combine m.entry.1 m.entry.2).1 = id ∧
      { db with modules := (db.modules.upsert DigestData.combine m.entry.1 m.entry.2).2 }
        = db' := by
  rw [← Table.hasKey_iff, ← Bool.or_eq_true]
  simp only [upsertModule, NewModule.entry]
  split <;> simp_all

theorem upsertFile_ok_iff {f : NewFile} {id : RowId} :
    upsertFile f db = .ok (id, db') ↔
      (f.entry.1 ∈ db.files.keys ∨ db.versions.hasId f.version = true) ∧
      (db.files.upsert DigestData.combine f.entry.1 f.entry.2).1 = id ∧
      { db with files := (db.files.upsert DigestData.combine f.entry.1 f.entry.2).2 } = db' := by
  rw [← Table.hasKey_iff, ← Bool.or_eq_true]
  simp only [upsertFile, NewFile.entry]
  split <;> simp_all

theorem upsertCallable_ok_iff {c : NewCallable} {id : RowId} :
    upsertCallable c db = .ok (id, db') ↔
      (c.key ∈ db.callables.keys ∨ db.modules.hasId? c.module = true) ∧
      (db.callables.upsert CallableData.combine c.entry.1 c.entry.2).1 = id ∧
      { db with callables := (db.callables.upsert CallableData.combine c.entry.1 c.entry.2).2 }
        = db' := by
  rw [← Table.hasKey_iff, ← Bool.or_eq_true]
  simp only [upsertCallable, NewCallable.entry]
  split <;> simp_all

theorem insertDependency_ok_iff {d : NewDependency} {isNew : Bool} :
    insertDependency d db = .ok (isNew, db') ↔
      (d.row ∈ db.dependencies ∧ isNew = false ∧ db = db') ∨
      (d.row ∉ db.dependencies ∧ isNew = true ∧
        (db.versions.hasId d.version = true ∧ db.packages.hasId d.package = true) ∧
        { db with dependencies := db.dependencies ++ [d.row] } = db') := by
  rw [← Bool.and_eq_true, eq_comm (a := isNew), eq_comm (a := isNew)]
  simp only [insertDependency, NewDependency.row]
  split
  · simp_all
  · split <;> simp_all

theorem linkFile_ok_iff {link : Link} {u : Unit} :
    linkFile link db = .ok (u, db') ↔
      (link ∈ db.links ∧ db = db') ∨
      (link ∉ db.links ∧
        (db.modules.hasId link.module = true ∧ db.files.hasId link.file = true) ∧
        { db with links := db.links ++ [link] } = db') := by
  rw [← Bool.and_eq_true]
  simp only [linkFile]
  split
  · simp_all
  · split <;> simp_all

/-! ## Statements of many rows -/

theorem idOf?_of_upsertCallable {c : NewCallable} {id : RowId}
    (h : upsertCallable c db = .ok (id, db')) : db'.callables.idOf? c.key = some id := by
  obtain ⟨-, rfl, rfl⟩ := upsertCallable_ok_iff.mp h
  exact Table.idOf?_upsert_self

theorem idOf?_upsertCallable {c : NewCallable} {id other : RowId} {key : CallableKey}
    (h : upsertCallable c db = .ok (id, db')) (hother : db.callables.idOf? key = some other) :
    db'.callables.idOf? key = some other := by
  obtain ⟨-, -, rfl⟩ := upsertCallable_ok_iff.mp h
  exact Table.idOf?_upsert hother

theorem putCallables_cons_ok_iff {c : NewCallable} {rest : List NewCallable}
    {returned : List (CallableKey × RowId)} :
    putCallables (c :: rest) db = .ok (returned, db') ↔
      ∃ id db₁, upsertCallable c db = .ok (id, db₁) ∧
        ∃ later, putCallables rest db₁ = .ok (later, db') ∧ (c.key, id) :: later = returned := by
  simp only [putCallables, bind_ok_iff, Prod.exists]
  simp [pure, Except.pure]

theorem idOf?_putCallables {cs : List NewCallable} {returned : List (CallableKey × RowId)}
    {key : CallableKey} {id : RowId} (h : putCallables cs db = .ok (returned, db'))
    (hid : db.callables.idOf? key = some id) : db'.callables.idOf? key = some id := by
  induction cs generalizing db returned with
  | nil =>
    obtain ⟨-, rfl⟩ := Prod.mk.inj (Except.ok.inj h)
    exact hid
  | cons c rest ih =>
    obtain ⟨_, db₁, hc, later, hrest, -⟩ := putCallables_cons_ok_iff.mp h
    exact ih hrest (idOf?_upsertCallable hc hid)

theorem keys_putCallables {cs : List NewCallable} {returned : List (CallableKey × RowId)}
    (h : putCallables cs db = .ok (returned, db')) :
    returned.map Prod.fst = cs.map NewCallable.key := by
  induction cs generalizing db returned with
  | nil =>
    obtain ⟨rfl, -⟩ := Prod.mk.inj (Except.ok.inj h)
    rfl
  | cons c rest ih =>
    obtain ⟨id, db₁, -, later, hrest, rfl⟩ := putCallables_cons_ok_iff.mp h
    rw [List.map_cons, List.map_cons, ih hrest]

/-- An id that is returned with a key is the one the key has in the end. -/
theorem idOf?_of_mem_putCallables {cs : List NewCallable} {returned : List (CallableKey × RowId)}
    {p : CallableKey × RowId} (h : putCallables cs db = .ok (returned, db')) (hp : p ∈ returned) :
    db'.callables.idOf? p.1 = some p.2 := by
  induction cs generalizing db returned with
  | nil =>
    obtain ⟨rfl, -⟩ := Prod.mk.inj (Except.ok.inj h)
    cases hp
  | cons c rest ih =>
    obtain ⟨id, db₁, hc, later, hrest, rfl⟩ := putCallables_cons_ok_iff.mp h
    rcases List.mem_cons.mp hp with rfl | hp
    · exact idOf?_putCallables hrest (idOf?_of_upsertCallable hc)
    · exact ih hrest hp

theorem mapM_returnedId {cs : List NewCallable} {returned : List (CallableKey × RowId)}
    {found : Assoc CallableKey RowId} (hkeys : returned.map Prod.fst = cs.map NewCallable.key)
    (h : ∀ p ∈ returned, found.get? p.1 = some p.2) :
    cs.mapM (returnedId found) = .ok (returned.map Prod.snd) := by
  induction cs generalizing returned with
  | nil => rw [List.map_eq_nil_iff.mp hkeys]; rfl
  | cons c rest ih =>
    obtain ⟨p, later, rfl, hp, hlater⟩ := List.map_eq_cons_iff.mp hkeys
    obtain ⟨hhead, htail⟩ := List.forall_mem_cons.mp h
    refine mapM_cons_ok_iff.mpr ⟨p.2, ?_, _, ih hlater htail, rfl⟩
    rw [returnedId, ← hp, hhead]

/-- In whatever order the engine returns the ids, each row gets the one it was written with. -/
theorem mapM_returnedId_of_perm {cs : List NewCallable}
    {returned answered : List (CallableKey × RowId)}
    (h : putCallables cs db = .ok (returned, db')) (hp : answered.Perm returned) :
    cs.mapM (returnedId (.ofList answered)) = .ok (returned.map Prod.snd) := by
  refine mapM_returnedId (keys_putCallables h) fun p hmem => ?_
  refine Assoc.get?_ofList (hp.mem_iff.mpr hmem) fun id hid => ?_
  have hother := idOf?_of_mem_putCallables h (hp.mem_iff.mp hid)
  exact Option.some.inj (hother.symm.trans (idOf?_of_mem_putCallables h hmem))

/-- Finding the ids again cannot fail. -/
theorem upsertCallables_eq (cs : List NewCallable) (db : Database) :
    upsertCallables cs db
      = (putCallables cs db).map fun answer => (answer.1.map Prod.snd, answer.2) := by
  cases h : putCallables cs db with
  | error e => simp [upsertCallables, h, bind, Except.bind, Except.map]
  | ok answer =>
    have hids := mapM_returnedId_of_perm h (.refl _)
    simp [upsertCallables, h, hids, bind, Except.bind, Except.map, pure, Except.pure]

theorem upsertCallables_ok_iff {cs : List NewCallable} {ids : List RowId} :
    upsertCallables cs db = .ok (ids, db') ↔
      ∃ returned, putCallables cs db = .ok (returned, db') ∧ returned.map Prod.snd = ids := by
  rw [upsertCallables_eq]
  rcases putCallables cs db with e | ⟨returned, db₁⟩ <;> simp [Except.map, and_comm]

theorem upsertCallables_cons_ok_iff {c : NewCallable} {rest : List NewCallable} {ids : List RowId} :
    upsertCallables (c :: rest) db = .ok (ids, db') ↔
      ∃ id db₁, upsertCallable c db = .ok (id, db₁) ∧
        ∃ later, upsertCallables rest db₁ = .ok (later, db') ∧ id :: later = ids := by
  simp only [upsertCallables_ok_iff, putCallables_cons_ok_iff]
  constructor
  · rintro ⟨_, ⟨id, db₁, hc, later, hlater, rfl⟩, rfl⟩
    exact ⟨id, db₁, hc, _, ⟨later, hlater, rfl⟩, rfl⟩
  · rintro ⟨id, db₁, hc, _, ⟨later, hlater, rfl⟩, rfl⟩
    exact ⟨_, ⟨id, db₁, hc, later, hlater, rfl⟩, rfl⟩

theorem edgeMayStand_iff {e : NewEdge} :
    db.edgeMayStand e = true ↔ e.ends ∈ db.edges.map EdgeRow.ends ∨
      (db.callables.hasId e.source = true ∧ db.callables.hasId e.target = true) := by
  rw [edgeMayStand, Bool.or_eq_true, Bool.and_eq_true]
  refine or_congr_left ?_
  simp [edgeRow?, EdgeRow.ends, NewEdge.ends]

theorem upsertEdges_ok_iff {new : List NewEdge} {n : Nat} :
    upsertEdges new db = .ok (n, db') ↔
      ∃ edges, putEdges db.edges new = .ok edges ∧ (∀ e ∈ new, db.edgeMayStand e = true) ∧
        new.length = n ∧ { db with edges } = db' := by
  rw [← List.all_eq_true]
  simp only [upsertEdges, bind_ok_iff]
  refine exists_congr fun edges => and_congr_right fun _ => ?_
  split <;> rename_i hall <;> simp [hall, pure, Except.pure, throw, throwThe, MonadExceptOf.throw]

end Database

end CallArchive.Store
