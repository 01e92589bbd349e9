import CallArchive.Proofs.Store.Actions
import CallArchive.Proofs.Store.Naming
import CallArchive.Proofs.Store.Perform
import CallArchive.Proofs.Store.Statements
import Mathlib.Data.List.Induction

/-!
# What columns hold after any upserts

Upserts may leave fields unset. `Upserted` says which upserts have been made in a row of successful
calls, in batches or one by one; what they are for the tables is `Table.upsertAll` of all entries in
order (`Upserted.puts`). So a row has in each column the value of the last upsert of its key that
set it (`lastSet`), else what it had before, and rows of other keys are not touched
(`upserted_settled`).
-/

namespace CallArchive.Store

open Time (Instant)

/-! ## Fields that may be unset -/

section Fields

variable {α β δ κ : Type}

/-- The last value of a field among those that set it. -/
def lastSet (field : α → Option β) (xs : List α) : Option β := (xs.filterMap field).getLast?

@[simp] theorem lastSet_singleton (field : α → Option β) (x : α) : lastSet field [x] = field x := by
  cases h : field x <;> simp [lastSet, h]

@[simp] theorem lastSet_concat (field : α → Option β) (xs : List α) (y : α) :
    lastSet field (xs ++ [y]) = (field y).or (lastSet field xs) := by
  cases h : field y <;> simp [lastSet, List.filterMap_append, h]

/-- The columns that several values give to a row, in the way in which one value is combined with
the data of the row. -/
structure Fills (data : α → δ) (combine : δ → δ → δ) (columns : Option δ → List α → δ) : Prop where
  first : ∀ old x, columns old [x] = Table.take combine old (data x)
  next : ∀ old x xs y, columns old (x :: xs ++ [y]) = combine (columns old (x :: xs)) (data y)

theorem Fills.foldl {data : α → δ} {combine : δ → δ → δ} {columns : Option δ → List α → δ}
    (h : Fills data combine columns) (old : Option δ) {xs : List α} (hne : xs ≠ []) :
    (xs.map data).foldl (fun o x => some (Table.take combine o x)) old
      = some (columns old xs) := by
  induction xs using List.reverseRecOn with
  | nil => exact absurd rfl hne
  | append_singleton xs y ih =>
    rw [List.map_append, List.foldl_append]
    cases xs with
    | nil => exact congrArg some (h.first old y).symm
    | cons x xs =>
      rw [ih (List.cons_ne_nil x xs), h.next]
      rfl

/-! ## What the row of a key becomes -/

variable [DecidableEq κ]

/-- What is given for a key. -/
def given (entry : α → κ × δ) (xs : List α) (key : κ) : List α :=
  xs.filter fun x => (entry x).1 = key

/-- The row of a key is untouched if nothing was given for it. Else there is one, the same as before
if there was one, with the columns that were given. -/
structure Became (columns : Option δ → List α → δ) (key : κ) (xs : List α)
    (before after : Option (Row κ δ)) : Prop where
  untouched : xs = [] → after = before
  written : xs ≠ [] → ∃ r, after = some r ∧ r.key = key ∧
    r.data = columns (before.map Row.data) xs ∧ ∀ old, before = some old → r.id = old.id

theorem gathered_map (entry : α → κ × δ) (xs : List α) (key : κ) :
    Table.gathered (xs.map entry) key = (given entry xs key).map fun x => (entry x).2 := by
  rw [Table.gathered, given, List.filter_map, List.map_map]
  rfl

theorem Table.data?_upsertAll_map (combine : δ → δ → δ) (t : Table κ δ) (entry : α → κ × δ)
    (xs : List α) (key : κ) :
    (t.upsertAll combine (xs.map entry)).data? key = ((given entry xs key).map fun x =>
      (entry x).2).foldl (fun o x => some (take combine o x)) (t.data? key) := by
  rw [data?_upsertAll, putAll_apply, gathered_map]

theorem Fills.became {combine : δ → δ → δ} {columns : Option δ → List α → δ} (entry : α → κ × δ)
    (h : Fills (fun x => (entry x).2) combine columns) (t : Table κ δ) (xs : List α) (key : κ) :
    Became columns key (given entry xs key) (t.find? key)
      ((t.upsertAll combine (xs.map entry)).find? key) := by
  have hdata := Table.data?_upsertAll_map combine t entry xs key
  constructor
  · intro hnil
    rw [hnil, List.map_nil, List.foldl_nil] at hdata
    cases hold : t.find? key with
    | none =>
      rw [Table.data?, Table.data?, hold, Option.map_none] at hdata
      exact Option.map_eq_none_iff.mp hdata
    | some r =>
      obtain ⟨hkey, hid, hcolumns⟩ := Table.find?_eq_some_iff.mp hold
      exact Table.find?_eq_some_iff.mpr ⟨hkey, Table.idOf?_upsertAll hid, hdata.trans hcolumns⟩
  · intro hne
    rw [h.foldl _ hne] at hdata
    obtain ⟨r, hr, hcolumns⟩ := Option.map_eq_some_iff.mp hdata
    refine ⟨r, hr, (Table.find?_some_key hr).2, hcolumns, fun old hold => ?_⟩
    have hid : (t.upsertAll combine (xs.map entry)).idOf? key = some old.id :=
      Table.idOf?_upsertAll (congrArg (Option.map Row.id) hold)
    rw [Table.idOf?, hr] at hid
    exact Option.some.inj hid

end Fields

/-! ## The columns of each kind of row -/

section Columns

variable {α : Type}

def packageColumns (old : Option PackageData) (ps : List NewPackage) : PackageData where
  projectName := (lastSet (·.projectName) ps).or (old.bind (·.projectName))
  repository := (lastSet (·.repository) ps).or (old.bind (·.repository))
  createdAt := (Database.timeText (lastSet (·.createdAt) ps)).or (old.bind (·.createdAt))

def stampColumns (createdAt : α → Option Instant) (metadata : α → Option Json.Members)
    (old : Option Stamp) (xs : List α) : Stamp where
  createdAt := (Database.timeText (lastSet createdAt xs)).or (old.bind (·.createdAt))
  metadata := ((lastSet metadata xs).map Database.documentText).or (old.bind (·.metadata))

def digestColumns (digest : α → Option Bytes) (createdAt : α → Option Instant)
    (metadata : α → Option Json.Members) (old : Option DigestData) (xs : List α) : DigestData where
  digest := ((lastSet digest xs).map .own).or (old.bind (·.digest))
  stamp := stampColumns createdAt metadata (old.map (·.stamp)) xs

/-- The module is the first one that was given, be it none. -/
def callableColumns (old : Option CallableData) (cs : List NewCallable) : CallableData where
  module := old.elim (cs.head?.bind (·.module)) (·.module)
  stamp := stampColumns (·.createdAt) (·.metadata) (old.map (·.stamp)) cs

def versionColumns : Option Stamp → List NewVersion → Stamp :=
  stampColumns (·.createdAt) (·.metadata)

def moduleColumns : Option DigestData → List NewModule → DigestData :=
  digestColumns (·.digest) (·.createdAt) (·.metadata)

def fileColumns : Option DigestData → List NewFile → DigestData :=
  digestColumns (·.digest) (·.createdAt) (·.metadata)

theorem fills_package : Fills (fun p : NewPackage => p.entry.2) PackageData.combine
    packageColumns where
  first old p := by
    cases old <;> simp [packageColumns, Table.take, PackageData.combine, NewPackage.entry]
  next old p ps q := by
    simp only [packageColumns, PackageData.combine, NewPackage.entry, lastSet_concat,
      Database.timeText, Option.map_or, Option.or_assoc]

theorem fills_stamp (createdAt : α → Option Instant) (metadata : α → Option Json.Members) :
    Fills (fun x => Database.stamp (createdAt x) (metadata x)) Stamp.combine
      (stampColumns createdAt metadata) where
  first old x := by
    cases old <;> simp [stampColumns, Table.take, Stamp.combine, Database.stamp]
  next old x xs y := by
    simp only [stampColumns, Stamp.combine, Database.stamp, lastSet_concat, Database.timeText,
      Option.map_or, Option.or_assoc]

theorem fills_digest (digest : α → Option Bytes) (createdAt : α → Option Instant)
    (metadata : α → Option Json.Members) :
    Fills (fun x => ⟨(digest x).map .own, Database.stamp (createdAt x) (metadata x)⟩)
      DigestData.combine (digestColumns digest createdAt metadata) where
  first old x := by
    have hstamp := (fills_stamp createdAt metadata).first (old.map (·.stamp)) x
    rw [digestColumns, hstamp]
    cases old <;> simp [Table.take, DigestData.combine]
  next old x xs y := by
    have hstamp := (fills_stamp createdAt metadata).next (old.map (·.stamp)) x xs y
    simp only [digestColumns, hstamp, DigestData.combine, lastSet_concat, Option.map_or,
      Option.or_assoc]

theorem fills_callable : Fills (fun c : NewCallable => c.entry.2) CallableData.combine
    callableColumns where
  first old c := by
    have hstamp := (fills_stamp NewCallable.createdAt (·.metadata)).first (old.map (·.stamp)) c
    rw [callableColumns, hstamp]
    cases old <;> rfl
  next old c cs d := by
    have hstamp := (fills_stamp NewCallable.createdAt (·.metadata)).next (old.map (·.stamp)) c cs d
    rw [callableColumns, hstamp]
    rfl

end Columns

/-! ## One upsert -/

inductive Upsert where
  | package (p : NewPackage)
  | version (v : NewVersion)
  | module (m : NewModule)
  | file (f : NewFile)
  | callable (c : NewCallable)
  | callables (cs : List NewCallable)

namespace Upsert

def action : Upsert → Action Unit
  | package p => discard (upsertPackage p)
  | version v => discard (upsertVersion v)
  | module m => discard (upsertModule m)
  | file f => discard (upsertFile f)
  | callable c => discard (upsertCallable c)
  | callables cs => discard (upsertCallables cs)

/-! What an upsert gives for each table. -/

def packages : Upsert → List NewPackage
  | package p => [p]
  | _ => []

def versions : Upsert → List NewVersion
  | version v => [v]
  | _ => []

def modules : Upsert → List NewModule
  | module m => [m]
  | _ => []

def files : Upsert → List NewFile
  | file f => [f]
  | _ => []

def newCallables : Upsert → List NewCallable
  | callable c => [c]
  | callables cs => cs
  | _ => []

end Upsert

/-- The tables have taken in what the upserts give, in order. -/
structure Puts (us : List Upsert) (before after : Database) : Prop where
  packages : after.packages = before.packages.upsertAll PackageData.combine
    ((us.flatMap Upsert.packages).map NewPackage.entry)
  versions : after.versions = before.versions.upsertAll Stamp.combine
    ((us.flatMap Upsert.versions).map NewVersion.entry)
  modules : after.modules = before.modules.upsertAll DigestData.combine
    ((us.flatMap Upsert.modules).map NewModule.entry)
  files : after.files = before.files.upsertAll DigestData.combine
    ((us.flatMap Upsert.files).map NewFile.entry)
  callables : after.callables = before.callables.upsertAll CallableData.combine
    ((us.flatMap Upsert.newCallables).map NewCallable.entry)

namespace Puts

variable {us vs : List Upsert} {db db' db'' : Database}

theorem refl (db : Database) : Puts [] db db := ⟨rfl, rfl, rfl, rfl, rfl⟩

theorem trans (h : Puts us db db') (h' : Puts vs db' db'') : Puts (us ++ vs) db db'' := by
  constructor <;> rw [List.flatMap_append, List.map_append, Table.upsertAll_append]
  · rw [← h.packages, h'.packages]
  · rw [← h.versions, h'.versions]
  · rw [← h.modules, h'.modules]
  · rw [← h.files, h'.files]
  · rw [← h.callables, h'.callables]

end Puts

theorem Database.putCallables_eq {cs : List NewCallable} {db db' : Database}
    {returned : List (CallableKey × RowId)} (h : putCallables cs db = .ok (returned, db')) :
    db' = { db with
      callables := db.callables.upsertAll CallableData.combine (cs.map NewCallable.entry) } := by
  induction cs generalizing db returned with
  | nil =>
    obtain ⟨-, rfl⟩ := Prod.mk.inj (Except.ok.inj h)
    rfl
  | cons c cs ih =>
    obtain ⟨_, between, hc, later, hrest, -⟩ := putCallables_cons_ok_iff.mp h
    obtain ⟨-, -, rfl⟩ := upsertCallable_ok_iff.mp hc
    exact ih hrest

/-- An upsert that succeeds puts its rows into its table and leaves the others alone. -/
theorem Upsert.puts {u : Upsert} {s s' : Store}
    (h : (u.action.run s : Except Error Unit × Store) = (.ok (), s')) :
    Puts [u] s.view s'.view := by
  cases u with
  | package p =>
    obtain ⟨id, hrun⟩ := run_of_discard h
    obtain ⟨-, heq⟩ := Database.upsertPackage_ok_iff.mp (statement_of_run_write hrun)
    rw [← heq]
    exact ⟨rfl, rfl, rfl, rfl, rfl⟩
  | version v =>
    obtain ⟨id, hrun⟩ := run_of_discard h
    obtain ⟨-, -, heq⟩ := Database.upsertVersion_ok_iff.mp (statement_of_run_write hrun)
    rw [← heq]
    exact ⟨rfl, rfl, rfl, rfl, rfl⟩
  | module m =>
    obtain ⟨id, hrun⟩ := run_of_discard h
    obtain ⟨-, -, heq⟩ := Database.upsertModule_ok_iff.mp (statement_of_run_write hrun)
    rw [← heq]
    exact ⟨rfl, rfl, rfl, rfl, rfl⟩
  | file f =>
    obtain ⟨id, hrun⟩ := run_of_discard h
    obtain ⟨-, -, heq⟩ := Database.upsertFile_ok_iff.mp (statement_of_run_write hrun)
    rw [← heq]
    exact ⟨rfl, rfl, rfl, rfl, rfl⟩
  | callable c =>
    obtain ⟨id, hrun⟩ := run_of_discard h
    obtain ⟨-, -, heq⟩ := Database.upsertCallable_ok_iff.mp (statement_of_run_write hrun)
    rw [← heq]
    exact ⟨rfl, rfl, rfl, rfl, rfl⟩
  | callables cs =>
    obtain ⟨ids, hrun⟩ := run_of_discard h
    obtain ⟨returned, hput, -⟩ := Database.upsertCallables_ok_iff.mp
      (statement_of_run_writeMany (fun _ => rfl) hrun)
    rw [Database.putCallables_eq hput]
    exact ⟨rfl, rfl, rfl, rfl, by rw [List.flatMap_singleton]; rfl⟩

/-! ## Any upserts -/

/-- The tables that are upserted into are the same. -/
structure SameRows (db db' : Database) : Prop where
  packages : db'.packages = db.packages
  versions : db'.versions = db.versions
  modules : db'.modules = db.modules
  files : db'.files = db.files
  callables : db'.callables = db.callables

theorem SameRows.puts {db db' : Database} (h : SameRows db db') : Puts [] db db' :=
  ⟨h.packages, h.versions, h.modules, h.files, h.callables⟩

/-- Upserts that have been made in a row of successful calls. In between anything may happen that
leaves their tables alone. -/
inductive Upserted (start : Store) : List Upsert → Store → Prop where
  | nothing : Upserted start [] start
  | one {us : List Upsert} {u : Upsert} {s s' : Store} : Upserted start us s →
      (u.action.run s : Except Error Unit × Store) = (.ok (), s') → Upserted start (us ++ [u]) s'
  | other {us : List Upsert} {s s' : Store} : Upserted start us s → SameRows s.view s'.view →
      Upserted start us s'

theorem Upserted.puts {start s : Store} {us : List Upsert} (h : Upserted start us s) :
    Puts us start.view s.view := by
  induction h with
  | nothing => exact .refl _
  | one _ hrun ih => exact ih.trans (Upsert.puts hrun)
  | @other us _ _ _ hsame ih =>
    have hboth := ih.trans hsame.puts
    rwa [List.append_nil] at hboth

theorem Upserted.forM {start s s' : Store} {us vs : List Upsert} (h : Upserted start us s)
    (hrun : ((vs.forM Upsert.action).run s : Except Error PUnit × Store) = (.ok ⟨⟩, s')) :
    Upserted start (us ++ vs) s' := by
  induction vs generalizing us s with
  | nil =>
    obtain ⟨-, rfl⟩ := Prod.mk.inj hrun
    rwa [List.append_nil]
  | cons v vs ih =>
    obtain ⟨_, between, hfirst, hrest⟩ := run_bind_ok hrun
    rw [List.append_cons]
    exact ih (h.one hfirst) hrest

/-- What has become of all rows. -/
structure Settled (us : List Upsert) (before after : Database) : Prop where
  packages : ∀ key, Became packageColumns key
    (given NewPackage.entry (us.flatMap Upsert.packages) key)
    (before.packages.find? key) (after.packages.find? key)
  versions : ∀ key, Became versionColumns key
    (given NewVersion.entry (us.flatMap Upsert.versions) key)
    (before.versions.find? key) (after.versions.find? key)
  modules : ∀ key, Became moduleColumns key
    (given NewModule.entry (us.flatMap Upsert.modules) key)
    (before.modules.find? key) (after.modules.find? key)
  files : ∀ key, Became fileColumns key
    (given NewFile.entry (us.flatMap Upsert.files) key)
    (before.files.find? key) (after.files.find? key)
  callables : ∀ key, Became callableColumns key
    (given NewCallable.entry (us.flatMap Upsert.newCallables) key)
    (before.callables.find? key) (after.callables.find? key)

/-- Whatever is upserted, every column of every row has the last value that was set for it, and a
callable keeps its first module. -/
theorem upserted_settled {start s : Store} {us : List Upsert} (h : Upserted start us s) :
    Settled us start.view s.view := by
  have hputs := h.puts
  constructor <;> intro key
  · rw [hputs.packages]
    exact fills_package.became NewPackage.entry _ _ key
  · rw [hputs.versions]
    exact (fills_stamp _ _).became NewVersion.entry _ _ key
  · rw [hputs.modules]
    exact (fills_digest _ _ _).became NewModule.entry _ _ key
  · rw [hputs.files]
    exact (fills_digest _ _ _).became NewFile.entry _ _ key
  · rw [hputs.callables]
    exact fills_callable.became NewCallable.entry _ _ key

/-- Upserts of which each leaves something unset, with two of one key in a batch. -/
def partialUpserts : List Upsert :=
  [.package ⟨"p", "m", none, some "r", some ⟨1, 0⟩⟩, .package ⟨"q", "m", some "Q", none, none⟩,
    .package ⟨"p", "m", some "P", none, some ⟨2, 0⟩⟩, .version ⟨1, "g", "1", none, some []⟩,
    .module ⟨1, "n", some [7], none, none⟩, .module ⟨1, "n", none, some ⟨1, 0⟩, none⟩,
    .callables [⟨none, "a", true, some ⟨1, 0⟩, none⟩, ⟨some 1, "b", true, none, none⟩,
      ⟨some 1, "a", true, none, some []⟩]]

theorem upserted_settled_partial : ∃ s, Upserted (.inMemory .never) partialUpserts s ∧
    (∃ r, s.view.packages.find? ⟨"p", "m"⟩ = some r ∧
      r.data = ⟨some "P", some "r", some "1970-01-01T00:00:02+00:00"⟩) ∧
    (∃ r, s.view.modules.find? ⟨1, "n"⟩ = some r ∧
      r.data = ⟨some (.own [7]), ⟨some "1970-01-01T00:00:01+00:00", none⟩⟩) ∧
    (∃ r, s.view.callables.find? (.of "a" true) = some r ∧
      r.data = ⟨none, ⟨some "1970-01-01T00:00:01+00:00", some "\x7b\x7d"⟩⟩) ∧
    s.view.files.find? ⟨1, "f"⟩ = none := by
  have hok : ((partialUpserts.forM Upsert.action).run (.inMemory .never)
      : Except Error PUnit × Store).1.toOption = some ⟨⟩ := by decide +kernel
  have hrun := Upserted.nothing.forM (run_eq_ok hok)
  have hsettled := upserted_settled hrun
  obtain ⟨p, hp, -, hpackage, -⟩ := (hsettled.packages ⟨"p", "m"⟩).written (by decide)
  obtain ⟨m, hm, -, hmodule, -⟩ := (hsettled.modules ⟨1, "n"⟩).written (by decide)
  obtain ⟨c, hc, -, hcallable, -⟩ := (hsettled.callables (.of "a" true)).written (by decide)
  have hfile := (hsettled.files ⟨1, "f"⟩).untouched (by decide)
  refine ⟨_, hrun, ⟨p, hp, hpackage.trans ?_⟩, ⟨m, hm, hmodule.trans ?_⟩,
    ⟨c, hc, hcallable.trans ?_⟩, hfile⟩ <;> decide +kernel

end CallArchive.Store
