import CallArchive.Ingest.Ingestion
import CallArchive.Proofs.Except
import CallArchive.Store.Schema

/-!
# Parameters of statements

A statement that writes rows binds one parameter for each column of each row, and the engine takes
only so many in one statement. `Binds limit a` says that an action is put together from statements
that keep to a limit. Writing a record does if a full batch of callables does (`binds_writeRecord`).
-/

namespace CallArchive

namespace Store

/-- The most parameters that the engine takes in one statement. -/
def parameterLimit : Nat := 32766

/-- The columns of a table that a write gives values to: all but the id, which the engine gives. -/
def writtenColumns (table : String) : Nat :=
  match schema.find? fun t => t.name == table with
  | some t => (t.columns.filter fun c => c.name != Column.id.name).length
  | none => 0

theorem writtenColumns_le (table : String) : writtenColumns table ≤ 5 := by
  have hall : ∀ t ∈ schema, (t.columns.filter fun c => c.name != Column.id.name).length ≤ 5 := by
    decide
  unfold writtenColumns
  split
  · next t ht => exact hall t (List.mem_of_find?_eq_some ht)
  · exact Nat.zero_le 5

/-- Each write is one statement, which takes a number of parameters. -/
inductive Takes : (parameters : Nat) → {α : Type} → Action α → Prop where
  | package (p : NewPackage) : Takes (writtenColumns "packages") (upsertPackage p)
  | version (v : NewVersion) : Takes (writtenColumns "package_versions") (upsertVersion v)
  | dependency (d : NewDependency) : Takes (writtenColumns "dependencies") (insertDependency d)
  | module (m : NewModule) : Takes (writtenColumns "modules") (upsertModule m)
  | file (f : NewFile) : Takes (writtenColumns "files") (upsertFile f)
  | link (l : Link) : Takes (writtenColumns "module_contents") (linkFile l)
  | callable (c : NewCallable) : Takes (writtenColumns "callables") (upsertCallable c)
  | callables (cs : List NewCallable) :
      Takes (cs.length * writtenColumns "callables") (upsertCallables cs)
  | edges (es : List NewEdge) : Takes (es.length * writtenColumns "edges") (upsertEdges es)

inductive Binds (limit : Nat) : {α : Type} → Action α → Prop where
  | pure {α : Type} (x : α) : Binds limit (pure x)
  | bind {α β : Type} {a : Action α} {b : α → Action β} :
      Binds limit a → (∀ x, Binds limit (b x)) → Binds limit (a >>= b)
  | statement {α : Type} {n : Nat} {a : Action α} (h : Takes n a) (hn : n ≤ limit) :
      Binds limit a
  | throw {α : Type} (e : Error) : Binds limit (throw e : Action α)

namespace Binds

variable {limit : Nat} {α β γ : Type}

theorem mapM {a : γ → Action α} (h : ∀ x, Binds limit (a x)) (xs : List γ) :
    Binds limit (xs.mapM a) := by
  induction xs with
  | nil => exact .pure []
  | cons x xs ih =>
    rw [List.mapM_cons]
    exact (h x).bind fun y => ih.bind fun ys => .pure (y :: ys)

theorem forIn {a : γ → Action PUnit} (h : ∀ x, Binds limit (a x)) (xs : List γ) :
    Binds limit (forIn xs PUnit.unit fun x _ => do a x; return .yield PUnit.unit) := by
  induction xs with
  | nil => exact .pure _
  | cons x xs ih =>
    rw [List.forIn_cons, bind_assoc]
    exact (h x).bind fun _ => ih

theorem foldlM {a : β → γ → Action β} {xs : List γ} (h : ∀ x ∈ xs, ∀ y, Binds limit (a y x))
    (y : β) : Binds limit (xs.foldlM a y) := by
  induction xs generalizing y with
  | nil => exact .pure y
  | cons x xs ih =>
    obtain ⟨hx, hxs⟩ := List.forall_mem_cons.mp h
    rw [List.foldlM_cons]
    exact (hx y).bind fun z => ih hxs z

end Binds

end Store

namespace Ingest

open Store (RowId Action Binds Takes writtenColumns)
open Time (Instant)

/-! ## Batches -/

theorem length_le_of_mem_chunks {α : Type} {size : Nat} {xs chunk : List α}
    (h : chunk ∈ chunks size xs) : chunk.length ≤ size := by
  unfold chunks at h
  generalize xs.length = fuel at h
  induction fuel generalizing xs with
  | zero => cases h
  | succ fuel ih =>
    cases xs with
    | nil => cases h
    | cons x xs =>
      rcases List.mem_cons.mp h with rfl | h
      · exact List.length_take_le ..
      · exact ih h

variable {limit size : Nat}

/-- A row has at most five columns. -/
theorem rows_le {n : Nat} (h : 5 * size ≤ limit) (hn : n ≤ size) (table : String) :
    n * writtenColumns table ≤ limit := by
  calc n * writtenColumns table ≤ size * 5 := Nat.mul_le_mul hn (Store.writtenColumns_le table)
    _ ≤ limit := by omega

theorem binds_statement {α : Type} {a : Action α} {table : String} (hlimit : 5 ≤ limit)
    (h : Takes (writtenColumns table) a) : Binds limit a :=
  .statement h (Nat.le_trans (Store.writtenColumns_le table) hlimit)

theorem binds_writeCallables (h : 5 * size ≤ limit) (pending : List PendingCallable) :
    Binds limit (writeCallables size pending) := by
  apply Binds.foldlM
  intro chunk hchunk ids
  have hlength : (chunk.map (·.callable)).length ≤ size := by
    rw [List.length_map]
    exact length_le_of_mem_chunks hchunk
  exact (Binds.statement (.callables _) (rows_le h hlength _)).bind fun _ => .pure _

theorem binds_writeEdges (h : 5 * size ≤ limit) (ids : IdMap) (pending : List PendingEdge) :
    Binds limit (writeEdges size ids pending) := by
  unfold writeEdges
  refine Binds.bind ?_ fun edges => ?_
  · cases ids.remap pending with
    | ok edges => exact .pure edges
    | error cause => exact .throw cause
  · apply Binds.foldlM
    intro chunk hchunk n
    exact (Binds.statement (.edges _) (rows_le h (length_le_of_mem_chunks hchunk) _)).bind
      fun _ => .pure _

/-! ## Records -/

theorem binds_writeModule (hlimit : 5 ≤ limit) (versionId : RowId) (createdAt : Option Instant)
    (m : ModuleSpec) : Binds limit (writeModule versionId createdAt m) := by
  refine (binds_statement hlimit (.module _)).bind fun moduleId => ?_
  cases m.sourceFile with
  | none => exact (Binds.pure ()).bind fun _ => .pure _
  | some path =>
    refine Binds.bind ?_ fun _ => .pure _
    exact (binds_statement hlimit (.file _)).bind fun _ => binds_statement hlimit (.link _)

theorem binds_resolveExternals (hlimit : 5 ≤ limit) (known : Externals) (arcs : List ExternalArc) :
    Binds limit (resolveExternals known arcs) := by
  induction arcs generalizing known with
  | nil => exact .pure _
  | cons arc rest ih =>
    refine Binds.bind ?_ fun p => (ih p.2).bind fun _ => .pure _
    unfold resolveExternal
    cases known.get? arc.target with
    | some id => exact .pure _
    | none => exact (binds_statement hlimit (.callable _)).bind fun _ => .pure _

theorem binds_writeRecord (hlimit : 5 ≤ limit) (h : 5 * size ≤ limit) (v : Validated) :
    Binds limit (writeRecord size v) := by
  unfold writeRecord
  refine (binds_statement hlimit (.package _)).bind fun packageId => ?_
  refine (binds_statement hlimit (.version _)).bind fun versionId => ?_
  refine (Binds.forIn (fun d => ?_) _).bind fun _ => ?_
  · refine (binds_statement hlimit (.package _)).bind fun _ => ?_
    exact (binds_statement hlimit (.dependency _)).bind fun _ => .pure _
  refine (Binds.mapM (binds_writeModule hlimit versionId _) _).bind fun pending => ?_
  refine (binds_writeCallables h _).bind fun ids => ?_
  refine (binds_resolveExternals hlimit [] _).bind fun externals => ?_
  exact (binds_writeEdges h _ _).bind fun _ => .pure _

end Ingest

end CallArchive
