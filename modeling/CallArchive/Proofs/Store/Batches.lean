import CallArchive.Proofs.Store.Grown
import CallArchive.Proofs.Store.Writing
import CallArchive.Proofs.Store.Statements

/-!
# Rows written at once

A statement of many rows does to a database what the statements of its rows do, one after the other
(`each`): the callables are found again by key whatever repeats among them, and an edge that stands
lets the same edges stand as before. At a store, where each of the rows is a write of its own, one
write of all of them therefore comes to the same if none of the others fails, and else to nothing
(`Batched`).
-/

namespace CallArchive.Store

variable {β γ δ : Type}

/-! ## Databases -/

/-- A statement of one row for each of a list, one after the other. -/
def each (one : β → Statement γ) : List β → Statement (List γ)
  | [], db => .ok ([], db)
  | x :: xs, db => do
    let (y, db) ← one x db
    let (ys, db) ← each one xs db
    return (y :: ys, db)

theorem each_cons_ok_iff {one : β → Statement γ} {x : β} {xs : List β} {ys : List γ}
    {db db' : Database} :
    each one (x :: xs) db = .ok (ys, db') ↔
      ∃ y db₁, one x db = .ok (y, db₁) ∧
        ∃ later, each one xs db₁ = .ok (later, db') ∧ y :: later = ys := by
  simp only [each, bind_ok_iff, Prod.exists]
  simp [pure, Except.pure]

theorem each_cons_error {one : β → Statement γ} {x : β} {xs : List β} {db : Database}
    {e : StoreError} (h : each one (x :: xs) db = .error e) :
    one x db = .error e ∨ ∃ y db₁, one x db = .ok (y, db₁) ∧ each one xs db₁ = .error e := by
  rcases bind_error_iff.mp h with hx | ⟨⟨y, db₁⟩, hx, h⟩
  · exact .inl hx
  · rcases bind_error_iff.mp h with hxs | ⟨_, -, h⟩
    · exact .inr ⟨y, db₁, hx, hxs⟩
    · cases h

namespace Database

variable {db db' : Database}

theorem upsertCallables_ok_iff_each {cs : List NewCallable} {ids : List RowId} :
    upsertCallables cs db = .ok (ids, db') ↔ each upsertCallable cs db = .ok (ids, db') := by
  induction cs generalizing db ids with
  | nil => rfl
  | cons c rest ih => simp only [upsertCallables_cons_ok_iff, each_cons_ok_iff, ih]

/-- Once an edge that may stand has been written, those may stand that might before. -/
theorem edgeMayStand_putEdge {e : NewEdge} {edges : List EdgeRow}
    (h : putEdge db.edges e = .ok edges) (he : db.edgeMayStand e = true) (new : NewEdge) :
    edgeMayStand { db with edges } new = db.edgeMayStand new := by
  rw [Bool.eq_iff_iff, edgeMayStand_iff, edgeMayStand_iff, (grown_putEdge h).keys]
  constructor
  · rintro ((hold | hsame) | hends)
    · exact .inl hold
    · obtain ⟨hsource, htarget⟩ := Prod.mk.inj hsame
      rw [hsame, hsource, htarget]
      exact edgeMayStand_iff.mp he
    · exact .inr hends
  · exact Or.imp_left .inl

theorem putEdges_cons_ok_iff {edges edges' : List EdgeRow} {e : NewEdge} {rest : List NewEdge} :
    putEdges edges (e :: rest) = .ok edges' ↔
      ∃ between, putEdge edges e = .ok between ∧ putEdges between rest = .ok edges' := by
  rw [putEdges, List.foldlM_cons, bind_ok_iff]
  rfl

theorem upsertEdges_singleton_ok_iff {e : NewEdge} {n : Nat} :
    upsertEdges [e] db = .ok (n, db') ↔
      ∃ edges, putEdge db.edges e = .ok edges ∧ db.edgeMayStand e = true ∧ 1 = n ∧
        { db with edges } = db' := by
  rw [upsertEdges_ok_iff]
  refine exists_congr fun edges => ?_
  rw [putEdges_cons_ok_iff, List.forall_mem_singleton]
  simp [putEdges, pure, Except.pure]

theorem upsertEdges_cons_ok_iff {e : NewEdge} {rest : List NewEdge} {n : Nat} :
    upsertEdges (e :: rest) db = .ok (n, db') ↔
      ∃ db₁, upsertEdges [e] db = .ok (1, db₁) ∧
        ∃ m, upsertEdges rest db₁ = .ok (m, db') ∧ m + 1 = n := by
  -- A statement checks all its edges against the rows before it, and one edge at a time is checked
  -- against those with the edges before it; an edge that stands makes no difference to the others.
  simp only [upsertEdges_singleton_ok_iff]
  simp only [upsertEdges_ok_iff, putEdges_cons_ok_iff, List.forall_mem_cons, List.length_cons]
  constructor
  · rintro ⟨edges, ⟨between, hput, hrest⟩, ⟨he, hmay⟩, rfl, rfl⟩
    refine ⟨_, ⟨between, hput, he, trivial, rfl⟩, _, ⟨edges, hrest, ?_, rfl, rfl⟩, rfl⟩
    intro new hnew
    rw [edgeMayStand_putEdge hput he]
    exact hmay new hnew
  · rintro ⟨_, ⟨between, hput, he, -, rfl⟩, _, ⟨edges, hrest, hmay, rfl, rfl⟩, rfl⟩
    refine ⟨edges, ⟨between, hput, hrest⟩, ⟨he, fun new hnew => ?_⟩, rfl, rfl⟩
    rw [← edgeMayStand_putEdge hput he]
    exact hmay new hnew

theorem upsertEdges_ok_iff_each {es : List NewEdge} {n : Nat} :
    upsertEdges es db = .ok (n, db') ↔
      (∃ ns, each (fun e => upsertEdges [e]) es db = .ok (ns, db')) ∧ es.length = n := by
  induction es generalizing db n with
  | nil =>
    have hnone : upsertEdges [] db = .ok (0, db) := rfl
    simp [hnone, each, and_comm]
  | cons e rest ih =>
    rw [upsertEdges_cons_ok_iff, List.length_cons]
    constructor
    · rintro ⟨db₁, hone, m, hrest, rfl⟩
      obtain ⟨⟨ns, hns⟩, rfl⟩ := ih.mp hrest
      exact ⟨⟨_, each_cons_ok_iff.mpr ⟨1, db₁, hone, ns, hns, rfl⟩⟩, rfl⟩
    · rintro ⟨⟨ks, hks⟩, rfl⟩
      obtain ⟨k, db₁, hone, ns, hns, -⟩ := each_cons_ok_iff.mp hks
      obtain ⟨-, -, -, hk, -⟩ := upsertEdges_singleton_ok_iff.mp hone
      exact ⟨db₁, hk ▸ hone, _, ih.mpr ⟨⟨ns, hns⟩, rfl⟩, rfl⟩

end Database

/-! ## Stores -/

/-- Where many writes one after the other succeed, one for all of them leaves the same and answers
for them; where one of the many fails it fails too, and leaves the store as it was. The history, of
how much has been asked for, is no part of this. -/
structure Batched (batch : Action β) (singly : Action γ) (answer : γ → β) (s : Store) : Prop where
  done : ∀ x s', (singly.run s : Except Error γ × Store) = (.ok x, s') →
    ∃ t, (batch.run s : Except Error β × Store) = (.ok (answer x), { s' with history := t })
  refused : ∀ e s', (singly.run s : Except Error γ × Store) = (.error e, s') →
    ∃ e' t, (batch.run s : Except Error β × Store) = (.error e', { s with history := t })

section Write

variable {s : Store}

theorem faults_never (h : s.faults = .never) (history : History) (kind : WriteKind) :
    s.faults history kind = none := by
  rw [h]
  rfl

theorem run_onFile_write_ok (hs : s.Ready) {st : Statement γ} {y : γ} {db : Database}
    (h : st s.view = .ok (y, db)) :
    ((onFile fun f c => f.write c st).run s : Except Error γ × Store)
      = (.ok y, s.worked db s.history) :=
  hs.run_onFile_ok (congrArg Except.toOption h) s.history

theorem run_onFile_write_error (hs : s.Ready) {st : Statement γ} {e : StoreError}
    (h : st s.view = .error e) :
    ((onFile fun f c => f.write c st).run s : Except Error γ × Store) = (.error (.store e), s) := by
  rw [run_onFile hs.isOpen, File.write_eq hs.mayWrite, ← Store.view, h]
  rfl

/-- A store that is closed, or not the one that is writing, writes nothing. -/
theorem run_onFile_write_refused (hs : ¬ s.Ready) (st : Statement γ) :
    ∃ e, ((onFile fun f c => f.write c st).run s : Except Error γ × Store)
      = (.error (.store e), s) := by
  cases hopen : s.isOpen with
  | false => exact ⟨_, run_onFile_closed hopen⟩
  | true =>
    have hother : ¬ s.file.MayWrite s.connection := fun hmay => hs ⟨hopen, hmay⟩
    rw [run_onFile hopen]
    rcases hwrite : s.file.write s.connection st with ⟨e | a, f⟩
    · have hfile := File.write_eq_of_error (congrArg Prod.fst hwrite)
      rw [hwrite] at hfile
      obtain rfl : f = s.file := hfile
      exact ⟨e, rfl⟩
    · exact absurd (File.mayWrite_of_write_ok hwrite) hother

variable (hp : s.faults = .never)

include hp

theorem run_write_never (kind : WriteKind) (st : Statement γ) :
    ((write kind st).run s : Except Error γ × Store)
      = (onFile fun f c => f.write c st).run s.counted := by
  rw [run_write, faults_never hp]

theorem run_writeMany_never (kind : WriteKind) {rows : List β} (hrows : rows ≠ []) (nothing : γ)
    (st : List β → Statement γ) :
    ((writeMany kind rows nothing st).run s : Except Error γ × Store)
      = (onFile fun f c => f.write c (st rows)).run s.counted := by
  rw [run_writeMany, faults_never hp]
  simp [hrows]

theorem run_write_ok (hs : s.Ready) (kind : WriteKind) {st : Statement γ} {y : γ} {db : Database}
    (h : st s.view = .ok (y, db)) :
    ((write kind st).run s : Except Error γ × Store) = (.ok y, s.worked db s.counted.history) := by
  have hcounted : s.counted.Ready := ⟨hs.isOpen, hs.mayWrite⟩
  rw [run_write_never hp]
  exact run_onFile_write_ok hcounted h

theorem run_write_error (hs : s.Ready) (kind : WriteKind) {st : Statement γ} {e : StoreError}
    (h : st s.view = .error e) :
    ((write kind st).run s : Except Error γ × Store) = (.error (.store e), s.counted) := by
  have hcounted : s.counted.Ready := ⟨hs.isOpen, hs.mayWrite⟩
  rw [run_write_never hp]
  exact run_onFile_write_error hcounted h

/-- Writes one after the other do what their statements do. -/
theorem run_writes_ok (hs : s.Ready) (kind : WriteKind) {one : β → Statement γ} {xs : List β}
    {ys : List γ} {db : Database} (h : each one xs s.view = .ok (ys, db)) :
    ∃ t, ((xs.mapM fun x => write kind (one x)).run s : Except Error (List γ) × Store)
      = (.ok ys, s.worked db t) := by
  induction xs generalizing s ys with
  | nil =>
    obtain ⟨rfl, rfl⟩ := Prod.mk.inj (Except.ok.inj h)
    exact ⟨s.history, by rw [hs.worked_view]; rfl⟩
  | cons x xs ih =>
    obtain ⟨y, db₁, hx, later, hxs, rfl⟩ := each_cons_ok_iff.mp h
    have hview : (s.worked db₁ s.counted.history).view = db₁ := hs.view_worked
    obtain ⟨t, hrest⟩ := ih (s := s.worked db₁ s.counted.history) hp hs.worked (hview ▸ hxs)
    refine ⟨t, ?_⟩
    rw [List.mapM_cons, run_bind, run_write_ok hp hs kind hx]
    simp only [run_bind, hrest, worked_worked, run_pure]

/-- And fail where one of these does. -/
theorem run_writes_error (hs : s.Ready) (kind : WriteKind) {one : β → Statement γ} {xs : List β}
    {e : StoreError} (h : each one xs s.view = .error e) :
    ∃ s', ((xs.mapM fun x => write kind (one x)).run s : Except Error (List γ) × Store)
      = (.error (.store e), s') := by
  induction xs generalizing s with
  | nil => cases h
  | cons x xs ih =>
    rw [List.mapM_cons, run_bind]
    rcases each_cons_error h with hx | ⟨y, db₁, hx, hxs⟩
    · exact ⟨s.counted, by rw [run_write_error hp hs kind hx]⟩
    · have hview : (s.worked db₁ s.counted.history).view = db₁ := hs.view_worked
      obtain ⟨s', hrest⟩ := ih (s := s.worked db₁ s.counted.history) hp hs.worked (by rwa [hview])
      exact ⟨s', by simp only [run_write_ok hp hs kind hx, run_bind, hrest]⟩

/-- A statement of many rows that does what those of one do, one after the other, makes a batch. -/
theorem batched {many : List β → Statement γ} {one : β → Statement δ} {answer : List δ → γ}
    {xs : List β} {nothing : γ} (hnil : xs = [] → answer [] = nothing)
    (h : ∀ {db db' a}, many xs db = .ok (a, db') ↔
      ∃ ys, each one xs db = .ok (ys, db') ∧ answer ys = a) (kind kind' : WriteKind) :
    Batched (writeMany kind xs nothing many) (xs.mapM fun x => write kind' (one x)) answer s := by
  rcases xs with _ | ⟨x, xs⟩
  · have hbatch : ((writeMany kind [] nothing many).run s : Except Error γ × Store)
        = (.ok nothing, s.counted) := by
      rw [run_writeMany, faults_never hp]
      rfl
    refine ⟨fun ys s' hrun => ?_, fun e s' hrun => nomatch hrun⟩
    obtain ⟨rfl, rfl⟩ : [] = ys ∧ s = s' := by
      obtain ⟨hys, hs'⟩ := Prod.mk.inj hrun
      exact ⟨Except.ok.inj hys, hs'⟩
    exact ⟨s.counted.history, by rw [hbatch, hnil rfl]; rfl⟩
  have hbatch := run_writeMany_never hp kind (List.cons_ne_nil x xs) nothing many
  by_cases hs : s.Ready
  · have hcounted : s.counted.Ready := ⟨hs.isOpen, hs.mayWrite⟩
    refine ⟨fun ys s' hrun => ?_, fun e s' hrun => ?_⟩
    · rcases heach : each one (x :: xs) s.view with e | ⟨ys', db⟩
      · obtain ⟨_, herror⟩ := run_writes_error hp hs kind' heach
        cases hrun.symm.trans herror
      · obtain ⟨t, hok⟩ := run_writes_ok hp hs kind' heach
        obtain ⟨hys, rfl⟩ := Prod.mk.inj (hrun.symm.trans hok)
        obtain rfl := Except.ok.inj hys
        exact ⟨_, hbatch.trans (run_onFile_write_ok hcounted (h.mpr ⟨_, heach, rfl⟩))⟩
    · rcases hmany : many (x :: xs) s.view with e' | ⟨a, db⟩
      · exact ⟨_, _, hbatch.trans (run_onFile_write_error hcounted hmany)⟩
      · obtain ⟨ys, heach, -⟩ := h.mp hmany
        obtain ⟨t, hok⟩ := run_writes_ok hp hs kind' heach
        cases hrun.symm.trans hok
  · -- The first write is refused already, and so is the batch.
    have hcounted : ¬ s.counted.Ready := fun hr => hs ⟨hr.isOpen, hr.mayWrite⟩
    obtain ⟨e₁, hfirst⟩ := run_onFile_write_refused hcounted (one x)
    obtain ⟨e₂, hall⟩ := run_onFile_write_refused hcounted (many (x :: xs))
    have hsingly : (((x :: xs).mapM fun x => write kind' (one x)).run s
        : Except Error (List δ) × Store) = (.error (.store e₁), s.counted) := by
      rw [List.mapM_cons, run_bind, run_write_never hp, hfirst]
    refine ⟨fun ys s' hrun => ?_, fun e s' _ => ⟨_, _, hbatch.trans hall⟩⟩
    cases hrun.symm.trans hsingly

end Write

/-- Callables or edges that are given at once, whatever repeats among them, are written as if they
were given one after the other, in a transaction or not, or not at all. The ids are those of the
callables in order, in whatever order the engine returns them; of edges the number is answered. -/
theorem batches_agree (s : Store) (hp : s.faults = .never) :
    (∀ cs : List NewCallable, Batched (upsertCallables cs) (cs.mapM upsertCallable) id s) ∧
    (∀ (cs : List NewCallable) (db db' : Database) (returned : List (CallableKey × RowId)),
      Database.putCallables cs db = .ok (returned, db') → ∀ answered, answered.Perm returned →
        cs.mapM (Database.returnedId (.ofList answered)) = .ok (returned.map Prod.snd)) ∧
    (∀ es : List NewEdge,
      Batched (upsertEdges es) (es.mapM fun e => upsertEdges [e]) (fun _ => es.length) s) := by
  refine ⟨fun cs => ?_, fun cs db db' returned h answered hperm => ?_, fun es => ?_⟩
  · show Batched (writeMany .callables cs [] Database.upsertCallables)
      (cs.mapM fun c => write .callable (Database.upsertCallable c)) id s
    refine batched hp ?_ ?_ .callables .callable
    · exact fun _ => rfl
    · intro db db' ids
      rw [Database.upsertCallables_ok_iff_each]
      simp only [id, exists_eq_right]
  · exact Database.mapM_returnedId_of_perm h hperm
  · show Batched (writeMany .edges es 0 Database.upsertEdges)
      (es.mapM fun e => write .edges (Database.upsertEdges [e])) (fun _ => es.length) s
    refine batched hp ?_ ?_ .edges .edges
    · exact fun h => h ▸ rfl
    · intro db db' n
      rw [Database.upsertEdges_ok_iff_each, exists_and_right]

/-- A store in a transaction that has just begun. -/
def opened : Store :=
  (beginTransaction.run (.inMemory .never) : Except Error Unit × Store).2

def repeating : List NewCallable :=
  [⟨none, "a", true, none, none⟩, ⟨none, "a", false, none, none⟩, ⟨none, "a", true, none, none⟩]

/-- There is no module 7. -/
def unreferenced : List NewCallable := repeating ++ [⟨some 7, "b", true, none, none⟩]

theorem batches_agree_opened :
    opened.faults = .never ∧
      (∃ (s' : Store) (t : History),
        ((upsertCallables repeating).run opened : Except Error (List RowId) × Store)
          = (.ok [1, 2, 1], { s' with history := t }) ∧ s'.view.callables.size = 2) ∧
      ∃ (e : Error) (t : History),
        ((upsertCallables unreferenced).run opened : Except Error (List RowId) × Store)
          = (.error e, { opened with history := t }) := by
  refine ⟨rfl, ?_, ?_⟩
  · obtain ⟨t, hrun⟩ := ((batches_agree opened rfl).1 repeating).done _ _ rfl
    exact ⟨_, t, hrun, rfl⟩
  · exact ((batches_agree opened rfl).1 unreferenced).refused _ _ rfl

end CallArchive.Store
