import CallArchive.Proofs.Store.Requests

/-!
# Where the content of a file goes

A `Course` is a relation of databases that is reflexive and transitive and along which every
statement goes. What is committed in a file then goes along it too, whatever happens to its
connections: `File.Moves` says so of one step of a file, together with what carries it from one step
to the next, that an open transaction has gone along the course from what is committed.
-/

namespace CallArchive.Store

/-- Where the statement succeeds it goes along `R`. -/
def Follows (R : Database → Database → Prop) {α : Type} (st : Statement α) : Prop :=
  ∀ ⦃db a db'⦄, st db = .ok (a, db') → R db db'

structure Course (R : Database → Database → Prop) : Prop where
  refl : ∀ db, R db db
  trans : ∀ {db db' db''}, R db db' → R db' db'' → R db db''
  prepare : Follows R Database.prepare
  upsertPackage : ∀ p, Follows R (Database.upsertPackage p)
  upsertVersion : ∀ v, Follows R (Database.upsertVersion v)
  insertDependency : ∀ d, Follows R (Database.insertDependency d)
  upsertModule : ∀ m, Follows R (Database.upsertModule m)
  upsertFile : ∀ f, Follows R (Database.upsertFile f)
  linkFile : ∀ l, Follows R (Database.linkFile l)
  upsertCallable : ∀ c, Follows R (Database.upsertCallable c)
  upsertEdges : ∀ es, Follows R (Database.upsertEdges es)

/-- Where the change succeeds it goes along `R`. -/
def Goes (R : Database → Database → Prop) {α : Type} (f : Change α) : Prop :=
  ∀ ⦃db a db'⦄, f.run db = some (a, db') → R db db'

variable {R : Database → Database → Prop} {α β γ : Type}

theorem run_change_eq_some {st : Statement α} {db : Database} {p : α × Database}
    (h : (change st).run db = some p) : st db = .ok p :=
  toOption_eq_some_iff.mp h

theorem Follows.change {st : Statement α} (h : Follows R st) : Goes R (change st) :=
  fun _ _ _ hrun => h (run_change_eq_some hrun)

theorem run_change_bind_eq_some {f : Change α} {g : α → Change β} {db db' : Database} {b : β}
    (h : (f >>= g).run db = some (b, db')) :
    ∃ a between, f.run db = some (a, between) ∧ (g a).run between = some (b, db') := by
  rw [run_change_bind] at h
  obtain ⟨⟨a, between⟩, hfirst, hrest⟩ := Option.bind_eq_some_iff.mp h
  exact ⟨a, between, hfirst, hrest⟩

namespace Course

variable (hR : Course R)

include hR

theorem upsertCallables (cs : List NewCallable) : Follows R (Database.upsertCallables cs) := by
  intro db ids db' h
  induction cs generalizing db ids with
  | nil =>
    obtain ⟨-, rfl⟩ := Prod.mk.inj (Except.ok.inj h)
    exact hR.refl db
  | cons c cs ih =>
    obtain ⟨id, between, hone, later, hrest, -⟩ := Database.upsertCallables_cons_ok_iff.mp h
    exact hR.trans (hR.upsertCallable c hone) (ih hrest)

/-! ## Changes -/

theorem pure (a : α) : Goes R (pure a) := by
  intro db b db' h
  obtain ⟨-, rfl⟩ := Prod.mk.inj (Option.some.inj h)
  exact hR.refl db

theorem bind {f : Change α} {g : α → Change β} (hf : Goes R f) (hg : ∀ a, Goes R (g a)) :
    Goes R (f >>= g) := by
  intro db b db' h
  obtain ⟨a, between, hfirst, hrest⟩ := run_change_bind_eq_some h
  exact hR.trans (hf hfirst) (hg a hrest)

theorem discard {f : Change α} (hf : Goes R f) : Goes R (discard f) :=
  hR.bind hf fun _ => hR.pure ()

theorem mapM {f : γ → Change α} (hf : ∀ x, Goes R (f x)) (xs : List γ) : Goes R (xs.mapM f) := by
  induction xs with
  | nil => exact hR.pure []
  | cons x xs ih =>
    rw [List.mapM_cons]
    exact hR.bind (hf x) fun y => hR.bind ih fun ys => hR.pure (y :: ys)

theorem forIn {f : γ → Change PUnit} (hf : ∀ x, Goes R (f x)) (xs : List γ) :
    Goes R (forIn xs PUnit.unit fun x _ => do f x; return .yield PUnit.unit) := by
  induction xs with
  | nil => exact hR.pure _
  | cons x xs ih =>
    rw [List.forIn_cons, bind_assoc]
    exact hR.bind (hf x) fun _ => ih

theorem foldlM {f : β → γ → Change β} (hf : ∀ y x, Goes R (f y x)) (xs : List γ) (y : β) :
    Goes R (xs.foldlM f y) := by
  induction xs generalizing y with
  | nil => exact hR.pure y
  | cons x xs ih =>
    rw [List.foldlM_cons]
    exact hR.bind (hf y x) ih

theorem change (r : Request) : Goes R r.change := by
  cases r with
  | package p => exact hR.discard (hR.upsertPackage p).change
  | version v => exact hR.discard (hR.upsertVersion v).change
  | dependency d => exact hR.discard (hR.insertDependency d).change
  | module m => exact hR.discard (hR.upsertModule m).change
  | file f => exact hR.discard (hR.upsertFile f).change
  | link l => exact (hR.linkFile l).change
  | callable c => exact hR.discard (hR.upsertCallable c).change
  | callables cs => exact hR.discard (hR.upsertCallables cs).change
  | edges es => exact hR.discard (hR.upsertEdges es).change
  | begin | commit | rollback | close => exact hR.pure ()

end Course

/-! ## Files -/

namespace File

/-- The open transaction has gone along `R` from what is committed. -/
def Leads (R : Database → Database → Prop) (f : File) : Prop :=
  ∀ w, f.writer = some w → R f.committed w.working

/-- A step of a file, after which what is committed is further along `R`. -/
def Moves (R : Database → Database → Prop) (f f' : File) : Prop :=
  f.Leads R → R f.committed f'.committed ∧ f'.Leads R

theorem Leads.of_writer_none {f : File} (h : f.writer = none) : f.Leads R := by
  intro w hw
  rw [h] at hw
  cases hw

theorem Leads.view (hR : Course R) {f : File} (h : f.Leads R) (c : ConnectionName) :
    R f.committed (f.view c) := by
  unfold File.view
  split
  · next w hw =>
    split
    · exact h w hw
    · exact hR.refl _
  · exact hR.refl _

namespace Moves

variable (hR : Course R)

include hR

theorem refl (f : File) : Moves R f f := fun h => ⟨hR.refl f.committed, h⟩

theorem trans {f f' f'' : File} (h : Moves R f f') (h' : Moves R f' f'') : Moves R f f'' := by
  intro hleads
  obtain ⟨hcommitted, hleads'⟩ := h hleads
  obtain ⟨hcommitted', hleads''⟩ := h' hleads'
  exact ⟨hR.trans hcommitted hcommitted', hleads''⟩

variable {f : File} {c : ConnectionName}

theorem replace {db : Database} (hw : f.MayWrite c) (h : R (f.view c) db) :
    Moves R f (f.replace db) := by
  intro hleads
  obtain ⟨committed, writer⟩ := f
  cases writer with
  | none => exact ⟨h, .of_writer_none rfl⟩
  | some w =>
    have hview : File.view ⟨committed, some w⟩ c = w.working := view_of_isWriter rfl (hw w rfl)
    rw [hview] at h
    refine ⟨hR.refl committed, fun w' hw' => ?_⟩
    obtain rfl := Option.some.inj hw'
    exact hR.trans (hleads w rfl) h

theorem write {st : Statement α} (h : Follows R st) : Moves R f (f.write c st).2 := by
  by_cases hw : f.MayWrite c
  · rw [write_eq hw]
    split
    · next hst => exact replace hR hw (h hst)
    · exact refl hR f
  · rw [write_locked hw]
    exact refl hR f

theorem begin (f : File) (c : ConnectionName) : Moves R f (f.begin c).2 := by
  unfold File.begin
  split
  · intro _
    refine ⟨hR.refl _, fun w hw => ?_⟩
    obtain rfl := Option.some.inj hw
    exact hR.refl _
  · exact refl hR f

theorem commit (f : File) (c : ConnectionName) : Moves R f (f.commit c).2 := by
  rcases f.commit_cases c with ⟨w, hw, -, hok⟩ | ⟨e, herror⟩
  · rw [hok]
    intro hleads
    exact ⟨hleads w hw, .of_writer_none rfl⟩
  · rw [herror]
    exact refl hR f

theorem disconnect (f : File) (c : ConnectionName) : Moves R f (f.disconnect c) := by
  intro hleads
  rw [Leads, committed_disconnect]
  exact ⟨hR.refl _, fun w hw => hleads w (writer_disconnect hw).1⟩

theorem rollback (f : File) (c : ConnectionName) : Moves R f (f.rollback c).2 := by
  rcases f.rollback_cases c with ⟨-, hok⟩ | ⟨e, herror⟩
  · rw [hok]
    exact disconnect hR f c
  · rw [herror]
    exact refl hR f

end Moves

end File

/-! ## Stores and their connections -/

section Stores

variable (hR : Course R)

include hR

theorem Wrote.moves {s : Store} {f : Change α} {nothing : Prop} {out : Except Error α × Store}
    (hf : Goes R f) (h : Wrote s f nothing out) : File.Moves R s.file out.2.file := by
  cases h with
  | done hs hrun => exact .replace hR hs.mayWrite (hf hrun)
  | skipped => exact .refl hR _
  | refused => exact .refl hR _

theorem moves_onFile {step : File → ConnectionName → Except StoreError α × File}
    (h : ∀ f c, File.Moves R f (step f c).2) (s : Store) :
    File.Moves R s.file ((onFile step).run s : Except Error α × Store).2.file := by
  rcases file_onFile step s with hsame | hstep
  · rw [hsame]
    exact .refl hR s.file
  · rw [hstep]
    exact h s.file s.connection

theorem Request.moves (r : Request) (s : Store) :
    File.Moves R s.file (r.action.run s : Except Error Unit × Store).2.file := by
  by_cases hr : r.Writes
  · exact (r.wrote_action hr s).moves hR (hR.change r)
  cases r with
  | begin =>
    have hmoves := moves_onFile hR (File.Moves.begin hR)
      { s with history := { s.history with transactions := s.history.transactions + 1 } }
    rw [action, beginTransaction, run_bind]
    exact hmoves
  | commit => exact moves_onFile hR (File.Moves.commit hR) s
  | rollback => exact moves_onFile hR (File.Moves.rollback hR) s
  | close =>
    show File.Moves R s.file s.close.file
    unfold Store.close
    split
    · exact .disconnect hR _ _
    · exact .refl hR _
  | _ => exact absurd trivial hr

namespace Connections

theorem moves_run {a : Action α} (c : Connections) (name : ConnectionName)
    (h : ∀ s : Store, File.Moves R s.file (a.run s : Except Error α × Store).2.file) :
    File.Moves R c.file (c.run name a).2.file := by
  cases hs : c.store? name with
  | none =>
    rw [Connections.run, hs]
    exact .refl hR c.file
  | some s =>
    rw [run_of_store? hs, ← file_of_store? hs]
    exact h s

theorem moves_connect (c : Connections) (name : ConnectionName) (faults : FaultPlan) :
    File.Moves R c.file (c.connect name faults).2.file := by
  have hleft : File.Moves R c.file (c.remove name).file := .disconnect hR c.file name
  have hprepared : File.Moves R (c.remove name).file ((c.remove name).file.connect name).2 :=
    .write hR hR.prepare
  simp only [Connections.connect, Store.connect?]
  generalize (c.remove name).file.connect name = out at hprepared ⊢
  obtain ⟨_ | _, f⟩ := out
  · exact hleft
  · exact .trans hR hleft hprepared

end Connections

end Stores

end CallArchive.Store
