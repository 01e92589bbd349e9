import CallArchive.Proofs.Except
import CallArchive.Proofs.Store.Perform

/-!
# Actions that are put together from writes

`Writing K a f` says that the action `a` is put together from writes of the kinds in `K`, and that
the same statements put together in the same way are the change `f`. Such an action performs its
change (`Writing.performs`), and where the plan spares the kinds in `K` it does not fail unless the
change does (`Writing.run_spared`).
-/

namespace CallArchive.Store

inductive Writing (K : WriteKind → Prop) : {α : Type} → Action α → Change α → Prop where
  | pure {α : Type} (x : α) : Writing K (pure x) (pure x)
  | throw {α : Type} {e : Error} (he : e.failureClass ≠ .input) :
      Writing K (throw e : Action α) (fun _ => none)
  | bind {α β : Type} {a : Action α} {b : α → Action β} {f : Change α} {g : α → Change β} :
      Writing K a f → (∀ x, Writing K (b x) (g x)) → Writing K (a >>= b) (f >>= g)
  | write {α : Type} {kind : WriteKind} (hk : K kind) (st : Statement α) :
      Writing K (write kind st) (change st)
  | writeMany {α β : Type} {kind : WriteKind} (hk : K kind) (rows : List β) {nothing : α}
      {st : List β → Statement α} (hnone : ∀ db, st [] db = .ok (nothing, db)) :
      Writing K (writeMany kind rows nothing st) (change (st rows))

namespace Writing

variable {K L : WriteKind → Prop} {α β γ : Type} {a : Action α} {f : Change α}

theorem mono (hKL : ∀ kind, K kind → L kind) (h : Writing K a f) : Writing L a f := by
  induction h with
  | pure x => exact .pure x
  | throw he => exact .throw he
  | bind _ _ ih ihb => exact .bind ih ihb
  | write hk st => exact .write (hKL _ hk) st
  | writeMany hk rows hnone => exact .writeMany (hKL _ hk) rows hnone

theorem mapM {a : γ → Action α} {f : γ → Change α} (h : ∀ x, Writing K (a x) (f x))
    (xs : List γ) : Writing K (xs.mapM a) (xs.mapM f) := by
  induction xs with
  | nil => exact .pure []
  | cons x xs ih =>
    rw [List.mapM_cons, List.mapM_cons]
    exact (h x).bind fun y => ih.bind fun ys => .pure (y :: ys)

theorem forIn {a : γ → Action PUnit} {f : γ → Change PUnit} (h : ∀ x, Writing K (a x) (f x))
    (xs : List γ) :
    Writing K (forIn xs PUnit.unit fun x _ => do a x; return .yield PUnit.unit)
      (forIn xs PUnit.unit fun x _ => do f x; return .yield PUnit.unit) := by
  induction xs with
  | nil => exact .pure _
  | cons x xs ih =>
    rw [List.forIn_cons, List.forIn_cons, bind_assoc, bind_assoc]
    exact (h x).bind fun _ => ih

theorem foldlM {a : β → γ → Action β} {f : β → γ → Change β}
    (h : ∀ y x, Writing K (a y x) (f y x)) (xs : List γ) (y : β) :
    Writing K (xs.foldlM a y) (xs.foldlM f y) := by
  induction xs generalizing y with
  | nil => exact .pure y
  | cons x xs ih =>
    rw [List.foldlM_cons, List.foldlM_cons]
    exact (h y x).bind ih

theorem performs (h : Writing K a f) : Performs a f := by
  induction h with
  | pure x => exact .pure x
  | throw he => exact .throw he
  | bind _ _ ih ihb => exact ih.bind ihb
  | write _ st => exact performs_write _ st
  | writeMany _ rows hnone => exact performs_writeMany _ rows hnone

theorem upsertCallables (hk : K .callables) (cs : List NewCallable) :
    Writing K (Store.upsertCallables cs) (change (Database.upsertCallables cs)) :=
  .writeMany hk cs fun _ => rfl

theorem upsertEdges (hk : K .edges) (es : List NewEdge) :
    Writing K (Store.upsertEdges es) (change (Database.upsertEdges es)) :=
  .writeMany hk es fun _ => rfl

end Writing

/-- After so many injected failures the plan lets the writes of the kinds pass. -/
def FaultPlan.Spares (p : FaultPlan) (K : WriteKind → Prop) (injected : Nat) : Prop :=
  ∀ history kind, history.injected = injected → K kind → p history kind = none

/-- Neither a failure has been injected nor a transaction begun in between. -/
structure History.Quiet (before after : History) : Prop where
  injected : after.injected = before.injected
  transactions : after.transactions = before.transactions

theorem Ready.run_onFile_ok {α : Type} {s : Store} (hs : s.Ready) {st : Statement α} {x : α}
    {db : Database} (h : (change st).run s.view = some (x, db)) (t : History) :
    ((onFile fun f c => f.write c st).run { s with history := t } : Except Error α × Store)
      = (.ok x, s.worked db t) := by
  have hst : st (s.file.view s.connection) = .ok (x, db) := toOption_eq_some_iff.mp h
  rw [run_onFile (s := { s with history := t }) hs.isOpen]
  simp only [File.write_eq hs.mayWrite, hst]
  rfl

/-- Where no failure is injected an action does what its change does. -/
theorem Writing.run_spared {K : WriteKind → Prop} {α : Type} {a : Action α} {f : Change α}
    (h : Writing K a f) {s : Store} (hs : s.Ready) (hp : s.faults.Spares K s.history.injected)
    {x : α} {db : Database} (hf : f.run s.view = some (x, db)) :
    ∃ t, (a.run s : Except Error α × Store) = (.ok x, s.worked db t) ∧ s.history.Quiet t := by
  induction h generalizing s db with
  | pure y =>
    obtain ⟨rfl, rfl⟩ := Prod.mk.inj (Option.some.inj hf)
    exact ⟨s.history, by rw [hs.worked_view]; rfl, rfl, rfl⟩
  | throw => cases hf
  | @bind α β a b f g _ _ ih ihb =>
    rw [run_change_bind] at hf
    obtain ⟨⟨y, between⟩, hfirst, hrest⟩ := Option.bind_eq_some_iff.mp hf
    obtain ⟨t, hrun, hquiet⟩ := ih hs hp hfirst
    have hview : (s.worked between t).view = between := hs.view_worked
    obtain ⟨t', hrun', hquiet'⟩ := ihb y (s := s.worked between t) hs.worked
      (by exact hquiet.injected.symm ▸ hp) (by rw [hview]; exact hrest)
    refine ⟨t', ?_, hquiet'.injected.trans hquiet.injected,
      hquiet'.transactions.trans hquiet.transactions⟩
    rw [run_bind, hrun]
    simp only
    rw [hrun', worked_worked]
  | write hk st =>
    refine ⟨s.counted.history, ?_, rfl, rfl⟩
    rw [run_write, hp s.history _ rfl hk]
    exact hs.run_onFile_ok hf s.counted.history
  | writeMany hk rows hnone =>
    refine ⟨s.counted.history, ?_, rfl, rfl⟩
    rw [run_writeMany, hp s.history _ rfl hk]
    simp only
    split
    · next hempty =>
      obtain rfl := List.isEmpty_iff.mp hempty
      have hsame := hf.symm.trans (congrArg Except.toOption (hnone s.view))
      obtain ⟨rfl, rfl⟩ := Prod.mk.inj (Option.some.inj hsame)
      rw [hs.worked_view]
      rfl
    · exact hs.run_onFile_ok hf s.counted.history

end CallArchive.Store
