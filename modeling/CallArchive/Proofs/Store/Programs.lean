import CallArchive.Proofs.Store.Requests

/-!
# Programs on a store

A program is put together from operations of the store, of its own values and failures, and from
catching what failed. `Program K` bounds what it is put together from, by the `Power` that each part
takes. What every operation of these powers preserves the program does (`Program.preserves`).
-/

namespace CallArchive.Store

/-- The writes, with what they answer. -/
inductive IsWrite : {α : Type} → Action α → Prop where
  | package (p : NewPackage) : IsWrite (upsertPackage p)
  | version (v : NewVersion) : IsWrite (upsertVersion v)
  | dependency (d : NewDependency) : IsWrite (insertDependency d)
  | module (m : NewModule) : IsWrite (upsertModule m)
  | file (f : NewFile) : IsWrite (upsertFile f)
  | link (l : Link) : IsWrite (linkFile l)
  | callable (c : NewCallable) : IsWrite (upsertCallable c)
  | callables (cs : List NewCallable) : IsWrite (upsertCallables cs)
  | edges (es : List NewEdge) : IsWrite (upsertEdges es)

/-- A write has the ends of a write: it is made, or there was nothing to write, or it is refused. -/
theorem IsWrite.wrote {α : Type} {a : Action α} (h : IsWrite a) (s : Store) :
    ∃ (f : Change α) (nothing : Prop), Wrote s f nothing (a.run s : Except Error α × Store) := by
  cases h with
  | package p => exact ⟨_, _, wrote_write .package (Database.upsertPackage p) s⟩
  | version v => exact ⟨_, _, wrote_write .version (Database.upsertVersion v) s⟩
  | dependency d => exact ⟨_, _, wrote_write .dependency (Database.insertDependency d) s⟩
  | module m => exact ⟨_, _, wrote_write .module (Database.upsertModule m) s⟩
  | file f => exact ⟨_, _, wrote_write .file (Database.upsertFile f) s⟩
  | link l => exact ⟨_, _, wrote_write .link (Database.linkFile l) s⟩
  | callable c => exact ⟨_, _, wrote_write .callable (Database.upsertCallable c) s⟩
  | callables cs => exact ⟨_, _, wrote_writeMany .callables cs (fun _ => rfl) s⟩
  | edges es => exact ⟨_, _, wrote_writeMany .edges es (fun _ => rfl) s⟩

/-- What a part of a program is: an operation of some kind, a failure of its own, or the catching of
failures. -/
inductive Power where
  | write
  | read
  | begin
  | commit
  | rollback
  | close
  | throw
  | catch
  deriving DecidableEq, Repr

/-- The operations of a store. -/
inductive Operation : Power → {α : Type} → Action α → Prop where
  | write {α : Type} {a : Action α} (h : IsWrite a) : Operation .write a
  | read {α : Type} (query : Database → α) : Operation .read (Store.read query)
  | readRows {α : Type} (query : Database → Except StoreError α) :
      Operation .read (Store.readRows query)
  | begin : Operation .begin beginTransaction
  | commit : Operation .commit commitTransaction
  | rollback : Operation .rollback rollbackTransaction
  | close : Operation .close (modify Store.close)

inductive Program (K : Power → Prop) : {α : Type} → Action α → Prop where
  | pure {α : Type} (x : α) : Program K (pure x)
  | bind {α β : Type} {a : Action α} {b : α → Action β} :
      Program K a → (∀ x, Program K (b x)) → Program K (a >>= b)
  | ask {α : Type} {p : Power} {a : Action α} (hp : K p) (h : Operation p a) : Program K a
  | throw {α : Type} (hp : K .throw) (e : Error) : Program K (throw e : Action α)
  | tryCatch {α : Type} {a : Action α} {b : Error → Action α} (hp : K .catch) :
      Program K a → (∀ e, Program K (b e)) → Program K (tryCatch a b)

namespace Program

variable {K L : Power → Prop} {α β γ : Type}

theorem preserves {P : Store → Prop}
    (h : ∀ {p : Power} {α : Type} {a : Action α}, K p → Operation p a → ∀ s, P s →
      P (a.run s : Except Error α × Store).2)
    {a : Action α} (ha : Program K a) {s : Store} (hs : P s) :
    P (a.run s : Except Error α × Store).2 := by
  induction ha generalizing s with
  | pure x => exact hs
  | @bind α β a b _ _ ih ihb =>
    rw [run_bind]
    have hfirst := ih hs
    generalize (a.run s : Except Error α × Store) = r at hfirst ⊢
    rcases r with ⟨e | x, s'⟩
    · exact hfirst
    · exact ihb x hfirst
  | ask hp ho => exact h hp ho s hs
  | throw hp e => exact hs
  | @tryCatch α a b _ _ _ ih ihb =>
    rw [run_tryCatch]
    have hfirst := ih hs
    generalize (a.run s : Except Error α × Store) = r at hfirst ⊢
    rcases r with ⟨e | x, s'⟩
    · exact ihb e hfirst
    · exact hfirst

theorem mono (hKL : ∀ p, K p → L p) {a : Action α} (h : Program K a) : Program L a := by
  induction h with
  | pure x => exact .pure x
  | bind _ _ ih ihb => exact .bind ih ihb
  | ask hp ho => exact .ask (hKL _ hp) ho
  | throw hp e => exact .throw (hKL _ hp) e
  | tryCatch hp _ _ ih ihb => exact .tryCatch (hKL _ hp) ih ihb

theorem write {a : Action α} (hp : K .write) (h : IsWrite a) : Program K a :=
  .ask hp (.write h)

theorem mapM {a : γ → Action α} (h : ∀ x, Program K (a x)) (xs : List γ) :
    Program K (xs.mapM a) := by
  induction xs with
  | nil => exact .pure []
  | cons x xs ih =>
    rw [List.mapM_cons]
    exact (h x).bind fun y => ih.bind fun ys => .pure (y :: ys)

theorem forIn {a : γ → Action PUnit} (h : ∀ x, Program K (a x)) (xs : List γ) :
    Program K (forIn xs PUnit.unit fun x _ => do a x; return .yield PUnit.unit) := by
  induction xs with
  | nil => exact .pure _
  | cons x xs ih =>
    rw [List.forIn_cons, bind_assoc]
    exact (h x).bind fun _ => ih

theorem foldlM {a : β → γ → Action β} (h : ∀ y x, Program K (a y x)) (xs : List γ) (y : β) :
    Program K (xs.foldlM a y) := by
  induction xs generalizing y with
  | nil => exact .pure y
  | cons x xs ih =>
    rw [List.foldlM_cons]
    exact (h y x).bind ih

end Program

end CallArchive.Store
