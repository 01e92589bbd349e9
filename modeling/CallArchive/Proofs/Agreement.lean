import Mathlib.Data.List.Forall2

/-!
# Computations with one outcome

Two computations agree up to a relation if both fail, with whatever errors, or both succeed with
results that are related. Steps that agree make sequences that agree, and a list may be gone through
in any order.
-/

namespace CallArchive

variable {ε ε' α β γ α' β' γ' : Type}

/-- Both computations fail, or both succeed and `Q` relates the results. -/
inductive Agree (Q : α → β → Prop) : Except ε α → Except ε' β → Prop where
  | error (e : ε) (e' : ε') : Agree Q (.error e) (.error e')
  | ok {a : α} {b : β} (h : Q a b) : Agree Q (.ok a) (.ok b)

namespace Agree

variable {Q : α → β → Prop}

theorem refl {Q : α → α → Prop} (hQ : ∀ a, Q a a) (x : Except ε α) : Agree Q x x := by
  cases x with
  | error e => exact .error e e
  | ok a => exact .ok (hQ a)

theorem same (x : Except ε α) : Agree Eq x x := refl (fun _ => rfl) x

theorem mono {x : Except ε α} {y : Except ε' β} {R : α → β → Prop} (h : Agree Q x y)
    (hR : ∀ a b, Q a b → R a b) : Agree R x y := by
  cases h with
  | error e e' => exact .error e e'
  | ok h => exact .ok (hR _ _ h)

theorem trans {x : Except ε α} {y z : Except ε β} {R : β → β → Prop} {S : α → β → Prop}
    (h : Agree Q x y) (h' : Agree R y z) (hS : ∀ a b c, Q a b → R b c → S a c) : Agree S x z := by
  cases h with
  | error e e' =>
    cases h' with
    | error => exact .error _ _
  | ok h =>
    cases h' with
    | ok h' => exact .ok (hS _ _ _ h h')

theorem bind {x : Except ε α} {y : Except ε' β} {f : α → Except ε α'} {g : β → Except ε' β'}
    {R : α' → β' → Prop} (h : Agree Q x y) (hstep : ∀ a b, Q a b → Agree R (f a) (g b)) :
    Agree R (x >>= f) (y >>= g) := by
  cases h with
  | error e e' => exact .error e e'
  | ok h => exact hstep _ _ h

/-- One computation that goes on in two ways. -/
theorem bind_same {x : Except ε α} {f : α → Except ε α'} {g : α → Except ε β'}
    {R : α' → β' → Prop} (hstep : ∀ a, Agree R (f a) (g a)) : Agree R (x >>= f) (x >>= g) :=
  bind (same x) fun a _ h => h ▸ hstep a

theorem map {x : Except ε α} {y : Except ε' β} {f : α → α'} {g : β → β'} {R : α' → β' → Prop}
    (h : Agree Q x y) (hstep : ∀ a b, Q a b → R (f a) (g b)) : Agree R (x.map f) (y.map g) := by
  cases h with
  | error e e' => exact .error e e'
  | ok h => exact .ok (hstep _ _ h)

theorem mapError {x : Except ε α} {y : Except ε β} (h : Agree Q x y) (f : ε → ε') :
    Agree Q (x.mapError f) (y.mapError f) := by
  cases h with
  | error e e' => exact .error (f e) (f e')
  | ok h => exact .ok h

/-- Similar items, one by one. -/
theorem mapM {R : α' → β' → Prop} {f : α → Except ε α'} {g : β → Except ε' β'} {xs : List α}
    {ys : List β} (h : List.Forall₂ Q xs ys) (hstep : ∀ x y, Q x y → Agree R (f x) (g y)) :
    Agree (List.Forall₂ R) (xs.mapM f) (ys.mapM g) := by
  induction h with
  | nil => exact .ok .nil
  | @cons x y xs ys hxy _ ih =>
    rw [List.mapM_cons, List.mapM_cons]
    exact (hstep x y hxy).bind fun a b hab => ih.bind fun as bs hs => .ok (.cons hab hs)

/-- Similar items change similar states. -/
theorem foldlM {R : α' → β' → Prop} {f : α' → α → Except ε α'} {g : β' → β → Except ε' β'}
    {xs : List α} {ys : List β} {s : α'} {t : β'} (h : List.Forall₂ Q xs ys) (hst : R s t)
    (hstep : ∀ s t x y, R s t → Q x y → Agree R (f s x) (g t y)) :
    Agree R (xs.foldlM f s) (ys.foldlM g t) := by
  induction h generalizing s t with
  | nil => exact .ok hst
  | @cons x y xs ys hxy _ ih =>
    rw [List.foldlM_cons, List.foldlM_cons]
    exact (hstep s t x y hst hxy).bind fun s' t' hst' => ih hst'

/-- The same items in another order. -/
theorem mapM_perm {f : α → Except ε β} {xs ys : List α} (h : xs.Perm ys) :
    Agree List.Perm (xs.mapM f) (ys.mapM f) := by
  induction h with
  | nil => exact .ok .nil
  | cons x _ ih =>
    rw [List.mapM_cons, List.mapM_cons]
    exact bind_same fun a => ih.bind fun as bs hs => .ok (hs.cons a)
  | swap x y xs =>
    simp only [List.mapM_cons]
    cases f x with
    | error e =>
      cases f y with
      | error e' => exact .error e' e
      | ok b => exact .error e e
    | ok a =>
      cases f y with
      | error e => exact .error e e
      | ok b =>
        cases xs.mapM f with
        | error e => exact .error e e
        | ok as => exact .ok (.swap a b as)
  | trans _ _ ih ih' => exact ih.trans ih' fun _ _ _ => List.Perm.trans

end Agree

end CallArchive
