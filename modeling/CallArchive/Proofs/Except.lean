/-!
# Computations that may fail

When a sequence of steps succeeds, and with what; when a list of steps fails. How steps run that
also change a state.
-/

namespace CallArchive

variable {ε α β : Type}

theorem bind_ok_iff {x : Except ε α} {f : α → Except ε β} {b : β} :
    (x >>= f) = .ok b ↔ ∃ a, x = .ok a ∧ f a = .ok b := by
  cases x <;> simp [bind, Except.bind]

theorem bind_error_iff {x : Except ε α} {f : α → Except ε β} {e : ε} :
    (x >>= f) = .error e ↔ x = .error e ∨ ∃ a, x = .ok a ∧ f a = .error e := by
  cases x <;> simp [bind, Except.bind]

theorem map_ok_iff {x : Except ε α} {f : α → β} {b : β} :
    x.map f = .ok b ↔ ∃ a, x = .ok a ∧ f a = b := by
  cases x <;> simp [Except.map]

theorem map_error_iff {x : Except ε α} {f : α → β} {e : ε} :
    x.map f = .error e ↔ x = .error e := by
  cases x <;> simp [Except.map]

theorem ok_of_isSome {x : Except ε α} (h : x.toOption.isSome = true) : ∃ a, x = .ok a := by
  cases x with
  | error e => cases h
  | ok a => exact ⟨a, rfl⟩

theorem error_of_isNone {x : Except ε α} (h : x.toOption.isNone = true) : ∃ e, x = .error e := by
  cases x with
  | error e => exact ⟨e, rfl⟩
  | ok a => cases h

theorem toOption_eq_some_iff {x : Except ε α} {a : α} : x.toOption = some a ↔ x = .ok a := by
  cases x <;> simp [Except.toOption]

variable {f : α → Except ε β}

theorem mapM_cons_ok_iff {x : α} {xs : List α} {ys : List β} :
    (x :: xs).mapM f = .ok ys ↔
      ∃ y, f x = .ok y ∧ ∃ rest, xs.mapM f = .ok rest ∧ y :: rest = ys := by
  simp only [List.mapM_cons, bind_ok_iff, pure, Except.pure, Except.ok.injEq]

/-- The answers are those of the items. -/
theorem mem_of_mapM_ok {xs : List α} {ys : List β} (h : xs.mapM f = .ok ys) {y : β} :
    y ∈ ys ↔ ∃ x ∈ xs, f x = .ok y := by
  induction xs generalizing ys with
  | nil =>
    obtain rfl := Except.ok.inj h
    simp
  | cons x xs ih =>
    obtain ⟨z, hz, rest, hrest, rfl⟩ := mapM_cons_ok_iff.mp h
    rw [List.mem_cons, ih hrest]
    simp [hz, eq_comm]

theorem ok_of_mapM_ok {xs : List α} {ys : List β} (h : xs.mapM f = .ok ys) {x : α} (hx : x ∈ xs) :
    ∃ y, f x = .ok y := by
  induction xs generalizing ys with
  | nil => cases hx
  | cons x' xs ih =>
    obtain ⟨y, hy, rest, hrest, -⟩ := mapM_cons_ok_iff.mp h
    rcases List.mem_cons.mp hx with rfl | hx
    · exact ⟨y, hy⟩
    · exact ih hrest hx

theorem length_of_mapM_ok {xs : List α} {ys : List β} (h : xs.mapM f = .ok ys) :
    ys.length = xs.length := by
  induction xs generalizing ys with
  | nil =>
    obtain rfl := Except.ok.inj h
    rfl
  | cons x xs ih =>
    obtain ⟨y, -, rest, hrest, rfl⟩ := mapM_cons_ok_iff.mp h
    rw [List.length_cons, List.length_cons, ih hrest]

theorem mapM_ok_eq_map {g : α → β} {xs : List α} {ys : List β}
    (hg : ∀ x y, f x = .ok y → y = g x) (h : xs.mapM f = .ok ys) : ys = xs.map g := by
  induction xs generalizing ys with
  | nil => exact (Except.ok.inj h).symm
  | cons x xs ih =>
    obtain ⟨y, hy, rest, hrest, rfl⟩ := mapM_cons_ok_iff.mp h
    rw [List.map_cons, ← hg x y hy, ← ih hrest]

theorem mapM_ok_of_forall {g : α → β} {xs : List α} (h : ∀ x ∈ xs, f x = .ok (g x)) :
    xs.mapM f = .ok (xs.map g) := by
  induction xs with
  | nil => rfl
  | cons x xs ih =>
    obtain ⟨hx, hxs⟩ := List.forall_mem_cons.mp h
    exact mapM_cons_ok_iff.mpr ⟨g x, hx, _, ih hxs, rfl⟩

/-- A list of steps fails as the first of them does that fails. -/
theorem mapM_error_iff {xs : List α} {e : ε} :
    xs.mapM f = .error e ↔ ∃ before x after, xs = before ++ x :: after ∧
      (∀ y ∈ before, ∃ z, f y = .ok z) ∧ f x = .error e := by
  induction xs with
  | nil => simp [pure, Except.pure]
  | cons x xs ih =>
    rw [List.mapM_cons]
    constructor
    · intro h
      rcases bind_error_iff.mp h with hx | ⟨y, hy, h⟩
      · exact ⟨[], x, xs, rfl, List.forall_mem_nil _, hx⟩
      · rcases bind_error_iff.mp h with hxs | ⟨ys, -, h⟩
        · obtain ⟨before, x', after, rfl, hbefore, he⟩ := ih.mp hxs
          exact ⟨x :: before, x', after, rfl, List.forall_mem_cons.mpr ⟨⟨y, hy⟩, hbefore⟩, he⟩
        · cases h
    · rintro ⟨_ | ⟨y, before⟩, x', after, heq, hbefore, he⟩
      · obtain ⟨rfl, rfl⟩ := List.cons.inj heq
        rw [he]
        rfl
      · obtain ⟨rfl, hxs⟩ := List.cons.inj heq
        obtain ⟨⟨z, hz⟩, hbefore⟩ := List.forall_mem_cons.mp hbefore
        rw [hz, ih.mpr ⟨before, x', after, hxs, hbefore, he⟩]
        rfl

theorem mapM_error {xs : List α} {e : ε} (h : xs.mapM f = .error e) : ∃ x ∈ xs, f x = .error e := by
  obtain ⟨before, x, after, rfl, -, hx⟩ := mapM_error_iff.mp h
  exact ⟨x, List.mem_append_right _ List.mem_cons_self, hx⟩

/-! ## Steps on a state -/

section State

variable {σ : Type}

theorem stateful_run_bind (a : ExceptT ε (StateM σ) α) (g : α → ExceptT ε (StateM σ) β) (s : σ) :
    ((a >>= g).run s : Except ε β × σ) =
      match (a.run s : Except ε α × σ) with
      | (.ok x, s') => (g x).run s'
      | (.error e, s') => (.error e, s') := by
  change ExceptT.bindCont g (a.run s).1 (a.run s).2 = _
  rcases (a.run s : Except ε α × σ) with ⟨_ | _, s'⟩ <;> rfl

theorem stateful_run_tryCatch (a : ExceptT ε (StateM σ) α) (g : ε → ExceptT ε (StateM σ) α) (s : σ) :
    ((tryCatch a g).run s : Except ε α × σ) =
      match (a.run s : Except ε α × σ) with
      | (.ok x, s') => (.ok x, s')
      | (.error e, s') => (g e).run s' := by
  simp only [tryCatch, tryCatchThe, MonadExceptOf.tryCatch, ExceptT.tryCatch, ExceptT.mk,
    ExceptT.run, bind, StateT.bind]
  rcases a s with ⟨_ | _, s'⟩ <;> rfl

end State

end CallArchive
