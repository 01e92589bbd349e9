import CallArchive.Proofs.Ingest.Transaction

/-!
# How many attempts, and which

What an attempt comes to is its `Ending`: it stops at the first of its calls that fails. An attempt
starts where the one before it ended, so each has its ending whether it is made or not
(`Transactions.endings`), and the last one that is made is the first that does not fail transiently,
or else the one that the limit allows last (`Last`). A run answers for this attempt, has paused once
before each but the first, and has made the calls of these attempts and no other. To see these every
call is noted (`Transactions.noted`).
-/

namespace CallArchive.Ingest

variable {σ α : Type}

/-! ## One attempt -/

/-- What an attempt calls. -/
inductive Call where
  | begin
  | work
  | commit
  | rollback
  deriving DecidableEq, Repr

/-- How an attempt ends: the call that failed, or what the work answered. -/
inductive Ending (α : Type) where
  | unbegun (e : Error)
  | unworked (e : Error)
  | uncommitted (a : α) (e : Error)
  | done (a : α)
  deriving DecidableEq, Repr

namespace Ending

def result : Ending α → Except Error α
  | unbegun e | unworked e | uncommitted _ e => .error e
  | done a => .ok a

/-- Only what has begun is taken back. -/
def calls : Ending α → List Call
  | unbegun _ => [.begin]
  | unworked _ => [.begin, .work, .rollback]
  | uncommitted _ _ => [.begin, .work, .commit, .rollback]
  | done _ => [.begin, .work, .commit]

def hasBegun : Ending α → Bool
  | unbegun _ => false
  | unworked _ | uncommitted _ _ | done _ => true

theorem count_begin_calls (es : List (Ending α)) :
    (es.flatMap calls).count .begin = es.length := by
  induction es with
  | nil => rfl
  | cons e es ih =>
    have hone : e.calls.count .begin = 1 := by cases e <;> rfl
    rw [List.flatMap_cons, List.count_append, hone, ih, List.length_cons, Nat.add_comm]

theorem count_work_calls (es : List (Ending α)) :
    (es.flatMap calls).count .work = es.countP hasBegun := by
  induction es with
  | nil => rfl
  | cons e es ih =>
    have hone : e.calls.count .work = if e.hasBegun then 1 else 0 := by cases e <;> rfl
    rw [List.flatMap_cons, List.count_append, hone, ih, List.countP_cons, Nat.add_comm]

end Ending

namespace Transactions

variable (t : Transactions σ) (work : ActionOn σ α)

/-- The ending of an attempt that starts at `x`, and what it leaves. -/
def ending (x : σ) : Ending α × σ :=
  match (t.begin.run x : Except Error Unit × σ) with
  | (.error e, x) => (.unbegun e, x)
  | (.ok (), x) =>
    match (work.run x : Except Error α × σ) with
    | (.error e, x) => (.unworked e, (t.rollback.run x).2)
    | (.ok a, x) =>
      match (t.commit.run x : Except Error Unit × σ) with
      | (.error e, x) => (.uncommitted a e, (t.rollback.run x).2)
      | (.ok (), x) => (.done a, x)

theorem run_rollbackQuietly (x : σ) :
    (t.rollbackQuietly.run x : Except Error Unit × σ) = (.ok (), (t.rollback.run x).2) := by
  rw [rollbackQuietly, stateful_run_tryCatch]
  rcases (t.rollback.run x : Except Error Unit × σ) with ⟨_ | _, x'⟩ <;> rfl

theorem run_within (x : σ) :
    ((t.within work).run x : Except Error α × σ)
      = ((t.ending work x).1.result, (t.ending work x).2) := by
  simp only [within, ending, stateful_run_bind, stateful_run_tryCatch, run_rollbackQuietly]
  rcases (t.begin.run x : Except Error Unit × σ) with ⟨e | _, x₁⟩
  · rfl
  simp only
  rcases (work.run x₁ : Except Error α × σ) with ⟨e | a, x₂⟩
  · rfl
  simp only
  rcases (t.commit.run x₂ : Except Error Unit × σ) with ⟨e | _, x₃⟩ <;> rfl

end Transactions

/-! ## Noting the calls -/

/-- An action that also notes that it is called. -/
def noted (c : Call) (a : ActionOn σ α) : ActionOn (σ × List Call) α :=
  ExceptT.mk fun (x, calls) => ((a.run x).1, (a.run x).2, calls ++ [c])

def Transactions.noted (t : Transactions σ) : Transactions (σ × List Call) :=
  ⟨Ingest.noted .begin t.begin, Ingest.noted .commit t.commit, Ingest.noted .rollback t.rollback⟩

theorem run_noted (c : Call) (a : ActionOn σ α) (x : σ) (calls : List Call) :
    ((noted c a).run (x, calls) : Except Error α × σ × List Call)
      = ((a.run x).1, (a.run x).2, calls ++ [c]) := rfl

theorem ending_noted (t : Transactions σ) (work : ActionOn σ α) (x : σ) (calls : List Call) :
    t.noted.ending (noted .work work) (x, calls)
      = ((t.ending work x).1, (t.ending work x).2, calls ++ (t.ending work x).1.calls) := by
  simp only [Transactions.ending, Transactions.noted, run_noted]
  rcases (t.begin.run x : Except Error Unit × σ) with ⟨e | _, x₁⟩
  · rfl
  simp only [run_noted]
  rcases (work.run x₁ : Except Error α × σ) with ⟨e | a, x₂⟩
  · simp [run_noted, Ending.calls]
  simp only [run_noted]
  rcases (t.commit.run x₂ : Except Error Unit × σ) with ⟨e | _, x₃⟩ <;>
    simp [run_noted, Ending.calls]

/-! ## One attempt after the other -/

/-- What attempt `n + i` comes to if attempt `n` starts at `x`. -/
def trail {β : Type} (attempt : Nat → σ → β × σ) : (n : Nat) → σ → Nat → β × σ
  | n, x, 0 => attempt n x
  | n, x, i + 1 => trail attempt (n + 1) (attempt n x).2 i

/-- What the attempts preserve that are followed by another holds where one of them starts. -/
theorem exists_trail {β : Type} {attempt : Nat → σ → β × σ} {I : σ → Prop} (again : β → Prop)
    (h : ∀ n x, I x → again (attempt n x).1 → I (attempt n x).2) {n j : Nat} {x : σ} (hx : I x)
    (hbefore : ∀ i < j, again (trail attempt n x i).1) :
    ∃ x', I x' ∧ trail attempt n x j = attempt (n + j) x' := by
  induction j generalizing n x with
  | zero => exact ⟨x, hx, rfl⟩
  | succ j ih =>
    have hfirst := hbefore 0 (Nat.succ_pos j)
    obtain ⟨x', hx', htrail⟩ := ih (h n x hx hfirst) fun i hi =>
      hbefore (i + 1) (Nat.succ_lt_succ hi)
    exact ⟨x', hx', by rw [trail, htrail, Nat.add_assoc, Nat.add_comm 1 j]⟩

def failsTransiently : Except Error α → Bool
  | .ok _ => false
  | .error e => e.isTransient

/-- With attempt `j`, counted from 0, it is over: it is the first that does not fail transiently, or
the one that the limit allows last. -/
structure Last (limit : Nat) (results : Nat → Except Error α) (j : Nat) : Prop where
  lt_limit : j < limit
  before : ∀ i < j, failsTransiently (results i) = true
  decided : failsTransiently (results j) = false ∨ j + 1 = limit

namespace Last

variable {limit j : Nat} {results : Nat → Except Error α}

theorem unique {j' : Nat} (h : Last limit results j) (h' : Last limit results j') : j' = j := by
  -- Whichever comes later, the other would have been followed by no attempt.
  have key : ∀ {a b : Nat}, Last limit results a → Last limit results b → ¬ a < b := by
    intro a b ha hb hlt
    rcases ha.decided with hfinal | hlimit
    · exact absurd (hb.before a hlt) (by rw [hfinal]; decide)
    · have := hb.lt_limit
      omega
  have := key h h'
  have := key h' h
  omega

theorem tail (h : Last (limit + 1) results (j + 1)) :
    Last limit (fun i => results (i + 1)) j where
  lt_limit := Nat.lt_of_succ_lt_succ h.lt_limit
  before := fun i hi => h.before (i + 1) (Nat.succ_lt_succ hi)
  decided := h.decided.imp_right Nat.succ.inj

theorem cons (hfirst : failsTransiently (results 0) = true)
    (h : Last limit (fun i => results (i + 1)) j) : Last (limit + 1) results (j + 1) where
  lt_limit := Nat.succ_lt_succ h.lt_limit
  before := fun i hi => by
    cases i with
    | zero => exact hfirst
    | succ i => exact h.before i (Nat.lt_of_succ_lt_succ hi)
  decided := h.decided.imp_right (congrArg Nat.succ)

end Last

theorem exists_last {limit : Nat} (hlimit : 0 < limit) (results : Nat → Except Error α) :
    ∃ j, Last limit results j := by
  induction limit generalizing results with
  | zero => exact absurd hlimit (Nat.lt_irrefl 0)
  | succ limit ih =>
    have hnone : ∀ i < 0, failsTransiently (results i) = true :=
      fun i hi => absurd hi (Nat.not_lt_zero i)
    cases hfirst : failsTransiently (results 0) with
    | false => exact ⟨0, Nat.succ_pos limit, hnone, .inl hfirst⟩
    | true =>
      cases limit with
      | zero => exact ⟨0, Nat.one_pos, hnone, .inr rfl⟩
      | succ limit =>
        obtain ⟨j, hj⟩ := ih (Nat.succ_pos limit) fun i => results (i + 1)
        exact ⟨j + 1, hj.cons hfirst⟩

/-- What a run answers whose last attempt is number `n`. -/
def verdict (n : Nat) : Except Error α → Except Error (α × Nat)
  | .ok a => .ok (a, n)
  | .error e => .error (if e.isTransient then .retriesExhausted n e else e)

/-- A run from attempt `n` on goes as far as the last attempt. -/
theorem RetryPolicy.runFrom_eq (p : RetryPolicy) {attempt : Nat → σ → Except Error α × σ}
    {left n j : Nat} {x : σ} (h : Last (left + 1) (fun i => (trail attempt n x i).1) j) :
    p.runFrom attempt left n x
      = ⟨verdict (n + j) (trail attempt n x j).1, (List.range j).map fun i => p.backoff * (n + i),
        (trail attempt n x j).2⟩ := by
  induction j generalizing left n x with
  | zero =>
    rcases hrun : attempt n x with ⟨e | a, x'⟩
    · cases he : e.isTransient with
      | false =>
        rw [p.runFrom_final hrun he]
        simp [trail, hrun, verdict, he]
      | true =>
        obtain rfl : left = 0 := by
          rcases h.decided with hfinal | hlimit
          · simp [trail, hrun, failsTransiently, he] at hfinal
          · omega
        rw [p.runFrom_last hrun he]
        simp [trail, hrun, verdict, he]
    · rw [p.runFrom_ok hrun]
      simp [trail, hrun, verdict]
  | succ j ih =>
    obtain ⟨left, rfl⟩ : ∃ left', left = left' + 1 := ⟨left - 1, by have := h.lt_limit; omega⟩
    have hfirst := h.before 0 (Nat.succ_pos j)
    rcases hrun : attempt n x with ⟨e | a, x'⟩
    · have he : e.isTransient = true := by simpa [trail, hrun, failsTransiently] using hfirst
      have hrest : Last (left + 1) (fun i => (trail attempt (n + 1) x' i).1) j := by
        simpa [trail, hrun] using h.tail
      have hshift : ∀ i, n + 1 + i = n + (i + 1) := fun i => by omega
      rw [p.runFrom_again hrun he, ih hrest, List.range_succ_eq_map]
      simp [trail, hrun, hshift, Function.comp_def]
    · simp [trail, hrun, failsTransiently] at hfirst

/-! ## Runs -/

/-- How attempt `i` ends, counted from 0, and what it leaves. -/
def Transactions.endings (t : Transactions σ) (work : Nat → ActionOn σ α) (x : σ) (i : Nat) :
    Ending α × σ :=
  trail (fun n => t.ending (work n)) 1 x i

def Transactions.results (t : Transactions σ) (work : Nat → ActionOn σ α) (x : σ) (i : Nat) :
    Except Error α :=
  (t.endings work x i).1.result

/-- The endings of the first `n` attempts. -/
def Transactions.made (t : Transactions σ) (work : Nat → ActionOn σ α) (x : σ) (n : Nat) :
    List (Ending α) :=
  (List.range n).map fun i => (t.endings work x i).1

theorem trail_within (t : Transactions σ) (work : Nat → ActionOn σ α) (n : Nat) (x : σ) (i : Nat) :
    trail (fun n x => (t.within (work n)).run x) n x i
      = ((trail (fun n => t.ending (work n)) n x i).1.result,
        (trail (fun n => t.ending (work n)) n x i).2) := by
  induction i generalizing n x with
  | zero => exact t.run_within (work n) x
  | succ i ih => rw [trail, trail, ih, t.run_within]

theorem trail_noted (t : Transactions σ) (work : Nat → ActionOn σ α) (n : Nat) (x : σ)
    (calls : List Call) (i : Nat) :
    trail (fun n => t.noted.ending (noted .work (work n))) n (x, calls) i
      = ((trail (fun n => t.ending (work n)) n x i).1, (trail (fun n => t.ending (work n)) n x i).2,
        calls ++ (List.range (i + 1)).flatMap fun i =>
          (trail (fun n => t.ending (work n)) n x i).1.calls) := by
  induction i generalizing n x calls with
  | zero => simp [trail, ending_noted]
  | succ i ih =>
    rw [trail, ending_noted, ih, List.range_succ_eq_map (n := i + 1)]
    simp [trail, List.flatMap_map]

/-- What a run comes to whose attempt `j` is the last. -/
structure Ran (t : Transactions σ) (work : Nat → ActionOn σ α) (x : σ) (limit backoff j : Nat)
    (run : RetryRun (σ × List Call) α) : Prop where
  succeeds : ∀ a, (t.endings work x j).1 = .done a → run.result = .ok (a, j + 1)
  fails : ∀ e, t.results work x j = .error e → e.isTransient = false →
    run.result = .error e
  exhausts : ∀ e, t.results work x j = .error e → e.isTransient = true →
    j + 1 = limit ∧ run.result = .error (.retriesExhausted limit e)
  pauses : run.pauses = (List.range j).map fun i => (i + 1) * backoff
  state : run.state.1 = (t.endings work x j).2
  calls : run.state.2 = (t.made work x (j + 1)).flatMap Ending.calls
  count_begin : run.state.2.count .begin = j + 1
  count_work : run.state.2.count .work = (t.made work x (j + 1)).countP Ending.hasBegun

section Run

variable (t : Transactions σ) (work : Nat → ActionOn σ α) (x : σ) {limit backoff j : Nat}

theorem runIn_eq (hlimit : 0 < limit) (h : Last limit (t.results work x) j) :
    RetryPolicy.runIn ⟨limit, backoff⟩ t work x
      = ⟨verdict (1 + j) (t.results work x j),
        (List.range j).map fun i => backoff * (1 + i), (t.endings work x j).2⟩ := by
  obtain ⟨left, rfl⟩ := Nat.exists_eq_add_of_lt hlimit
  rw [Nat.zero_add] at h
  have hlast : Last (left + 1)
      (fun i => (trail (fun n x => (t.within (work n)).run x) 1 x i).1) j := by
    simp only [trail_within]
    exact h
  rw [RetryPolicy.runIn, RetryPolicy.run, Nat.zero_add, Nat.add_sub_cancel,
    RetryPolicy.runFrom_eq _ hlast, trail_within]
  rfl

/-- Whether the calls are noted makes no difference to the attempts. -/
theorem endings_noted (i : Nat) :
    t.noted.endings (fun n => noted .work (work n)) (x, []) i
      = ((t.endings work x i).1, (t.endings work x i).2,
        (t.made work x (i + 1)).flatMap Ending.calls) := by
  rw [Transactions.endings, trail_noted, Transactions.made, List.flatMap_map, List.nil_append]
  rfl

theorem results_noted :
    t.noted.results (fun n => noted .work (work n)) (x, []) = t.results work x := by
  funext i
  rw [Transactions.results, endings_noted]
  rfl

theorem ran_noted (hlimit : 0 < limit) (h : Last limit (t.results work x) j) :
    Ran t work x limit backoff j
      (RetryPolicy.runIn ⟨limit, backoff⟩ t.noted (fun n => noted .work (work n)) (x, [])) := by
  have hnoted : Last limit (t.noted.results (fun n => noted .work (work n)) (x, [])) j :=
    results_noted t work x ▸ h
  rw [runIn_eq t.noted _ _ hlimit hnoted, endings_noted]
  refine ⟨?_, ?_, ?_, ?_, rfl, rfl, ?_, ?_⟩
  · intro a ha
    have hresult : t.results work x j = .ok a := congrArg Ending.result ha
    rw [results_noted, hresult, Nat.add_comm 1 j]
    rfl
  · intro e he hfinal
    simp [results_noted, he, verdict, hfinal]
  · intro e he hagain
    have hj : j + 1 = limit := h.decided.resolve_left (by simp [he, failsTransiently, hagain])
    simp [results_noted, he, verdict, hagain, ← hj, Nat.add_comm 1 j]
  · simp only [Nat.add_comm 1, Nat.mul_comm backoff]
  · simp [Ending.count_begin_calls, Transactions.made]
  · exact Ending.count_work_calls _

end Run

/-- However often may be tried, and whatever begin, work and commit come to each time: the attempts
that are made are those up to the first that does not fail transiently, or as many as the limit
allows. The calls can be noted without changing the run. -/
theorem attempts_exact (limit backoff : Nat) (t : Transactions σ) (work : Nat → ActionOn σ α)
    (x : σ) :
    ∃ j, Last (max limit 1) (t.results work x) j ∧
      (∀ j', Last (max limit 1) (t.results work x) j' → j' = j) ∧
      ∃ run, (RetryPolicy.new limit backoff).runIn t.noted (fun n => noted .work (work n)) (x, [])
          = run ∧
        Ran t work x (max limit 1) backoff j run ∧
        (RetryPolicy.new limit backoff).runIn t work x
          = ⟨run.result, run.pauses, run.state.1⟩ := by
  have hlimit : 0 < max limit 1 := Nat.lt_of_lt_of_le Nat.one_pos (Nat.le_max_right limit 1)
  obtain ⟨j, hj⟩ := exists_last hlimit (t.results work x)
  refine ⟨j, hj, fun j' hj' => hj.unique hj', _, rfl, ran_noted t work x hlimit hj, ?_⟩
  have hnoted : Last (max limit 1) (t.noted.results (fun n => noted .work (work n)) (x, [])) j :=
    results_noted t work x ▸ hj
  rw [RetryPolicy.new, runIn_eq t work x hlimit hj, runIn_eq t.noted _ _ hlimit hnoted,
    endings_noted, results_noted]

/-! ## Every script of endings -/

/-- Transactions, and work, that fail as a script says. The state is the number of attempts made. -/
def scripted (script : Nat → Ending α) : Transactions Nat where
  begin := ExceptT.mk fun n =>
    match script n with
    | .unbegun e => (.error e, n + 1)
    | _ => (.ok (), n)
  commit := ExceptT.mk fun n =>
    match script n with
    | .uncommitted _ e => (.error e, n)
    | _ => (.ok (), n + 1)
  rollback := ExceptT.mk fun n => (.ok (), n + 1)

def scriptedWork (script : Nat → Ending α) : ActionOn Nat α := ExceptT.mk fun n =>
  match script n with
  | .unbegun e | .unworked e => (.error e, n)
  | .uncommitted a _ | .done a => (.ok a, n)

theorem ending_scripted (script : Nat → Ending α) (n : Nat) :
    (scripted script).ending (scriptedWork script) n = (script n, n + 1) := by
  simp only [Transactions.ending, scripted, scriptedWork, ExceptT.run_mk]
  cases h : script n <;> simp [h]

theorem endings_scripted (script : Nat → Ending α) (i : Nat) :
    ((scripted script).endings (fun _ => scriptedWork script) 0 i).1 = script i := by
  have key : ∀ n m, (trail (fun _ => (scripted script).ending (scriptedWork script)) m n i)
      = (script (n + i), n + i + 1) := by
    induction i with
    | zero => exact fun n m => ending_scripted script n
    | succ i ih =>
      intro n m
      rw [trail, ending_scripted, ih, Nat.add_assoc n 1 i, Nat.add_comm 1 i]
  rw [Transactions.endings, key, Nat.zero_add]

/-- The file is locked at first, then the connection is lost before the commit. -/
def interrupted : Nat → Ending Unit
  | 0 => .unbegun (.store .locked)
  | 1 => .uncommitted () (.store .closed)
  | _ => .done ()

example :
    let run := (RetryPolicy.new 3 10).runIn (scripted interrupted).noted
      (fun _ => noted .work (scriptedWork interrupted)) (0, [])
    run.result = .ok ((), 3) ∧ run.pauses = [10, 20] ∧
      run.state.2 = [.begin, .begin, .work, .commit, .rollback, .begin, .work, .commit] :=
  ⟨rfl, rfl, rfl⟩

end CallArchive.Ingest
