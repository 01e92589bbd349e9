import CallArchive.Proofs.Ingest.Attempts
import CallArchive.Proofs.Store.Programs

/-!
# Attempts leave no transaction open

Work may be any `Program` on the store: it may end the transaction that it is called in, or close
the store. An attempt has begun only if there was no transaction, and then it ends with none: if
there is one after the work it is committed or taken back, and a connection that is closed has none
(`released_transaction`). Work that leaves its transaction open, as it does unless it commits, takes
back or closes (`leavesOpen_of_steady`), is committed as a whole, or nothing is
(`settled_transaction`). Neither touches a transaction that it has not begun.
-/

namespace CallArchive.Ingest

open Store (Action ConnectionName Database File History Operation Power Program run_onFile
  run_onFile_closed)

variable {α : Type} {s : Store} {c : ConnectionName}

/-! ## Work that may do anything -/

/-- A store under the name of a connection: no other connection has a transaction open, and once the
store is closed there is none at all. -/
structure Bound (c : ConnectionName) (s : Store) : Prop where
  connection : s.connection = c
  mayWrite : s.file.MayWrite c
  closed : s.isOpen = false → s.file.writer = none

/-- No transaction is open. -/
structure Released (c : ConnectionName) (s : Store) : Prop where
  connection : s.connection = c
  free : s.file.writer = none

section File

variable {f : File}

theorem mayWrite_of_free (h : f.writer = none) : f.MayWrite c :=
  fun _ hw => nomatch h.symm.trans hw

theorem writer_disconnect_of_mayWrite (h : f.MayWrite c) : (f.disconnect c).writer = none := by
  refine Option.eq_none_iff_forall_ne_some.mpr fun w hw => ?_
  obtain ⟨hwriter, hother⟩ := File.writer_disconnect hw
  exact hother (h w hwriter)

theorem writer_rollback_of_mayWrite (h : f.MayWrite c) : (f.rollback c).2.writer = none := by
  unfold File.rollback
  split
  · exact writer_disconnect_of_mayWrite h
  · next hnot =>
    refine Option.eq_none_iff_forall_ne_some.mpr fun w hwriter => hnot ?_
    exact File.isWriter_iff.mpr ⟨w, hwriter, h w hwriter⟩

theorem mayWrite_begin (h : f.MayWrite c) : (f.begin c).2.MayWrite c := by
  unfold File.begin
  split
  · intro w hw
    obtain rfl := Option.some.inj hw
    rfl
  · exact h

theorem mayWrite_commit (h : f.MayWrite c) : (f.commit c).2.MayWrite c := by
  rcases f.commit_cases c with ⟨w, -, -, hcommit⟩ | ⟨e, hcommit⟩
  · rw [hcommit]
    exact mayWrite_of_free rfl
  · rw [hcommit]
    exact h

end File

theorem state_read (query : Database → α) (s : Store) :
    ((Store.read query).run s : Except Error α × Store).2 = s := by
  obtain ⟨f, c, o, p, t⟩ := s
  cases o <;> rfl

theorem state_readRows (query : Database → Except StoreError α) (s : Store) :
    ((Store.readRows query).run s : Except Error α × Store).2 = s := by
  cases ho : s.isOpen with
  | true => rw [Store.run_readRows ho]
  | false => rw [Store.run_readRows_closed ho]

theorem Bound.history (h : Bound c s) (t : History) : Bound c { s with history := t } :=
  ⟨h.connection, h.mayWrite, h.closed⟩

theorem Released.bound (h : Released c s) : Bound c s :=
  ⟨h.connection, mayWrite_of_free h.free, fun _ => h.free⟩

theorem Bound.onFile {step : File → ConnectionName → Except StoreError α × File} (h : Bound c s)
    (hstep : ∀ f : File, f.MayWrite c → (step f c).2.MayWrite c) :
    Bound c ((Store.onFile step).run s : Except Error α × Store).2 := by
  obtain ⟨rfl, hmay, hfree⟩ := h
  cases ho : s.isOpen with
  | true =>
    rw [run_onFile ho]
    exact ⟨rfl, hstep s.file hmay, fun hclosed => nomatch ho.symm.trans hclosed⟩
  | false =>
    rw [run_onFile_closed ho]
    exact ⟨rfl, hmay, hfree⟩

theorem Bound.released_close (h : Bound c s) : Released c s.close := by
  obtain ⟨rfl, hmay, hfree⟩ := h
  refine ⟨rfl, ?_⟩
  unfold Store.close
  cases ho : s.isOpen with
  | true => exact writer_disconnect_of_mayWrite hmay
  | false => exact hfree ho

theorem Bound.released_rollback (h : Bound c s) :
    Released c (Store.rollbackTransaction.run s : Except Error Unit × Store).2 := by
  obtain ⟨rfl, hmay, hfree⟩ := h
  rw [Store.rollbackTransaction]
  cases ho : s.isOpen with
  | true =>
    rw [run_onFile ho]
    exact ⟨rfl, writer_rollback_of_mayWrite hmay⟩
  | false =>
    rw [run_onFile_closed ho]
    exact ⟨rfl, hfree ho⟩

theorem Bound.released_commit (h : Bound c s) {s' : Store}
    (hok : (Store.commitTransaction.run s : Except Error Unit × Store) = (.ok (), s')) :
    Released c s' := by
  rw [Store.commitTransaction] at hok
  cases ho : s.isOpen with
  | true =>
    rw [run_onFile ho] at hok
    obtain ⟨hresult, rfl⟩ := Prod.mk.inj hok
    rcases s.file.commit_cases s.connection with ⟨w, -, -, hcommit⟩ | ⟨e, hcommit⟩
    · rw [hcommit]
      exact ⟨h.connection, rfl⟩
    · rw [hcommit] at hresult
      cases hresult
  | false =>
    rw [run_onFile_closed ho] at hok
    cases hok

theorem Bound.operation {p : Power} {a : Action α} (h : Bound c s) (ho : Operation p a) :
    Bound c (a.run s : Except Error α × Store).2 := by
  cases ho with
  | write hw =>
    obtain ⟨f, nothing, hwrote⟩ := hw.wrote s
    generalize (a.run s : Except Error α × Store) = r at hwrote ⊢
    cases hwrote with
    | done hs _ =>
      exact ⟨h.connection, File.mayWrite_replace h.mayWrite,
        fun hclosed => nomatch hs.isOpen.symm.trans hclosed⟩
    | skipped => exact h.history _
    | refused => exact h.history _
  | read query => exact (state_read query s).symm ▸ h
  | readRows query => exact (state_readRows query s).symm ▸ h
  | begin =>
    rw [Store.beginTransaction, Store.run_bind]
    exact (h.history _).onFile fun _ => mayWrite_begin
  | commit => exact h.onFile fun _ => mayWrite_commit
  | rollback => exact h.released_rollback.bound
  | close => exact h.released_close.bound

/-- What holds while the work goes on, and what holds after it, of an attempt. -/
theorem Transactions.ending_state {σ : Type} {t : Transactions σ} {work : ActionOn σ α} {x : σ}
    (During After : σ → Prop)
    (hunbegun : ∀ e x', (t.begin.run x : Except Error Unit × σ) = (.error e, x') → After x')
    (hbegun : ∀ x', (t.begin.run x : Except Error Unit × σ) = (.ok (), x') → During x')
    (hwork : ∀ x, During x → During (work.run x : Except Error α × σ).2)
    (hcommit : ∀ x, During x → During (t.commit.run x : Except Error Unit × σ).2)
    (hdone : ∀ x x', During x → (t.commit.run x : Except Error Unit × σ) = (.ok (), x') → After x')
    (hrollback : ∀ x, During x → After (t.rollback.run x : Except Error Unit × σ).2) :
    After (t.ending work x).2 := by
  unfold Transactions.ending
  rcases hb : (t.begin.run x : Except Error Unit × σ) with ⟨e | _, x₁⟩
  · exact hunbegun e x₁ hb
  have h₁ := hwork x₁ (hbegun x₁ hb)
  simp only
  rcases hw : (work.run x₁ : Except Error α × σ) with ⟨e | a, x₂⟩
  · rw [hw] at h₁
    exact hrollback x₂ h₁
  rw [hw] at h₁
  have h₂ := hcommit x₂ h₁
  simp only
  rcases hc : (t.commit.run x₂ : Except Error Unit × σ) with ⟨e | _, x₃⟩
  · rw [hc] at h₂
    exact hrollback x₃ h₂
  · exact hdone x₂ x₃ h₁ hc

/-- Whatever its work does, an attempt ends without a transaction. -/
theorem released_transaction {K : Power → Prop} {work : Action α} (hwork : Program K work)
    (h : Released c s) : Released c ((transaction work).run s : Except Error α × Store).2 := by
  rw [transaction, Transactions.run_within]
  refine Transactions.ending_state (Bound c) (Released c) ?_ ?_ ?_ ?_ ?_ ?_
  · intro e s' hbegin
    have hi : ¬ Idle s := fun hi => nomatch hbegin.symm.trans (run_beginTransaction hi)
    obtain ⟨cause, hrefused, -⟩ := run_beginTransaction_error hi
    obtain ⟨-, rfl⟩ := Prod.mk.inj (hbegin.symm.trans hrefused)
    exact ⟨h.connection, h.free⟩
  · intro s' hbegin
    have hbound : Bound c (Store.beginTransaction.run s : Except Error Unit × Store).2 :=
      h.bound.operation .begin
    have hstate : (Store.beginTransaction.run s : Except Error Unit × Store).2 = s' :=
      congrArg Prod.snd hbegin
    exact hstate ▸ hbound
  · intro s hs
    exact hwork.preserves (P := Bound c) (fun _ ho _ hs => hs.operation ho) hs
  · intro s hs
    show Bound c (Store.commitTransaction.run s : Except Error Unit × Store).2
    exact hs.operation .commit
  · exact fun s s' hs hok => hs.released_commit hok
  · exact fun s hs => hs.released_rollback

/-! ## Work that leaves its transaction alone -/

/-- What does not end a transaction. -/
def Steady (p : Power) : Prop := p ≠ .commit ∧ p ≠ .rollback ∧ p ≠ .close

/-- The store in a transaction that began at `s`, with some of the work done. -/
def Under (s x : Store) : Prop := ∃ db t, x = (begun s).worked db t

theorem under_begun (s : Store) : Under s (begun s) := ⟨s.file.committed, (begun s).history, rfl⟩

theorem Under.history {x : Store} (h : Under s x) (t : History) :
    Under s { x with history := t } := by
  obtain ⟨db, t', rfl⟩ := h
  exact ⟨db, t, rfl⟩

theorem Under.operation {x : Store} (h : Under s x) {p : Power} {a : Action α} (hp : Steady p)
    (ho : Operation p a) :
    Under s (a.run x : Except Error α × Store).2 := by
  cases ho with
  | write hw =>
    obtain ⟨f, nothing, hwrote⟩ := hw.wrote x
    generalize (a.run x : Except Error α × Store) = r at hwrote ⊢
    cases hwrote with
    | @done a db t hs _ =>
      obtain ⟨db', t', rfl⟩ := h
      exact ⟨db, t, Store.worked_worked db t⟩
    | skipped => exact h.history _
    | refused => exact h.history _
  | read query => exact (state_read query x).symm ▸ h
  | readRows query => exact (state_readRows query x).symm ▸ h
  | begin =>
    have hi : ¬ Idle x := by
      obtain ⟨db, t, rfl⟩ := h
      exact fun hi => nomatch hi.free
    obtain ⟨cause, hrefused, -⟩ := run_beginTransaction_error hi
    rw [hrefused]
    exact h.history _
  | commit => exact absurd rfl hp.1
  | rollback => exact absurd rfl hp.2.1
  | close => exact absurd rfl hp.2.2

/-- The transaction that the work is called in is still open after it. -/
def LeavesOpen (s : Store) (work : Action α) : Prop :=
  ∀ t, Under { s with history := t }
    (work.run (begun { s with history := t }) : Except Error α × Store).2

theorem leavesOpen_of_steady {work : Action α} (h : Program Steady work) (s : Store) :
    LeavesOpen s work := by
  intro t
  exact h.preserves (P := Under { s with history := t }) (fun hp ho _ hx => hx.operation hp ho)
    (under_begun _)

/-- How an attempt ends whose work leaves its transaction alone: what the work has made of the
database is committed, or the file is as it was. -/
inductive Settled (s : Store) (work : Action α) : Except Error α × Store → Prop where
  | done {a : α} {t : History} {s' : Store} (free : s.file.writer = none)
      (hrun : (work.run (begun { s with history := t }) : Except Error α × Store) = (.ok a, s')) :
      Settled s work (.ok a, { s with file := ⟨s'.view, none⟩, history := s'.history })
  | failed {e : Error} {t : History} : Settled s work (.error e, { s with history := t })

theorem settled_transaction {work : Action α} (hwork : s.file.writer = none → LeavesOpen s work)
    (t : History) : Settled s work ((transaction work).run { s with history := t }) := by
  by_cases hi : Idle { s with history := t }
  · have hunder := hwork hi.free t
    rcases hrun : (work.run (begun { s with history := t }) : Except Error α × Store) with
      ⟨e | a, s'⟩
    · rw [hrun] at hunder
      obtain ⟨db, t', rfl⟩ := hunder
      rw [run_transaction_error hi hrun]
      exact .failed
    · rw [hrun] at hunder
      obtain ⟨db, t', rfl⟩ := hunder
      rw [run_transaction_ok hi hrun]
      have hview : ((begun { s with history := t }).worked db t').view = db :=
        (ready_begun hi.isOpen).view_worked
      have hdone := Settled.done (s := s) (t := t) hi.free hrun
      rw [hview] at hdone
      exact hdone
  · obtain ⟨cause, hbegin, -⟩ := run_beginTransaction_error hi
    rw [transaction_eq, Store.run_bind, hbegin]
    exact .failed

/-! ## Runs -/

section Run

variable (limit backoff : Nat) {work : Nat → Action α}

/-- A run of attempts comes to the last of them, which starts from what those before it preserve. -/
theorem exists_last_attempt {I : Store → Prop}
    (h : ∀ n x, I x →
      failsTransiently ((transaction (work n)).run x : Except Error α × Store).1 = true →
      I ((transaction (work n)).run x : Except Error α × Store).2) (hs : I s) :
    ∃ n pauses x, I x ∧ (RetryPolicy.new limit backoff).runTransaction work s
      = ⟨verdict n ((transaction (work n)).run x).1, pauses, ((transaction (work n)).run x).2⟩ := by
  obtain ⟨left, hleft⟩ : ∃ left, max limit 1 = left + 1 := ⟨max limit 1 - 1, by omega⟩
  obtain ⟨j, hj⟩ := exists_last (Nat.succ_pos left)
    fun i => (trail (fun n x => ((transaction (work n)).run x : Except Error α × Store)) 1 s i).1
  obtain ⟨x, hx, htrail⟩ := exists_trail (fun r => failsTransiently r = true) h hs hj.before
  refine ⟨1 + j, (List.range j).map fun i => backoff * (1 + i), x, hx, ?_⟩
  rw [runTransaction_eq, RetryPolicy.new, hleft, Nat.add_sub_cancel,
    RetryPolicy.runFrom_eq _ hj, htrail]

-- Where a transaction is open already none begins, so nothing is asked of the work there.
theorem settled_run (hwork : s.file.writer = none → ∀ n, LeavesOpen s (work n)) :
    ∃ k pauses r, Settled s (work k) r ∧ (RetryPolicy.new limit backoff).runTransaction work s
      = ⟨verdict k r.1, pauses, r.2⟩ := by
  have hagain : ∀ n x, (∃ t, x = { s with history := t }) →
      failsTransiently ((transaction (work n)).run x : Except Error α × Store).1 = true →
      ∃ t, ((transaction (work n)).run x : Except Error α × Store).2 = { s with history := t } := by
    rintro n _ ⟨t, rfl⟩ hfails
    have hsettled := settled_transaction (fun hw => hwork hw n) t
    generalize ((transaction (work n)).run { s with history := t } : Except Error α × Store) = r
      at hfails hsettled ⊢
    cases hsettled with
    | done => cases hfails
    | failed => exact ⟨_, rfl⟩
  obtain ⟨k, pauses, x, ⟨t, rfl⟩, hrun⟩ :=
    exists_last_attempt limit backoff hagain ⟨s.history, rfl⟩
  exact ⟨k, pauses, _, settled_transaction (fun hw => hwork hw k) t, hrun⟩

theorem released_run {K : Power → Prop} (hwork : ∀ n, Program K (work n)) (h : Released c s) :
    Released c ((RetryPolicy.new limit backoff).runTransaction work s).state := by
  obtain ⟨k, pauses, x, hx, hrun⟩ := exists_last_attempt limit backoff
    (fun n x hx _ => released_transaction (hwork n) hx) h
  rw [hrun]
  exact released_transaction (hwork k) hx

/-- Who has a transaction open cannot begin another. -/
theorem ending_nested (ho : s.isOpen = true) (hw : s.file.isWriter s.connection = true)
    (work : Action α) :
    ∃ t, storeTransactions.ending work s
      = (.unbegun (.store .nestedTransaction), { s with history := t }) := by
  obtain ⟨w, hwriter, howner⟩ := File.isWriter_iff.mp hw
  have hbegin : (storeTransactions.begin.run s : Except Error Unit × Store)
      = (.error (.store .nestedTransaction),
        { s with history := { s.history with transactions := s.history.transactions + 1 } }) := by
    obtain ⟨⟨committed, writer⟩, c, o, p, t⟩ := s
    obtain rfl : writer = some w := hwriter
    obtain rfl : o = true := ho
    show (Store.beginTransaction.run _ : Except Error Unit × Store) = _
    rw [Store.beginTransaction, Store.run_bind]
    refine (run_onFile rfl).trans ?_
    simp only [File.begin, if_pos howner]
    rfl
  exact ⟨_, by rw [Transactions.ending, hbegin]⟩

/-- The first attempt is the last then, and calls nothing else. -/
theorem nested_run (work : Nat → Action α) (ho : s.isOpen = true)
    (hw : s.file.isWriter s.connection = true) :
    ∃ t, (RetryPolicy.new limit backoff).runTransaction work s
        = ⟨.error (.store .nestedTransaction), [], { s with history := t }⟩ ∧
      ((RetryPolicy.new limit backoff).runIn storeTransactions.noted
        (fun n => noted .work (work n)) (s, [])).state.2 = [.begin] := by
  have hlimit : 0 < max limit 1 := Nat.lt_of_lt_of_le Nat.one_pos (Nat.le_max_right limit 1)
  obtain ⟨t, hending⟩ := ending_nested ho hw (work 1)
  have hfirst : storeTransactions.endings work s 0
      = (.unbegun (.store .nestedTransaction), { s with history := t }) := hending
  have hresult : storeTransactions.results work s 0 = .error (.store .nestedTransaction) :=
    congrArg (fun r => r.1.result) hfirst
  have hlast : Last (max limit 1) (storeTransactions.results work s) 0 :=
    ⟨hlimit, fun i hi => absurd hi (Nat.not_lt_zero i), .inl (by rw [hresult]; rfl)⟩
  refine ⟨t, ?_, ?_⟩
  · rw [RetryPolicy.runTransaction, RetryPolicy.new,
      runIn_eq storeTransactions work s hlimit hlast, hresult, hfirst]
    rfl
  · rw [RetryPolicy.new, (ran_noted storeTransactions work s hlimit hlast).calls,
      Transactions.made, List.range_one, List.map_singleton, hfirst]
    rfl

end Run

/-- What a run of attempts leaves of transactions and of the rows: it begins none where one is open,
leaves none open, and changes the rows only by the work that it answers for, unless the work itself
ends its transaction. -/
structure Clean (s : Store) (work : Nat → Action α) (run : RetryRun Store α) (calls : List Call) :
    Prop where
  nested : s.isOpen = true → s.file.isWriter s.connection = true →
    ∃ e t, run = ⟨.error e, [], { s with history := t }⟩ ∧ e.failureClass = .fatal ∧
      calls = [.begin]
  busy : ∀ w, s.file.writer = some w → ∃ t, run.state = { s with history := t }
  released : s.file.writer = none → Released s.connection run.state
  failed : (∀ n, LeavesOpen s (work n)) → ∀ e, run.result = .error e →
    ∃ t, run.state = { s with history := t }
  done : (∀ n, LeavesOpen s (work n)) → ∀ a k, run.result = .ok (a, k) →
    s.file.writer = none ∧ ∃ t s',
      ((work k).run (begun { s with history := t }) : Except Error α × Store) = (.ok a, s') ∧
      run.state = { s with file := ⟨s'.view, none⟩, history := s'.history }

theorem attempts_clean (limit backoff : Nat) {work : Nat → Action α}
    (hwork : ∀ n, Program (fun _ => True) (work n)) (s : Store) :
    Clean s work ((RetryPolicy.new limit backoff).runTransaction work s)
      ((RetryPolicy.new limit backoff).runIn storeTransactions.noted
        (fun n => noted .work (work n)) (s, [])).state.2 where
  nested := by
    intro ho hw
    obtain ⟨t, hrun, hcalls⟩ := nested_run limit backoff work ho hw
    exact ⟨_, t, hrun, rfl, hcalls⟩
  busy := by
    intro w hw
    have hvacuous : s.file.writer = none → ∀ n, LeavesOpen s (work n) :=
      fun hfree => nomatch hfree.symm.trans hw
    obtain ⟨k, pauses, r, hsettled, hrun⟩ := settled_run limit backoff hvacuous
    rw [hrun]
    cases hsettled with
    | done free => exact nomatch free.symm.trans hw
    | failed => exact ⟨_, rfl⟩
  released := fun hfree => released_run limit backoff hwork ⟨rfl, hfree⟩
  failed := by
    intro hopen e he
    obtain ⟨k, pauses, r, hsettled, hrun⟩ := settled_run limit backoff fun _ => hopen
    rw [hrun] at he ⊢
    cases hsettled with
    | done => cases he
    | failed => exact ⟨_, rfl⟩
  done := by
    intro hopen a n hok
    obtain ⟨k, pauses, r, hsettled, hrun⟩ := settled_run limit backoff fun _ => hopen
    rw [hrun] at hok ⊢
    cases hsettled with
    | done free hwork =>
      obtain ⟨rfl, rfl⟩ := Prod.mk.inj (Except.ok.inj hok)
      exact ⟨free, _, _, hwork, rfl⟩
    | failed => cases hok

/-- The connection is lost once, after a row has been written. -/
def interruptedWork (n : Nat) : Action Store.RowId := do
  let id ← Store.upsertPackage (.named "p" "mvn")
  if n = 1 then throw (.store .closed) else return id

/-- Commits early, writes once more, and then closes the store. -/
def hastyWork (_ : Nat) : Action Unit := do
  Store.commitTransaction
  let _ ← Store.upsertPackage (.named "q" "mvn")
  modify Store.close

theorem program_interruptedWork (n : Nat) : Program (· ∈ [.write, .throw]) (interruptedWork n) := by
  refine (Program.write (by decide) (.package _)).bind fun id => ?_
  split
  · exact .throw (by decide) _
  · exact .pure id

theorem program_hastyWork (n : Nat) : Program (fun _ => True) (hastyWork n) :=
  (Program.ask trivial .commit).bind fun _ =>
    (Program.write trivial (.package _)).bind fun _ => .ask trivial .close

theorem attempts_clean_interrupted :
    (∃ t s', ((interruptedWork 2).run (begun { Store.inMemory .never with history := t })
        : Except Error Store.RowId × Store) = (.ok 1, s') ∧
      ((RetryPolicy.new 3 10).runTransaction interruptedWork (.inMemory .never)).state
        = { Store.inMemory .never with file := ⟨s'.view, none⟩, history := s'.history }) ∧
    Released Store.mainConnection
      ((RetryPolicy.new 3 10).runTransaction hastyWork (.inMemory .never)).state ∧
    ∃ e t, (RetryPolicy.new 3 10).runTransaction hastyWork (begun (.inMemory .never))
      = ⟨.error e, [], { begun (.inMemory .never) with history := t }⟩ ∧
        e.failureClass = .fatal := by
  have hall : ∀ n, Program (fun _ => True) (interruptedWork n) := fun n =>
    (program_interruptedWork n).mono fun _ _ => trivial
  have hopen : ∀ n, LeavesOpen (.inMemory .never) (interruptedWork n) := fun n =>
    leavesOpen_of_steady ((program_interruptedWork n).mono (by simp [Steady])) _
  refine ⟨?_, ?_, ?_⟩
  · exact ((attempts_clean 3 10 hall (.inMemory .never)).done hopen 1 2 rfl).2
  · exact (attempts_clean 3 10 program_hastyWork (.inMemory .never)).released rfl
  · obtain ⟨e, t, hrun, hfatal, -⟩ :=
      (attempts_clean 3 10 program_hastyWork (begun (.inMemory .never))).nested rfl rfl
    exact ⟨e, t, hrun, hfatal⟩

end CallArchive.Ingest
