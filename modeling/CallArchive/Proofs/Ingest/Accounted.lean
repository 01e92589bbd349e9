import CallArchive.Proofs.Ingest.Crew
import CallArchive.Proofs.Ingest.Pooled

/-!
# Every job is accounted for

However the workers of a pool take turns, and whichever of them die, each job has one outcome in the
end, and the numbers and what the observer was told are those of the outcomes (`crew_accounts`). The
pool that lets its workers empty the queue one after the other is one of these crews (`exists_crew`).
-/

namespace CallArchive.Ingest

namespace Crew

variable {c c' : Crew} {i : Nat} {l : Ledger} {fs gs : List Finish}

/-! ## Workers one after the other -/

theorem Run.trans {c'' : Crew} (h : Run c fs c') (h' : Run c' gs c'') : Run c (fs ++ gs) c'' := by
  induction h' with
  | refl => rwa [List.append_nil]
  | step _ hs ih =>
    rw [← List.append_assoc]
    exact .step ih hs

theorem Run.single (h : Step c fs c') : Run c fs c' := .step .refl h

/-- A pool whose workers are at work. -/
def atWork (b : Board) : Crew := ⟨b, 0, .empty⟩

section Workplace

variable {ω : Type} (w : Workplace ω)

theorem ledgers_modifyLedger {b : Board} (h : b.ledgers[i]? = some l) (f : Ledger → Ledger) :
    (b.modifyLedger i f).ledgers = b.ledgers.set i (f l) := by
  rw [Board.modifyLedger, List.modify_eq_set_getElem?, h]
  rfl

theorem getElem?_modifyLedger {b : Board} (h : b.ledgers[i]? = some l) (f : Ledger → Ledger) :
    (b.modifyLedger i f).ledgers[i]? = some (f l) := by
  obtain ⟨hi, -⟩ := List.getElem?_eq_some_iff.mp h
  rw [ledgers_modifyLedger h, List.getElem?_set_self hi]

/-- The next job is taken, and then it is finished or the worker dies over it. -/
theorem exists_run_job {b taken : Board} {job : Job} (h : (atWork b).Works i l)
    (hidle : l.inFlight = none) (htake : b.take i = some (job, taken)) :
    (∃ l', Run (atWork b) [] (atWork (taken.die i)) ∧
      (taken.die i).ledgers = b.ledgers.set i l' ∧ l'.dead = true) ∧
    ∀ result, ∃ l', Run (atWork b) [⟨job.label, result⟩]
        (atWork (taken.finish i job.label result)) ∧
      (taken.finish i job.label result).ledgers = b.ledgers.set i l' ∧
      (atWork (taken.finish i job.label result)).Works i l' ∧ l'.inFlight = none := by
  have htaken : Run (atWork b) [] (atWork taken) := .single (.take h hidle htake)
  obtain ⟨rest, -, htakenEq⟩ := Board.take_eq_some_iff.mp htake
  have hset : taken.ledgers = b.ledgers.set i { l with inFlight := some job.label } :=
    htakenEq ▸ ledgers_modifyLedger (b := { b with queue := rest }) h.ledger _
  have hworks : (atWork taken).Works i { l with inFlight := some job.label } :=
    ⟨h.waited, htakenEq ▸ getElem?_modifyLedger (b := { b with queue := rest }) h.ledger _, h.alive⟩
  constructor
  · have hledger : taken.ledgers[i]? = some { l with inFlight := some job.label } := hworks.ledger
    refine ⟨{ l with inFlight := some job.label, dead := true }, htaken.trans (.single (.die hworks)),
      ?_, rfl⟩
    rw [Board.die, ledgers_modifyLedger hledger, hset, List.set_set]
  · intro result
    let told : Board :=
      { taken with progress := taken.progress ++ [.done job.label (Board.failureText result)] }
    have hledger : told.ledgers[i]? = some { l with inFlight := some job.label } := hworks.ledger
    refine ⟨{ l with summary := l.summary.record job.label result, inFlight := none },
      htaken.trans (.single (.finish ⟨job.label, result⟩ hworks rfl)), ?_,
      ⟨h.waited, getElem?_modifyLedger hledger _, h.alive⟩, rfl⟩
    rw [Board.finish, ledgers_modifyLedger hledger, show told.ledgers = _ from hset, List.set_set]

/-- A worker at the board goes on, with the others waiting, until it dies or finds no job. -/
theorem exists_run_drain {b : Board} (h : (atWork b).Works i l) (hidle : l.inFlight = none) {s : ω}
    {out : Board × ω} (hout : w.drain i b.queue.length b s = out) :
    ∃ fs l', Run (atWork b) fs (atWork out.1) ∧ out.1.ledgers = b.ledgers.set i l' ∧
      (atWork out.1).Ended l' ∧ (b.queue = [] → out.1.queue = []) := by
  generalize hfuel : b.queue.length = fuel at hout
  induction fuel generalizing b l s with
  | zero =>
    have hqueue := List.length_eq_zero_iff.mp hfuel
    obtain ⟨hi, hget⟩ := List.getElem?_eq_some_iff.mp h.ledger
    subst hout
    refine ⟨[], l, .refl, ?_, .inr ⟨hidle, hqueue⟩, fun _ => hqueue⟩
    rw [← hget]
    exact (List.set_getElem_self hi).symm
  | succ fuel ih =>
    obtain ⟨job, rest, hqueue⟩ := List.exists_cons_of_length_eq_add_one hfuel
    obtain ⟨taken, htake, hrest⟩ := Board.exists_take hqueue i
    have hcons : b.queue ≠ [] := hqueue ▸ List.cons_ne_nil job rest
    obtain ⟨⟨l', hdies, hset, hdead⟩, hfinishes⟩ := exists_run_job h hidle htake
    rw [Workplace.drain, htake] at hout
    rcases hprocess : w.process i job s with ⟨_ | result, s'⟩
    · simp only [hprocess] at hout
      subst hout
      exact ⟨_, l', hdies, hset, .inl hdead, fun hnil => absurd hnil hcons⟩
    · simp only [hprocess] at hout
      obtain ⟨l', hfinish, hset, hworks, hidle'⟩ := hfinishes result
      have hlength : (taken.finish i job.label result).queue.length = fuel := by
        rw [hqueue, List.length_cons] at hfuel
        exact Nat.succ.inj (hrest ▸ hfuel)
      obtain ⟨fs, l'', hrun, hlater, hended, -⟩ := ih hworks hidle' hlength hout
      refine ⟨_, l'', hfinish.trans hrun, ?_, hended, fun hnil => absurd hnil hcons⟩
      rw [hlater, hset, List.set_set]

/-- One worker after the other comes to its end. -/
theorem exists_run_drainFrom {count worker : Nat} {b : Board} {s : ω} {done : List Ledger}
    (hledgers : b.ledgers = done ++ List.replicate count .empty) (hworker : done.length = worker)
    (hdone : ∀ l ∈ done, (atWork b).Ended l) {out : Board × ω}
    (hout : w.drainFrom count worker b s = out) :
    ∃ fs, Run (atWork b) fs (atWork out.1) ∧ ∀ l ∈ out.1.ledgers, (atWork out.1).Ended l := by
  induction count generalizing worker b s done with
  | zero =>
    subst hout
    rw [List.replicate_zero, List.append_nil] at hledgers
    exact ⟨[], .refl, hledgers ▸ hdone⟩
  | succ count ih =>
    have hworks : (atWork b).Works worker .empty := by
      refine ⟨Nat.zero_le _, ?_, rfl⟩
      change b.ledgers[worker]? = _
      rw [hledgers, ← hworker, List.getElem?_append_right (Nat.le_refl _), Nat.sub_self]
      rfl
    obtain ⟨fs, l', hrun, hset, hended, hempty⟩ := exists_run_drain w hworks rfl (s := s) rfl
    have hledgers' : (w.drain worker b.queue.length b s).1.ledgers
        = (done ++ [l']) ++ List.replicate count .empty := by
      rw [hset, hledgers, ← hworker, List.set_append_right _ _ (Nat.le_refl _), Nat.sub_self,
        List.append_assoc]
      rfl
    have hdone' : ∀ l ∈ done ++ [l'], (atWork (w.drain worker b.queue.length b s).1).Ended l := by
      refine List.forall_mem_append.mpr ⟨fun l hl => ?_, List.forall_mem_singleton.mpr hended⟩
      exact (hdone l hl).imp_right fun ⟨hidle, hqueue⟩ => ⟨hidle, hempty hqueue⟩
    obtain ⟨gs, hrest, hall⟩ := ih hledgers' (by rw [List.length_append, hworker]; rfl) hdone' hout
    exact ⟨fs ++ gs, hrun.trans hrest, hall⟩

/-- When all workers have come to an end the pool has only to wait for each. -/
theorem exists_run_over {c : Crew} (h : ∀ l ∈ c.waiting, c.Ended l) :
    ∃ c', Run c [] c' ∧ c'.Over ∧ c'.board.queue = c.board.queue ∧
      c.waiting.foldl Board.absorbLedger ⟨c.summary, c.board.progress⟩
        = ⟨c'.summary, c'.board.progress⟩ := by
  generalize hwaiting : c.waiting = ls at h
  induction ls generalizing c with
  | nil => exact ⟨c, .refl, hwaiting, rfl, rfl⟩
  | cons l ls ih =>
    have hget : c.board.ledgers[c.joined]? = some l := by
      rw [← List.head?_drop]
      exact congrArg List.head? hwaiting
    have hrest : (c.join l).waiting = ls :=
      (List.cons.inj ((waiting_eq_cons hget).symm.trans hwaiting)).2
    obtain ⟨hended, hlater⟩ := List.forall_mem_cons.mp h
    obtain ⟨c', hrun, hover, hqueue, hfold⟩ := ih (c := c.join l) hrest hlater
    exact ⟨c', (Run.single (.join hget hended)).trans hrun, hover, hqueue, hfold⟩

theorem conclude_eq_answer {b : Board} {c : Crew} (hqueue : c.board.queue = b.queue)
    (hfold : b.ledgers.foldl Board.absorbLedger ⟨.empty, b.progress⟩
      = ⟨c.summary, c.board.progress⟩) : b.conclude = c.answer := by
  simp only [Board.conclude, answer, close, hfold, hqueue]

/-- The pool that sets its workers to work one after the other is such a crew. -/
theorem exists_crew {workers : Nat} {jobs : List Job} {s : ω} {summary : Summary}
    (h : (w.runWorkers workers jobs s).result = .ok summary) :
    ∃ fs c, Run (Crew.start (Workplace.workersFor workers jobs.length) jobs) fs c ∧ c.Over ∧
      c.answer = (summary, (w.runWorkers workers jobs s).progress) := by
  unfold Workplace.runWorkers at h ⊢
  rcases hopen : w.openFrom (Workplace.workersFor workers jobs.length) 0 s with ⟨_ | _, s'⟩
  · simp only [hopen] at h
    cases h
  · simp only [hopen] at h ⊢
    let count := Workplace.workersFor workers jobs.length
    let out := w.drainFrom count 0 (.new count jobs) s'
    have hledgers : (Board.new count jobs).ledgers = [] ++ List.replicate count .empty := rfl
    obtain ⟨fs, hrun, hended⟩ : ∃ fs, Run (Crew.start count jobs) fs (atWork out.1) ∧ _ :=
      exists_run_drainFrom w hledgers rfl nofun (s := s') rfl
    obtain ⟨c, hjoined, hover, hqueue, hfold⟩ := exists_run_over (c := atWork out.1) hended
    have hanswer : out.1.conclude = c.answer := conclude_eq_answer hqueue hfold
    refine ⟨fs ++ [], c, hrun.trans hjoined, hover, ?_⟩
    rw [← hanswer, ← Except.ok.inj h]

end Workplace

/-- Whatever the workers do and in whatever order, the pool accounts for each job once; so does the
pool whose workers come one after the other. -/
theorem crew_accounts (workers : Nat) (jobs : List Job) :
    (∀ fs c, Run (Crew.start workers jobs) fs c → c.Over →
      Accounted jobs fs c.answer ∧
        (workers = 1 → (∀ l ∈ c.board.ledgers, l.dead = false) →
          c.answer.1.outcomes.map (·.label) = jobs.map (·.label))) ∧
    ∀ (ω : Type) (w : Workplace ω) (s : ω) (summary : Summary),
      (w.runWorkers workers jobs s).result = .ok summary →
      ∃ fs c, Run (Crew.start (Workplace.workersFor workers jobs.length) jobs) fs c ∧ c.Over ∧
        c.answer = (summary, (w.runWorkers workers jobs s).progress) := by
  refine ⟨fun fs c hrun hover => ⟨accounted_answer hrun hover, ?_⟩, fun _ w _ _ => exists_crew w⟩
  rintro rfl halive
  exact labels_answer hrun hover halive

/-! ## Two workers, one of which dies -/

def twoJobs : List Job := [⟨"a", "x"⟩, ⟨"b", "y"⟩]

def someReport : Report := ⟨"a$1", ⟨1, 1, 0, 0, 0, 2⟩, ⟨3, 2, Tally.empty.add .unknownLocalId⟩, 1⟩

/-- Each worker takes a job. The second dies over its own, and then the first finishes. -/
theorem exists_run_twoJobs : ∃ c, Run (Crew.start 2 twoJobs) [⟨"a", .ok someReport⟩] c ∧ c.Over ∧
    c.answer.1.outcomes = [⟨"a", some 1, none, none⟩, .lost "b" diedMessage] ∧
    c.answer.2 = [.begin 2, .done "a" none, .done "b" (some diedMessage), .finished] := by
  have htaken : Run (Crew.start 2 twoJobs) [] _ :=
    (Run.single (.take (i := 0) ⟨Nat.le_refl 0, rfl, rfl⟩ rfl rfl)).trans
      (.single (.take (i := 1) ⟨Nat.zero_le 1, rfl, rfl⟩ rfl rfl))
  have hdone := (htaken.trans (.single (.die (i := 1) ⟨Nat.zero_le 1, rfl, rfl⟩))).trans
    (.single (.finish (i := 0) ⟨"a", .ok someReport⟩ ⟨Nat.le_refl 0, rfl, rfl⟩ rfl))
  have hfirst := hdone.trans (.single (.join rfl (.inr ⟨rfl, rfl⟩)))
  exact ⟨_, hfirst.trans (.single (.join rfl (.inl rfl))), rfl, rfl, rfl⟩

theorem crew_accounts_twoJobs : ∃ c, Run (Crew.start 2 twoJobs) [⟨"a", .ok someReport⟩] c ∧
    Accounted twoJobs [⟨"a", .ok someReport⟩] c.answer ∧
    c.answer.1.outcomes = [⟨"a", some 1, none, none⟩, .lost "b" diedMessage] := by
  obtain ⟨c, hrun, hover, houtcomes, -⟩ := exists_run_twoJobs
  exact ⟨c, hrun, ((crew_accounts 2 twoJobs).1 _ c hrun hover).1, houtcomes⟩

end Crew

end CallArchive.Ingest
