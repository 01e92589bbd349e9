import CallArchive.Proofs.Ingest.Summaries

/-!
# Crews of workers

The workers of a pool take jobs, finish them or die over them, in any order, while the pool waits for
one worker after the other and adds up what their ledgers say (`Crew.Step`). A step brings outcomes
for jobs that were pending, and tells of them (`Crew.Moves`). So all the way a job is pending or it
has one outcome (`Crew.Balanced`), and in the end account has been given of each
(`accounted_answer`).
-/

namespace CallArchive.Ingest

/-! ## Steps -/

/-- The workers at their board, how many of them the pool has waited for, and what it has added up of
their ledgers. -/
structure Crew where
  board : Board
  joined : Nat
  summary : Summary

namespace Crew

def start (workers : Nat) (jobs : List Job) : Crew := ⟨.new workers jobs, 0, .empty⟩

/-- The ledgers of the workers that are still waited for. -/
def waiting (c : Crew) : List Ledger := c.board.ledgers.drop c.joined

/-- The worker, whose ledger this is, has not come to an end. -/
structure Works (c : Crew) (worker : Nat) (l : Ledger) : Prop where
  waited : c.joined ≤ worker
  ledger : c.board.ledgers[worker]? = some l
  alive : l.dead = false

/-- The worker has died, or it has found no job. -/
def Ended (c : Crew) (l : Ledger) : Prop :=
  l.dead = true ∨ l.inFlight = none ∧ c.board.queue = []

/-- The pool adds the ledger of the next worker. -/
def join (c : Crew) (l : Ledger) : Crew :=
  let t := Board.absorbLedger ⟨c.summary, c.board.progress⟩ l
  ⟨{ c.board with progress := t.progress }, c.joined + 1, t.summary⟩

/-- What can happen next, with the jobs that are finished by it. -/
inductive Step (c : Crew) : List Finish → Crew → Prop where
  | take {i : Nat} {l : Ledger} {job : Job} {board : Board} : c.Works i l → l.inFlight = none →
    c.board.take i = some (job, board) → Step c [] { c with board }
  | finish {i : Nat} {l : Ledger} (f : Finish) : c.Works i l → l.inFlight = some f.label →
    Step c [f] { c with board := c.board.finish i f.label f.result }
  | die {i : Nat} {l : Ledger} : c.Works i l → Step c [] { c with board := c.board.die i }
  | join {l : Ledger} : c.board.ledgers[c.joined]? = some l → c.Ended l → Step c [] (c.join l)

/-- A run with all that is finished by it in order. -/
inductive Run (c : Crew) : List Finish → Crew → Prop where
  | refl : Run c [] c
  | step {fs gs : List Finish} {c' c'' : Crew} : Run c fs c' → Step c' gs c'' → Run c (fs ++ gs) c''

/-- Every worker has been waited for. -/
def Over (c : Crew) : Prop := c.waiting = []

/-- The pool gives up what is left on the board. -/
def close (c : Crew) : Crew :=
  let t := c.board.queue.foldl (fun t job => Board.lose t job.label leftoverMessage)
    ⟨c.summary, c.board.progress⟩
  ⟨{ c.board with queue := [], progress := t.progress }, c.joined, t.summary⟩

/-- What the pool answers in the end, and what it has told the observer. -/
def answer (c : Crew) : Summary × List ProgressEvent :=
  (c.close.summary, c.close.board.progress ++ [.finished])

/-! ## What a step moves -/

/-- The outcomes that stand in the summary or in a ledger. -/
def outcomes (c : Crew) : List JobOutcome :=
  c.summary.outcomes ++ c.waiting.flatMap (·.summary.outcomes)

/-- The jobs without an outcome: those that workers are at, or were when they died, and those on the
board. -/
def pending (c : Crew) : List String :=
  c.waiting.flatMap (·.inFlight.toList) ++ c.board.queue.map (·.label)

def arcs (c : Crew) : ArcReport := c.summary.arcs.merge (.sum (c.waiting.map (·.summary.arcs)))

/-- There are new outcomes, for jobs that were pending. The observer has been told of them, and what
has succeeded among them was finished. -/
structure Moves (c : Crew) (fs : List Finish) (c' : Crew) (new : List JobOutcome) : Prop where
  outcomes : c'.outcomes.Perm (c.outcomes ++ new)
  pending : c.pending.Perm (new.map (·.label) ++ c'.pending)
  told : c'.board.progress = c.board.progress ++ new.map JobOutcome.event
  succeeded : new.filter (·.succeeded) = (fs.map Finish.outcome).filter (·.succeeded)
  arcs : c'.arcs = c.arcs.merge (Finish.arcs fs)

variable {c c' : Crew} {i : Nat} {l : Ledger}

/-- The ledger of a worker stands between those of others. -/
theorem Works.exists_waiting (h : c.Works i l) (f : Ledger → Ledger) :
    ∃ before after, c.waiting = before ++ l :: after ∧
      (c.board.ledgers.modify i f).drop c.joined = before ++ f l :: after := by
  obtain ⟨hi, hget⟩ := List.getElem?_eq_some_iff.mp h.ledger
  obtain ⟨before, l', after, hledgers, hlength, hmodify⟩ := List.exists_of_modify f hi
  have hl : l' = l := by
    have hmid := h.ledger
    rw [hledgers, ← hlength, List.getElem?_append_right (Nat.le_refl _), Nat.sub_self] at hmid
    exact Option.some.inj hmid
  subst hl
  have hle : c.joined ≤ before.length := hlength ▸ h.waited
  refine ⟨before.drop c.joined, after, ?_, ?_⟩
  · rw [waiting, hledgers, List.drop_append_of_le_length hle]
  · rw [hmodify, List.drop_append_of_le_length hle]

/-- Other workers keep their ledgers when one of them changes its own. -/
theorem Works.moves (h : c.Works i l) {f : Ledger → Ledger} {queue : List Job}
    {progress : List ProgressEvent} {fs : List Finish} {new : List JobOutcome}
    (houtcomes : (f l).summary.outcomes = l.summary.outcomes ++ new)
    (hpending : (l.inFlight.toList ++ c.board.queue.map (·.label)).Perm
      (new.map (·.label) ++ ((f l).inFlight.toList ++ queue.map (·.label))))
    (htold : progress = c.board.progress ++ new.map JobOutcome.event)
    (hsucceeded : new.filter (·.succeeded) = (fs.map Finish.outcome).filter (·.succeeded))
    (harcs : (f l).summary.arcs = l.summary.arcs.merge (Finish.arcs fs)) :
    Moves c fs { c with board := ⟨queue, c.board.ledgers.modify i f, progress⟩ } new := by
  obtain ⟨before, after, hbefore, hafter⟩ := h.exists_waiting f
  refine ⟨?_, ?_, htold, hsucceeded, ?_⟩
  · refine List.perm_iff_count.mpr fun o => ?_
    simp only [outcomes, waiting] at hbefore ⊢
    rw [hbefore, hafter]
    simp only [List.flatMap_append, List.flatMap_cons, houtcomes, List.count_append]
    omega
  · refine List.perm_iff_count.mpr fun label => ?_
    have hcount := hpending.count_eq label
    simp only [pending, waiting] at hbefore ⊢
    rw [hbefore, hafter]
    simp only [List.flatMap_append, List.flatMap_cons, List.count_append] at hcount ⊢
    omega
  · simp only [arcs, waiting] at hbefore ⊢
    rw [hbefore, hafter]
    simp only [List.map_append, List.map_cons, ArcReport.sum_append, ArcReport.sum_cons, harcs]
    ac_rfl

theorem moves_take {job : Job} {board : Board} (h : c.Works i l) (hidle : l.inFlight = none)
    (htake : c.board.take i = some (job, board)) : Moves c [] { c with board } [] := by
  obtain ⟨rest, hqueue, rfl⟩ := Board.take_eq_some_iff.mp htake
  refine h.moves (List.append_nil _).symm ?_ (List.append_nil _).symm rfl
    (ArcReport.merge_empty _).symm
  rw [hidle, hqueue]
  exact .refl _

theorem moves_finish {f : Finish} (h : c.Works i l) (hbusy : l.inFlight = some f.label) :
    Moves c [f] { c with board := c.board.finish i f.label f.result } [f.outcome] := by
  refine h.moves (l.summary.outcomes_record f) ?_ ?_ rfl (l.summary.arcs_record f)
  · rw [hbusy, List.map_singleton, f.label_outcome]
    exact .refl _
  · rw [List.map_singleton, f.event_outcome]

theorem moves_die (h : c.Works i l) : Moves c [] { c with board := c.board.die i } [] :=
  h.moves (List.append_nil _).symm (.refl _) (List.append_nil _).symm rfl
    (ArcReport.merge_empty _).symm

theorem waiting_eq_cons (h : c.board.ledgers[c.joined]? = some l) :
    c.waiting = l :: (c.join l).waiting := by
  obtain ⟨hi, rfl⟩ := List.getElem?_eq_some_iff.mp h
  exact List.drop_eq_getElem_cons hi

theorem moves_join (h : c.board.ledgers[c.joined]? = some l) (hended : c.Ended l) :
    Moves c [] (c.join l) l.lost := by
  have hwaiting := waiting_eq_cons h
  have hlost : l.inFlight.toList = l.lost.map (·.label) := by
    rcases hended with hdead | ⟨hidle, -⟩
    · exact l.lost_of_dead hdead
    · exact l.lost_of_idle hidle
  refine ⟨?_, ?_, Ledger.progress_absorb _ l, Ledger.not_succeeded_lost l, ?_⟩
  · have hsummary : (c.join l).summary.outcomes = _ := Ledger.outcomes_absorb _ l
    refine List.perm_iff_count.mpr fun o => ?_
    rw [outcomes, outcomes, hsummary, hwaiting]
    simp only [List.flatMap_cons, List.count_append]
    omega
  · have hboard : (c.join l).board.queue = c.board.queue := rfl
    rw [pending, pending, hwaiting, hboard, List.flatMap_cons, hlost, List.append_assoc]
  · have hsummary : (c.join l).summary.arcs = _ := Ledger.arcs_absorb _ l
    rw [arcs, arcs, hsummary, hwaiting, List.map_cons, ArcReport.sum_cons, ← ArcReport.merge_assoc]
    exact (ArcReport.merge_empty _).symm

theorem Step.exists_moves {fs : List Finish} (h : Step c fs c') : ∃ new, Moves c fs c' new := by
  cases h with
  | take hworks hidle htake => exact ⟨_, moves_take hworks hidle htake⟩
  | finish f hworks hbusy => exact ⟨_, moves_finish hworks hbusy⟩
  | die hworks => exact ⟨_, moves_die hworks⟩
  | join hget hended => exact ⟨_, moves_join hget hended⟩

/-! ## Jobs that nobody takes -/

/-- The outcomes of the jobs that are left on the board. -/
def leftover (c : Crew) : List JobOutcome :=
  c.board.queue.map fun job => .lost job.label leftoverMessage

/-- The jobs of a queue are lost one after the other. -/
structure Loses (jobs : List Job) (t t' : Board.Tallying) : Prop where
  outcomes : t'.summary.outcomes
    = t.summary.outcomes ++ jobs.map fun job => .lost job.label leftoverMessage
  progress : t'.progress
    = t.progress ++ jobs.map fun job => .done job.label (some leftoverMessage)
  arcs : t'.summary.arcs = t.summary.arcs
  sound : t.summary.Sound → t'.summary.Sound

theorem loses_leftover (jobs : List Job) (t : Board.Tallying) :
    Loses jobs t (jobs.foldl (fun t job => Board.lose t job.label leftoverMessage) t) := by
  induction jobs generalizing t with
  | nil => exact ⟨(List.append_nil _).symm, (List.append_nil _).symm, rfl, id⟩
  | cons job jobs ih =>
    obtain ⟨houtcomes, hprogress, harcs, hsound⟩ := ih (Board.lose t job.label leftoverMessage)
    refine ⟨?_, ?_, harcs, fun h => hsound (h.recordFailure job.label .fatal leftoverMessage)⟩
    · rw [List.foldl_cons, houtcomes, List.map_cons, List.append_cons]
      rfl
    · rw [List.foldl_cons, hprogress, List.map_cons, List.append_cons]
      rfl

theorem moves_close (h : c.Over) : Moves c [] c.close c.leftover := by
  obtain ⟨houtcomes, hprogress, harcs, -⟩ :=
    loses_leftover c.board.queue ⟨c.summary, c.board.progress⟩
  have hclosed : c.close.waiting = [] := h
  refine ⟨?_, ?_, ?_, ?_, ?_⟩
  · rw [outcomes, outcomes, h, hclosed, List.flatMap_nil, List.append_nil, List.append_nil]
    exact .of_eq houtcomes
  · rw [pending, pending, h, hclosed, List.flatMap_nil, List.nil_append, List.nil_append, leftover,
      List.map_map]
    exact .of_eq (List.append_nil _).symm
  · rw [leftover, List.map_map]
    exact hprogress
  · exact List.filter_eq_nil_iff.mpr (List.forall_mem_map.mpr fun _ _ => nofun)
  · rw [arcs, arcs, h, hclosed]
    exact congrArg (ArcReport.merge · _) harcs

/-! ## Runs -/

/-- What holds all the way: a job is pending or it has an outcome, of which has been told, and the
arcs are those of the jobs that succeeded. -/
structure Balanced (jobs : List Job) (fs : List Finish) (c : Crew) : Prop where
  labels : (c.outcomes.map (·.label) ++ c.pending).Perm (jobs.map (·.label))
  told : ∃ told, c.board.progress = .begin jobs.length :: told ∧
    told.Perm (c.outcomes.map JobOutcome.event)
  succeeded : (c.outcomes.filter (·.succeeded)).Perm
    ((fs.map Finish.outcome).filter (·.succeeded))
  arcs : c.arcs = Finish.arcs fs

variable {jobs : List Job} {fs gs : List Finish}

theorem Balanced.start (workers : Nat) (jobs : List Job) : Balanced jobs [] (start workers jobs) := by
  have hwaiting : (Crew.start workers jobs).waiting = List.replicate workers .empty := rfl
  have houtcomes : (Crew.start workers jobs).outcomes = [] := by
    rw [outcomes, hwaiting]
    exact List.flatMap_eq_nil_iff.mpr fun l hl => by rw [(List.mem_replicate.mp hl).2]; rfl
  have hpending : (Crew.start workers jobs).pending = jobs.map (·.label) := by
    rw [pending, hwaiting, List.flatMap_eq_nil_iff.mpr]
    · rfl
    · exact fun l hl => by rw [(List.mem_replicate.mp hl).2]; rfl
  refine ⟨?_, ⟨[], rfl, ?_⟩, ?_, ?_⟩
  · rw [houtcomes, hpending]
    exact .refl _
  · rw [houtcomes]
    exact .refl _
  · rw [houtcomes]
    exact .refl _
  · have hnone : ∀ r ∈ (Crew.start workers jobs).waiting.map (·.summary.arcs), r = .empty :=
      List.forall_mem_map.mpr fun l hl => by rw [(List.mem_replicate.mp hl).2]; rfl
    rw [Crew.arcs, ArcReport.sum_eq_empty hnone]
    rfl

theorem Balanced.moves {new : List JobOutcome} (h : Balanced jobs fs c) (hm : Moves c gs c' new) :
    Balanced jobs (fs ++ gs) c' := by
  obtain ⟨told, hprogress, htold⟩ := h.told
  refine ⟨?_, ⟨told ++ new.map JobOutcome.event, ?_, ?_⟩, ?_, ?_⟩
  · refine ((hm.outcomes.map _).append_right _).trans ?_
    rw [List.map_append, List.append_assoc]
    exact (hm.pending.symm.append_left _).trans h.labels
  · rw [hm.told, hprogress]
    rfl
  · refine (htold.append_right _).trans ?_
    rw [← List.map_append]
    exact (hm.outcomes.map _).symm
  · refine (hm.outcomes.filter _).trans ?_
    rw [List.filter_append, List.map_append, List.filter_append, ← hm.succeeded]
    exact h.succeeded.append_right _
  · rw [hm.arcs, h.arcs, Finish.arcs_append]

theorem Balanced.run {workers : Nat} (h : Run (Crew.start workers jobs) fs c) :
    Balanced jobs fs c := by
  induction h with
  | refl => exact .start workers jobs
  | step _ hs ih =>
    obtain ⟨_, hm⟩ := hs.exists_moves
    exact ih.moves hm

/-- The numbers of all summaries are right. -/
structure SoundBooks (c : Crew) : Prop where
  summary : c.summary.Sound
  ledgers : ∀ l ∈ c.board.ledgers, l.summary.Sound

theorem SoundBooks.start (workers : Nat) (jobs : List Job) : SoundBooks (start workers jobs) :=
  ⟨.empty, fun l hl => by rw [(List.mem_replicate.mp hl).2]; exact .empty⟩

theorem SoundBooks.modify {f : Ledger → Ledger} (h : SoundBooks c)
    (hf : ∀ l : Ledger, l.summary.Sound → (f l).summary.Sound) (i : Nat) :
    ∀ l ∈ c.board.ledgers.modify i f, l.summary.Sound := by
  intro l hl
  obtain ⟨k, hk⟩ := List.mem_iff_getElem?.mp hl
  rw [List.getElem?_modify] at hk
  obtain ⟨l', hl', rfl⟩ := Option.map_eq_some_iff.mp hk
  have hsound := h.ledgers l' (List.mem_of_getElem? hl')
  split
  · exact hf l' hsound
  · exact hsound

theorem SoundBooks.step (h : SoundBooks c) (hs : Step c fs c') : SoundBooks c' := by
  cases hs with
  | take _ _ htake =>
    obtain ⟨rest, -, rfl⟩ := Board.take_eq_some_iff.mp htake
    refine ⟨h.summary, h.modify (fun l hl => ?_) _⟩
    exact hl
  | finish f _ _ => exact ⟨h.summary, h.modify (fun _ hl => hl.record f) _⟩
  | die _ =>
    refine ⟨h.summary, h.modify (fun l hl => ?_) _⟩
    exact hl
  | join hget _ =>
    exact ⟨Ledger.sound_absorb h.summary (h.ledgers _ (List.mem_of_getElem? hget)), h.ledgers⟩

theorem SoundBooks.run (h : SoundBooks c) (hrun : Run c fs c') : SoundBooks c' := by
  induction hrun with
  | refl => exact h
  | step _ hs ih => exact ih.step hs

/-! ## One worker -/

/-- There is one worker, and if it has not died the jobs are still in order. -/
def InOrder (jobs : List Job) (c : Crew) : Prop :=
  ∃ l, c.board.ledgers = [l] ∧
    (l.dead = false → c.outcomes.map (·.label) ++ c.pending = jobs.map (·.label))

theorem Works.waiting_eq (h : c.Works i l) {l' : Ledger} (hone : c.board.ledgers = [l']) :
    i = 0 ∧ c.joined = 0 ∧ l' = l := by
  obtain ⟨hi, hget⟩ := List.getElem?_eq_some_iff.mp h.ledger
  have hjoined := h.waited
  simp only [hone, List.length_singleton] at hi
  obtain rfl : i = 0 := by omega
  refine ⟨rfl, by omega, ?_⟩
  simpa only [hone, List.getElem_singleton] using hget

theorem InOrder.start (jobs : List Job) : InOrder jobs (start 1 jobs) := by
  refine ⟨.empty, rfl, fun _ => rfl⟩

theorem InOrder.step (h : InOrder jobs c) (hs : Step c fs c') : InOrder jobs c' := by
  obtain ⟨l, hone, horder⟩ := h
  cases hs with
  | take hworks hidle htake =>
    obtain ⟨rfl, hjoined, rfl⟩ := hworks.waiting_eq hone
    obtain ⟨rest, hqueue, rfl⟩ := Board.take_eq_some_iff.mp htake
    refine ⟨_, by rw [Board.modifyLedger, hone]; rfl, fun halive => ?_⟩
    rw [← horder halive]
    simp [outcomes, pending, waiting, Board.modifyLedger, hone, hjoined, hidle, hqueue]
  | finish f hworks hbusy =>
    obtain ⟨rfl, hjoined, rfl⟩ := hworks.waiting_eq hone
    refine ⟨_, by simp only [Board.finish, Board.modifyLedger, hone]; rfl, fun halive => ?_⟩
    rw [← horder halive]
    simp [outcomes, pending, waiting, Board.finish, Board.modifyLedger, hone, hjoined, hbusy,
      Summary.outcomes_record]
  | die hworks =>
    obtain ⟨rfl, hjoined, rfl⟩ := hworks.waiting_eq hone
    refine ⟨_, by simp only [Board.die, Board.modifyLedger, hone]; rfl, fun halive => ?_⟩
    cases halive
  | @join l' hget hended =>
    have hwaiting := waiting_eq_cons hget
    have hjoined : c.joined = 0 := by
      have hlt := (List.getElem?_eq_some_iff.mp hget).1
      simpa only [hone, List.length_singleton, Nat.lt_one_iff] using hlt
    obtain rfl : l' = l := by
      simpa only [hone, hjoined, List.getElem?_cons_zero, Option.some.injEq, eq_comm] using hget
    refine ⟨l', hone, fun halive => ?_⟩
    have hidle : l'.inFlight = none := hended.elim (fun hdead => by simp [halive] at hdead) And.left
    have hlost : l'.lost = [] := List.map_eq_nil_iff.mp ((l'.lost_of_idle hidle).symm.trans
      (by rw [hidle]; rfl))
    have hsummary : (c.join l').summary.outcomes = _ := Ledger.outcomes_absorb _ l'
    have hqueue : (c.join l').board.queue = c.board.queue := rfl
    rw [← horder halive, outcomes, outcomes, pending, pending, hsummary, hlost, hwaiting, hqueue]
    simp [hidle]

theorem InOrder.run (hrun : Run (Crew.start 1 jobs) fs c) : InOrder jobs c := by
  induction hrun with
  | refl => exact .start jobs
  | step _ hs ih => exact ih.step hs

/-! ## The whole pool -/

/-- Of all jobs account has been given once: in an outcome, in the numbers, and to the observer. -/
structure Accounted (jobs : List Job) (fs : List Finish) (answer : Summary × List ProgressEvent) :
    Prop where
  labels : (answer.1.outcomes.map (·.label)).Perm (jobs.map (·.label))
  total : answer.1.succeeded + answer.1.failedCount = jobs.length
  failed : ∀ c, answer.1.failed.count c = answer.1.outcomes.countP (·.failure = some c)
  succeeded : (answer.1.outcomes.filter (·.succeeded)).Perm
    ((fs.map Finish.outcome).filter (·.succeeded))
  arcs : answer.1.arcs = Finish.arcs fs
  told : ∃ told, answer.2 = .begin jobs.length :: told ++ [.finished] ∧
    told.Perm (answer.1.outcomes.map JobOutcome.event)
  message : ∀ o ∈ answer.1.outcomes, o.message.isSome = o.failure.isSome

theorem SoundBooks.close (h : SoundBooks c) : c.close.summary.Sound :=
  (loses_leftover c.board.queue ⟨c.summary, c.board.progress⟩).sound h.summary

theorem outcomes_close (h : c.Over) : c.close.outcomes = c.close.summary.outcomes := by
  have hclosed : c.close.waiting = [] := h
  rw [outcomes, hclosed, List.flatMap_nil, List.append_nil]

theorem pending_close (h : c.Over) : c.close.pending = [] := by
  have hclosed : c.close.waiting = [] := h
  rw [pending, hclosed]
  rfl

theorem accounted_answer {workers : Nat} (hrun : Run (Crew.start workers jobs) fs c)
    (hover : c.Over) : Accounted jobs fs c.answer := by
  have hbalanced : Balanced jobs (fs ++ []) c.close :=
    (Balanced.run hrun).moves (moves_close hover)
  have hsound := ((SoundBooks.start workers jobs).run hrun).close
  have houtcomes := outcomes_close hover
  have hclosed : c.close.waiting = [] := hover
  obtain ⟨hlabels, ⟨told, hprogress, htold⟩, hsucceeded, harcs⟩ := hbalanced
  rw [houtcomes] at hlabels htold hsucceeded
  rw [pending_close hover, List.append_nil] at hlabels
  rw [List.append_nil] at hsucceeded harcs
  rw [Crew.arcs, hclosed] at harcs
  refine ⟨hlabels, ?_, hsound.failed, hsucceeded, ?_, ⟨told, ?_, htold⟩, hsound.message⟩
  · have hlength := hlabels.length_eq
    rw [List.length_map, List.length_map] at hlength
    exact hsound.total.trans hlength
  · exact (ArcReport.merge_empty _).symm.trans harcs
  · rw [answer, hprogress]

/-- A single worker that has not died brings the outcomes in the order of the jobs. -/
theorem labels_answer (hrun : Run (Crew.start 1 jobs) fs c) (hover : c.Over)
    (halive : ∀ l ∈ c.board.ledgers, l.dead = false) :
    c.answer.1.outcomes.map (·.label) = jobs.map (·.label) := by
  obtain ⟨l, hone, horder⟩ := InOrder.run hrun
  have hsum : c.close.summary.outcomes = c.summary.outcomes ++ c.leftover :=
    (loses_leftover c.board.queue ⟨c.summary, c.board.progress⟩).outcomes
  rw [← horder (halive l (hone ▸ List.mem_singleton_self l)), outcomes, pending, hover]
  change c.close.summary.outcomes.map _ = _
  rw [hsum, leftover, List.map_append, List.map_map, List.flatMap_nil, List.append_nil,
    List.flatMap_nil, List.nil_append]
  rfl

end Crew

end CallArchive.Ingest
