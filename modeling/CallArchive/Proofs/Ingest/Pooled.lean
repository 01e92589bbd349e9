import CallArchive.Proofs.Ingest.Reordered
import CallArchive.Proofs.Store.Renaming
import CallArchive.Ingest.Pool
import Mathlib.Logic.Relation

/-!
# Pools come to the same

The workers of a pool take jobs from the board, ingest them and report, each at its own pace
(`Pool.Step`). Whatever the pace, the database is that of some schedule of the jobs
(`Pool.Accounts`), and every order of the jobs is the schedule of some pool (`Schedule.exists_pool`).
So pools that have ingested the same records, which are apart, have the same rows up to the ids of
new ones.
-/

namespace CallArchive.Ingest

open Store (Database SameUpTo sameUpTo_of_contents)

/-- What a worker is at. -/
inductive Worker where
  | idle
  | ingesting (job : Job)
  | reporting (job : Job) (report : Report)

/-- The job that a worker has taken and not stored yet. -/
def Worker.job? : Worker → Option Job
  | .ingesting job => some job
  | _ => none

/-- A board, the workers at it and the database that they share. -/
structure Pool where
  board : Board
  workers : List Worker
  db : Database

namespace Pool

def start (workers : Nat) (jobs : List Job) (db : Database) : Pool :=
  ⟨.new (Workplace.workersFor workers jobs.length) jobs,
    List.replicate (Workplace.workersFor workers jobs.length) .idle, db⟩

/-- One of the workers goes on. It stores the job that it has taken in one transaction. -/
inductive Step (p : Pool) : Pool → Prop where
  | take {i : Nat} {job : Job} {board : Board} :
    p.workers[i]? = some .idle → p.board.take i = some (job, board) →
    Step p ⟨board, p.workers.set i (.ingesting job), p.db⟩
  | store {i : Nat} {job : Job} {r : Report} {db : Database} :
    p.workers[i]? = some (.ingesting job) → Ingests job.text p.db r db →
    Step p ⟨p.board, p.workers.set i (.reporting job r), db⟩
  | report {i : Nat} {job : Job} {r : Report} :
    p.workers[i]? = some (.reporting job r) →
    Step p ⟨p.board.finish i job.label (.ok r), p.workers.set i .idle, p.db⟩

def Run : Pool → Pool → Prop := Relation.ReflTransGen Step

/-- No job is left, and no worker is at one. -/
structure Finished (p : Pool) : Prop where
  queue : p.board.queue = []
  workers : ∀ w ∈ p.workers, w = .idle

end Pool

/-! ## Boards -/

theorem Board.take_eq_some {b board : Board} {i : Nat} {job : Job}
    (h : b.take i = some (job, board)) : b.queue = job :: board.queue := by
  obtain ⟨rest, hqueue, rfl⟩ := Board.take_eq_some_iff.mp h
  exact hqueue

theorem Board.exists_take {b : Board} {job : Job} {rest : List Job} (h : b.queue = job :: rest)
    (i : Nat) : ∃ board, b.take i = some (job, board) ∧ board.queue = rest :=
  ⟨_, Board.take_eq_some_iff.mpr ⟨rest, h, rfl⟩, rfl⟩

/-! ## Every pool keeps to a schedule -/

variable {db : Database} {jobs : List Job}

/-- The jobs are those of a schedule that leads to the database, those that workers are at, and those
on the board. -/
def Pool.Accounts (db : Database) (jobs : List Job) (p : Pool) : Prop :=
  ∃ stored : List Job, Schedule db (stored.map Job.text) p.db ∧
    (stored ++ (p.workers.filterMap Worker.job? ++ p.board.queue)).Perm jobs

/-- Other workers are at the same jobs. -/
theorem exists_perm_set {workers : List Worker} {i : Nat} {w : Worker} (h : workers[i]? = some w)
    (w' : Worker) : ∃ others : List Job,
      (workers.filterMap Worker.job?).Perm (w.job?.toList ++ others) ∧
      ((workers.set i w').filterMap Worker.job?).Perm (w'.job?.toList ++ others) := by
  obtain ⟨hi, rfl⟩ := List.getElem?_eq_some_iff.mp h
  obtain ⟨before, after, heq, -, hset⟩ : ∃ before after, workers = before ++ workers[i] :: after ∧
      before.length = i ∧ workers.set i w' = before ++ w' :: after := List.exists_of_set hi
  have hperm : ∀ w : Worker, ((before ++ w :: after).filterMap Worker.job?).Perm
      (w.job?.toList ++ (before ++ after).filterMap Worker.job?) := fun w => by
    refine (List.perm_middle.filterMap Worker.job?).trans (.of_eq ?_)
    rw [List.filterMap_cons]
    cases w.job? <;> rfl
  refine ⟨(before ++ after).filterMap Worker.job?, ?_, ?_⟩
  · exact (congrArg (List.filterMap Worker.job?) heq).symm ▸ hperm _
  · exact hset ▸ hperm w'

namespace Pool

variable {p p' : Pool}

theorem Accounts.start (workers : Nat) : Accounts db jobs (start workers jobs db) := by
  refine ⟨[], .nil, .of_eq ?_⟩
  have hnone : (Pool.start workers jobs db).workers.filterMap Worker.job? = [] :=
    List.filterMap_eq_nil_iff.mpr fun w hw => by rw [(List.mem_replicate.mp hw).2]; rfl
  rw [hnone]
  rfl

theorem Accounts.step (h : Accounts db jobs p) (hs : Step p p') : Accounts db jobs p' := by
  obtain ⟨stored, hschedule, hperm⟩ := h
  cases hs with
  | take hidle htake =>
    obtain ⟨others, hbefore, hafter⟩ := exists_perm_set hidle (.ingesting _)
    refine ⟨stored, hschedule, .trans (.append_left _ ?_) hperm⟩
    rw [Board.take_eq_some htake]
    exact (hafter.append_right _).trans
      (List.perm_middle.symm.trans ((List.Perm.symm hbefore).append_right _))
  | @store i job r after hbusy hi =>
    obtain ⟨others, hbefore, hafter⟩ := exists_perm_set hbusy (.reporting job r)
    refine ⟨stored ++ [job], ?_, .trans ?_ hperm⟩
    · rw [List.map_append]
      exact .snoc hschedule hi
    · rw [List.append_assoc]
      refine .append_left _ ?_
      exact ((hafter.append_right _).cons job).trans ((List.Perm.symm hbefore).append_right _)
  | report hreporting =>
    obtain ⟨others, hbefore, hafter⟩ := exists_perm_set hreporting .idle
    refine ⟨stored, hschedule, .trans (.append_left _ ?_) hperm⟩
    exact (hafter.trans hbefore.symm).append_right _

theorem Accounts.run (h : Accounts db jobs p) (hrun : Run p p') : Accounts db jobs p' := by
  induction hrun with
  | refl => exact h
  | tail _ hs ih => exact ih.step hs

/-- A pool that is finished has stored the jobs one after the other. -/
theorem exists_schedule {workers : Nat} (hrun : Run (start workers jobs db) p) (hp : p.Finished) :
    ∃ stored : List Job, stored.Perm jobs ∧ Schedule db (stored.map Job.text) p.db := by
  obtain ⟨stored, hschedule, hperm⟩ := (Accounts.start workers).run hrun
  have hnone : p.workers.filterMap Worker.job? = [] :=
    List.filterMap_eq_nil_iff.mpr fun w hw => by rw [hp.workers w hw]; rfl
  rw [hnone, hp.queue, List.append_nil, List.append_nil] at hperm
  exact ⟨stored, hperm, hschedule⟩

end Pool

/-! ## Every schedule is that of a pool -/

/-- A worker does the next job while the others wait. -/
theorem Pool.exists_run_job {p : Pool} {job : Job} {rest : List Job} {r : Report} {after : Database}
    {i : Nat} (hqueue : p.board.queue = job :: rest) (hidle : p.workers[i]? = some .idle)
    (hi : Ingests job.text p.db r after) :
    ∃ p', Run p p' ∧ p'.board.queue = rest ∧ p'.workers = p.workers ∧ p'.db = after := by
  obtain ⟨board, htake, hrest⟩ := Board.exists_take hqueue i
  have hlt : i < p.workers.length := (List.getElem?_eq_some_iff.mp hidle).1
  have hset : ∀ w : Worker, (p.workers.set i w)[i]? = some w := fun w => by
    rw [List.getElem?_set_self hlt]
  let taken : Pool := ⟨board, p.workers.set i (.ingesting job), p.db⟩
  let stored : Pool := ⟨board, taken.workers.set i (.reporting job r), after⟩
  have htaken : Step p taken := .take hidle htake
  have hstored : Step taken stored := .store (hset _) hi
  have hreported : Step stored
      ⟨board.finish i job.label (.ok r), stored.workers.set i .idle, after⟩ :=
    .report (List.getElem?_set_self (List.length_set.symm ▸ hlt))
  refine ⟨_, ((Relation.ReflTransGen.single htaken).tail hstored).tail hreported, hrest, ?_, rfl⟩
  obtain ⟨_, heq⟩ := List.getElem?_eq_some_iff.mp hidle
  change ((p.workers.set i _).set i _).set i _ = p.workers
  rw [List.set_set, List.set_set, ← heq]
  exact List.set_getElem_self hlt

/-- The first worker can do the next jobs in order. -/
theorem Schedule.exists_run (workers : Nat) {db' : Database} {done : List Job} (rest : List Job)
    (hs : Schedule db (done.map Job.text) db') :
    ∃ p, Pool.Run (.start workers (done ++ rest) db) p ∧ p.board.queue = rest ∧
      p.workers = (Pool.start workers (done ++ rest) db).workers ∧ p.db = db' := by
  generalize htexts : done.map Job.text = texts at hs
  induction hs generalizing done rest with
  | nil =>
    obtain rfl := List.map_eq_nil_iff.mp htexts
    exact ⟨_, .refl, rfl, rfl, rfl⟩
  | snoc hs hi ih =>
    obtain ⟨before, last, rfl, hbefore, hlast⟩ := List.map_eq_append_iff.mp htexts
    obtain ⟨job, rfl, rfl⟩ := List.map_eq_singleton_iff.mp hlast
    rw [List.append_assoc]
    obtain ⟨p, hrun, hqueue, hworkers, rfl⟩ := ih (job :: rest) hbefore
    have hidle : p.workers[0]? = some .idle := by
      rw [hworkers, Pool.start, List.getElem?_replicate, if_pos]
      exact Nat.lt_min.mpr ⟨Nat.le_max_right _ _, Nat.le_max_right _ _⟩
    obtain ⟨p', hjob, hqueue', hworkers', hdb⟩ := Pool.exists_run_job hqueue hidle hi
    exact ⟨p', hrun.trans hjob, hqueue', hworkers'.trans hworkers, hdb⟩

theorem Schedule.exists_pool (workers : Nat) {db' : Database} (hs : Schedule db (jobs.map Job.text) db') :
    ∃ p, Pool.Run (.start workers jobs db) p ∧ p.Finished ∧ p.db = db' := by
  obtain ⟨p, hrun, hqueue, hworkers, hdb⟩ := hs.exists_run workers []
  rw [List.append_nil] at hrun hworkers
  refine ⟨p, hrun, ⟨hqueue, fun w hw => ?_⟩, hdb⟩
  rw [hworkers] at hw
  exact (List.mem_replicate.mp hw).2

/-- Of two workers the second can store its job before the first one does. -/
theorem Pool.exists_crossed (job job' : Job) {r r' : Report} {between after : Database}
    (hi' : Ingests job'.text db r' between) (hi : Ingests job.text between r after) :
    ∃ p, Run (.start 2 [job, job'] db) p ∧ p.Finished ∧ p.db = after := by
  have htaken : Run (.start 2 [job, job'] db) _ :=
    .tail (.tail .refl (.take (i := 0) rfl rfl)) (.take (i := 1) rfl rfl)
  have hstored := (htaken.tail (.store (i := 1) rfl hi')).tail (.store (i := 0) rfl hi)
  refine ⟨_, (hstored.tail (.report (i := 0) rfl)).tail (.report (i := 1) rfl), ⟨rfl, ?_⟩, rfl⟩
  exact List.forall_mem_cons.mpr ⟨rfl, List.forall_mem_singleton.mpr rfl⟩

/-! ## Pools on the same records -/

/-- Whatever the workers and the order of the jobs, pools that have stored records which are apart
have the same rows but for the ids of new ones, and what records share has one row. -/
theorem pools_agree (h : db.Linked) {jobs' : List Job}
    (hjobs : (jobs.map Job.text).Perm (jobs'.map Job.text))
    (hapart : (jobs.map Job.text).Pairwise TextsApart) {workers workers' : Nat} {p p' : Pool}
    (hrun : Pool.Run (.start workers jobs db) p) (hp : p.Finished)
    (hrun' : Pool.Run (.start workers' jobs' db) p') (hp' : p'.Finished) :
    (∃ ρ, SameUpTo ρ db p.db p'.db) ∧
      ∀ job ∈ jobs, ∃ v, check job.text = .ok v ∧ OneRowEach v p.db ∧ OneRowEach v p'.db := by
  obtain ⟨stored, hperm, hschedule⟩ := Pool.exists_schedule hrun hp
  obtain ⟨stored', hperm', hschedule'⟩ := Pool.exists_schedule hrun' hp'
  replace hperm := hperm.map Job.text
  replace hperm' := (hperm'.map Job.text).trans hjobs.symm
  have hgrows := hschedule.grows h
  have hgrows' := hschedule'.grows h
  constructor
  · have hcontents := foldl_addText_perm hperm.symm hapart h.contents
    have hcontents' := foldl_addText_perm hperm'.symm hapart h.contents
    have hsame : hgrows.linked.contents = hgrows'.linked.contents := by
      rw [hgrows.contents, hgrows'.contents, ← hcontents, hcontents']
    exact ⟨_, sameUpTo_of_contents hsame hgrows.names hgrows'.names
      (hgrows'.settings.trans hgrows.settings.symm)⟩
  · intro job hjob
    have hmem : job.text ∈ jobs.map Job.text := List.mem_map_of_mem hjob
    obtain ⟨v, hc, hone⟩ := hschedule.oneRowEach h _ (hperm.mem_iff.mpr hmem)
    obtain ⟨v', hc', hone'⟩ := hschedule'.oneRowEach h _ (hperm'.mem_iff.mpr hmem)
    obtain rfl := Except.ok.inj (hc.symm.trans hc')
    exact ⟨v, hc, hone, hone'⟩

/-- A record of one method, which depends on `d` and calls a function of it. -/
def sharing (product : String) : String :=
  "\x7b\"product\":\"" ++ product ++ "\",\"forge\":\"m\",\"version\":\"1\",\"generator\":\"g\"," ++
  "\"depset\":[[[\"d\",\"m\"]]],\"cha\":\x7b\"n\":[\x7b\"1\":\"/n/C." ++ product ++ "()V\"\x7d]\x7d," ++
  "\"graph\":[[],[[1,\"//d/n/D.f()V\",\x7b\x7d]]]\x7d"

def sharingJobs : List Job := [⟨"p", sharing "p"⟩, ⟨"q", sharing "q"⟩]

def ingestion (text : String) (db : Database) : Ingested Unit :=
  ingest ⟨clampBatchSize 1, .new 1 0⟩ Notifier.silent text
    ⟨⟨db, none⟩, Store.mainConnection, true, .never, .none⟩ ()

def ingested (text : String) (db : Database) : Database := (ingestion text db).store.file.committed

theorem ingests_ingested {text : String} (h : (ingestion text db).result.toOption.isSome = true) :
    ∃ r, Ingests text db r (ingested text db) := by
  obtain ⟨r, hr⟩ := ok_of_isSome h
  exact ⟨r, Unit, 1, .new 1 0, Notifier.silent, _, (), _, rfl, hr, rfl, rfl⟩

/-- The version and the methods of a text that is a record. -/
def outline? (text : String) : Option (Store.VersionName × List String) :=
  (check text).toOption.map fun v => (versionName v, v.methods.map (·.address))

def packageIds (db : Database) : List (Store.RowId × String) :=
  db.packages.rows.map fun r => (r.id, r.key.name)

/-- Either record can come first, and then has the first id. -/
theorem ingestion_sharing :
    (outline? (sharing "p") = some ((⟨"p", "m"⟩, "g", "1"), ["/n/C.p()V"]) ∧
      outline? (sharing "q") = some ((⟨"q", "m"⟩, "g", "1"), ["/n/C.q()V"])) ∧
    ((ingestion (sharing "p") .empty).result.toOption.isSome = true ∧
      (ingestion (sharing "q") (ingested (sharing "p") .empty)).result.toOption.isSome = true ∧
      packageIds (ingested (sharing "q") (ingested (sharing "p") .empty))
        = [(1, "p"), (2, "d"), (3, "q")]) ∧
    (ingestion (sharing "q") .empty).result.toOption.isSome = true ∧
      (ingestion (sharing "p") (ingested (sharing "q") .empty)).result.toOption.isSome = true ∧
      packageIds (ingested (sharing "p") (ingested (sharing "q") .empty))
        = [(1, "q"), (2, "d"), (3, "p")] := by
  decide +kernel

theorem apart_sharing : TextsApart (sharing "p") (sharing "q") := by
  obtain ⟨hp, hq⟩ := ingestion_sharing.1
  intro v v' hv hv'
  rw [outline?, hv] at hp
  rw [outline?, hv'] at hq
  obtain ⟨hversion, hmethods⟩ := Prod.mk.inj (Option.some.inj hp)
  obtain ⟨hversion', hmethods'⟩ := Prod.mk.inj (Option.some.inj hq)
  refine ⟨by rw [hversion, hversion']; decide, fun m hm m' hm' heq => ?_⟩
  have haddress : m.address ∈ v.methods.map (·.address) := List.mem_map_of_mem hm
  have haddress' : m'.address ∈ v'.methods.map (·.address) := List.mem_map_of_mem hm'
  rw [hmethods, List.mem_singleton] at haddress
  rw [hmethods', List.mem_singleton] at haddress'
  rw [haddress, haddress'] at heq
  exact absurd heq (by decide)

/-- One worker does the jobs in order; of two workers the second stores its job first. -/
theorem pools_agree_sharing : ∃ p p' : Pool,
    Pool.Run (.start 1 sharingJobs .empty) p ∧ p.Finished ∧
    Pool.Run (.start 2 sharingJobs .empty) p' ∧ p'.Finished ∧
    packageIds p.db = [(1, "p"), (2, "d"), (3, "q")] ∧
    packageIds p'.db = [(1, "q"), (2, "d"), (3, "p")] ∧
    ∃ ρ, SameUpTo ρ .empty p.db p'.db := by
  obtain ⟨-, ⟨hp, hpq, hids⟩, hq, hqp, hids'⟩ := ingestion_sharing
  obtain ⟨rp, hp⟩ := ingests_ingested hp
  obtain ⟨rpq, hpq⟩ := ingests_ingested hpq
  obtain ⟨rq, hq⟩ := ingests_ingested hq
  obtain ⟨rqp, hqp⟩ := ingests_ingested hqp
  have hschedule : Schedule .empty (sharingJobs.map Job.text) _ := .snoc (.snoc .nil hp) hpq
  obtain ⟨p, hrun, hp, hdb⟩ := hschedule.exists_pool 1
  obtain ⟨p', hrun', hp', hdb'⟩ :=
    Pool.exists_crossed ⟨"p", sharing "p"⟩ ⟨"q", sharing "q"⟩ hq hqp
  rw [← hdb] at hids
  rw [← hdb'] at hids'
  have hapart : (sharingJobs.map Job.text).Pairwise TextsApart :=
    List.pairwise_pair.mpr apart_sharing
  have hagree := pools_agree Database.Consistent.empty.linked (.refl _) hapart hrun hp hrun' hp'
  exact ⟨p, p', hrun, hp, hrun', hp', hids, hids', hagree.1⟩

end CallArchive.Ingest
