import CallArchive.Proofs.Ingest.Again
import CallArchive.Proofs.Ingest.Effect
import CallArchive.Proofs.Ingest.Remapped
import CallArchive.Proofs.Record.Documents

/-!
# Ingesting on a store that fails a few times

A store that fails the first `n` writes of one kind lets a record through if there are more attempts
than that, and then all is as if nothing had failed but for the number of attempts (`Recovers`). If
not, the last attempt leaves the store as it was (`GivesUp`). Each attempt fails once, at the first
write of the record or, with everything else already written, at the last (`run_writeRecord_struck`).

No store lets a record through that has an arc for which a document is there that cannot be read
(`Legible`).
-/

namespace CallArchive

namespace Store.FaultPlan

variable {kind : WriteKind} {n : Nat} {history : History}

theorem striking_struck (h : history.injected < n) :
    striking kind (some n) history kind = some injectedFailure :=
  if_pos ⟨rfl, decide_eq_true h⟩

theorem spares_striking_of_ne (times : Option Nat) (m : Nat) :
    (striking kind times).Spares (· ≠ kind) m :=
  fun _ _ _ hne => if_neg fun h => hne h.1

theorem spares_striking_of_le {m : Nat} (h : n ≤ m) (K : WriteKind → Prop) :
    (striking kind (some n)).Spares K m := by
  rintro history k rfl -
  exact if_neg fun hstrikes => Nat.not_lt.mpr h (of_decide_eq_true hstrikes.2)

end Store.FaultPlan

namespace Ingest

open Store (WriteKind Action FaultPlan History NewEdge Database)

/-! ## Where a store fails -/

/-- The first write of a record, or the last. -/
inductive FailPoint where
  | package
  | edges
  deriving DecidableEq, Repr

namespace FailPoint

def kind : FailPoint → WriteKind
  | .package => .package
  | .edges => .edges

/-- A record has edges to write if an arc of it was kept. -/
def Reached (v : Validated) : FailPoint → Prop
  | .package => True
  | .edges => v.internalArcs ≠ [] ∨ v.externalArcs ≠ []

end FailPoint

variable {point : FailPoint} {g : CallGraph} {v : Validated} {size n : Nat} {s : Store}

theorem pendingEdges_eq_nil {db : Database} :
    pendingEdges v db = [] ↔ ¬ FailPoint.edges.Reached v := by
  simp [pendingEdges, FailPoint.Reached]

/-! ## Writing a record -/

/-- The last write of a record, that of its edges, fails if the plan strikes it. -/
theorem run_writeEdges_struck {ids : IdMap} {edges : List PendingEdge} {es : List NewEdge}
    (hes : ids.remap edges = .ok es) (hne : edges ≠ []) {e : StoreError}
    (he : s.faults s.history .edges = some e) (hs : 0 < size) :
    ((writeEdges size ids edges).run s : Except Error Nat × Store)
      = (.error (.store e), s.struck) := by
  obtain ⟨chunk, rest, hchunks⟩ : ∃ chunk rest, chunks size es = chunk :: rest := by
    refine List.exists_cons_of_ne_nil fun hnil => hne ?_
    have hflatten := flatten_chunks hs es
    rw [hnil] at hflatten
    exact List.length_eq_zero_iff.mp ((length_of_mapM_ok hes).symm.trans (hflatten ▸ rfl))
  have hlift : writeEdges.liftExcept (ids.remap edges) = pure es := by rw [hes]; rfl
  rw [writeEdges, hlift, pure_bind, hchunks, List.foldlM_cons, bind_assoc, Store.run_bind,
    Store.upsertEdges, Store.run_writeMany, he]

/-- Where only edges are struck, all else is written. -/
theorem run_writeNodes_spared (v : Validated) (hs : s.Ready) (hsize : 0 < size)
    {times : Option Nat} (hp : s.faults = .striking .edges times) :
    ∃ t, ((writeNodes size v).run s : Except Error _ × Store)
        = (.ok (written v s.view, idMap v s.view, pendingEdges v s.view),
          s.worked (nodesAfter v s.view) t) ∧
      s.history.Quiet t := by
  have hspares : s.faults.Spares NotEdges s.history.injected :=
    hp ▸ FaultPlan.spares_striking_of_ne _ _
  exact (writing_writeNodes size v).run_spared hs hspares (run_storeNodes hsize)

/-- A write of the record is struck, and up to then nothing else has failed. -/
theorem run_writeRecord_struck (hv : CallGraph.Validates g v) (hreached : point.Reached v)
    (hs : s.Ready) (hsize : 0 < size) (hn : s.history.injected < n)
    (hp : s.faults = .striking point.kind (some n)) :
    ∃ db t, ((writeRecord size v).run s : Except Error Written × Store)
        = (.error (.store FaultPlan.injectedFailure), s.worked db t) ∧
      t.injected = s.history.injected + 1 ∧ t.transactions = s.history.transactions := by
  cases point with
  | package =>
    have hstruck : s.faults s.history .package = some FaultPlan.injectedFailure :=
      hp ▸ FaultPlan.striking_struck hn
    refine ⟨s.view, s.struck.history, ?_, rfl, rfl⟩
    rw [hs.worked_view, writeRecord, Store.run_bind, Store.upsertPackage, Store.run_write, hstruck]
    rfl
  | edges =>
    obtain ⟨t, hnodes, hquiet⟩ := run_writeNodes_spared v hs hsize hp
    have hes := newEdges_eq hv s.view
    have hstruck : s.faults t .edges = some FaultPlan.injectedFailure :=
      hp ▸ FaultPlan.striking_struck (hquiet.injected ▸ hn)
    have hedges := run_writeEdges_struck (s := s.worked (nodesAfter v s.view) t) hes
      (mt pendingEdges_eq_nil.mp (not_not_intro hreached)) hstruck hsize
    refine ⟨nodesAfter v s.view, (s.worked (nodesAfter v s.view) t).struck.history, ?_,
      congrArg (· + 1) hquiet.injected, hquiet.transactions⟩
    rw [writeRecord_eq, Store.run_bind, hnodes]
    simp only [Store.run_bind, hedges]
    rfl

/-- No write of the record is struck. -/
theorem run_writeRecord_spared (hs : s.Ready) (hsize : 0 < size)
    (hp : s.faults = .striking point.kind (some n))
    (hspared : n ≤ s.history.injected ∨ ¬ point.Reached v) {w : Written} {db : Database}
    (h : recordAfter v s.view = some (w, db)) :
    ∃ t, ((writeRecord size v).run s : Except Error Written × Store) = (.ok w, s.worked db t) ∧
      s.history.Quiet t := by
  rcases hspared with hn | hreached
  · rw [← run_storeRecord hsize] at h
    exact (writing_writeRecord size v).run_spared hs
      (hp ▸ FaultPlan.spares_striking_of_le hn _) h
  cases point with
  | package => exact absurd trivial hreached
  | edges =>
    obtain ⟨t, hnodes, hquiet⟩ := run_writeNodes_spared v hs hsize hp
    have hnone : pendingEdges v s.view = [] := pendingEdges_eq_nil.mpr hreached
    obtain ⟨es, hes, edges, hedges, rfl, rfl⟩ := recordAfter_eq_some_iff.mp h
    rw [newEdges, hnone] at hes
    obtain rfl := Except.ok.inj hes
    obtain rfl := Except.ok.inj hedges
    refine ⟨t, ?_, hquiet⟩
    rw [writeRecord_eq, Store.run_bind, hnodes, hnone]
    rfl

/-! ## Attempts -/

/-- After some attempts at a store that have failed, with so many failures still to come. -/
structure Failing (store : Store) (point : FailPoint) (n left : Nat) (s : Store) : Prop where
  same : s = { store with faults := .striking point.kind (some n), history := s.history }
  injected : s.history.injected + left = n
  transactions : s.history.transactions = s.history.injected

/-- After the attempt that was committed. -/
structure Through (db : Database) (n : Nat) (s : Store) : Prop where
  file : s.file = ⟨db, none⟩
  injected : s.history.injected = n
  transactions : s.history.transactions = n + 1

section Attempts

variable {store : Store} {left : Nat}

theorem Failing.idle (h : Failing store point n left s) (hi : Idle store) : Idle s := by
  rw [h.same]
  exact ⟨hi.isOpen, hi.free⟩

theorem Failing.committed (h : Failing store point n left s) :
    s.file.committed = store.file.committed := by
  rw [h.same]

theorem Failing.faults (h : Failing store point n left s) :
    s.faults = .striking point.kind (some n) := by
  rw [h.same]

theorem failing_none (store : Store) (point : FailPoint) (n : Nat) :
    Failing store point n n
      { store with faults := .striking point.kind (some n), history := .none } :=
  ⟨rfl, Nat.zero_add n, rfl⟩

theorem run_attempt_struck (hv : CallGraph.Validates g v) (hreached : point.Reached v)
    (hi : Idle store) (hsize : 0 < size) (h : Failing store point n (left + 1) s) :
    ∃ s', ((transaction (writeRecord size v)).run s : Except Error Written × Store)
        = (.error (.store FaultPlan.injectedFailure), s') ∧ Failing store point n left s' := by
  have hinjected := h.injected
  have hidle := h.idle hi
  obtain ⟨db, t, hrun, hadded, hsame⟩ := run_writeRecord_struck hv hreached
    (ready_begun hidle.isOpen) hsize (show s.history.injected < n by omega) h.faults
  have hadded' : t.injected = s.history.injected + 1 := hadded
  have hsame' : t.transactions = s.history.transactions + 1 := hsame
  refine ⟨_, run_transaction_error hidle hrun, ?_, ?_, ?_⟩
  · exact congrArg (fun s' : Store => { s' with history := t }) h.same
  · change t.injected + left = n
    omega
  · exact hsame'.trans (h.transactions ▸ hadded'.symm)

theorem run_attempt_spared (hi : Idle s) (hsize : 0 < size)
    (hp : s.faults = .striking point.kind (some n))
    (hspared : n ≤ s.history.injected ∨ ¬ point.Reached v) {w : Written} {db : Database}
    (h : recordAfter v s.file.committed = some (w, db)) :
    ∃ t, ((transaction (writeRecord size v)).run s : Except Error Written × Store)
        = (.ok w, { s with file := ⟨db, none⟩, history := t }) ∧
      t.injected = s.history.injected ∧ t.transactions = s.history.transactions + 1 := by
  obtain ⟨t, hrun, hquiet⟩ := run_writeRecord_spared (s := begun s) (ready_begun hi.isOpen) hsize hp
    hspared (by rwa [view_begun])
  exact ⟨t, run_transaction_ok hi hrun, hquiet.injected, hquiet.transactions⟩

/-! ## Runs of attempts -/

variable {limit : Nat}

theorem runTransaction_recovers (hv : CallGraph.Validates g v) (hreached : point.Reached v)
    (hi : Idle store) (hsize : 0 < size) (hn : n < limit) (backoff : Nat) {w : Written}
    {db : Database} (h : recordAfter v store.file.committed = some (w, db)) :
    ∃ pauses s, (RetryPolicy.new limit backoff).runTransaction (fun _ => writeRecord size v)
        { store with faults := .striking point.kind (some n), history := .none }
        = ⟨.ok (w, n + 1), pauses, s⟩ ∧ Through db n s := by
  have hleft : n ≤ (RetryPolicy.new limit backoff).limit - 1 :=
    Nat.le_sub_one_of_lt (Nat.lt_of_lt_of_le hn (Nat.le_max_left limit 1))
  rw [Nat.add_comm n 1]
  refine RetryPolicy.runFrom_recovers (I := Failing store point n) _ rfl
    (fun _ _ _ hx => run_attempt_struck hv hreached hi hsize hx) (fun _ x hx => ?_) hleft
    (failing_none store point n) 1
  obtain ⟨t, hrun, hinjected, htransactions⟩ := run_attempt_spared (hx.idle hi) hsize hx.faults
    (.inl (Nat.le_of_eq hx.injected.symm)) (hx.committed ▸ h)
  have hall : x.history.injected = n := hx.injected
  exact ⟨_, hrun, rfl, hinjected.trans hall, by rw [htransactions, hx.transactions, hall]⟩

theorem runTransaction_spared (hreached : ¬ point.Reached v) (hi : Idle store) (hsize : 0 < size)
    (limit backoff : Nat) {w : Written} {db : Database}
    (h : recordAfter v store.file.committed = some (w, db)) :
    ∃ s, (RetryPolicy.new limit backoff).runTransaction (fun _ => writeRecord size v)
        { store with faults := .striking point.kind (some n), history := .none }
        = ⟨.ok (w, 1), [], s⟩ ∧ Through db 0 s := by
  have hfailing := failing_none store point n
  obtain ⟨t, hrun, hinjected, htransactions⟩ := run_attempt_spared (hfailing.idle hi) hsize
    hfailing.faults (.inr hreached) h
  exact ⟨_, RetryPolicy.runFrom_ok _ hrun _, rfl, hinjected, htransactions⟩

theorem runTransaction_exhausts (hv : CallGraph.Validates g v) (hreached : point.Reached v)
    (hi : Idle store) (hsize : 0 < size) (hlimit : 0 < limit) (hn : limit ≤ n) (backoff : Nat) :
    ∃ pauses s, (RetryPolicy.new limit backoff).runTransaction (fun _ => writeRecord size v)
        { store with faults := .striking point.kind (some n), history := .none }
        = ⟨.error (.retriesExhausted limit (.store FaultPlan.injectedFailure)), pauses, s⟩ ∧
      Failing store point n (n - limit) s := by
  have hleft : (RetryPolicy.new limit backoff).limit - 1 = limit - 1 :=
    congrArg (· - 1) (Nat.max_eq_left hlimit)
  have hlast : 1 + (limit - 1) = limit := Nat.add_sub_cancel' hlimit
  obtain ⟨pauses, s, hrun, hfailing⟩ := RetryPolicy.runFrom_exhausts (I := Failing store point n)
    (.new limit backoff) rfl (fun _ _ _ hx => run_attempt_struck hv hreached hi hsize hx)
    (show limit - 1 < n by omega) (failing_none store point n) 1
  rw [hlast] at hrun
  rw [Nat.sub_add_cancel hlimit] at hfailing
  exact ⟨pauses, s, by rw [runTransaction_eq, hleft, hrun], hfailing⟩

end Attempts

/-! ## Ingestion -/

section Ingestion

variable {ν : Type} {notifier : Notifier ν} {text : String} {store : Store} {channel : ν}
  {limit backoff : Nat} {plain flaky : Ingested ν} {r : Report}

/-- The call comes to what it comes to on a store that does not fail, at a later attempt. -/
structure Recovers (plain flaky : Ingested ν) (r : Report) (n : Nat) : Prop where
  result : flaky.result = .ok { r with attempts := n + 1 }
  file : flaky.store.file = plain.store.file
  channel : flaky.channel = plain.channel
  crashed : flaky.crashed = plain.crashed
  transactions : flaky.store.history.transactions = n + 1
  injected : flaky.store.history.injected = n

/-- The call fails with the last attempt, and has changed nothing. -/
structure GivesUp (store : Store) (channel : ν) (flaky : Ingested ν) (limit : Nat) : Prop where
  result : flaky.result = .error (.retriesExhausted limit (.store FaultPlan.injectedFailure))
  file : flaky.store.file = store.file
  channel : flaky.channel = channel
  crashed : flaky.crashed = false
  transactions : flaky.store.history.transactions = limit
  injected : flaky.store.history.injected = limit

theorem ingest_of_check_ok (hc : check text = .ok v) (settings : Settings) (store : Store) :
    ingest settings notifier text store channel
      = ingestValidated settings notifier v store channel := by
  rw [ingest, hc]

/-- Every document that is there for an arc of the record can be read. -/
def Legible (v : Validated) (db : Database) : Prop :=
  ∀ es, newEdges v db = .ok es → ∀ e ∈ es, ∀ old ∈ Database.edgeRow? db.edges e.source e.target,
    Json.Readable old.metadata

/-- What a record that was read says of its arcs can be read again, so the record can be stored if
the documents can be read into which that is merged. -/
theorem exists_recordAfter_iff (hg : CallGraph.ofText text = .ok g)
    (hv : CallGraph.Validates g v) {db : Database} :
    (∃ w after, recordAfter v db = some (w, after)) ↔ Legible v db := by
  have hes := newEdges_eq hv db
  have hempty : (Json.Value.object []).Storable 0 := ⟨by decide, trivial⟩
  have harcs : ∀ arc ∈ v.externalArcs, (Json.Value.object arc.metadata).Storable 0 :=
    fun arc harc => by
      obtain ⟨c, hc, hdocument⟩ := hv.document_external harc
      exact hdocument ▸ CallGraph.storable_of_ofText hg c hc
  have hnew := forall_newEdges (P := fun m => (Json.Value.object m).Storable 0) hempty harcs hes
  have hreadable := fun e he => (hnew e he).readable
  constructor
  · rintro ⟨w, after, h⟩ es' hes'
    obtain rfl := Except.ok.inj (hes.symm.trans hes')
    obtain ⟨es', hes', edges, hedges, -⟩ := recordAfter_eq_some_iff.mp h
    obtain rfl := Except.ok.inj (hes.symm.trans hes')
    exact (Store.exists_putEdges_iff_of_readable hreadable).mp ⟨edges, hedges⟩
  · intro h
    obtain ⟨edges, hedges⟩ := (Store.exists_putEdges_iff_of_readable hreadable).mpr (h _ hes)
    exact ⟨_, _, recordAfter_eq_some_iff.mpr ⟨_, hes, edges, hedges, rfl, rfl⟩⟩

/-- A record that has been stored has met no document that cannot be read. -/
theorem legible_of_ingest_ok (hc : check text = .ok v) {settings : Settings}
    (hs : 0 < settings.batchSize)
    (h : (ingest settings notifier text store channel).result = .ok r) :
    Legible v store.file.committed := by
  obtain ⟨g, hg, hvalid⟩ := bind_ok_iff.mp hc
  rw [ingest_of_check_ok hc] at h
  exact (exists_recordAfter_iff hg (CallGraph.validate_ok hvalid)).mp
    ⟨_, _, (ingestValidated_ok hs h).2.1⟩

theorem exists_error_of_not_legible (hc : check text = .ok v) {settings : Settings}
    (hs : 0 < settings.batchSize) (h : ¬ Legible v store.file.committed) :
    ∃ e, (ingest settings notifier text store channel).result = .error e := by
  cases hresult : (ingest settings notifier text store channel).result with
  | error e => exact ⟨e, rfl⟩
  | ok r => exact absurd (legible_of_ingest_ok hc hs hresult) h

theorem ingestValidated_of_run_ok {settings : Settings} {w : Written} {k : Nat} {pauses : List Nat}
    {s : Store}
    (h : settings.retry.runTransaction (fun _ => writeRecord settings.batchSize v) store
      = ⟨.ok (w, k), pauses, s⟩) :
    ingestValidated settings notifier v store channel =
      ⟨.ok (report v w k), pauses, (notifier.notify (notification v w) channel).1 == .crashed, s,
        (notifier.notify (notification v w) channel).2⟩ := by
  rw [ingestValidated, h]

theorem ingestValidated_of_run_error {settings : Settings} {e : Error} {pauses : List Nat}
    {s : Store}
    (h : settings.retry.runTransaction (fun _ => writeRecord settings.batchSize v) store
      = ⟨.error e, pauses, s⟩) :
    ingestValidated settings notifier v store channel = ⟨.error e, pauses, false, s, channel⟩ := by
  rw [ingestValidated, h]

/-- One commit after `n` failed attempts makes the call come to the same. -/
theorem recovers_of_run {settings settings' : Settings} {store' : Store} {pauses : List Nat}
    {s : Store} (hs : 0 < settings.batchSize)
    (hplain : ingestValidated settings notifier v store channel = plain)
    (hflaky : ingestValidated settings' notifier v store' channel = flaky)
    (hr : plain.result = .ok r)
    (hrun : settings'.retry.runTransaction (fun _ => writeRecord settings'.batchSize v) store'
      = ⟨.ok (r.written, n + 1), pauses, s⟩)
    (hthrough : Through plain.store.file.committed n s) :
    Recovers plain flaky r n := by
  subst hplain
  obtain ⟨-, -, hidle, hreport⟩ := ingestValidated_ok hs hr
  obtain ⟨hcrashed, hchannel⟩ := ingestValidated_heard hr
  rw [ingestValidated_of_run_ok hrun] at hflaky
  subst hflaky
  refine ⟨?_, ?_, hchannel.symm, hcrashed.symm, hthrough.transactions, hthrough.injected⟩
  · rw [hreport]
    rfl
  · exact hthrough.file.trans (by rw [← hidle.free])

/-- On a store that fails no write a record is stored exactly if the documents can be read that are
there for its arcs. On one that fails `n` writes it is stored as on one that fails none, if there are
more attempts than failures or if it has no arc and the writes are those of edges. Otherwise all
attempts fail. -/
theorem ingest_retried (point : FailPoint) (n : Nat) (hc : check text = .ok v) (hi : Idle store)
    (hlimit : 0 < limit)
    (hplain : ingest ⟨clampBatchSize size, .new limit backoff⟩ notifier text
      { store with faults := .never } channel = plain)
    (hflaky : ingest ⟨clampBatchSize size, .new limit backoff⟩ notifier text
      { store with faults := .striking point.kind (some n), history := .none } channel = flaky) :
    ((∃ r, plain.result = .ok r) ↔ Legible v store.file.committed) ∧
    (∀ r, plain.result = .ok r →
      (point.Reached v → n < limit → Recovers plain flaky r n) ∧
      (¬ point.Reached v → Recovers plain flaky r 0)) ∧
    (point.Reached v → limit ≤ n → GivesUp store channel flaky limit) ∧
    (¬ Legible v store.file.committed → ∃ e, flaky.result = .error e) := by
  obtain ⟨g, hg, hvalid⟩ := bind_ok_iff.mp hc
  have hv := CallGraph.validate_ok hvalid
  have hsize := clampBatchSize_pos size
  have hidle : Idle { store with faults := .never } := ⟨hi.isOpen, hi.free⟩
  refine ⟨⟨?_, fun hlegible => ?_⟩, fun r hr => ?_, fun hreached hn => ?_, fun hillegible => ?_⟩
  · rintro ⟨r, hr⟩
    subst hplain
    have hlegible := legible_of_ingest_ok hc hsize hr
    exact hlegible
  · obtain ⟨w, db, h⟩ := (exists_recordAfter_iff hg hv).mpr hlegible
    have hnever : ¬ Strikes .never := fun ⟨_, _, h⟩ => h rfl
    rw [ingest_of_check_ok hc] at hplain
    exact ⟨_, hplain ▸ ingestValidated_of_not_strikes hsize hidle hnever h⟩
  · rw [ingest_of_check_ok hc] at hplain hflaky
    have hafter := (ingestValidated_ok hsize (hplain ▸ hr)).2.1
    refine ⟨fun hreached hn => ?_, fun hreached => ?_⟩
    · obtain ⟨pauses, s, hrun, hthrough⟩ :=
        runTransaction_recovers hv hreached hi hsize hn backoff hafter
      exact recovers_of_run hsize hplain hflaky hr hrun (hplain ▸ hthrough)
    · obtain ⟨s, hrun, hthrough⟩ :=
        runTransaction_spared (n := n) hreached hi hsize limit backoff hafter
      exact recovers_of_run hsize hplain hflaky hr hrun (hplain ▸ hthrough)
  · obtain ⟨pauses, s, hrun, hfailing⟩ :=
      runTransaction_exhausts hv hreached hi hsize hlimit hn backoff
    rw [ingest_of_check_ok hc, ingestValidated_of_run_error hrun] at hflaky
    subst hflaky
    have hfile : s.file = store.file := by rw [hfailing.same]
    have hinjected : s.history.injected = limit := by
      have hall := hfailing.injected
      omega
    exact ⟨rfl, hfile, rfl, rfl, hfailing.transactions.trans hinjected, hinjected⟩
  · exact hflaky ▸ exists_error_of_not_legible hc hsize hillegible

end Ingestion

/-- The second of two attempts stores what a store that does not fail stores at once. -/
theorem ingest_retried_smallRecord : ∃ r,
    (ingest ⟨clampBatchSize 1, .new 2 0⟩ Notifier.silent smallRecord (.inMemory .never) ()).result
      = .ok r ∧
    Recovers
      (ingest ⟨clampBatchSize 1, .new 2 0⟩ Notifier.silent smallRecord (.inMemory .never) ())
      (ingest ⟨clampBatchSize 1, .new 2 0⟩ Notifier.silent smallRecord
        (.inMemory (.striking .edges (some 1))) ()) r 1 := by
  have harcs : (check smallRecord).toOption.map (·.internalArcs.length) = some 1 := by decide +kernel
  obtain ⟨v, hv, hlength⟩ := Option.map_eq_some_iff.mp harcs
  have hreached : FailPoint.edges.Reached v := .inl fun hnil => by simp [hnil] at hlength
  have hidle : Idle (.inMemory .never) := ⟨rfl, rfl⟩
  have hplain : ingest ⟨clampBatchSize 1, .new 2 0⟩ Notifier.silent smallRecord
      { Store.inMemory .never with faults := .never } ()
    = ingest ⟨clampBatchSize 1, .new 2 0⟩ Notifier.silent smallRecord (.inMemory .never) () := rfl
  have hflaky : ingest ⟨clampBatchSize 1, .new 2 0⟩ Notifier.silent smallRecord
      { Store.inMemory .never with
        faults := .striking FailPoint.edges.kind (some 1), history := .none } ()
    = ingest ⟨clampBatchSize 1, .new 2 0⟩ Notifier.silent smallRecord
      (.inMemory (.striking .edges (some 1))) () := rfl
  obtain ⟨hstored, hrecovers, -⟩ := ingest_retried .edges 1 (toOption_eq_some_iff.mp hv) hidle
    Nat.two_pos hplain hflaky
  obtain ⟨r, hr⟩ := hstored.mpr fun _ _ _ _ _ h => nomatch h
  exact ⟨r, hr, (hrecovers r hr).1 hreached (Nat.lt_succ_self 1)⟩

/-- A store on which the arc of the small record has been written with a document that is nested
deeper than is read. -/
def deeplyLinked : Store :=
  (Store.upsertEdges [⟨1, 1, Json.nestedDocument 126⟩]
    (Store.upsertCallables [.internal 1 "/n/C.m()V" none] modular).2).2

/-- One failure is less than two attempts, but the record is stored neither then nor without it. -/
theorem ingest_deeplyLinked : ∃ v, check smallRecord = .ok v ∧ FailPoint.edges.Reached v ∧
    Idle deeplyLinked ∧
    (∃ e, (ingest ⟨clampBatchSize 1, .new 2 0⟩ Notifier.silent smallRecord
      { deeplyLinked with faults := .never } ()).result = .error e) ∧
    ∃ e, (ingest ⟨clampBatchSize 1, .new 2 0⟩ Notifier.silent smallRecord
      { deeplyLinked with faults := .striking .edges (some 1), history := .none } ()).result
        = .error e := by
  have hboth : (check smallRecord).toOption.map (fun v =>
      (v.internalArcs.length,
        (newEdges v deeplyLinked.file.committed).toOption.map (·.map NewEdge.ends)))
        = some (1, some [(1, 1)]) := by decide +kernel
  obtain ⟨v, hv, hboth⟩ := Option.map_eq_some_iff.mp hboth
  obtain ⟨hlength, hends⟩ := Prod.mk.inj hboth
  obtain ⟨es, hes, hends⟩ := Option.map_eq_some_iff.mp hends
  have hmem : (1, 1) ∈ es.map NewEdge.ends := hends ▸ List.mem_cons_self
  obtain ⟨e, he, hloop⟩ := List.mem_map.mp hmem
  obtain ⟨hsource, htarget⟩ := Prod.mk.inj hloop
  have hc := toOption_eq_some_iff.mp hv
  have hillegible : ¬ Legible v deeplyLinked.file.committed := fun h => by
    have hrow : Database.edgeRow? deeplyLinked.file.committed.edges 1 1
        = some ⟨1, 1, Database.documentText (Json.nestedDocument 126)⟩ := by decide +kernel
    have hread := h es (toOption_eq_some_iff.mp hes) e he _ (by rw [hsource, htarget]; exact hrow)
    exact absurd (Json.readable_nested_iff.mp hread) (by decide)
  exact ⟨v, hc, .inl fun hnil => by simp [hnil] at hlength, ⟨rfl, rfl⟩,
    exists_error_of_not_legible hc (clampBatchSize_pos 1) hillegible,
    exists_error_of_not_legible hc (clampBatchSize_pos 1) hillegible⟩

end Ingest

end CallArchive
