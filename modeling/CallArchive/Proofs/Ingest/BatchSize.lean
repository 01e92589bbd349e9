import CallArchive.Proofs.Ingest.Retried

/-!
# The size of batches does not matter

Callables and edges are written in chunks, and where a chunk ends is seen only by what the store
counts. On a store that fails no write of its own, one attempt comes to the same with chunks of any
size (`exists_attempt`), so does a run of attempts (`exists_runFrom`), and so does the whole call
(`ingest_sizes`): also if it fails, since the edge that cannot be merged is the same one.
-/

namespace CallArchive.Ingest

open Store (NewEdge Database History Action)

variable {g : CallGraph} {v : Validated} {s : Store} {size : Nat}

/-! ## Edges that cannot be merged -/

theorem run_upsertEdges_refused (hs : s.Ready) (hf : ¬ Strikes s.faults) {es : List NewEdge}
    {cause : StoreError} (h : Database.putEdges s.view.edges es = .error cause) :
    ∃ t, ((Store.upsertEdges es).run s : Except Error Nat × Store)
      = (.error (.store cause), s.worked s.view t) := by
  have hnone : s.faults s.history .edges = none := Classical.not_not.mp fun hn => hf ⟨_, _, hn⟩
  have hrows : es.isEmpty = false := by
    cases es with
    | nil => cases h
    | cons _ _ => rfl
  have hstatement : Database.upsertEdges es (s.file.view s.connection) = .error cause := by
    change (Database.putEdges s.view.edges es >>= _) = _
    rw [h]
    rfl
  refine ⟨s.counted.history, ?_⟩
  rw [Store.upsertEdges, Store.run_writeMany, hnone, hs.worked_view]
  simp only [hrows, Bool.false_eq_true, if_false]
  rw [Store.run_onFile (s := s.counted) hs.isOpen]
  simp only [Store.counted, Store.File.write_eq hs.mayWrite, hstatement]
  rfl

/-- Whatever the chunks, the first edge that cannot be merged ends it. -/
theorem run_edgeChunks_refused (hs : s.Ready) (hf : ¬ Strikes s.faults)
    {css : List (List NewEdge)} (hends : ∀ e ∈ css.flatten, EndsExist s.view e)
    {cause : StoreError} (h : Database.putEdges s.view.edges css.flatten = .error cause) (n : Nat) :
    ∃ db t, ((css.foldlM (fun n chunk => do return n + (← Store.upsertEdges chunk)) n
        : Action Nat).run s : Except Error Nat × Store) = (.error (.store cause), s.worked db t) := by
  induction css generalizing s n with
  | nil => cases h
  | cons chunk css ih =>
    rw [List.flatten_cons] at h hends
    obtain ⟨hchunk, hrest⟩ := List.forall_mem_append.mp hends
    rw [putEdges_append] at h
    rw [List.foldlM_cons, bind_assoc, Store.run_bind]
    rcases bind_error_iff.mp h with hput | ⟨edges, hput, hlater⟩
    · obtain ⟨t, hrun⟩ := run_upsertEdges_refused hs hf hput
      exact ⟨s.view, t, by rw [hrun]⟩
    · have hchange : (Store.change (Database.upsertEdges chunk)).run s.view
          = some (chunk.length, { s.view with edges }) := by
        rw [run_upsertEdges hchunk, hput]
        rfl
      obtain ⟨t, hrun⟩ := run_of_not_strikes
        (Store.Writing.upsertEdges (K := fun _ => True) trivial chunk).performs hs hf hchange
      have hview : (s.worked { s.view with edges } t).view = { s.view with edges } := hs.view_worked
      obtain ⟨db, t', hlast⟩ := ih (s := s.worked { s.view with edges } t) hs.worked hf
        (by rw [hview]; exact hrest) (by rw [hview]; exact hlater) (n + chunk.length)
      rw [Store.worked_worked] at hlast
      refine ⟨db, t', ?_⟩
      rw [hrun]
      exact hlast

/-- The nodes of the record are written, and then an edge cannot be merged. -/
theorem run_writeRecord_refused (hs : s.Ready)
    (hf : ¬ Strikes s.faults) (hsize : 0 < size) {es : List NewEdge}
    (hes : newEdges v s.view = .ok es) {cause : StoreError}
    (h : Database.putEdges s.view.edges es = .error cause) :
    ∃ db t, ((writeRecord size v).run s : Except Error Written × Store)
      = (.error (.store cause), s.worked db t) := by
  obtain ⟨t, hnodes⟩ := run_of_not_strikes (writing_writeNodes size v).performs hs hf
    (run_storeNodes hsize)
  have hview : (s.worked (nodesAfter v s.view) t).view = nodesAfter v s.view := hs.view_worked
  have hends : ∀ e ∈ (chunks size es).flatten,
      EndsExist (s.worked (nodesAfter v s.view) t).view e := by
    rw [flatten_chunks hsize, hview]
    exact endsExist_newEdges hes
  obtain ⟨db, t', hedges⟩ := run_edgeChunks_refused (s := s.worked (nodesAfter v s.view) t)
    hs.worked hf hends (by rw [flatten_chunks hsize, hview]; exact h) 0
  have hlift : writeEdges.liftExcept ((idMap v s.view).remap (pendingEdges v s.view)) = pure es := by
    rw [newEdges] at hes
    rw [hes]
    rfl
  refine ⟨db, t', ?_⟩
  rw [writeRecord_eq, Store.run_bind, hnodes]
  simp only [writeEdges, hlift, pure_bind, Store.run_bind, hedges, Store.worked_worked]

/-! ## Attempts -/

/-- What an attempt comes to is settled by the record and the store: neither the size of the chunks
nor what has been counted so far has a part in it. -/
theorem exists_attempt (hv : CallGraph.Validates g v) (hf : ¬ Strikes s.faults) :
    ∃ result file, ∀ size t, 0 < size → ∃ t',
      ((transaction (writeRecord size v)).run { s with history := t }
        : Except Error Written × Store) = (result, { s with file, history := t' }) := by
  by_cases hi : Idle s
  · have hes := newEdges_eq hv s.file.committed
    have hready : ∀ t, (begun { s with history := t }).Ready := fun _ => ready_begun hi.isOpen
    have hview : ∀ t, (begun { s with history := t }).view = s.file.committed :=
      fun t => view_begun { s with history := t }
    cases hput : Database.putEdges s.file.committed.edges
        ((namedEdges v).map (edgeBetween (nodesAfter v s.file.committed).callables)) with
    | ok edges =>
      refine ⟨.ok (written v s.file.committed),
        ⟨{ nodesAfter v s.file.committed with edges }, none⟩, fun size t hsize => ?_⟩
      have hchange : (storeRecord size v).run (begun { s with history := t }).view
          = some (written v s.file.committed, { nodesAfter v s.file.committed with edges }) := by
        rw [hview, run_storeRecord hsize]
        exact recordAfter_eq_some_iff.mpr ⟨_, hes, edges, hput, rfl, rfl⟩
      obtain ⟨t', hrun⟩ := run_of_not_strikes (writing_writeRecord size v).performs (hready t) hf
        hchange
      exact ⟨t', run_transaction_ok (idle_history.mpr hi) hrun⟩
    | error cause =>
      refine ⟨.error (.store cause), s.file, fun size t hsize => ?_⟩
      obtain ⟨db, t', hrun⟩ := run_writeRecord_refused (hready t) hf hsize
        (by rw [hview]; exact hes) (by rw [hview]; exact hput)
      exact ⟨t', run_transaction_error (idle_history.mpr hi) hrun⟩
  · obtain ⟨cause, hbegin, -⟩ := exists_begin_error hi
    refine ⟨.error (.store cause), s.file, fun size t _ =>
      ⟨{ t with transactions := t.transactions + 1 }, ?_⟩⟩
    rw [transaction_eq, Store.run_bind, hbegin]

/-- Neither have they a part in what a run of attempts comes to. -/
theorem exists_runFrom (p : RetryPolicy) (hv : CallGraph.Validates g v) {s : Store}
    (hf : ¬ Strikes s.faults) (left n : Nat) :
    ∃ result pauses file, ∀ size t, 0 < size → ∃ t',
      p.runFrom (fun _ s => (transaction (writeRecord size v)).run s) left n { s with history := t }
        = ⟨result, pauses, { s with file, history := t' }⟩ := by
  obtain ⟨result, file, hattempt⟩ := exists_attempt hv hf
  cases result with
  | ok w =>
    refine ⟨.ok (w, n), [], file, fun size t hsize => ?_⟩
    obtain ⟨t', hrun⟩ := hattempt size t hsize
    exact ⟨t', p.runFrom_ok hrun left⟩
  | error e =>
    cases he : e.isTransient with
    | false =>
      refine ⟨.error e, [], file, fun size t hsize => ?_⟩
      obtain ⟨t', hrun⟩ := hattempt size t hsize
      exact ⟨t', p.runFrom_final hrun he left⟩
    | true =>
      cases left with
      | zero =>
        refine ⟨.error (.retriesExhausted n e), [], file, fun size t hsize => ?_⟩
        obtain ⟨t', hrun⟩ := hattempt size t hsize
        exact ⟨t', p.runFrom_last hrun he⟩
      | succ left =>
        obtain ⟨last, pauses, file', hrest⟩ :=
          exists_runFrom p hv (s := { s with file }) hf left (n + 1)
        refine ⟨last, p.backoff * n :: pauses, file', fun size t hsize => ?_⟩
        obtain ⟨t', hrun⟩ := hattempt size t hsize
        obtain ⟨t'', hlast⟩ := hrest size t' hsize
        exact ⟨t'', by rw [p.runFrom_again hrun he, hlast]⟩
termination_by left

/-! ## Ingestion -/

/-- Two calls come to the same: they report the same, and leave the same rows under the same ids.
Only the numbers of statements may differ. -/
structure SameOutcome {ν : Type} (x y : Ingested ν) : Prop where
  result : x.result = y.result
  pauses : x.pauses = y.pauses
  crashed : x.crashed = y.crashed
  channel : x.channel = y.channel
  file : x.store.file = y.store.file

section Ingestion

variable {ν : Type} {store : Store}

theorem ingestValidated_sizes (hv : CallGraph.Validates g v) (hf : ¬ Strikes store.faults)
    {size size' : Nat} (hs : 0 < size) (hs' : 0 < size') (retry : RetryPolicy)
    (notifier : Notifier ν) (channel : ν) :
    SameOutcome (ingestValidated ⟨size, retry⟩ notifier v store channel)
      (ingestValidated ⟨size', retry⟩ notifier v store channel) := by
  obtain ⟨result, pauses, file, hrun⟩ := exists_runFrom retry hv hf (retry.limit - 1) 1
  obtain ⟨t, hfirst⟩ : ∃ t, retry.runTransaction (fun _ => writeRecord size v) store = _ :=
    hrun size store.history hs
  obtain ⟨t', hsecond⟩ : ∃ t, retry.runTransaction (fun _ => writeRecord size' v) store = _ :=
    hrun size' store.history hs'
  simp only [ingestValidated, hfirst, hsecond]
  cases result with
  | error e => exact ⟨rfl, rfl, rfl, rfl, rfl⟩
  | ok p => exact ⟨rfl, rfl, rfl, rfl, rfl⟩

/-- The size of batches never changes what a record comes to, whatever the store has in it and
whatever sizes are asked for. -/
theorem ingest_sizes (hf : ¬ Strikes store.faults) (size size' : Nat) (retry : RetryPolicy)
    (notifier : Notifier ν) (text : String) (channel : ν) :
    SameOutcome (ingest ⟨clampBatchSize size, retry⟩ notifier text store channel)
      (ingest ⟨clampBatchSize size', retry⟩ notifier text store channel) := by
  cases hc : check text with
  | error cause =>
    rw [ingest, ingest, hc]
    exact ⟨rfl, rfl, rfl, rfl, rfl⟩
  | ok v =>
    obtain ⟨g, -, hvalid⟩ := bind_ok_iff.mp hc
    rw [ingest_of_check_ok hc, ingest_of_check_ok hc]
    exact ingestValidated_sizes (CallGraph.validate_ok hvalid) hf (clampBatchSize_pos size)
      (clampBatchSize_pos size') retry notifier channel

end Ingestion

/-- Two documents of one edge are merged in one statement or in two. -/
def callingInBatches (size : Nat) : Ingested Unit :=
  ingest ⟨clampBatchSize size, .new 1 0⟩ Notifier.silent twiceCalling (.inMemory .never) ()

theorem ingest_sizes_twiceCalling :
    SameOutcome (callingInBatches 1) (callingInBatches 2) ∧
      (∃ r, (callingInBatches 1).result = .ok r) ∧
      (callingInBatches 2).store.file.committed.edges = [⟨1, 2, "\x7b\"line\":\"8\"\x7d"⟩] ∧
      (callingInBatches 1).store.history.writes ≠ (callingInBatches 2).store.history.writes := by
  obtain ⟨hok, hedges, hwrites⟩ : (callingInBatches 1).result.toOption.isSome = true ∧
      (callingInBatches 2).store.file.committed.edges = [⟨1, 2, "\x7b\"line\":\"8\"\x7d"⟩] ∧
      (callingInBatches 1).store.history.writes ≠ (callingInBatches 2).store.history.writes := by
    decide +kernel
  have hnever : ¬ Strikes (Store.inMemory .never).faults := fun ⟨_, _, h⟩ => h rfl
  exact ⟨ingest_sizes hnever 1 2 _ _ _ _, ok_of_isSome hok, hedges, hwrites⟩

end CallArchive.Ingest
