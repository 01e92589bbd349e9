import CallArchive.Proofs.Ingest.Pooled
import CallArchive.Proofs.Record.Identified
import CallArchive.Proofs.Validation.Checked

/-!
# What ingestion leaves keeps the rules

Validation looks at addresses, and what is stored are ids. A database is `Lawful` if its rows are as
validation wants them: the addresses at the ends of its edges keep the rules, its callables outside
are called, and its packages are named. Storing a record keeps it so (`Lawful.recordAfter`), hence
any number of ingestions does that start from nothing, whether they fail or not
(`ingestions_lawful`).
-/

namespace CallArchive.Ingest

open Store (RowId NewCallable NewEdge PackageKey PackageData CallableKey CallableData EdgeRow
  Database Table Row Setting grown_putEdges)

/-- The columns of a callable fit its key: it is resolved if and only if it has a module, and only
if it is resolved it may have a time. -/
def Fits (k : CallableKey) (data : CallableData) : Prop :=
  ∃ address resolved, k = .of address resolved ∧ (resolved = true ↔ data.module.isSome = true) ∧
    (resolved = false → data.stamp.createdAt = none)

/-- The ends of an edge are callables with addresses that may stand there, and the first of them is
resolved. -/
structure Joins (callables : Table CallableKey CallableData) (ends : RowId × RowId) : Prop where
  source : ∃ address, callables.idOf? (.of address true) = some ends.1 ∧ EndsArc .source address
  target : ∃ address resolved, callables.idOf? (.of address resolved) = some ends.2 ∧
    EndsArc .target address

/-- What holds of the rows that ingestion leaves. -/
structure Lawful (db : Database) : Prop where
  /-- No two callables share a key or an id. -/
  sound : db.callables.Sound
  callables : ∀ r ∈ db.callables.rows, Fits r.key r.data
  edges : ∀ e ∈ db.edges, Joins db.callables e.ends
  /-- A callable that is not resolved is called. -/
  called : ∀ address id, db.callables.idOf? (.of address false) = some id →
    ∃ e ∈ db.edges, e.target = id
  packages : ∀ k ∈ db.packages.keys,
    Text.isBlankText k.name = false ∧ Text.isBlankText k.forge = false

theorem Lawful.empty (settings : List Setting) : Lawful { Database.empty with settings } where
  sound := .empty
  callables := nofun
  edges := nofun
  called := nofun
  packages := nofun

/-! ## Callables -/

theorem Fits.combine {k : CallableKey} {old new : CallableData} (ho : Fits k old)
    (hn : Fits k new) : Fits k (CallableData.combine old new) := by
  obtain ⟨address, resolved, rfl, hmodule, htime⟩ := ho
  obtain ⟨address', resolved', heq, -, htime'⟩ := hn
  obtain ⟨rfl, rfl⟩ := CallableKey.of_inj.mp heq
  refine ⟨address, resolved, rfl, hmodule, fun h => ?_⟩
  change new.stamp.createdAt.or old.stamp.createdAt = none
  rw [htime h, htime' h]
  rfl

section Record

variable {g : CallGraph} {v : Validated} {db : Database}

/-- Methods come with a module, and addresses outside with nothing. -/
theorem fits_newCallables {c : NewCallable} (hc : c ∈ newCallables v db) :
    Fits c.entry.1 c.entry.2 := by
  rcases newCallables_cases hc with ⟨module, address, rfl⟩ | ⟨address, rfl⟩
  · exact ⟨address, true, rfl, iff_of_true rfl rfl, nofun⟩
  · exact ⟨address, false, rfl, iff_of_false nofun nofun, fun _ => rfl⟩

/-! ## Edges -/

theorem methodKey_of_address? {id : LocalId} {address : String}
    (h : MethodTable.address? v.methods id = some address) : methodKey v id = .of address true := by
  rw [methodKey, h]
  rfl

theorem checked_namedEdges (hv : CallGraph.Validates g v)
    {e : (CallableKey × CallableKey) × Json.Members} (he : e ∈ namedEdges v) :
    (∃ source, e.1.1 = .of source true ∧ EndsArc .source source) ∧
      ∃ target resolved, e.1.2 = .of target resolved ∧ EndsArc .target target := by
  rcases List.mem_append.mp he with he | he
  · obtain ⟨arc, harc, rfl⟩ := List.mem_map.mp he
    obtain ⟨source, target, hsource, hsourceEnd, htarget, htargetEnd⟩ := hv.endsArc_internal harc
    exact ⟨⟨source, methodKey_of_address? hsource, hsourceEnd⟩,
      ⟨target, true, methodKey_of_address? htarget, htargetEnd⟩⟩
  · obtain ⟨arc, harc, rfl⟩ := List.mem_map.mp he
    obtain ⟨source, hsource, hsourceEnd, htargetEnd⟩ := hv.endsArc_external harc
    exact ⟨⟨source, methodKey_of_address? hsource, hsourceEnd⟩,
      ⟨arc.target, false, rfl, htargetEnd⟩⟩

theorem Joins.upsertAll {callables : Table CallableKey CallableData} {ends : RowId × RowId}
    (h : Joins callables ends) (entries : List (CallableKey × CallableData)) :
    Joins (callables.upsertAll CallableData.combine entries) ends := by
  obtain ⟨source, hsource, hsourceEnd⟩ := h.source
  obtain ⟨target, resolved, htarget, htargetEnd⟩ := h.target
  exact ⟨⟨source, Table.idOf?_upsertAll hsource, hsourceEnd⟩,
    ⟨target, resolved, Table.idOf?_upsertAll htarget, htargetEnd⟩⟩

theorem joins_edgeBetween (hv : CallGraph.Validates g v) (db : Database)
    {e : (CallableKey × CallableKey) × Json.Members} (he : e ∈ namedEdges v) :
    Joins (nodesAfter v db).callables (edgeBetween (nodesAfter v db).callables e).ends := by
  obtain ⟨⟨source, hsource, hsourceEnd⟩, target, resolved, htarget, htargetEnd⟩ :=
    checked_namedEdges hv he
  obtain ⟨hsourceKey, htargetKey⟩ := namedEdge_stored hv db he
  exact ⟨⟨source, hsource ▸ Table.idOf?_eq_some_idOf hsourceKey, hsourceEnd⟩,
    ⟨target, resolved, htarget ▸ Table.idOf?_eq_some_idOf htargetKey, htargetEnd⟩⟩

variable {w : Written} {after : Database}

/-- The edges afterwards are those from before and those of the record. -/
theorem mem_ends_recordAfter (hv : CallGraph.Validates g v)
    (h : recordAfter v db = some (w, after)) (ends : RowId × RowId) :
    ends ∈ after.edges.map EdgeRow.ends ↔ ends ∈ db.edges.map EdgeRow.ends ∨
      ∃ e ∈ namedEdges v, (edgeBetween (nodesAfter v db).callables e).ends = ends := by
  obtain ⟨es, hes, edges, hedges, -, rfl⟩ := recordAfter_eq_some_iff.mp h
  rw [newEdges_eq hv] at hes
  obtain rfl := Except.ok.inj hes
  rw [(grown_putEdges hedges).keys, List.map_map, List.mem_map (f := NewEdge.ends ∘ _)]
  rfl

/-- A callable that is not resolved was there before, or is the target of a call. -/
theorem called_recordAfter (hl : Lawful db) (hv : CallGraph.Validates g v)
    (h : recordAfter v db = some (w, after)) (address : String) (id : RowId)
    (hid : (nodesAfter v db).callables.idOf? (.of address false) = some id) :
    ∃ e ∈ after.edges, e.target = id := by
  have hend (source : RowId) (hends : (source, id) ∈ after.edges.map EdgeRow.ends) :
      ∃ e ∈ after.edges, e.target = id := by
    obtain ⟨e, he, heq⟩ := List.mem_map.mp hends
    exact ⟨e, he, (Prod.mk.inj heq).2⟩
  rcases Table.mem_keys_upsertAll.mp (Table.mem_keys_of_idOf? hid) with hold | hnew
  · have hbefore := Table.idOf?_eq_some_idOf hold
    obtain rfl := Option.some.inj (hid.symm.trans (Table.idOf?_upsertAll hbefore))
    obtain ⟨e, he, htarget⟩ := hl.called _ _ hbefore
    refine hend e.source ((mem_ends_recordAfter hv h _).mpr (.inl ?_))
    exact htarget ▸ List.mem_map_of_mem he
  · rcases (callableEntry_iff hv _).mp hnew with ⟨m, -, heq⟩ | ⟨arc, harc, heq⟩
    · exact absurd (CallableKey.of_inj.mp heq).2 Bool.false_ne_true
    · obtain ⟨rfl, -⟩ := CallableKey.of_inj.mp heq
      obtain rfl := Table.idOf_of_idOf? hid
      have hnamed : ((methodKey v arc.source, .of arc.target false), arc.metadata) ∈ namedEdges v :=
        List.mem_append_right _ (List.mem_map_of_mem harc)
      exact hend _ ((mem_ends_recordAfter hv h _).mpr (.inr ⟨_, hnamed, rfl⟩))

/-! ## Packages -/

theorem named_packageEntries (hv : CallGraph.Validates g v) (hg : g.Identified)
    (hd : ∀ d ∈ v.dependencies, d.Named) : ∀ e ∈ packageEntries v,
      Text.isBlankText e.1.name = false ∧ Text.isBlankText e.1.forge = false := by
  rw [packageEntries, List.forall_mem_cons]
  refine ⟨⟨?_, ?_⟩, List.forall_mem_map.mpr fun d hmem => ⟨(hd d hmem).product, (hd d hmem).forge⟩⟩
  · exact hv.product_eq ▸ hg.product
  · exact hv.forge_eq ▸ hg.forge

/-! ## Ingestions -/

theorem Lawful.recordAfter (hl : Lawful db) (hv : CallGraph.Validates g v) (hg : g.Identified)
    (hd : ∀ d ∈ v.dependencies, d.Named) (h : recordAfter v db = some (w, after)) :
    Lawful after := by
  have hends := mem_ends_recordAfter hv h
  have hcalled := called_recordAfter hl hv h
  obtain ⟨es, -, edges, -, -, rfl⟩ := recordAfter_eq_some_iff.mp h
  exact {
    sound := hl.sound.upsertAll _
    callables := Table.forall_rows_upsertAll hl.callables Fits.combine
      (List.forall_mem_map.mpr fun c hc => fits_newCallables hc)
    edges := fun e he => by
      rcases (hends e.ends).mp (List.mem_map_of_mem he) with hold | ⟨n, hn, heq⟩
      · obtain ⟨e', he', heq⟩ := List.mem_map.mp hold
        exact heq ▸ (hl.edges e' he').upsertAll _
      · exact heq ▸ joins_edgeBetween hv db hn
    called := hcalled
    packages := Table.forall_keys_upsertAll hl.packages (named_packageEntries hv hg hd) }

end Record

section Ingestion

variable {ν : Type} (size : Nat) (retry : RetryPolicy) (notifier : Notifier ν) (text : String)
  {store : Store} (channel : ν)

/-- What is committed after an ingestion is what was there before, or that with the record. -/
theorem committed_ingest :
    (ingest ⟨clampBatchSize size, retry⟩ notifier text store channel).store.file.committed
        = store.file.committed ∨
      ∃ g v w, CallGraph.ofText text = .ok g ∧ g.validate = .ok v ∧
        recordAfter v store.file.committed = some (w,
          (ingest ⟨clampBatchSize size, retry⟩ notifier text store channel).store.file.committed) := by
  unfold ingest
  cases hc : check text with
  | error cause => exact .inl rfl
  | ok v =>
    obtain ⟨g, hg, hvalid⟩ := bind_ok_iff.mp hc
    cases hr : (ingestValidated ⟨clampBatchSize size, retry⟩ notifier v store channel).result with
    | error e => exact .inl (congrArg _ (ingestValidated_error hr).1)
    | ok r =>
      obtain ⟨-, hrecord, -⟩ := ingestValidated_ok (clampBatchSize_pos size) hr
      exact .inr ⟨g, v, r.written, hg, hvalid, hrecord⟩

theorem Lawful.ingest (hl : Lawful store.file.committed) :
    Lawful (ingest ⟨clampBatchSize size, retry⟩ notifier text store
      channel).store.file.committed := by
  rcases committed_ingest size retry notifier text channel with
    hsame | ⟨g, v, w, hg, hv, hrecord⟩
  · rwa [hsame]
  · exact hl.recordAfter (CallGraph.validate_ok hv) (CallGraph.identified_of_ofText hg)
      (CallGraph.named_of_validate hv) hrecord

end Ingestion

/-- The stores that ingestions of any texts lead to, each with its own settings and notifier. In
between anything may happen that leaves alone what is committed. -/
inductive Ingestions (start : Store) : Store → Prop where
  | nothing : Ingestions start start
  | ingest {s : Store} {ν : Type} (size : Nat) (retry : RetryPolicy) (notifier : Notifier ν)
      (text : String) (channel : ν) : Ingestions start s →
      Ingestions start (ingest ⟨clampBatchSize size, retry⟩ notifier text s channel).store
  | other {s s' : Store} : Ingestions start s → s'.file.committed = s.file.committed →
      Ingestions start s'

/-- Whatever is ingested into an empty store, and whatever of it fails, what is committed keeps the
rules. -/
theorem ingestions_lawful {start s : Store} {settings : List Setting}
    (hempty : start.file.committed = { Database.empty with settings })
    (h : Ingestions start s) : Lawful s.file.committed := by
  induction h with
  | nothing => exact hempty ▸ Lawful.empty settings
  | ingest size retry notifier text channel _ ih => exact ih.ingest size retry notifier text channel
  | other _ hsame ih => exact hsame ▸ ih

/-- A store that fails to write edges once. -/
def onceEdgeless : Store := .inMemory (.striking .edges (some 1))

/-- A text that is no record, and a record that takes two attempts. -/
def twiceIngested : Store :=
  let ingestion text store := ingest ⟨clampBatchSize 1, .new 2 0⟩ Notifier.silent text store ()
  (ingestion (sharing "p") (ingestion "" onceEdgeless).store).store

/-- The only method calls the only callable outside. -/
theorem ingestions_lawful_twiceIngested : Lawful twiceIngested.file.committed ∧
    twiceIngested.history.injected = 1 ∧
    twiceIngested.file.committed.edges.map EdgeRow.ends = [(1, 2)] := by
  have hempty : onceEdgeless.file.committed =
      { Database.empty with settings := onceEdgeless.file.committed.settings } := by decide +kernel
  have hrun : Ingestions onceEdgeless twiceIngested :=
    .ingest 1 _ _ _ _ (.ingest 1 _ _ _ _ .nothing)
  have hstored : (twiceIngested.history.injected,
      twiceIngested.file.committed.edges.map EdgeRow.ends) = (1, [(1, 2)]) := by decide +kernel
  exact ⟨ingestions_lawful hempty hrun, Prod.mk.inj hstored⟩

end CallArchive.Ingest
