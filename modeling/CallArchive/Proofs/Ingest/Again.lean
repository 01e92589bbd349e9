import CallArchive.Proofs.Ingest.Stored
import CallArchive.Proofs.Store.Consistent

/-!
# Ingesting a record again

All keys of a record have ids once it is stored, and ids are for good, so the rows that it asks for
are the same when it comes again. They have been taken in already, so no row changes
(`recordAfter_again`). Only the ids that a table would give next are not the same.
-/

namespace CallArchive.Ingest

open Json (ReadsBack)
open Store (RowId NewEdge PackageData DigestData CallableData EdgeRow Database Table Stamp FaultPlan
  Documents fresh fresh_eq_nil mem_fresh)

/-! ## The same rows -/

/-- The databases have the same rows in every table. -/
structure SameRows (db db' : Database) : Prop where
  settings : db'.settings = db.settings
  packages : db'.packages.rows = db.packages.rows
  versions : db'.versions.rows = db.versions.rows
  dependencies : db'.dependencies = db.dependencies
  modules : db'.modules.rows = db.modules.rows
  files : db'.files.rows = db.files.rows
  links : db'.links = db.links
  callables : db'.callables.rows = db.callables.rows
  edges : db'.edges = db.edges

theorem SameRows.refl (db : Database) : SameRows db db :=
  ⟨rfl, rfl, rfl, rfl, rfl, rfl, rfl, rfl, rfl⟩

theorem append_fresh_again {α : Type} [DecidableEq α] {seen xs again : List α}
    (h : again = xs) :
    seen ++ fresh seen xs ++ fresh (seen ++ fresh seen xs) again = seen ++ fresh seen xs := by
  have hseen : ∀ x ∈ again, x ∈ seen ++ fresh seen xs := fun x hx => by
    rw [List.mem_append, mem_fresh]
    by_cases hold : x ∈ seen
    · exact .inl hold
    · exact .inr ⟨h ▸ hx, hold⟩
  rw [fresh_eq_nil hseen, List.append_nil]

theorem rows_upsertAll_same {κ δ : Type} [DecidableEq κ] {combine : δ → δ → δ}
    (hb : Table.Band combine fun _ => True) {t : Table κ δ} {entries again : List (κ × δ)}
    (h : again = entries) :
    ((t.upsertAll combine entries).upsertAll combine again).rows
      = (t.upsertAll combine entries).rows := by
  rw [h]
  exact Table.rows_upsertAll_again hb (fun _ _ => trivial) fun _ _ => trivial

/-! ## What a record asks for when it is there -/

section Again

variable (v : Validated) (db : Database)

theorem packageId_again : packageId v (nodesAfter v db) = packageId v db :=
  Table.idOf_upsertAll packageKey_mem

theorem versionKey_again : versionKey v (nodesAfter v db) = versionKey v db := by
  rw [versionKey, packageId_again, versionKey]

theorem versionEntry_again : versionEntry v (nodesAfter v db) = versionEntry v db := by
  rw [versionEntry, packageId_again, versionEntry]

theorem versionId_again : versionId v (nodesAfter v db) = versionId v db := by
  rw [versionId, versionKey_again]
  exact Table.idOf_upsertAll versionKey_mem

theorem dependencyRows_again : dependencyRows v (nodesAfter v db) = dependencyRows v db := by
  rw [dependencyRows, versionId_again]
  refine List.map_congr_left fun d hd => ?_
  have hid : (nodesAfter v (nodesAfter v db)).packages.idOf ⟨d.product, d.forge⟩
      = (nodesAfter v db).packages.idOf ⟨d.product, d.forge⟩ :=
    Table.idOf_upsertAll (dependencyKey_mem hd)
  exact congrArg (Store.DependencyRow.mk (versionId v db) · _) hid

theorem moduleEntries_again : moduleEntries v (nodesAfter v db) = moduleEntries v db := by
  rw [moduleEntries, versionId_again, moduleEntries]

theorem fileEntries_again : fileEntries v (nodesAfter v db) = fileEntries v db := by
  rw [fileEntries, versionId_again, fileEntries]

theorem linkRows_again : linkRows v (nodesAfter v db) = linkRows v db := by
  rw [linkRows, versionId_again, moduleEntries_again, fileEntries_again]
  exact List.filterMap_congr fun m hm => linkRow?_upsertAll (versionId v db) (moduleKey_mem hm)
    (fun _ hpath => fileKey_mem hm hpath) _ _

theorem pendingMethods_again : pendingMethods v (nodesAfter v db) = pendingMethods v db := by
  rw [pendingMethods, versionId_again, moduleEntries_again]
  refine congrArg List.flatten (List.map_congr_left fun m hm => ?_)
  have hid : ((nodesAfter v db).modules.upsertAll DigestData.combine (moduleEntries v db)).idOf
        ⟨versionId v db, m.namespace⟩
      = (nodesAfter v db).modules.idOf ⟨versionId v db, m.namespace⟩ :=
    Table.idOf_upsertAll (moduleKey_mem hm)
  rw [pendingOf, hid]
  rfl

theorem newCallables_again : newCallables v (nodesAfter v db) = newCallables v db := by
  rw [newCallables, pendingMethods_again, newCallables]

theorem idMap_again : idMap v (nodesAfter v db) = idMap v db := by
  rw [idMap, pendingMethods_again]
  refine congrArg IdMap.ofList (List.map_congr_left fun p hp => ?_)
  exact congrArg (p.id, ·) (Table.idOf_upsertAll (pendingKey_mem hp))

theorem pendingEdges_again : pendingEdges v (nodesAfter v db) = pendingEdges v db := by
  rw [pendingEdges, pendingEdges]
  congr 1
  refine List.map_congr_left fun arc harc => ?_
  have hid : (nodesAfter v (nodesAfter v db)).callables.idOf (.of arc.target false)
      = (nodesAfter v db).callables.idOf (.of arc.target false) :=
    Table.idOf_upsertAll (externalKey_mem harc)
  exact congrArg (fun id => PendingEdge.mk (.local arc.source) (.stored id) arc.metadata) hid

theorem newEdges_again : newEdges v (nodesAfter v db) = newEdges v db := by
  rw [newEdges, idMap_again, pendingEdges_again, newEdges]

theorem written_again : written v (nodesAfter v db) = written v db := by
  rw [written, packageId_again, versionId_again, pendingMethods_again, pendingEdges_again, written]

theorem nodesAfter_again : SameRows (nodesAfter v db) (nodesAfter v (nodesAfter v db)) where
  settings := rfl
  packages := rows_upsertAll_same PackageData.band rfl
  versions := rows_upsertAll_same Stamp.band (congrArg ([·]) (versionEntry_again v db))
  dependencies := append_fresh_again (dependencyRows_again v db)
  modules := rows_upsertAll_same DigestData.band (moduleEntries_again v db)
  files := rows_upsertAll_same DigestData.band (fileEntries_again v db)
  links := append_fresh_again (linkRows_again v db)
  callables := rows_upsertAll_same CallableData.band
    (congrArg (List.map _) (newCallables_again v db))
  edges := rfl

end Again

/-! ## The record again -/

variable {v : Validated} {db : Database}

/-- An edge of the record has the empty document or that of an arc. -/
theorem forall_newEdges {P : Json.Members → Prop} (hempty : P [])
    (hd : ∀ arc ∈ v.externalArcs, P arc.metadata) {es : List NewEdge}
    (h : newEdges v db = .ok es) : ∀ e ∈ es, P e.metadata := by
  intro e he
  obtain ⟨p, hp, hresolve⟩ := (mem_of_mapM_ok h).mp he
  obtain ⟨-, -, hmetadata⟩ := IdMap.resolveEdge_ok_iff.mp hresolve
  rw [← hmetadata]
  rcases List.mem_append.mp hp with hp | hp
  · obtain ⟨arc, -, rfl⟩ := List.mem_map.mp hp
    exact hempty
  · obtain ⟨arc, harc, rfl⟩ := List.mem_map.mp hp
    exact hd arc harc

theorem recordAfter_again (hk : Documents.Kept db.edges)
    (hd : ∀ arc ∈ v.externalArcs, ReadsBack arc.metadata) {w : Written} {after : Database}
    (h : recordAfter v db = some (w, after)) :
    ∃ again, recordAfter v after = some (w, again) ∧ SameRows after again := by
  obtain ⟨es, hes, edges, hput, rfl, rfl⟩ := recordAfter_eq_some_iff.mp h
  have hempty : ReadsBack [] := rfl
  have hputAgain := hk.putEdges_again (forall_newEdges hempty hd hes) hput
  have hesAgain : newEdges v { nodesAfter v db with edges } = .ok es :=
    (newEdges_again v db).trans hes
  have hwritten : written v { nodesAfter v db with edges } = written v db := written_again v db
  refine ⟨{ nodesAfter v { nodesAfter v db with edges } with edges }, ?_,
    { nodesAfter_again v db with edges := rfl }⟩
  exact recordAfter_eq_some_iff.mpr ⟨es, hesAgain, edges, hputAgain, hwritten, rfl⟩

section Ingestion

variable {ν μ : Type} {size size' : Nat} {retry retry' : RetryPolicy} {notifier : Notifier ν}
  {notifier' : Notifier μ} {store : Store} {channel : ν} {channel' : μ}

theorem ingestValidated_again {again : Database} {w : Written} (hi : Idle store)
    (h : recordAfter v store.file.committed = some (w, again))
    (hsame : SameRows store.file.committed again) {second : Ingested ν}
    (hsecond : ingestValidated ⟨clampBatchSize size, retry⟩ notifier v store channel = second) :
    SameRows store.file.committed second.store.file.committed ∧
      second.store.file.writer = none ∧
      (∀ r, second.result = .ok r → r = report v w r.attempts) ∧
      (¬ Strikes store.faults → second.result = .ok (report v w 1)) := by
  have hs := clampBatchSize_pos size
  have hsure : ¬ Strikes store.faults → second.result = .ok (report v w 1) := fun hf =>
    hsecond ▸ ingestValidated_of_not_strikes hs hi hf h
  cases hresult : second.result with
  | error e =>
    obtain ⟨hfile, -⟩ := ingestValidated_error (hsecond ▸ hresult)
    rw [hsecond] at hfile
    refine ⟨?_, ?_, ?_, fun hf => hresult ▸ hsure hf⟩
    · rw [hfile]
      exact .refl _
    · rw [hfile, hi.free]
    · intro r hr
      cases hr
  | ok r =>
    obtain ⟨-, hafter, hidle, hreport⟩ := ingestValidated_ok hs (hsecond ▸ hresult)
    rw [hsecond] at hafter hidle
    obtain ⟨hwritten, hdb⟩ := Prod.mk.inj (Option.some.inj (h.symm.trans hafter))
    refine ⟨hdb ▸ hsame, hidle.free, ?_, fun hf => hresult ▸ hsure hf⟩
    rintro r' hr
    obtain rfl := Except.ok.inj hr
    rw [hwritten]
    exact hreport

/-- A record that has been ingested can be ingested again, by whomever, and then no row changes. -/
theorem ingest_again {text : String} {first : Ingested ν} {r : Report}
    (hfirst : ingest ⟨clampBatchSize size, retry⟩ notifier text store channel = first)
    (hr : first.result = .ok r) (hk : Documents.Kept store.file.committed.edges)
    (hd : ∀ v, check text = .ok v → ∀ arc ∈ v.externalArcs, ReadsBack arc.metadata)
    {faults : FaultPlan} {second : Ingested μ}
    (hsecond : ingest ⟨clampBatchSize size', retry'⟩ notifier' text
      { first.store with faults } channel' = second) :
    SameRows first.store.file.committed second.store.file.committed ∧
      second.store.file.writer = none ∧
      (∀ r', second.result = .ok r' → r' = { r with attempts := r'.attempts }) ∧
      (¬ Strikes faults → second.result = .ok { r with attempts := 1 }) := by
  unfold ingest at hfirst hsecond
  cases hc : check text with
  | error cause =>
    rw [hc] at hfirst
    subst hfirst
    cases hr
  | ok v =>
    rw [hc] at hfirst hsecond
    replace hfirst : ingestValidated _ notifier v store channel = first := hfirst
    obtain ⟨-, hafter, hidle, hreport⟩ :=
      ingestValidated_ok (clampBatchSize_pos size) (hfirst ▸ hr)
    rw [hfirst] at hafter hidle
    obtain ⟨again, hagain, hsame⟩ := recordAfter_again hk (hd v hc) hafter
    have hidle' : Idle { first.store with faults } := ⟨hidle.isOpen, hidle.free⟩
    rw [hreport]
    exact ingestValidated_again hidle' hagain hsame hsecond

end Ingestion

/-- A record of one method with two calls of one address, whose documents collide. -/
def twiceCalling : String :=
  "\x7b\"product\":\"p\",\"forge\":\"m\",\"version\":\"1\",\"generator\":\"g\",\"depset\":[]," ++
  "\"cha\":\x7b\"n\":[\x7b\"1\":\"/n/C.m()V\"\x7d]\x7d,\"graph\":[[]," ++
  "[[1,\"//q/n/D.f()V\",\x7b\"line\":\"7\"\x7d],[1,\"//q/n/D.f()V\",\x7b\"line\":\"8\"\x7d]]]\x7d"

def firstCalling : Ingested Unit :=
  ingest ⟨clampBatchSize 1, .new 1 0⟩ Notifier.silent twiceCalling (.inMemory .never) ()

def secondCalling : Ingested Unit :=
  ingest ⟨clampBatchSize 1, .new 1 0⟩ Notifier.silent twiceCalling
    { firstCalling.store with faults := .never } ()

/-- The keys of a document with the values that are texts. -/
def texts (m : Json.Members) : List (String × Option String) := m.map fun p => (p.1, p.2.text?)

theorem eq_of_texts {m : Json.Members} {k t : String} (h : texts m = [(k, some t)]) :
    m = [(k, .text t)] := by
  obtain ⟨⟨k', value⟩, rfl, hp⟩ := List.map_eq_singleton_iff.mp h
  obtain ⟨rfl, hvalue⟩ := Prod.mk.inj hp
  cases value <;> cases hvalue
  rfl

theorem readsBack_twiceCalling {v : Validated} (h : check twiceCalling = .ok v) :
    ∀ arc ∈ v.externalArcs, ReadsBack arc.metadata := by
  have htexts : (check twiceCalling).toOption.map (·.externalArcs.map (texts ·.metadata))
      = some [[("line", some "7")], [("line", some "8")]] := by decide +kernel
  rw [h] at htexts
  have hlists : v.externalArcs.map (texts ·.metadata)
      = [[("line", some "7")], [("line", some "8")]] := Option.some.inj htexts
  intro arc harc
  have hmem : texts arc.metadata ∈ v.externalArcs.map (texts ·.metadata) :=
    List.mem_map_of_mem harc
  rw [hlists] at hmem
  rcases List.mem_pair.mp hmem with h7 | h8
  · rw [eq_of_texts h7]
    exact (rfl : ReadsBack [("line", .text "7")])
  · rw [eq_of_texts h8]
    exact (rfl : ReadsBack [("line", .text "8")])

/-- The document of the edge is that of the last call, also after both calls have come again. -/
theorem ingest_again_twiceCalling : ∃ r, firstCalling.result = .ok r ∧
    secondCalling.result = .ok { r with attempts := 1 } ∧
    SameRows firstCalling.store.file.committed secondCalling.store.file.committed ∧
    firstCalling.store.file.committed.edges = [⟨1, 2, "\x7b\"line\":\"8\"\x7d"⟩] := by
  obtain ⟨hok, hedges⟩ : firstCalling.result.toOption.isSome = true ∧
      firstCalling.store.file.committed.edges = [⟨1, 2, "\x7b\"line\":\"8\"\x7d"⟩] := by
    decide +kernel
  have hkept : Documents.Kept (Store.inMemory .never).file.committed.edges :=
    ⟨List.nodup_nil, fun _ h => nomatch h⟩
  have hnever : ¬ Strikes .never := fun ⟨_, _, h⟩ => h rfl
  have hfirst : ingest ⟨clampBatchSize 1, .new 1 0⟩ Notifier.silent twiceCalling
    (.inMemory .never) () = firstCalling := rfl
  have hsecond : ingest ⟨clampBatchSize 1, .new 1 0⟩ Notifier.silent twiceCalling
    { firstCalling.store with faults := .never } () = secondCalling := rfl
  obtain ⟨r, hr⟩ := ok_of_isSome hok
  obtain ⟨hsame, -, -, hsucceeds⟩ :=
    ingest_again hfirst hr hkept (fun _ => readsBack_twiceCalling) hsecond
  exact ⟨r, hr, hsucceeds hnever, hsame, hedges⟩

end CallArchive.Ingest
