import CallArchive.Proofs.Ingest.Adding
import Mathlib.Data.List.Pairwise

/-!
# Records in any order

Records that share no version and no method (`Apart`) add the same in either order: what they have
in common are packages and external callables, and all records say the same of those
(`addRecord_comm`). So the order does not matter to what a schedule of records adds
(`Schedule.grows`, `foldl_addText_perm`).
-/

namespace CallArchive.Ingest

open Store (CallableKey Database Contents NamedCallable PackageKey PackageData Table
  gathered_comm_of_eq gathered_comm_of_not_mem putAll_comm)

/-- Records that share no version and no address of a method. -/
structure Apart (v v' : Validated) : Prop where
  versions : versionName v ≠ versionName v'
  methods : ∀ m ∈ v.methods, ∀ m' ∈ v'.methods, m.address ≠ m'.address

theorem Apart.symm {v v' : Validated} (h : Apart v v') : Apart v' v :=
  ⟨h.versions.symm, fun m hm m' hm' => (h.methods m' hm' m hm).symm⟩

/-! ## Two records -/

section Keys

variable {v : Validated}

theorem packageEntry_data {e : PackageKey × PackageData} (h : e ∈ packageEntries v) :
    e.2 = ⟨none, none, none⟩ := by
  rcases List.mem_cons.mp h with rfl | h
  · rfl
  · obtain ⟨d, -, rfl⟩ := List.mem_map.mp h
    rfl

theorem version_of_namedModules {n : Store.ModuleName} (h : n ∈ (namedModules v).map Prod.fst) :
    n.1 = versionName v := by
  obtain ⟨e, he, rfl⟩ := List.mem_map.mp h
  obtain ⟨m, -, rfl⟩ := List.mem_map.mp he
  rfl

theorem version_of_namedFiles {n : Store.FileName} (h : n ∈ (namedFiles v).map Prod.fst) :
    n.1 = versionName v := by
  obtain ⟨e, he, rfl⟩ := List.mem_map.mp h
  obtain ⟨m, -, hrow⟩ := List.mem_filterMap.mp he
  obtain ⟨path, -, rfl⟩ := Option.map_eq_some_iff.mp hrow
  rfl

/-- The callable of a method of the record. -/
def IsMethod (v : Validated) (k : CallableKey) : Prop :=
  ∃ m ∈ v.methods, k = .of m.address true

theorem isMethod_of_namedMethods {k : CallableKey} (h : k ∈ (namedMethods v).map Prod.fst) :
    IsMethod v k := by
  obtain ⟨e, he, rfl⟩ := List.mem_map.mp h
  obtain ⟨m, hm, he⟩ := List.mem_flatMap.mp he
  obtain ⟨method, hmethod, rfl⟩ := List.mem_map.mp he
  exact ⟨method, List.mem_flatMap.mpr ⟨m, hm, hmethod⟩, rfl⟩

theorem of_namedExternals {e : CallableKey × NamedCallable} (h : e ∈ namedExternals v) :
    (∃ address, e.1 = .of address false) ∧ e.2 = ⟨none, Database.stamp none none⟩ := by
  obtain ⟨address, -, rfl⟩ := List.mem_map.mp h
  exact ⟨⟨address, rfl⟩, rfl⟩

theorem isMethod_source {g : CallGraph} (hv : CallGraph.Validates g v) {k : CallableKey × CallableKey}
    (h : k ∈ (namedEdges v).map Prod.fst) : IsMethod v k.1 := by
  have hmethod : ∀ {id}, id ∈ v.methods.map (·.id) → IsMethod v (methodKey v id) := fun hid => by
    obtain ⟨m, hm, -, hkey⟩ := exists_method hid
    exact ⟨m, hm, hkey⟩
  obtain ⟨e, he, rfl⟩ := List.mem_map.mp h
  rcases List.mem_append.mp he with he | he
  · obtain ⟨arc, harc, rfl⟩ := List.mem_map.mp he
    exact hmethod (hv.ends_internal harc).1
  · obtain ⟨arc, harc, rfl⟩ := List.mem_map.mp he
    exact hmethod (hv.source_external harc)

end Keys

section Two

variable {v v' : Validated}

theorem Apart.not_isMethod (h : Apart v v') {k : CallableKey} (hk : IsMethod v k) :
    ¬ IsMethod v' k := by
  rintro ⟨m', hm', rfl⟩
  obtain ⟨m, hm, heq⟩ := hk
  exact h.methods m hm m' hm' (CallableKey.of_inj.mp heq).1.symm

/-- Only the record of a method names its callable. -/
theorem Apart.not_named (h : Apart v v') {k : CallableKey} (hk : IsMethod v k) :
    k ∉ (namedMethods v' ++ namedExternals v').map Prod.fst := by
  rw [List.map_append, List.mem_append]
  rintro (hmethod | hexternal)
  · exact h.not_isMethod hk (isMethod_of_namedMethods hmethod)
  · obtain ⟨e, he, heq⟩ := List.mem_map.mp hexternal
    obtain ⟨m, -, rfl⟩ := hk
    obtain ⟨address, haddress⟩ := (of_namedExternals he).1
    cases (CallableKey.of_inj.mp (heq.symm.trans haddress)).2

theorem named_data {k : CallableKey} (hk : ¬ IsMethod v k) {e : CallableKey × NamedCallable}
    (he : e ∈ namedMethods v ++ namedExternals v) (heq : e.1 = k) :
    e.2 = ⟨none, Database.stamp none none⟩ := by
  rcases List.mem_append.mp he with he | he
  · exact absurd (isMethod_of_namedMethods (heq ▸ List.mem_map_of_mem he)) hk
  · exact (of_namedExternals he).2

/-- Records that are apart add the same in either order. -/
theorem addRecord_comm {g g' : CallGraph} (hv : CallGraph.Validates g v)
    (hv' : CallGraph.Validates g' v') (h : Apart v v') (c : Contents) :
    addRecord (addRecord c v) v' = addRecord (addRecord c v') v := by
  apply Contents.ext
  case packages =>
    exact putAll_comm _ (fun k => gathered_comm_of_eq (fun e he _ => packageEntry_data he)
      fun e he _ => packageEntry_data he) _
  case versions =>
    refine putAll_comm _ (fun n => gathered_comm_of_not_mem fun hn hn' => h.versions ?_) _
    exact (List.mem_singleton.mp hn).symm.trans (List.mem_singleton.mp hn')
  case dependencies =>
    funext n
    by_cases hn : n = versionName v
    · have hne : n ≠ versionName v' := hn ▸ h.versions
      simp only [addRecord, if_pos hn, if_neg hne]
    · by_cases hn' : n = versionName v'
      · simp only [addRecord, if_neg hn, if_pos hn']
      · simp only [addRecord, if_neg hn, if_neg hn']
  case modules =>
    refine putAll_comm _ (fun n => gathered_comm_of_not_mem fun hn hn' => h.versions ?_) _
    exact (version_of_namedModules hn).symm.trans (version_of_namedModules hn')
  case files =>
    refine putAll_comm _ (fun n => gathered_comm_of_not_mem fun hn hn' => h.versions ?_) _
    exact (version_of_namedFiles hn).symm.trans (version_of_namedFiles hn')
  case links =>
    funext n
    exact propext or_right_comm
  case callables =>
    refine putAll_comm _ (fun k => ?_) _
    by_cases hk : IsMethod v k
    · exact gathered_comm_of_not_mem fun _ => h.not_named hk
    · by_cases hk' : IsMethod v' k
      · exact gathered_comm_of_not_mem fun hmem => absurd hmem (h.symm.not_named hk')
      · exact gathered_comm_of_eq (fun e => named_data hk) fun e => named_data hk'
  case edges =>
    refine putAll_comm _ (fun k => gathered_comm_of_not_mem fun hk hk' => ?_) _
    exact h.not_isMethod (isMethod_source hv hk) (isMethod_source hv' hk')

end Two

/-! ## Lists of records -/

/-- What is held once the record that a text is has been stored. -/
def addText (c : Contents) (text : String) : Contents :=
  match check text with
  | .ok v => addRecord c v
  | .error _ => c

def TextsApart (t t' : String) : Prop :=
  ∀ v v', check t = .ok v → check t' = .ok v' → Apart v v'

instance : Std.Symm TextsApart := ⟨fun _ _ h v v' hv hv' => (h v' v hv' hv).symm⟩

theorem addText_comm {t t' : String} (h : TextsApart t t') (c : Contents) :
    addText (addText c t) t' = addText (addText c t') t := by
  unfold addText
  cases hv : check t with
  | error _ => rfl
  | ok v =>
    cases hv' : check t' with
    | error _ => rfl
    | ok v' =>
      obtain ⟨g, -, hvalid⟩ := bind_ok_iff.mp hv
      obtain ⟨g', -, hvalid'⟩ := bind_ok_iff.mp hv'
      exact addRecord_comm (CallGraph.validate_ok hvalid) (CallGraph.validate_ok hvalid')
        (h v v' hv hv') c

theorem foldl_addText_perm {texts texts' : List String} (h : texts.Perm texts')
    (hapart : texts.Pairwise TextsApart) (c : Contents) :
    texts.foldl addText c = texts'.foldl addText c := by
  refine h.foldl_eq' (fun t ht t' ht' c => ?_) c
  by_cases heq : t = t'
  · rw [heq]
  · exact addText_comm (hapart.forall ht ht' heq) c

/-! ## Schedules -/

/-- Some worker's call with the text has succeeded and taken the database of a file to another. Its
attempts before the last have changed nothing. -/
def Ingests (text : String) (db : Database) (r : Report) (db' : Database) : Prop :=
  ∃ (ν : Type) (size : Nat) (retry : RetryPolicy) (notifier : Notifier ν) (store : Store)
    (channel : ν) (done : Ingested ν),
    ingest ⟨clampBatchSize size, retry⟩ notifier text store channel = done ∧
      done.result = .ok r ∧ store.file.committed = db ∧ done.store.file.committed = db'

/-- Texts have been ingested one after the other, by whomever. -/
inductive Schedule (db : Database) : List String → Database → Prop where
  | nil : Schedule db [] db
  | snoc {texts : List String} {text : String} {db' after : Database} {r : Report} :
    Schedule db texts db' → Ingests text db' r after → Schedule db (texts ++ [text]) after

variable {db db' after : Database} {text : String} {texts : List String} {r : Report}

theorem Ingests.recordAfter (h : Ingests text db r after) :
    ∃ v, check text = .ok v ∧ recordAfter v db = some (r.written, after) := by
  obtain ⟨ν, size, retry, notifier, store, channel, done, rfl, hr, rfl, rfl⟩ := h
  cases hc : check text with
  | error cause =>
    rw [ingest, hc] at hr
    cases hr
  | ok v =>
    have hrun : ingest ⟨clampBatchSize size, retry⟩ notifier text store channel
        = ingestValidated ⟨clampBatchSize size, retry⟩ notifier v store channel := by
      rw [ingest, hc]
    rw [hrun] at hr ⊢
    exact ⟨v, rfl, (ingestValidated_ok (clampBatchSize_pos size) hr).2.1⟩

/-- What a database comes to that holds the contents with the names of an earlier one. -/
structure Grows (old : Database) (h₀ : old.Linked) (c : Contents) (db : Database) : Prop where
  linked : db.Linked
  names : Database.NamesKept h₀ linked
  settings : db.settings = old.settings
  contents : linked.contents = c

theorem Grows.ingests {old : Database} {h₀ : old.Linked} {c : Contents} (h : Grows old h₀ c db)
    (hi : Ingests text db r after) : Grows old h₀ (addText c text) after := by
  obtain ⟨v, hc, hr⟩ := hi.recordAfter
  obtain ⟨g, -, hvalid⟩ := bind_ok_iff.mp hc
  have hv := CallGraph.validate_ok hvalid
  have hlinked := linked_recordAfter h.linked hr
  have hcontents := contents_recordAfter hv h.linked hlinked hr
  obtain ⟨es, -, edges, -, -, rfl⟩ := recordAfter_eq_some_iff.mp hr
  refine ⟨hlinked, h.names.trans (namesKept_recordAfter h.linked hlinked), h.settings, ?_⟩
  rw [hcontents, h.contents, addText, hc]

/-- A run of records adds what each of them adds. -/
theorem Schedule.grows (hs : Schedule db texts after) (h : db.Linked) :
    Grows db h (texts.foldl addText h.contents) after := by
  induction hs with
  | nil => exact ⟨h, .refl h, rfl, rfl⟩
  | snoc hs hi ih =>
    rw [List.foldl_append]
    exact ih.ingests hi

/-! ## Shared rows -/

/-- The packages and the external callables that a record refers to have one row each. -/
structure OneRowEach (v : Validated) (db : Database) : Prop where
  dependencies : ∀ d ∈ v.dependencies, ∃! r, r ∈ db.packages.rows ∧ r.key = ⟨d.product, d.forge⟩
  externals : ∀ arc ∈ v.externalArcs,
    ∃! r, r ∈ db.callables.rows ∧ r.key = .of arc.target false

theorem oneRowEach_recordAfter {v : Validated} {w : Written} (h : after.Linked)
    (hr : recordAfter v db = some (w, after)) : OneRowEach v after := by
  obtain ⟨es, -, edges, -, -, rfl⟩ := recordAfter_eq_some_iff.mp hr
  exact ⟨fun d hd => h.packages.existsUnique_row (dependencyKey_mem hd),
    fun arc harc => h.callables.existsUnique_row (externalKey_mem harc)⟩

theorem OneRowEach.recordAfter {v v' : Validated} {w : Written} (hone : OneRowEach v db)
    (h : after.Linked) (hr : recordAfter v' db = some (w, after)) : OneRowEach v after := by
  obtain ⟨es, -, edges, -, -, rfl⟩ := recordAfter_eq_some_iff.mp hr
  constructor
  · intro d hd
    obtain ⟨row, ⟨hrow, hkey⟩, -⟩ := hone.dependencies d hd
    exact h.packages.existsUnique_row
      (Table.mem_keys_upsertAll.mpr (.inl (hkey ▸ List.mem_map_of_mem hrow)))
  · intro arc harc
    obtain ⟨row, ⟨hrow, hkey⟩, -⟩ := hone.externals arc harc
    exact h.callables.existsUnique_row
      (Table.mem_keys_upsertAll.mpr (.inl (hkey ▸ List.mem_map_of_mem hrow)))

theorem Schedule.oneRowEach (hs : Schedule db texts after) (h : db.Linked) :
    ∀ text ∈ texts, ∃ v, check text = .ok v ∧ OneRowEach v after := by
  induction hs with
  | nil => exact fun _ hmem => nomatch hmem
  | snoc hs hi ih =>
    have hlinked := ((hs.grows h).ingests hi).linked
    obtain ⟨v, hc, hr⟩ := hi.recordAfter
    intro text hmem
    rcases List.mem_append.mp hmem with hmem | hmem
    · obtain ⟨v', hc', hone⟩ := ih text hmem
      exact ⟨v', hc', hone.recordAfter hlinked hr⟩
    · obtain rfl := List.mem_singleton.mp hmem
      exact ⟨v, hc, oneRowEach_recordAfter hlinked hr⟩

end CallArchive.Ingest
