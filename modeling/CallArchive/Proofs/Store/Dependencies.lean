import CallArchive.Proofs.Json.ReadsBack
import CallArchive.Proofs.Store.Columns
import CallArchive.Proofs.Store.Course

/-!
# Lists of dependencies

Insertions of dependencies are asked for one after the other (`Inserted`), and some fail. What a
version then lists are the dependencies that were inserted for it without failure, each once and in
the order in which they first came, with their ranges as they were given (`inserted_listed`). An
insertion is new if none like it has succeeded before, and it fails where the version or the package
is missing.
-/

namespace CallArchive.Store

/-! ## First occurrences -/

section FirstOccurrences

variable {α : Type} [DecidableEq α]

theorem eraseDups_concat (xs : List α) (x : α) :
    (xs ++ [x]).eraseDups = if x ∈ xs then xs.eraseDups else xs.eraseDups ++ [x] := by
  rw [List.eraseDups_append]
  by_cases h : x ∈ xs <;> simp [List.removeAll, h, List.eraseDups_cons]

theorem filter_eraseDups (p : α → Bool) (xs : List α) :
    xs.eraseDups.filter p = (xs.filter p).eraseDups := by
  induction xs using List.reverseRecOn with
  | nil => rfl
  | append_singleton xs x ih =>
    rw [eraseDups_concat, List.filter_append]
    cases hp : p x with
    | false => split <;> simp [hp, ih]
    | true =>
      rw [List.filter_cons_of_pos hp, List.filter_nil, eraseDups_concat]
      by_cases h : x ∈ xs <;> simp [hp, h, ih]

end FirstOccurrences

/-! ## Rows of dependencies -/

namespace NewDependency

/-- The dependency as it is listed. -/
def record (d : NewDependency) : DependencyRecord := ⟨d.version, d.package, d.ranges⟩

theorem row_inj {d e : NewDependency} : d.row = e.row ↔ d = e := by
  obtain ⟨version, package, ranges⟩ := d
  obtain ⟨version', package', ranges'⟩ := e
  simp [row, Database.rangesText, Json.print_ofTexts_inj]

/-- The ranges are read as they were given, whatever stands in them. -/
theorem dependencyRecord_row (d : NewDependency) : Database.dependencyRecord d.row = d.record := by
  have hread : Json.textsOf? d.row.ranges = some d.ranges := Json.textsOf?_print d.ranges
  rw [Database.dependencyRecord, hread]
  rfl

/-- The version and the package of the dependency are there. -/
def Named (d : NewDependency) (db : Database) : Prop :=
  db.versions.hasId d.version = true ∧ db.packages.hasId d.package = true

instance (d : NewDependency) (db : Database) : Decidable (d.Named db) :=
  inferInstanceAs (Decidable (_ ∧ _))

theorem mem_map_row {d : NewDependency} {ds : List NewDependency} :
    d.row ∈ ds.map row ↔ d ∈ ds := by
  simp [row_inj]

end NewDependency

/-! ## Insertions -/

/-- An insertion that was asked for, and what was answered. -/
structure Insertion where
  dependency : NewDependency
  answer : Except Error Bool

/-- The dependencies whose insertion has not failed, in order and with all that repeat. -/
def accepted (calls : List Insertion) : List NewDependency :=
  (calls.filter fun c => c.answer.isOk).map Insertion.dependency

/-- The dependencies are the same, and no version and no package is gone. -/
structure DependenciesKept (before after : Database) : Prop where
  dependencies : after.dependencies = before.dependencies
  versions : ∀ id, before.versions.hasId id = true → after.versions.hasId id = true
  packages : ∀ id, before.packages.hasId id = true → after.packages.hasId id = true

namespace DependenciesKept

theorem refl (db : Database) : DependenciesKept db db := ⟨rfl, fun _ hid => hid, fun _ hid => hid⟩

theorem of_eq {db db' : Database} (hdependencies : db'.dependencies = db.dependencies)
    (hversions : db'.versions = db.versions) (hpackages : db'.packages = db.packages) :
    DependenciesKept db db' :=
  ⟨hdependencies, fun _ hid => hversions ▸ hid, fun _ hid => hpackages ▸ hid⟩

theorem upsertPackage (p : NewPackage) :
    Follows DependenciesKept (Database.upsertPackage p) := by
  intro db id db' h
  obtain ⟨-, rfl⟩ := Database.upsertPackage_ok_iff.mp h
  exact ⟨rfl, fun _ hid => hid, fun _ => Table.hasId_upsert⟩

theorem upsertVersion (v : NewVersion) :
    Follows DependenciesKept (Database.upsertVersion v) := by
  intro db id db' h
  obtain ⟨-, -, rfl⟩ := Database.upsertVersion_ok_iff.mp h
  exact ⟨rfl, fun _ => Table.hasId_upsert, fun _ hid => hid⟩

theorem goes_discard {α : Type} {f : Change α} (hf : Goes DependenciesKept f) :
    Goes DependenciesKept (discard f) := by
  intro db _ db' h
  rw [show discard f = f >>= fun _ => pure () from rfl] at h
  obtain ⟨a, between, hfirst, hrest⟩ := run_change_bind_eq_some h
  obtain ⟨-, rfl⟩ := Prod.mk.inj (Option.some.inj hrest)
  exact hf hfirst

/-- What else is written keeps the dependencies. -/
theorem goes_change {r : Request} (hr : ∀ d, r ≠ .dependency d) :
    Goes DependenciesKept r.change := by
  cases r with
  | package p => exact goes_discard (upsertPackage p).change
  | version v => exact goes_discard (upsertVersion v).change
  | dependency d => exact absurd rfl (hr d)
  | module m =>
    refine goes_discard (Follows.change fun db id db' h => ?_)
    obtain ⟨-, -, rfl⟩ := Database.upsertModule_ok_iff.mp h
    exact .of_eq rfl rfl rfl
  | file f =>
    refine goes_discard (Follows.change fun db id db' h => ?_)
    obtain ⟨-, -, rfl⟩ := Database.upsertFile_ok_iff.mp h
    exact .of_eq rfl rfl rfl
  | link l =>
    refine Follows.change fun db u db' h => ?_
    rcases Database.linkFile_ok_iff.mp h with ⟨-, rfl⟩ | ⟨-, -, rfl⟩
    · exact refl db
    · exact .of_eq rfl rfl rfl
  | callable c =>
    refine goes_discard (Follows.change fun db id db' h => ?_)
    obtain ⟨-, -, rfl⟩ := Database.upsertCallable_ok_iff.mp h
    exact .of_eq rfl rfl rfl
  | callables cs =>
    refine goes_discard (Follows.change fun db ids db' h => ?_)
    obtain ⟨returned, hput, -⟩ := Database.upsertCallables_ok_iff.mp h
    rw [Database.putCallables_eq hput]
    exact .of_eq rfl rfl rfl
  | edges es =>
    refine goes_discard (Follows.change fun db n db' h => ?_)
    obtain ⟨edges, -, -, -, rfl⟩ := Database.upsertEdges_ok_iff.mp h
    exact .of_eq rfl rfl rfl
  | begin | commit | rollback | close =>
    intro db _ db' h
    obtain ⟨-, rfl⟩ := Prod.mk.inj (Option.some.inj h)
    exact refl db

theorem of_request {r : Request} (hwrites : r.Writes) (hr : ∀ d, r ≠ .dependency d) (s : Store) :
    DependenciesKept s.view (r.action.run s : Except Error Unit × Store).2.view := by
  have hwrote := Request.wrote_action hwrites s
  generalize (r.action.run s : Except Error Unit × Store) = result at hwrote
  cases hwrote with
  | done hs hf =>
    rw [hs.view_worked]
    exact goes_change hr hf
  | skipped => exact refl s.view
  | refused => exact refl s.view

end DependenciesKept

/-- Insertions that have been asked for, one after the other, since there were no dependencies. In
between anything may happen that keeps them. -/
inductive Inserted : List Insertion → Store → Prop where
  | nothing {s : Store} : s.view.dependencies = [] → Inserted [] s
  | one {calls : List Insertion} {s s' : Store} {d : NewDependency} {answer : Except Error Bool} :
      Inserted calls s → ((insertDependency d).run s : Except Error Bool × Store) = (answer, s') →
      Inserted (calls ++ [⟨d, answer⟩]) s'
  | other {calls : List Insertion} {s s' : Store} : Inserted calls s →
      DependenciesKept s.view s'.view → Inserted calls s'

/-- What is so after the insertions: what is listed at an open store, and how the next insertion
ends. -/
structure Listed (calls : List Insertion) (s : Store) : Prop where
  lists : s.isOpen = true → ∀ version, ((dependenciesOf version).run s : Except Error _ × Store) =
    (.ok (((accepted calls).filter (·.version = version)).eraseDups.map NewDependency.record), s)
  answers : s.Ready → s.faults s.history .dependency = none → ∀ d : NewDependency,
    ((insertDependency d).run s : Except Error Bool × Store).1 =
      if d.Named s.view then .ok (decide (d ∉ accepted calls)) else .error (.store .foreignKey)
  isNew : ∀ d isNew, ((insertDependency d).run s : Except Error Bool × Store).1 = .ok isNew →
    d.Named s.view ∧ (isNew = true ↔ d ∉ accepted calls)
  unchanged : ∀ d e, ((insertDependency d).run s : Except Error Bool × Store).1 = .error e →
    ((insertDependency d).run s : Except Error Bool × Store).2.file = s.file

/-- An insertion succeeds as its statement does, or it changes nothing. -/
theorem insertDependency_cases {d : NewDependency} {s s' : Store} {answer : Except Error Bool}
    (hrun : ((insertDependency d).run s : Except Error Bool × Store) = (answer, s')) :
    (∃ isNew, answer = .ok isNew ∧ Database.insertDependency d s.view = .ok (isNew, s'.view)) ∨
      ∃ e, answer = .error e ∧ s'.file = s.file ∧ s'.view = s.view := by
  cases answer with
  | ok isNew => exact .inl ⟨isNew, rfl, statement_of_run_write hrun⟩
  | error e =>
    have hwrote := wrote_write .dependency (Database.insertDependency d) s
    rw [show write .dependency (Database.insertDependency d) = insertDependency d from rfl,
      hrun] at hwrote
    cases hwrote with
    | refused => exact .inr ⟨e, rfl, rfl, rfl⟩

theorem run_insertDependency {s : Store} (hs : s.Ready)
    (hp : s.faults s.history .dependency = none) (d : NewDependency) :
    ((insertDependency d).run s : Except Error Bool × Store).1 =
      ((Database.insertDependency d s.view).map Prod.fst).mapError .store := by
  change ((write .dependency (Database.insertDependency d)).run s : Except Error Bool × Store).1 = _
  rw [run_write, hp]
  change ((onFile _).run s.counted : Except Error Bool × Store).1 = _
  rw [run_onFile (s := s.counted) hs.isOpen]
  change ((s.file.write s.connection (Database.insertDependency d)).1).mapError _ = _
  rw [File.write_eq hs.mayWrite, Store.view]
  cases Database.insertDependency d (s.file.view s.connection) <;> rfl

namespace Inserted

variable {calls : List Insertion} {s : Store}

theorem accepted_concat (calls : List Insertion) (d : NewDependency) (answer : Except Error Bool) :
    accepted (calls ++ [⟨d, answer⟩]) =
      accepted calls ++ if answer.isOk then [d] else [] := by
  rw [accepted, List.filter_append, List.map_append]
  cases answer <;> rfl

/-- A row stands for each dependency that was inserted, and it names what is there. -/
structure Rows (calls : List Insertion) (db : Database) : Prop where
  dependencies : db.dependencies = (accepted calls).eraseDups.map NewDependency.row
  named : ∀ d ∈ accepted calls, d.Named db

theorem Rows.mem_iff {db : Database} (h : Rows calls db) {d : NewDependency} :
    d.row ∈ db.dependencies ↔ d ∈ accepted calls := by
  rw [h.dependencies, NewDependency.mem_map_row, List.mem_eraseDups]

theorem Rows.kept {db db' : Database} (h : Rows calls db) (hkept : DependenciesKept db db') :
    Rows calls db' where
  dependencies := hkept.dependencies.trans h.dependencies
  named d hd := ⟨hkept.versions _ (h.named d hd).1, hkept.packages _ (h.named d hd).2⟩

/-- What is answered is whether the dependency has not come before. -/
theorem Rows.answer {db : Database} (h : Rows calls db) (d : NewDependency) :
    (Database.insertDependency d db).map Prod.fst =
      if d.Named db then .ok (decide (d ∉ accepted calls)) else .error .foreignKey := by
  by_cases hmem : d ∈ accepted calls
  · have hok : Database.insertDependency d db = .ok (false, db) := if_pos (h.mem_iff.mpr hmem)
    rw [hok, if_pos (h.named d hmem), decide_eq_false (not_not.mpr hmem)]
    rfl
  · have hrow : d.row ∉ db.dependencies := mt h.mem_iff.mp hmem
    by_cases hnamed : d.Named db
    · have hok := Database.insertDependency_ok_iff.mpr (.inr ⟨hrow, rfl, hnamed, rfl⟩)
      rw [hok, if_pos hnamed, decide_eq_true hmem]
      rfl
    · have herror : Database.insertDependency d db = .error .foreignKey :=
        (if_neg hrow).trans (if_neg (by simpa [NewDependency.Named] using hnamed))
      rw [herror, if_neg hnamed]
      rfl

theorem Rows.insert {db db' : Database} (h : Rows calls db) {d : NewDependency} {isNew : Bool}
    (hok : Database.insertDependency d db = .ok (isNew, db')) :
    d.Named db ∧ (isNew = true ↔ d ∉ accepted calls) ∧ Rows (calls ++ [⟨d, .ok isNew⟩]) db' := by
  have haccepted : accepted (calls ++ [⟨d, .ok isNew⟩]) = accepted calls ++ [d] :=
    accepted_concat calls d (.ok isNew)
  rcases Database.insertDependency_ok_iff.mp hok with ⟨hold, rfl, rfl⟩ | ⟨hnew, rfl, hends, rfl⟩
  · have hmem := h.mem_iff.mp hold
    refine ⟨h.named d hmem, by simp [hmem], ?_, ?_⟩
    · rw [haccepted, eraseDups_concat, if_pos hmem, h.dependencies]
    · rw [haccepted]
      exact List.forall_mem_append.mpr ⟨h.named, List.forall_mem_singleton.mpr (h.named d hmem)⟩
  · have hmem := mt h.mem_iff.mpr hnew
    refine ⟨hends, by simp [hmem], ?_, ?_⟩
    · rw [haccepted, eraseDups_concat, if_neg hmem, List.map_append, h.dependencies]
      rfl
    · rw [haccepted]
      exact List.forall_mem_append.mpr ⟨h.named, List.forall_mem_singleton.mpr hends⟩

theorem rows (h : Inserted calls s) : Rows calls s.view := by
  induction h with
  | nothing hempty => exact ⟨hempty, fun _ hd => nomatch hd⟩
  | @one calls s s' d answer _ hrun ih =>
    rcases insertDependency_cases hrun with ⟨isNew, rfl, hok⟩ | ⟨e, rfl, -, hview⟩
    · exact (ih.insert hok).2.2
    · have haccepted : accepted (calls ++ [⟨d, .error e⟩]) = accepted calls :=
        (accepted_concat calls d (.error e)).trans (List.append_nil _)
      rw [hview]
      exact ⟨haccepted ▸ ih.dependencies, haccepted ▸ ih.named⟩
  | other _ hkept ih => exact ih.kept hkept

theorem insert (h : Inserted calls s) (d : NewDependency) :
    Inserted (calls ++ [⟨d, ((insertDependency d).run s : Except Error Bool × Store).1⟩])
      ((insertDependency d).run s : Except Error Bool × Store).2 :=
  h.one rfl

theorem request (h : Inserted calls s) {r : Request} (hwrites : r.Writes)
    (hr : ∀ d, r ≠ .dependency d) :
    Inserted calls (r.action.run s : Except Error Unit × Store).2 :=
  h.other (.of_request hwrites hr s)

end Inserted

/-- Dependencies are listed each once, as they were given and in the order in which they first came. -/
theorem inserted_listed {calls : List Insertion} {s : Store} (h : Inserted calls s) :
    Listed calls s := by
  have hrows := h.rows
  refine ⟨fun hopen version => ?_, fun hs hp d => ?_, fun d isNew hok => ?_, fun d e herror => ?_⟩
  · rw [dependenciesOf, run_read hopen]
    refine Prod.ext (congrArg Except.ok ?_) rfl
    calc s.view.dependenciesOf version
        = (((accepted calls).eraseDups.map NewDependency.row).filter fun r =>
            r.version == version).map Database.dependencyRecord := by
          rw [Database.dependenciesOf, hrows.dependencies]
      _ = ((accepted calls).eraseDups.filter (·.version = version)).map NewDependency.record := by
          rw [List.filter_map, List.map_map]
          exact List.map_congr_left fun d _ => d.dependencyRecord_row
      _ = _ := by rw [filter_eraseDups]
  · rw [run_insertDependency hs hp, hrows.answer]
    split <;> rfl
  · rcases insertDependency_cases rfl with ⟨isNew', hok', hstatement⟩ | ⟨e, herror, -⟩
    · obtain rfl := Except.ok.inj (hok.symm.trans hok')
      exact ⟨(hrows.insert hstatement).1, (hrows.insert hstatement).2.1⟩
    · cases hok.symm.trans herror
  · rcases insertDependency_cases rfl with ⟨isNew, hok, -⟩ | ⟨e', -, hfile, -⟩
    · cases hok.symm.trans herror
    · exact hfile

/-- Ranges with quotes, line breaks and none at all, a dependency that comes again, and a version
that is there only later. -/
theorem inserted_listed_repeated : ∃ calls s, Inserted calls s ∧
    calls.map (·.answer.toOption) = [none, some true, some true, some false, some true] ∧
    ((dependenciesOf 1).run s : Except Error _ × Store).1 =
      .ok [⟨1, 1, ["[1..2]", "\"\n\\"]⟩, ⟨1, 1, []⟩] := by
  have hstart : Inserted [] (.inMemory .never) := .nothing (by decide +kernel)
  have hpackage := hstart.request (r := .package (.named "p" "m")) trivial nofun
  have hmissing := hpackage.insert ⟨1, 1, []⟩
  have hversion := hmissing.request (r := .version ⟨1, "g", "1", none, none⟩) trivial nofun
  have hfirst := (hversion.insert ⟨1, 1, ["[1..2]", "\"\n\\"]⟩).insert ⟨1, 1, []⟩
  have hother := (hfirst.insert ⟨1, 1, ["[1..2]", "\"\n\\"]⟩).request
    (r := .version ⟨1, "g", "2", none, none⟩) trivial nofun
  have hlast := hother.insert ⟨2, 1, []⟩
  refine ⟨_, _, hlast, by decide +kernel, ?_⟩
  rw [(inserted_listed hlast).lists (by decide +kernel)]
  exact congrArg Except.ok (by decide +kernel)

end CallArchive.Store
