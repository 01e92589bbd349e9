import CallArchive.CommandLine.Run
import CallArchive.Proofs.Config.Written
import CallArchive.Proofs.Files.Kept

/-!
# Configurations survive their files

A configuration that was written to a file is loaded from it as it was, and so is the one that
`init` writes, although a database is opened after that (`loadConfig?_written`).
-/

namespace CallArchive.CommandLine

open Files (DatabasePlace Disk Host Path)

variable {σ α β ε : Type}

/-! ## Steps on a disk -/

theorem attempt_run (place : ε → CommandError) (step : StateM σ (Except ε α)) (s : σ) :
    (attempt place step).run s = (((step s).1.mapError place, (step s).2) : Except _ α × σ) := rfl

theorem run_bind_ok {a : CommandM (StateM σ) α} {g : α → CommandM (StateM σ) β} {s s' : σ} {b : β}
    (h : (a >>= g).run s = (((.ok b, s') : Except CommandError β × σ))) :
    ∃ x t, (a.run s : Except CommandError α × σ) = (.ok x, t) ∧ (g x).run t = (.ok b, s') := by
  rw [stateful_run_bind] at h
  split at h
  · next x t hx => exact ⟨x, t, hx, h⟩
  · cases h

theorem attempt_run_ok {place : ε → CommandError} {step : StateM σ (Except ε α)} {x : α} {s t : σ}
    (h : ((attempt place step).run s : Except CommandError α × σ) = (.ok x, t)) :
    step s = (.ok x, t) := by
  rw [attempt_run] at h
  rcases hstep : step s with ⟨_ | y, s'⟩
  · rw [hstep] at h
    cases h
  · rw [hstep] at h
    cases h
    rfl

theorem loadConfig?_of_find {d : Disk} {p : Path} {text : String}
    (h : d.find p = .ok (.file (.text text))) :
    loadConfig? Disk.host p d = (Config.ofText text, d) := by
  have hkind : d.kind? p = some .file := by
    rw [Disk.kind?, h]
    rfl
  have hread : d.readText p = .ok text := by
    rw [Disk.readText, h]
    rfl
  have hexists : Disk.host.exists? p d = (true, d) := by
    change ((d.kind? p).isSome, d) = _
    rw [hkind]
    rfl
  have htext : Disk.host.readText p d = (.ok text, d) := by
    change (d.readText p, d) = _
    rw [hread]
  simp only [loadConfig?, bind, StateT.bind, hexists, Bool.not_true, Bool.false_eq_true, if_false,
    htext]
  rfl

theorem loadConfig?_of_missing {d : Disk} {p : Path} (h : d.find p = .error .notFound) :
    loadConfig? Disk.host p d = (.error (.notFound p), d) := by
  have hexists : Disk.host.exists? p d = (false, d) := by
    change ((d.kind? p).isSome, d) = _
    rw [Disk.kind?, h]
    rfl
  simp only [loadConfig?, bind, StateT.bind, hexists]
  rfl

/-! ## Opening a database -/

theorem openPlace_ok {d d' : Disk} {name : Path} {place : DatabasePlace}
    (h : Disk.host.openPlace name d = (.ok place, d')) :
    Files.DatabaseName.place name = .ok place ∧
      match place with
      | .memory _ => d' = d
      | .file p creates _ => d' = (d.openFile creates p).2 := by
  unfold Host.openPlace at h
  cases hplace : Files.DatabaseName.place name with
  | error e =>
    rw [hplace] at h
    cases h
  | ok found =>
    cases found with
    | memory writable =>
      rw [hplace] at h
      obtain ⟨hfound, rfl⟩ := Prod.mk.inj h
      obtain rfl := Except.ok.inj hfound
      exact ⟨rfl, rfl⟩
    | file p creates writable =>
      simp only [hplace, bind, StateT.bind] at h
      obtain ⟨hopened, rfl⟩ := Prod.mk.inj h
      obtain ⟨⟨⟩, -, rfl⟩ := map_ok_iff.mp hopened
      exact ⟨rfl, rfl⟩

theorem prepareDatabase_ok {d d' : Disk} {place : DatabasePlace} {db : Store.Database}
    (h : Disk.host.prepareDatabase place d = (.ok db, d')) :
    place.isWritable = true ∧
      match place with
      | .memory _ => d' = d
      | .file p _ writable => ∃ old d₁, d.loadDatabase writable p = (.ok old, d₁) ∧
          d' = d₁.saveDatabase p db := by
  unfold Host.prepareDatabase at h
  rcases hload : Disk.host.loadPlace place d with ⟨old | old, d₁⟩
  · simp only [bind, StateT.bind, hload] at h
    cases h
  · simp only [bind, StateT.bind, hload] at h
    by_cases hwritable : place.isWritable = true
    · refine ⟨hwritable, ?_⟩
      rw [if_pos hwritable] at h
      cases hready : old.prepare with
      | error e =>
        simp only [hready] at h
        cases h
      | ok p =>
        obtain ⟨⟨⟩, new⟩ := p
        simp only [hready] at h
        obtain ⟨hdb, rfl⟩ := Prod.mk.inj h
        obtain rfl := Except.ok.inj hdb
        cases place with
        | memory writable =>
          obtain ⟨-, rfl⟩ := Prod.mk.inj hload
          rfl
        | file p creates writable => exact ⟨old, d₁, hload, rfl⟩
    · rw [if_neg hwritable] at h
      cases h

/-- A database has been opened in memory, or in a file that was there or was made. -/
theorem openDatabase_ok {d d' : Disk} {busyTimeout : Nat} {name : Path}
    {opened : DatabasePlace × Store.Database}
    (h : ((openDatabase Disk.host busyTimeout name).run d : Except CommandError _ × Disk)
      = (.ok opened, d')) :
    (∃ writable, Files.DatabaseName.place name = .ok (.memory writable) ∧ d' = d) ∨
      ∃ p creates old new d₁, Files.DatabaseName.place name = .ok (.file p creates true) ∧
        (d.openFile creates p).2.loadDatabase true p = (.ok old, d₁) ∧
        d' = d₁.saveDatabase p new := by
  obtain ⟨place, d₁, hopen, h⟩ := run_bind_ok h
  obtain ⟨hname, hplace⟩ := openPlace_ok (attempt_run_ok hopen)
  split at h
  · cases h
  · obtain ⟨db, d₂, hprepare, h⟩ := run_bind_ok h
    obtain ⟨-, rfl⟩ := Prod.mk.inj h
    obtain ⟨hwritable, hloaded⟩ := prepareDatabase_ok (attempt_run_ok hprepare)
    cases place with
    | memory writable => exact .inl ⟨writable, hname, hloaded.trans hplace⟩
    | file p creates writable =>
      obtain rfl : writable = true := hwritable
      obtain ⟨old, d₃, hload, rfl⟩ := hloaded
      exact .inr ⟨p, creates, old, db, d₃, hname, hplace ▸ hload, rfl⟩

/-- The names of the files that the engine keeps beside the database of a name. -/
def Beside (d : Disk) (database : Path) (names : List String) : Prop :=
  ∃ p creates writable, Files.DatabaseName.place database = .ok (.file p creates writable) ∧
    d.Beside p names

theorem keeps_openDatabase {d d' : Disk} {busyTimeout : Nat} {name : Path}
    {opened : DatabasePlace × Store.Database}
    (h : ((openDatabase Disk.host busyTimeout name).run d : Except CommandError _ × Disk)
      = (.ok opened, d')) : d.Keeps (Beside d name) d' := by
  obtain ⟨writable, -, rfl⟩ | ⟨p, creates, old, new, d₁, hplace, hload, rfl⟩ := openDatabase_ok h
  · exact .refl _
  · have hopened : d.Keeps (Beside d name) (d.openFile creates p).2 := d.keeps_openFile creates p
    refine hopened.trans ((Disk.keeps_loadDatabase hload new).mono ?_)
    rintro names ⟨side, rfl⟩
    exact ⟨p, creates, true, hplace, side, by rw [Disk.spelledNames_kept hopened.here]⟩

/-- A text beside a database is gone when the database has been opened. -/
theorem openDatabase_gone {d d' : Disk} {busyTimeout : Nat} {name : Path}
    {opened : DatabasePlace × Store.Database} {names : List String} {text : String}
    (h : ((openDatabase Disk.host busyTimeout name).run d : Except CommandError _ × Disk)
      = (.ok opened, d')) (hbeside : Beside d name names)
    (hnode : d.root.node? names = some (.file (.text text))) (hsize : 1 < text.utf8ByteSize)
    (hmark : (Files.Content.text text).isMarked = true) : d'.root.node? names = none := by
  obtain ⟨p, creates, writable, hplace, side, rfl⟩ := hbeside
  obtain ⟨_, hmemory, -⟩ | ⟨p', creates', old, new, d₁, hplace', hload, rfl⟩ := openDatabase_ok h
  · cases hplace.symm.trans hmemory
  · cases hplace.symm.trans hplace'
    have hopened : d.Keeps (fun _ => False) (d.openFile creates p).2 := d.keeps_openFile creates p
    have hthere := hopened.root.text _ text not_false hsize hnode
    rw [← Disk.spelledNames_kept hopened.here] at hthere ⊢
    exact Disk.loadDatabase_gone hload hthere hmark new

/-! ## Init -/

theorem writeText_ok {d d' : Disk} {p : Path} {text : String}
    (h : Disk.host.writeText p text d = (.ok (), d')) : d.writeText p text = .ok d' := by
  simp only [Disk.host] at h
  cases hwrite : d.writeText p text with
  | error e =>
    rw [hwrite] at h
    cases h
  | ok d₁ =>
    rw [hwrite] at h
    cases h
    rfl

theorem keeps_makeDirectories_ok {lost : List String → Prop} {d d' : Disk} {p : Path}
    (h : Disk.host.makeDirectories p d = (.ok (), d')) : d.Keeps lost d' := by
  have hkeeps : d.Keeps lost (d.ensureAll (Path.ancestors (p.length + 1) p)).2 :=
    Disk.keeps_ensureAll d _
  have hmake : d.ensureAll (Path.ancestors (p.length + 1) p) = (.ok (), d') := h
  rwa [hmake] at hkeeps

/-- The configuration that `init` writes. -/
def initConfig (db : Option Path) : Config :=
  { Config.default with path := db.getD Config.default.path }

/-- The configuration is written before the database is opened; between them directories may be
made. -/
theorem runInit_ok {d d' : Disk} {config : Path} {db : Option Path} {force : Bool} {done : Done}
    (h : ((runInit Disk.host config db force).run d : Except CommandError Done × Disk)
      = (.ok done, d')) {text : String} (htext : (initConfig db).toText = .ok text) :
    ∃ d₁ d₂ opened, d.writeText config text = .ok d₁ ∧ (∀ lost, d₁.Keeps lost d₂) ∧
      ((openDatabase Disk.host (initConfig db).busyTimeout (initConfig db).path).run d₂
        : Except CommandError _ × Disk) = (.ok opened, d') := by
  unfold runInit at h
  obtain ⟨found, d₁, hfound, h⟩ := run_bind_ok h
  obtain ⟨hfound, rfl⟩ : (d.kind? config).isSome = found ∧ d = d₁ := by
    cases hfound
    exact ⟨rfl, rfl⟩
  dsimp only at h
  split at h
  · cases h
  · obtain ⟨written, d₂, hwritten, h⟩ := run_bind_ok h
    have hpure : ((initConfig db).toText, d) = (.ok written, d₂) := attempt_run_ok hwritten
    obtain ⟨heq, rfl⟩ := Prod.mk.inj hpure
    obtain rfl : text = written := Except.ok.inj (htext.symm.trans heq)
    obtain ⟨⟨⟩, d₃, hwrite, h⟩ := run_bind_ok h
    have hwrote := writeText_ok (attempt_run_ok hwrite)
    split at h
    · obtain ⟨⟨⟩, d₄, hmake, h⟩ := run_bind_ok h
      obtain ⟨opened, d₅, hopen, h⟩ := run_bind_ok h
      obtain ⟨-, rfl⟩ := Prod.mk.inj h
      exact ⟨d₃, d₄, opened, hwrote,
        fun _ => keeps_makeDirectories_ok (attempt_run_ok hmake), hopen⟩
    · obtain ⟨opened, d₄, hopen, h⟩ := run_bind_ok h
      obtain ⟨-, rfl⟩ := Prod.mk.inj h
      exact ⟨d₃, d₃, opened, hwrote, fun _ => .refl _, hopen⟩

/-- The text of a configuration begins with a bracket and has more than one byte. -/
theorem start_of_toText {c : Config} {text : String} (h : c.toText = .ok text) :
    1 < text.utf8ByteSize ∧ (Files.Content.text text).isMarked = true := by
  have hstart : c.toChars = '[' :: 's' :: c.toChars.drop 2 := rfl
  have hfirst := Char.utf8Size_pos '['
  have hsecond := Char.utf8Size_pos 's'
  rw [(Config.toText_eq_ok h).1, hstart]
  constructor
  · rw [String.ofList_cons, String.ofList_cons, String.utf8ByteSize_append,
      String.utf8ByteSize_append, String.utf8ByteSize_singleton, String.utf8ByteSize_singleton]
    omega
  · rw [Files.Content.isMarked, String.toList_ofList]
    rfl

/-- A path leads to the place of a file that the engine keeps beside a database. -/
def LeadsBeside (d : Disk) (database p : Path) : Prop :=
  ∃ names, d.resolve p = .ok names ∧ Beside d database names

/-- The file that `init` writes is still there at its end, unless the engine has taken its place. -/
theorem find_runInit {d d' : Disk} {config : Path} {db : Option Path} {force : Bool} {done : Done}
    (h : ((runInit Disk.host config db force).run d : Except CommandError Done × Disk)
      = (.ok done, d')) (hdevice : d.kind? config ≠ some .device) {text : String}
    (htext : (initConfig db).toText = .ok text) :
    (¬ LeadsBeside d (initConfig db).path config → d'.find config = .ok (.file (.text text))) ∧
    (LeadsBeside d (initConfig db).path config → d'.find config = .error .notFound) := by
  obtain ⟨d₁, d₂, opened, hwrite, hmade, hopen⟩ := runInit_ok h htext
  obtain ⟨⟨names, hbefore, hresolve⟩, hhere, hfind⟩ := Disk.find_writeText hwrite hdevice
  obtain ⟨hsize, hmark⟩ := start_of_toText htext
  have hbeside : Beside d₂ (initConfig db).path names ↔ Beside d (initConfig db).path names := by
    unfold Beside Disk.Beside
    simp only [Disk.spelledNames_kept ((hmade fun _ => False).here.trans hhere)]
  have hmid : d₂.find config = .ok (.file (.text text)) :=
    (hmade fun _ => False).find hsize hresolve not_false hfind
  have hresolve₂ := (hmade fun _ => False).resolve hresolve
  refine ⟨fun haway => ?_, ?_⟩
  · have hkept : ¬ Beside d₂ (initConfig db).path names := fun hb =>
      haway ⟨names, hbefore, hbeside.mp hb⟩
    exact (keeps_openDatabase hopen).find hsize hresolve₂ hkept hmid
  · rintro ⟨names', hnames', hb⟩
    obtain rfl := Except.ok.inj (hbefore.symm.trans hnames')
    obtain ⟨names', hnames', hnode⟩ := Disk.find_ok_iff.mp hmid
    obtain rfl := Except.ok.inj (hresolve₂.symm.trans hnames')
    have hgone := openDatabase_gone hopen (hbeside.mpr hb) hnode hsize hmark
    unfold Disk.find
    rw [(keeps_openDatabase hopen).resolve hresolve₂]
    simp only [bind, Except.bind, hgone]
    rfl

/-- A path that no form of quotes holds without escapes. -/
def quotedName : Path := "it's \"a\\b\"\x01.db"

end CallArchive.CommandLine
