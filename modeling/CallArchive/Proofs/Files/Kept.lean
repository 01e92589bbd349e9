import CallArchive.Files.Disk
import CallArchive.Proofs.Address.DotSegments
import CallArchive.Proofs.Except
import CallArchive.Proofs.Files.Tree

/-!
# What a disk keeps

Making directories leaves every directory and every text in its place, and so does opening a
database, except for what is in the place of a file beside it (`Disk.Keeps`). So a path that led to a
text still leads to it. A text that is written is found under its path (`Disk.find_writeText`).
-/

namespace CallArchive.Files

/-! ## Names of files beside databases -/

namespace SideFile

variable {names : List String} {side side' : SideFile}

theorem length_names (hne : names ≠ []) (side : SideFile) :
    (side.names names).length = names.length := by
  have hpos := List.length_pos_iff.mpr hne
  rw [SideFile.names, List.length_append, List.length_dropLast, List.length_singleton]
  omega

theorem names_injective (h : side.names names = side'.names names) : side = side' := by
  have hlast := List.singleton_inj.mp (List.append_cancel_left h)
  have hsuffix := (String.append_right_inj _).mp hlast
  revert hsuffix
  cases side <;> cases side' <;> decide

theorem names_ne (hne : names ≠ []) (side : SideFile) : side.names names ≠ names := by
  intro h
  have hlast : (side.names names).getLast? = names.getLast? := by rw [h]
  rw [SideFile.names, List.getLast?_concat, List.getLast?_eq_some_getLast hne, Option.getD_some,
    Option.some.injEq] at hlast
  have hsize := congrArg String.utf8ByteSize hlast
  rw [String.utf8ByteSize_append] at hsize
  have hpos : 0 < side.suffix.utf8ByteSize := by cases side <;> decide
  omega

/-- Names in the same directory are apart if they differ. -/
theorem not_prefix_of_ne {q : List String} (hlength : q.length = names.length) (hne : q ≠ names) :
    ¬ q <+: names := fun h => hne (h.eq_of_length hlength)

end SideFile

namespace Disk

variable {d d' : Disk} {p : Path} {names : List String} {steps : List (List Char)}

variable {lost : List String → Prop}

/-- Directories, and texts that are not under lost names, are still where they were. -/
structure Keeps (lost : List String → Prop) (d d' : Disk) : Prop where
  here : d'.here = d.here
  root : d.root.Keeps lost d'.root

theorem Keeps.refl (d : Disk) : d.Keeps lost d := ⟨rfl, .refl _⟩

theorem Keeps.trans {d'' : Disk} (h : d.Keeps lost d') (h' : d'.Keeps lost d'') :
    d.Keeps lost d'' :=
  ⟨h'.here.trans h.here, h.root.trans h'.root⟩

theorem Keeps.mono {lost' : List String → Prop} (h : d.Keeps lost d')
    (hmono : ∀ names, lost names → lost' names) : d.Keeps lost' d' :=
  ⟨h.here, h.root.directory, fun names s hl => h.root.text names s fun hn => hl (hmono names hn)⟩

/-! ## Following paths -/

/-- Where one step leads from the names, which are given backwards. -/
def followStep (names : List String) (step : List Char) : Except FileError (List String) :=
  if step = [] ∨ step = Path.here then .ok names
  else if step = Path.above then .ok names.tail
  else do
    checkName (String.ofList step)
    return String.ofList step :: names

theorem follow_cons {t : FileTree} {ns : List String} {step : List Char}
    (h : t.IsDirectory ns.reverse) :
    follow t ns (step :: steps) = followStep ns step >>= fun ns' => follow t ns' steps := by
  rw [follow, FileTree.checkDirectory_ok_iff.mpr h, followStep]
  split
  · rfl
  split
  · rfl
  · cases checkName (String.ofList step) <;> rfl

theorem follow_cons_ok {t : FileTree} {ns r : List String} {step : List Char}
    (h : follow t ns (step :: steps) = .ok r) : t.IsDirectory ns.reverse ∧
      ∃ ns', followStep ns step = .ok ns' ∧ follow t ns' steps = .ok r := by
  obtain ⟨⟨⟩, hchecked, -⟩ := bind_ok_iff.mp h
  have hdirectory := FileTree.checkDirectory_ok_iff.mp hchecked
  rw [follow_cons hdirectory] at h
  exact ⟨hdirectory, bind_ok_iff.mp h⟩

/-- A path leads to the same names if the directories are still there. -/
theorem follow_kept {t t' : FileTree} (h : ∀ names, t.IsDirectory names → t'.IsDirectory names)
    {ns r : List String} (hfollow : follow t ns steps = .ok r) : follow t' ns steps = .ok r := by
  induction steps generalizing ns with
  | nil => exact hfollow
  | cons step steps ih =>
    obtain ⟨hdirectory, ns', hstep, hrest⟩ := follow_cons_ok hfollow
    rw [follow_cons (h _ hdirectory), hstep]
    exact ih hrest

theorem follow_append {t : FileTree} {ns r : List String} {more : List (List Char)}
    (h : follow t ns steps = .ok r) : follow t ns (steps ++ more) = follow t r.reverse more := by
  induction steps generalizing ns with
  | nil =>
    obtain rfl := Except.ok.inj h
    rw [List.reverse_reverse, List.nil_append]
  | cons step steps ih =>
    obtain ⟨hdirectory, ns', hstep, hrest⟩ := follow_cons_ok h
    rw [List.cons_append, follow_cons hdirectory, hstep]
    exact ih hrest

theorem find_ok_iff {node : FileTree} :
    d.find p = .ok node ↔ ∃ names, d.resolve p = .ok names ∧ d.root.node? names = some node := by
  rw [find, bind_ok_iff]
  refine exists_congr fun names => and_congr_right fun _ => ?_
  split
  · next node' h => simp [h, pure, Except.pure]
  · next h => simp [h, throw, throwThe, MonadExceptOf.throw]

theorem start_kept (h : d'.here = d.here) (p : Path) : d'.start p = d.start p := by
  unfold start
  rw [h]

theorem resolve_kept (hhere : d'.here = d.here)
    (h : ∀ names, d.root.IsDirectory names → d'.root.IsDirectory names)
    (hresolve : d.resolve p = .ok names) : d'.resolve p = .ok names := by
  obtain ⟨⟨⟩, hpath, hfollow⟩ := bind_ok_iff.mp hresolve
  exact bind_ok_iff.mpr ⟨(), hpath, by rw [start_kept hhere]; exact follow_kept h hfollow⟩

theorem Keeps.resolve (h : d.Keeps lost d') (hresolve : d.resolve p = .ok names) :
    d'.resolve p = .ok names := resolve_kept h.here h.root.directory hresolve

/-- A path still leads to its text. -/
theorem Keeps.find {s : String} (h : d.Keeps lost d') (hs : 1 < s.utf8ByteSize)
    (hresolve : d.resolve p = .ok names) (hlost : ¬ lost names)
    (hfind : d.find p = .ok (.file (.text s))) : d'.find p = .ok (.file (.text s)) := by
  obtain ⟨names', hresolve', hnode⟩ := find_ok_iff.mp hfind
  obtain rfl := Except.ok.inj (hresolve.symm.trans hresolve')
  exact find_ok_iff.mpr ⟨names, h.resolve hresolve, h.root.text names s hlost hs hnode⟩

/-! ## Writing and making directories -/

/-- The steps of a path without empty ones at its end. -/
def trimmedSteps (p : Path) : List (List Char) :=
  ((Text.segments '/' p.toList).reverse.dropWhile (· = [])).reverse

/-- The last step is looked up in the directory to which the others lead. -/
theorem locate_ok {name : String} (h : d.locate p = .ok (names, some name)) :
    checkPath p = .ok () ∧ d.root.IsDirectory names ∧
      follow d.root (d.start p) (trimmedSteps p).dropLast = .ok names ∧
      ∃ last, (trimmedSteps p).getLast? = some last ∧ last ≠ Path.here ∧ last ≠ Path.above ∧
        name = String.ofList last := by
  obtain ⟨⟨⟩, hpath, h⟩ := bind_ok_iff.mp h
  dsimp only at h
  split at h
  · cases Except.ok.inj h
  · next last hlast =>
    split at h
    · obtain ⟨_, -, h⟩ := bind_ok_iff.mp h
      cases Except.ok.inj h
    · next hplain =>
      obtain ⟨names', hfollow, h⟩ := bind_ok_iff.mp h
      obtain ⟨⟨⟩, hdirectory, h⟩ := bind_ok_iff.mp h
      obtain ⟨rfl, hname⟩ := Prod.mk.inj (Except.ok.inj h)
      obtain ⟨hhere, habove⟩ := not_or.mp hplain
      exact ⟨hpath, FileTree.checkDirectory_ok_iff.mp hdirectory, hfollow, last, hlast, hhere,
        habove, (Option.some.inj hname).symm⟩

theorem ne_nil_of_getLast?_trimmedSteps {last : List Char}
    (h : (trimmedSteps p).getLast? = some last) : last ≠ [] := by
  unfold trimmedSteps at h
  rw [List.getLast?_reverse] at h
  have hhead := List.head?_dropWhile_not (fun s : List Char => decide (s = []))
    (Text.segments '/' p.toList).reverse
  rw [h] at hhead
  exact of_decide_eq_false hhead

/-- A path that does not end in a slash ends in a step. -/
theorem trimmedSteps_eq (hne : p ≠ "") (hslash : p.endsInSlash = false) :
    trimmedSteps p = Text.segments '/' p.toList := by
  have hjoin := Text.join_segments '/' p.toList
  rcases List.eq_nil_or_concat (Text.segments '/' p.toList) with heq | ⟨init, last, heq⟩
  · exact absurd heq (Text.segments_ne_nil _ _)
  · have hlast : last ≠ [] := by
      rintro rfl
      rw [heq] at hjoin
      cases init with
      | nil => exact hne (String.toList_eq_nil_iff.mp hjoin.symm)
      | cons step init =>
        rw [List.concat_eq_append, ← Address.join_append_mark (List.cons_ne_nil step init)] at hjoin
        have hends : p.endsInSlash = true := by
          unfold Path.endsInSlash
          rw [← hjoin, List.getLast?_concat]
          rfl
        rw [hslash] at hends
        cases hends
    unfold trimmedSteps
    rw [heq, List.concat_eq_append, List.reverse_append, List.reverse_singleton,
      List.singleton_append, List.dropWhile_cons_of_neg (by simpa using hlast), List.reverse_cons,
      List.reverse_reverse]

theorem ne_empty_of_checkPath (h : checkPath p = .ok ()) : p ≠ "" := by
  rintro rfl
  cases h

theorem resolve_of_locate {name : String} (h : d.locate p = .ok (names, some name))
    (hslash : p.endsInSlash = false) (hname : checkName name = .ok ()) :
    d.resolve p = .ok (names ++ [name]) := by
  obtain ⟨hpath, hdirectory, hfollow, last, hlast, hhere, habove, rfl⟩ := locate_ok h
  have hempty := ne_nil_of_getLast?_trimmedSteps hlast
  have hsteps := trimmedSteps_eq (ne_empty_of_checkPath hpath) hslash
  refine bind_ok_iff.mpr ⟨(), hpath, ?_⟩
  rw [← hsteps, ← List.dropLast_append_getLast? last hlast, follow_append hfollow,
    follow_cons (by rwa [List.reverse_reverse]), followStep,
    if_neg (not_or.mpr ⟨hempty, hhere⟩), if_neg habove, hname]
  change Except.ok (String.ofList last :: names.reverse).reverse = _
  rw [List.reverse_cons, List.reverse_reverse]

/-- What is written under a path is found there, unless a device took it. -/
theorem find_writeText {s : String} (h : d.writeText p s = .ok d')
    (hdevice : d.kind? p ≠ some .device) :
    (∃ names, d.resolve p = .ok names ∧ d'.resolve p = .ok names) ∧ d'.here = d.here ∧
      d'.find p = .ok (.file (.text s)) := by
  obtain ⟨⟨names, name?⟩, hlocate, h⟩ := bind_ok_iff.mp h
  cases name? with
  | none => cases h
  | some name =>
    obtain ⟨-, hdirectory, -⟩ := locate_ok hlocate
    simp only at h
    split at h
    · cases h
    · next hslash =>
      rw [Bool.not_eq_true] at hslash
      obtain ⟨⟨⟩, hname, h⟩ := bind_ok_iff.mp h
      have hresolve := resolve_of_locate hlocate hslash hname
      split at h
      · cases h
      · next hvoid =>
        have hfind : d.find p = .ok .void := find_ok_iff.mpr ⟨_, hresolve, hvoid⟩
        exact absurd (by rw [kind?, hfind]; rfl) hdevice
      · next hnotDirectory _ =>
        obtain rfl := Except.ok.inj h
        have hroom : d.root.HasRoom (names ++ [name]) := by
          refine FileTree.hasRoom_of_parent hdirectory ?_
          rintro ⟨es, hes⟩
          exact hnotDirectory es hes
        have hafter : (d.put (names ++ [name]) (.file (.text s))).resolve p = .ok (names ++ [name]) :=
          resolve_kept (d := d) rfl (fun _ hq => hroom.isDirectory_put hq) hresolve
        exact ⟨⟨_, hresolve, hafter⟩, rfl,
          find_ok_iff.mpr ⟨_, hafter, FileTree.node?_put ..⟩⟩

theorem keeps_makeDirectory (h : d.makeDirectory p = .ok d') : d.Keeps lost d' := by
  obtain ⟨⟨names, name?⟩, hlocate, h⟩ := bind_ok_iff.mp h
  cases name? with
  | none => cases h
  | some name =>
    obtain ⟨⟨⟩, -, h⟩ := bind_ok_iff.mp h
    obtain ⟨-, hdirectory, -⟩ := locate_ok hlocate
    split at h
    · cases h
    · next hnone =>
      obtain rfl := Except.ok.inj h
      have hroom : d.root.HasRoom (names ++ [name]) := by
        refine FileTree.hasRoom_of_parent hdirectory ?_
        rintro ⟨es, hes⟩
        cases hnone.symm.trans hes
      exact ⟨rfl, FileTree.keeps_put_new hroom.above hnone⟩

theorem keeps_ensureDirectory (h : d.ensureDirectory p = .ok d') : d.Keeps lost d' := by
  unfold ensureDirectory at h
  split at h
  · next hmade =>
    obtain rfl := Except.ok.inj h
    exact keeps_makeDirectory hmade
  · split at h
    · obtain rfl := Except.ok.inj h
      exact .refl _
    · cases h

theorem keeps_ensureAll (d : Disk) (ps : List Path) : d.Keeps lost (d.ensureAll ps).2 := by
  induction ps generalizing d with
  | nil => exact .refl d
  | cons p ps ih =>
    unfold ensureAll
    split
    · exact .refl d
    · split
      · next h => exact keeps_ensureDirectory h
      · have hparents := ih d
        split
        · next h => rwa [h] at hparents
        · next h =>
          rw [h] at hparents
          split
          · next hmade => exact hparents.trans (keeps_ensureDirectory hmade)
          · exact hparents
      · exact .refl d

/-! ## Databases -/

/-- Where one step leads by its spelling. -/
def spelledStep (names : List String) (step : List Char) : List String :=
  if step = [] ∨ step = Path.here then names
  else if step = Path.above then names.dropLast
  else names ++ [String.ofList step]

theorem databaseStep_some {t : FileTree} {ns r : List String} {step : List Char}
    (h : databaseStep t ns step = some r) : r = spelledStep ns step := by
  unfold databaseStep at h
  unfold spelledStep
  dsimp only at h
  split at h
  · next hstay => rw [if_pos hstay, Option.some.inj h]
  · next hstay =>
    rw [if_neg hstay]
    split at h
    · next habove => rw [if_pos habove, Option.some.inj h]
    · next habove =>
      rw [if_neg habove]
      split at h
      · cases h
      · split at h
        · cases h
        · cases h
        · split at h
          · cases h
          · exact (Option.some.inj h).symm
        · exact (Option.some.inj h).symm

theorem foldlM_databaseStep_some {t : FileTree} {ns r : List String}
    (h : steps.foldlM (databaseStep t) ns = some r) : r = steps.foldl spelledStep ns := by
  induction steps generalizing ns with
  | nil => exact (Option.some.inj h).symm
  | cons step steps ih =>
    rw [List.foldlM_cons, Option.bind_eq_bind, Option.bind_eq_some_iff] at h
    obtain ⟨ns', hstep, hrest⟩ := h
    rw [List.foldl_cons, ← databaseStep_some hstep]
    exact ih hrest

/-- The names that a path stands for by its spelling. -/
def spelledNames (d : Disk) (p : Path) : List String :=
  (Text.segments '/' p.toList).foldl spelledStep (d.start p).reverse

theorem spelledNames_kept (h : d'.here = d.here) (p : Path) :
    d'.spelledNames p = d.spelledNames p := by
  unfold spelledNames
  rw [start_kept h]

/-- The spelling of a path alone decides which names a database has. -/
theorem databaseNames?_some {n : List String} (h : d.databaseNames? p = some n) :
    n ≠ [] ∧ n = d.spelledNames p := by
  unfold databaseNames? at h
  rw [Option.bind_eq_bind, Option.bind_eq_some_iff] at h
  obtain ⟨n', hfold, h⟩ := h
  split at h
  · cases h
  · next hbounds =>
    obtain rfl := Option.some.inj h
    rw [Bool.or_eq_true, not_or, List.isEmpty_iff] at hbounds
    exact ⟨hbounds.1, foldlM_databaseStep_some hfold⟩

theorem hasRoom_of_dropLast {t : FileTree} (hne : names ≠ []) (hparent : t.IsDirectory names.dropLast)
    (hnone : t.node? names = none) : t.HasRoom names := by
  rw [← List.dropLast_append_getLast hne] at hnone ⊢
  refine FileTree.hasRoom_of_parent hparent ?_
  rintro ⟨es, hes⟩
  cases hnone.symm.trans hes

/-- Opening a file changes nothing, or it makes an empty one where nothing was. -/
theorem keeps_openFile (d : Disk) (creates : Bool) (p : Path) :
    d.Keeps lost (d.openFile creates p).2 := by
  unfold openFile
  split
  · exact .refl d
  · next names hnames =>
    split
    · exact .refl d
    · exact .refl d
    · exact .refl d
    · next hnone =>
      split
      · exact .refl d
      · next hmissing =>
        rw [Bool.or_eq_true, not_or, Bool.not_eq_true, Bool.not_eq_true,
          Option.isNone_eq_false_iff] at hmissing
        obtain ⟨⟨⟩, hdirectory⟩ := ok_of_isSome hmissing.2
        have hroom := hasRoom_of_dropLast (databaseNames?_some hnames).1
          (FileTree.checkDirectory_ok_iff.mp hdirectory) hnone
        exact ⟨rfl, FileTree.keeps_put_new hroom.above hnone⟩

/-! ## Files beside databases -/

variable {main : Content} {side : SideFile}

theorem here_clear (names : List String) (main : Content) (d : Disk) (side : SideFile) :
    (clear names main d side).here = d.here := by
  unfold clear
  split
  · split <;> rfl
  all_goals rfl

theorem keeps_clear (hlost : lost (side.names names)) :
    d.Keeps lost (clear names main d side) := by
  refine ⟨here_clear .., ?_⟩
  unfold clear
  split
  · next content hcontent =>
    split
    · exact FileTree.keeps_erase hcontent hlost
    · exact .refl _
  all_goals exact .refl _

theorem keeps_clearAll (hlost : ∀ side : SideFile, lost (side.names names)) (sides : List SideFile) :
    d.Keeps lost (sides.foldl (clear names main) d) := by
  induction sides generalizing d with
  | nil => exact .refl d
  | cons side sides ih => exact (keeps_clear (hlost side)).trans ih

/-- A file of the same directory stays, unless it is the one that is cleared away. -/
theorem node?_clear {q : List String} {content : Content} (hne : names ≠ [])
    (hlength : q.length = names.length) (hq : d.root.node? q = some (.file content))
    (hside : side.names names ≠ q) :
    (clear names main d side).root.node? q = some (.file content) := by
  have hapart : ¬ side.names names <+: q :=
    SideFile.not_prefix_of_ne ((side.length_names hne).trans hlength.symm) hside
  unfold clear
  split
  · split
    · obtain ⟨node, hnode, -, hsame⟩ := FileTree.node?_erase hapart hq
      exact hnode.trans (congrArg some (hsame (by nofun)))
    · exact hq
  all_goals exact hq

theorem node?_clear_none {q : List String} (hq : d.root.node? q = none) :
    (clear names main d side).root.node? q = none := by
  unfold clear
  split
  · split
    · exact FileTree.node?_erase_none _ hq
    · exact hq
  all_goals exact hq

theorem node?_clear_self {content : Content}
    (hfile : d.root.node? (side.names names) = some (.file content))
    (hgoes : side.goes main content = true) :
    (clear names main d side).root.node? (side.names names) = none := by
  unfold clear
  rw [hfile]
  dsimp only
  rw [if_pos hgoes]
  exact FileTree.node?_erase_self (List.concat_ne_nil _ _)

/-- The file of the database stays. -/
theorem node?_clearAll (hne : names ≠ []) (hfile : d.root.node? names = some (.file main))
    (sides : List SideFile) :
    (sides.foldl (clear names main) d).root.node? names = some (.file main) := by
  induction sides generalizing d with
  | nil => exact hfile
  | cons side sides ih => exact ih (node?_clear hne rfl hfile (side.names_ne hne))

theorem node?_clearAll_none {q : List String} (hq : d.root.node? q = none) (sides : List SideFile) :
    (sides.foldl (clear names main) d).root.node? q = none := by
  induction sides generalizing d with
  | nil => exact hq
  | cons side sides ih => exact ih (node?_clear_none hq)

/-- What is cleared away is gone in the end, whatever else is cleared away before and after it. -/
theorem node?_clearAll_mem {content : Content} (hne : names ≠ [])
    (hfile : d.root.node? (side.names names) = some (.file content))
    (hgoes : side.goes main content = true) {sides : List SideFile} (hmem : side ∈ sides) :
    (sides.foldl (clear names main) d).root.node? (side.names names) = none := by
  induction sides generalizing d with
  | nil => cases hmem
  | cons other sides ih =>
    by_cases hother : other = side
    · subst hother
      exact node?_clearAll_none (node?_clear_self hfile hgoes) sides
    · have hmem' : side ∈ sides := (List.mem_cons.mp hmem).resolve_left (Ne.symm hother)
      exact ih (node?_clear hne (side.length_names hne) hfile fun h =>
        hother (SideFile.names_injective h)) hmem'

/-! ## Databases that are loaded and saved -/

variable {db : Store.Database} {writable : Bool}

/-- A database that could be loaded is in a file, and the files beside it have been cleared away. -/
theorem loadDatabase_ok (h : d.loadDatabase writable p = (.ok db, d')) :
    ∃ main, d.spelledNames p ≠ [] ∧ d.root.node? (d.spelledNames p) = some (.file main) ∧
      main.database? = some db ∧
      d' = (if writable then SideFile.order main else []).foldl (clear (d.spelledNames p) main) d := by
  unfold loadDatabase at h
  split at h
  · cases h
  · next names hnames =>
    obtain ⟨hne, rfl⟩ := databaseNames?_some hnames
    split at h
    · next main hmain =>
      dsimp only at h
      split at h
      · cases h
      · obtain ⟨hin, rfl⟩ := Prod.mk.inj h
        refine ⟨main, hne, hmain, ?_, rfl⟩
        unfold databaseIn at hin
        split at hin
        · cases hin
        · next db' hdb =>
          split at hin
          · rwa [Except.ok.inj hin] at hdb
          · cases hin
    · cases h
    · cases h
    · cases h

/-- Saving puts the database into its file, if the path of the file can be followed. -/
theorem saveDatabase_eq (d : Disk) (p : Path) (db : Store.Database) :
    d.saveDatabase p db = d ∨
      d.saveDatabase p db = d.put (d.spelledNames p) (.file (.database db)) := by
  unfold saveDatabase
  split
  · next names hnames => exact .inr (by rw [(databaseNames?_some hnames).2])
  · exact .inl rfl

/-- The names of the files beside a database. -/
def Beside (d : Disk) (database : Path) (names : List String) : Prop :=
  ∃ side : SideFile, names = side.names (d.spelledNames database)

theorem keeps_clearAll_beside (d : Disk) (p : Path) (main : Content) (sides : List SideFile) :
    d.Keeps (d.Beside p) (sides.foldl (clear (d.spelledNames p) main) d) :=
  keeps_clearAll (fun side => ⟨side, rfl⟩) sides

/-- All that is lost by loading and saving a database is what was beside it. -/
theorem keeps_loadDatabase (h : d.loadDatabase writable p = (.ok db, d')) (new : Store.Database) :
    d.Keeps (d.Beside p) (d'.saveDatabase p new) := by
  obtain ⟨main, hne, hmain, hdb, rfl⟩ := loadDatabase_ok h
  have hcleared := d.keeps_clearAll_beside p main (if writable then SideFile.order main else [])
  refine hcleared.trans ?_
  rcases saveDatabase_eq _ p new with heq | heq
  · rw [heq]
    exact .refl _
  · rw [heq, spelledNames_kept hcleared.here]
    have hfile := node?_clearAll hne hmain (if writable then SideFile.order main else [])
    refine ⟨rfl, (FileTree.hasRoom_of_node? hfile fun es hes => by cases hes).keeps ?_⟩
    intro s hs htext
    obtain rfl : main = .text s := by
      cases hfile.symm.trans htext
      rfl
    have hnew : (Content.text s).isNew = false := decide_eq_false (Nat.not_le.mpr hs)
    rw [Content.database?, hnew] at hdb
    · cases hdb
    · nofun

theorem mem_order (main : Content) (side : SideFile) : side ∈ SideFile.order main := by
  unfold SideFile.order
  split <;> cases side <;> decide

/-- A text beside a database is gone when the database has been loaded and saved. -/
theorem loadDatabase_gone {side : SideFile} {s : String} (h : d.loadDatabase true p = (.ok db, d'))
    (hfile : d.root.node? (side.names (d.spelledNames p)) = some (.file (.text s)))
    (hs : (Content.text s).isMarked = true) (new : Store.Database) :
    (d'.saveDatabase p new).root.node? (side.names (d.spelledNames p)) = none := by
  obtain ⟨main, hne, hmain, hdb, rfl⟩ := loadDatabase_ok h
  have hgoes : side.goes main (.text s) = true := by
    cases side with
    | journal => rw [SideFile.goes, hs, Bool.or_true]
    | log => rw [SideFile.goes, hdb, Option.isSome_some, Bool.true_or]
    | index => rw [SideFile.goes, hdb, Option.isSome_some]
  have hgone := node?_clearAll_mem hne hfile hgoes (mem_order main side)
  have hhere := (d.keeps_clearAll_beside p main (SideFile.order main)).here
  rw [if_pos rfl]
  rcases saveDatabase_eq ((SideFile.order main).foldl (clear (d.spelledNames p) main) d) p new with
    heq | heq
  · rw [heq]
    exact hgone
  · rw [heq, spelledNames_kept hhere]
    have hlength := side.length_names hne
    have hne' := side.names_ne hne
    exact (FileTree.node?_put_of_apart (SideFile.not_prefix_of_ne hlength.symm hne'.symm)
      (SideFile.not_prefix_of_ne hlength hne')).trans hgone

end Disk

end CallArchive.Files
