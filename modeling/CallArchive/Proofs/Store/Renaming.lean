import CallArchive.Proofs.Store.Contents

/-!
# Databases that are the same up to ids

A `Renaming` gives the rows of one database other ids, also where other rows refer to them.
`SameUpTo` says that another database has exactly these rows, that rows which have been there before
keep their ids, and that no two rows get one id. Databases that hold the same are the same up to a
renaming (`sameUpTo_of_contents`).
-/

namespace CallArchive.Store

open Database (Linked NamesKept)

structure Renaming where
  packages : RowId → RowId
  versions : RowId → RowId
  modules : RowId → RowId
  files : RowId → RowId
  callables : RowId → RowId

/-- The row under another id, with another id for the row that it refers to. -/
def rowWithin {κ δ β : Type} (e : RowId × β ≃ κ) (own above : RowId → RowId) (r : Row κ δ) :
    Row κ δ :=
  ⟨own r.id, e (above (e.symm r.key).1, (e.symm r.key).2), r.data⟩

namespace Renaming

variable (ρ : Renaming)

def package (r : Row PackageKey PackageData) : Row PackageKey PackageData :=
  ⟨ρ.packages r.id, r.key, r.data⟩

def version : Row VersionKey Stamp → Row VersionKey Stamp :=
  rowWithin VersionKey.parts ρ.versions ρ.packages

def dependency (r : DependencyRow) : DependencyRow :=
  ⟨ρ.versions r.version, ρ.packages r.package, r.ranges⟩

def module : Row ModuleKey DigestData → Row ModuleKey DigestData :=
  rowWithin ModuleKey.parts ρ.modules ρ.versions

def file : Row FileKey DigestData → Row FileKey DigestData :=
  rowWithin FileKey.parts ρ.files ρ.versions

def link (l : Link) : Link := ⟨ρ.modules l.module, ρ.files l.file⟩

def callable (r : Row CallableKey CallableData) : Row CallableKey CallableData :=
  ⟨ρ.callables r.id, r.key, ⟨r.data.module.map ρ.modules, r.data.stamp⟩⟩

def edge (e : EdgeRow) : EdgeRow := ⟨ρ.callables e.source, ρ.callables e.target, e.metadata⟩

end Renaming

/-- A table has the rows of another one under other ids. -/
structure Renamed {κ δ : Type} (id : RowId → RowId) (row : Row κ δ → Row κ δ)
    (old t t' : Table κ δ) : Prop where
  fixed : ∀ i, old.hasId i = true → id i = i
  injective : ∀ i j, t.hasId i = true → t.hasId j = true → id i = id j → i = j
  rows : (t.rows.map row).Perm t'.rows

/-- The databases, which have come from an old one, are the same but for the ids of new rows. -/
structure SameUpTo (ρ : Renaming) (old db db' : Database) : Prop where
  settings : db'.settings = db.settings
  packages : Renamed ρ.packages ρ.package old.packages db.packages db'.packages
  versions : Renamed ρ.versions ρ.version old.versions db.versions db'.versions
  dependencies : (db.dependencies.map ρ.dependency).Perm db'.dependencies
  dependencyLists : ∀ id, db.versions.hasId id = true →
    (db.dependencies.filter (·.version = id)).map ρ.dependency
      = db'.dependencies.filter (·.version = ρ.versions id)
  modules : Renamed ρ.modules ρ.module old.modules db.modules db'.modules
  files : Renamed ρ.files ρ.file old.files db.files db'.files
  links : (db.links.map ρ.link).Perm db'.links
  callables : Renamed ρ.callables ρ.callable old.callables db.callables db'.callables
  edges : (db.edges.map ρ.edge).Perm db'.edges

/-! ## Lists that are images of one another -/

section Lists

variable {α β γ : Type}

theorem perm_map_of_inverse {xs ys : List α} (hx : xs.Nodup) (hy : ys.Nodup) {f g : α → α}
    (hf : ∀ x ∈ xs, f x ∈ ys ∧ g (f x) = x) (hg : ∀ y ∈ ys, g y ∈ xs ∧ f (g y) = y) :
    (xs.map f).Perm ys := by
  have hinj : ∀ x ∈ xs, ∀ y ∈ xs, f x = f y → x = y := fun x hx y hy heq => by
    rw [← (hf x hx).2, heq, (hf y hy).2]
  refine (List.perm_ext_iff_of_nodup (hx.map_on hinj) hy).mpr fun y => ?_
  rw [List.mem_map]
  constructor
  · rintro ⟨x, hmem, rfl⟩
    exact (hf x hmem).1
  · intro hmem
    exact ⟨g y, hg y hmem⟩

theorem map_eq_of_map_eq {xs : List α} {ys : List β} {f : α → γ} {g : β → γ} {image : α → β}
    (h : xs.map f = ys.map g) (heq : ∀ x ∈ xs, ∀ y ∈ ys, f x = g y → image x = y) :
    xs.map image = ys := by
  induction xs generalizing ys with
  | nil => exact (List.map_eq_nil_iff.mp h.symm).symm
  | cons x xs ih =>
    obtain ⟨y, ys, rfl, hy, hys⟩ := List.map_eq_cons_iff.mp h.symm
    rw [List.map_cons, heq x List.mem_cons_self y List.mem_cons_self hy.symm,
      ih hys.symm fun x' hx' y' hy' =>
        heq x' (List.mem_cons_of_mem _ hx') y' (List.mem_cons_of_mem _ hy')]

end Lists

/-! ## Tables -/

namespace Naming

variable {ν κ δ β : Type}

theorem translate_translate {N N' : Naming ν} {n : ν} {id id' : RowId} (h : N.id? n = some id)
    (h' : N'.id? n = some id') : N'.translate N (N.translate N' id) = id := by
  rw [translate_eq h h', translate_eq h' h]

variable [DecidableEq κ] {t t' : Table κ δ}

theorem isSome_idOf? (t : Table κ δ) (k : κ) : (t.idOf? k).isSome = (t.data? k).isSome := by
  rw [Table.idOf?, Table.data?, Option.isSome_map, Option.isSome_map]

theorem alike_ofTable {h : t.Sound} {h' : t'.Sound}
    (heq : ∀ k, (t.data? k).isSome = (t'.data? k).isSome) : (ofTable h).Alike (ofTable h') :=
  fun k => (isSome_idOf? t k).trans ((heq k).trans (isSome_idOf? t' k).symm)

theorem alike_within {N N' : Naming ν} {h : t.Sound} {h' : t'.Sound} {e : RowId × β ≃ κ}
    (heq : ∀ n, (N.key? e n).bind t.data? = (N'.key? e n).bind t'.data?) :
    (N.within h e).Alike (N'.within h' e) := by
  have hsome : ∀ {N : Naming ν} {t : Table κ δ} (n : ν × β),
      ((N.key? e n).bind t.idOf?).isSome = ((N.key? e n).bind t.data?).isSome := fun {N t} n => by
    cases N.key? e n with
    | none => rfl
    | some k => exact isSome_idOf? t k
  intro n
  exact (hsome n).trans ((congrArg Option.isSome (heq n)).trans (hsome n).symm)

theorem exists_id {k : κ} {data : δ} (h : t.data? k = some data) : ∃ id, t.idOf? k = some id := by
  obtain ⟨r, hr, -⟩ := Option.map_eq_some_iff.mp h
  exact ⟨r.id, congrArg (Option.map Row.id) hr⟩

/-- The row under the key of a row has the id that the row's translates to. -/
theorem translate_ofTable (h : t.Sound) (h' : t'.Sound) {r : Row κ δ} (hr : r ∈ t.rows) {data : δ}
    (hdata : t'.data? r.key = some data) :
    ⟨(ofTable h).translate (ofTable h') r.id, r.key, data⟩ ∈ t'.rows ∧
      (ofTable h').translate (ofTable h) ((ofTable h).translate (ofTable h') r.id) = r.id := by
  have hid : (ofTable h).id? r.key = some r.id := (h.mem_rows_iff.mp hr).1
  obtain ⟨id, hid'⟩ := exists_id hdata
  have hname : (ofTable h').id? r.key = some id := hid'
  refine ⟨?_, translate_translate hid hname⟩
  rw [translate_eq hid hname]
  exact h'.mem_rows_iff.mpr ⟨hid', hdata⟩

theorem rowWithin_mem {N N' : Naming ν} {h : t.Sound} {h' : t'.Sound} (e : RowId × β ≃ κ)
    (href : ∀ k ∈ t.keys, ∃ n, N.id? n = some (e.symm k).1)
    (heq : ∀ n, (N.key? e n).bind t.data? = (N'.key? e n).bind t'.data?) {r : Row κ δ}
    (hr : r ∈ t.rows) :
    rowWithin e ((N.within h e).translate (N'.within h' e)) (N.translate N') r ∈ t'.rows ∧
      rowWithin e ((N'.within h' e).translate (N.within h e)) (N'.translate N)
        (rowWithin e ((N.within h e).translate (N'.within h' e)) (N.translate N') r) = r := by
  obtain ⟨hid, hdata⟩ := h.mem_rows_iff.mp hr
  obtain ⟨n, hn⟩ := href r.key (List.mem_map_of_mem hr)
  have hkey : N.key? e (n, (e.symm r.key).2) = some r.key := key?_eq_some_iff.mpr ⟨hn, rfl⟩
  have hname : (N.within h e).id? (n, (e.symm r.key).2) = some r.id :=
    Option.bind_eq_some_iff.mpr ⟨r.key, hkey, hid⟩
  have hdata' := (heq (n, (e.symm r.key).2)).symm.trans
    (Option.bind_eq_some_iff.mpr ⟨r.key, hkey, hdata⟩)
  obtain ⟨k, hkey', hdata'⟩ := Option.bind_eq_some_iff.mp hdata'
  obtain ⟨id, hid'⟩ := exists_id hdata'
  have hname' : (N'.within h' e).id? (n, (e.symm r.key).2) = some id :=
    Option.bind_eq_some_iff.mpr ⟨k, hkey', hid'⟩
  obtain ⟨hn', hrest⟩ := key?_eq_some_iff.mp hkey'
  have hk : e (N.translate N' (e.symm r.key).1, (e.symm r.key).2) = k := by
    rw [translate_eq hn hn', hrest]
    exact e.apply_symm_apply k
  constructor
  · rw [rowWithin, hk, translate_eq hname hname']
    exact h'.mem_rows_iff.mpr ⟨hid', hdata'⟩
  · have hback : e (N'.translate N (e.symm k).1, (e.symm k).2) = r.key := by
      rw [translate_eq hn' hn, ← hrest]
      exact e.apply_symm_apply r.key
    simp only [rowWithin, hk, hback, translate_translate hname hname']

theorem translate_fixed {N₀ N N' : Naming ν} (h : N.Extends N₀) (h' : N'.Extends N₀) {n : ν}
    {id : RowId} (hn : N₀.id? n = some id) : N.translate N' id = id :=
  translate_eq (h n id hn) (h' n id hn)

omit [DecidableEq κ] in
/-- Where the rows of either table are those of the other in another guise. -/
theorem renamed {N₀ N N' : Naming ν} (hN : N.Extends N₀) (hN' : N'.Extends N₀)
    (halike : N.Alike N') {old : Table κ δ}
    (hold : ∀ {id}, old.hasId id = true → ∃ n, N₀.id? n = some id)
    (hnew : ∀ {id}, t.hasId id = true → ∃ n, N.id? n = some id) (h : t.Sound) (h' : t'.Sound)
    {row row' : Row κ δ → Row κ δ} (hrow : ∀ r ∈ t.rows, row r ∈ t'.rows ∧ row' (row r) = r)
    (hrow' : ∀ r ∈ t'.rows, row' r ∈ t.rows ∧ row (row' r) = r) :
    Renamed (N.translate N') row old t t' where
  fixed i hi := by
    obtain ⟨n, hn⟩ := hold hi
    exact translate_fixed hN hN' hn
  injective i j hi hj heq := by
    obtain ⟨n, hn⟩ := hnew hi
    obtain ⟨m, hm⟩ := hnew hj
    exact halike.translate_inj hn hm heq
  rows := perm_map_of_inverse (.of_map _ h.ids_nodup) (.of_map _ h'.ids_nodup) hrow hrow'

end Naming

/-! ## Databases that hold the same -/

/-- The renaming under which names stay. -/
def translation {db db' : Database} (h : db.Linked) (h' : db'.Linked) : Renaming where
  packages := h.packageNames.translate h'.packageNames
  versions := h.versionNames.translate h'.versionNames
  modules := h.moduleNames.translate h'.moduleNames
  files := h.fileNames.translate h'.fileNames
  callables := h.callableNames.translate h'.callableNames

section Same

variable {db db' : Database} {h : db.Linked} {h' : db'.Linked} (heq : h.contents = h'.contents)

include heq

theorem alike_packages : h.packageNames.Alike h'.packageNames :=
  Naming.alike_ofTable fun k => congrArg (fun c : Contents => (c.packages k).isSome) heq

theorem alike_versions : h.versionNames.Alike h'.versionNames :=
  Naming.alike_within fun n => congrArg (fun c : Contents => c.versions n) heq

theorem alike_modules : h.moduleNames.Alike h'.moduleNames :=
  Naming.alike_within fun n => congrArg (fun c : Contents => c.modules n) heq

theorem alike_files : h.fileNames.Alike h'.fileNames :=
  Naming.alike_within fun n => congrArg (fun c : Contents => c.files n) heq

theorem alike_callables : h.callableNames.Alike h'.callableNames :=
  Naming.alike_ofTable fun k => by
    have hk := congrArg (fun c : Contents => (c.callables k).isSome) heq
    rwa [← Option.isSome_map (f := nameCallable h.moduleNames),
      ← Option.isSome_map (f := nameCallable h'.moduleNames)]

theorem package_mem {r : Row PackageKey PackageData} (hr : r ∈ db.packages.rows) :
    (translation h h').package r ∈ db'.packages.rows ∧
      (translation h' h).package ((translation h h').package r) = r := by
  have hdata := (h.packages.mem_rows_iff.mp hr).2
  have hsame : db'.packages.data? r.key = some r.data :=
    (congrArg (fun c : Contents => c.packages r.key) heq).symm.trans hdata
  obtain ⟨hmem, hback⟩ := Naming.translate_ofTable h.packages h'.packages hr hsame
  exact ⟨hmem, congrArg (fun id => Row.mk id r.key r.data) hback⟩

theorem version_mem {r : Row VersionKey Stamp} (hr : r ∈ db.versions.rows) :
    (translation h h').version r ∈ db'.versions.rows ∧
      (translation h' h).version ((translation h h').version r) = r :=
  Naming.rowWithin_mem VersionKey.parts (fun k hk => h.exists_packageName (h.versionPackage k hk))
    (fun n => congrArg (fun c : Contents => c.versions n) heq) hr

theorem module_mem {r : Row ModuleKey DigestData} (hr : r ∈ db.modules.rows) :
    (translation h h').module r ∈ db'.modules.rows ∧
      (translation h' h).module ((translation h h').module r) = r :=
  Naming.rowWithin_mem ModuleKey.parts (fun k hk => h.exists_versionName (h.moduleVersion k hk))
    (fun n => congrArg (fun c : Contents => c.modules n) heq) hr

theorem file_mem {r : Row FileKey DigestData} (hr : r ∈ db.files.rows) :
    (translation h h').file r ∈ db'.files.rows ∧
      (translation h' h).file ((translation h h').file r) = r :=
  Naming.rowWithin_mem FileKey.parts (fun k hk => h.exists_versionName (h.fileVersion k hk))
    (fun n => congrArg (fun c : Contents => c.files n) heq) hr

theorem dependencies_filter {id : RowId} (hid : db.versions.hasId id = true) :
    (db.dependencies.filter (·.version = id)).map (translation h h').dependency
      = db'.dependencies.filter (·.version = (translation h h').versions id) := by
  obtain ⟨n, hn⟩ := h.exists_versionName hid
  obtain ⟨id', hn'⟩ := (alike_versions heq).exists_id hn
  have hversion : (translation h h').versions id = id' := Naming.translate_eq hn hn'
  have hlists := congrArg (fun c : Contents => c.dependencies n) heq
  simp only [Database.Linked.contents, hn, hn', Option.elim_some] at hlists
  rw [hversion]
  refine map_eq_of_map_eq hlists fun x hx y hy hxy => ?_
  obtain ⟨hx, hxid⟩ := List.mem_filter.mp hx
  obtain ⟨hpackage, hranges⟩ := Prod.mk.inj hxy
  obtain ⟨k, hk⟩ := h.exists_packageName (h.dependencyEnds x hx).2
  have hk' := h'.packageNames.name?_iff.mp
    (hpackage.symm.trans (h.packageNames.name?_iff.mpr hk))
  obtain ⟨version, package, ranges⟩ := y
  obtain rfl : version = id' := of_decide_eq_true (List.mem_filter.mp hy).2
  obtain rfl : x.version = id := of_decide_eq_true hxid
  rw [Renaming.dependency, hversion, hranges]
  exact congrArg (DependencyRow.mk _ · _) (Naming.translate_eq hk hk')

theorem dependency_mem {r : DependencyRow} (hr : r ∈ db.dependencies) :
    (translation h h').dependency r ∈ db'.dependencies ∧
      (translation h' h).dependency ((translation h h').dependency r) = r := by
  obtain ⟨hversion, hpackage⟩ := h.dependencyEnds r hr
  constructor
  · have hlists := dependencies_filter heq hversion
    have hmem : (translation h h').dependency r ∈
        (db.dependencies.filter (·.version = r.version)).map (translation h h').dependency :=
      List.mem_map_of_mem (List.mem_filter.mpr ⟨hr, decide_eq_true rfl⟩)
    rw [hlists] at hmem
    exact (List.mem_filter.mp hmem).1
  · obtain ⟨n, hn⟩ := h.exists_versionName hversion
    obtain ⟨m, hm⟩ := h.exists_packageName hpackage
    obtain ⟨_, hn'⟩ := (alike_versions heq).exists_id hn
    obtain ⟨_, hm'⟩ := (alike_packages heq).exists_id hm
    exact congrArg₂ (DependencyRow.mk · · r.ranges) (Naming.translate_translate hn hn')
      (Naming.translate_translate hm hm')

theorem link_mem {l : Link} (hl : l ∈ db.links) :
    (translation h h').link l ∈ db'.links ∧
      (translation h' h).link ((translation h h').link l) = l := by
  obtain ⟨hmodule, hfile⟩ := h.linkEnds l hl
  obtain ⟨m, hm⟩ := h.exists_moduleName hmodule
  obtain ⟨f, hf⟩ := h.exists_fileName hfile
  have hlinks : h'.contents.links (m, f) := heq ▸ ⟨l, hl, hm, hf⟩
  obtain ⟨⟨_, _⟩, hl', hm', hf'⟩ := hlinks
  have hlink : (translation h h').link l = ⟨_, _⟩ :=
    congrArg₂ Link.mk (Naming.translate_eq hm hm') (Naming.translate_eq hf hf')
  constructor
  · exact hlink ▸ hl'
  · exact congrArg₂ Link.mk (Naming.translate_translate hm hm') (Naming.translate_translate hf hf')

omit heq in
/-- Callables of one name have their modules under the names of these. -/
theorem module_of_name {data data' : CallableData} (hid : db.modules.hasId? data.module = true)
    (hid' : db'.modules.hasId? data'.module = true)
    (hname : nameCallable h.moduleNames data = nameCallable h'.moduleNames data') :
    data' = ⟨data.module.map (translation h h').modules, data.stamp⟩ ∧
      (data.module.map (translation h h').modules).map (translation h' h).modules
        = data.module := by
  obtain ⟨module, stamp⟩ := data
  obtain ⟨module', stamp'⟩ := data'
  obtain ⟨hmodule, hstamp⟩ := NamedCallable.mk.inj hname
  obtain rfl : stamp = stamp' := hstamp
  cases module with
  | none =>
    cases module' with
    | none => exact ⟨rfl, rfl⟩
    | some id' =>
      obtain ⟨n, hn⟩ := h'.exists_moduleName hid'
      cases hmodule.trans (h'.moduleNames.name?_iff.mpr hn)
  | some id =>
    obtain ⟨n, hn⟩ := h.exists_moduleName hid
    have hn' := hmodule.symm.trans (h.moduleNames.name?_iff.mpr hn)
    obtain ⟨id', rfl, hn'⟩ := Option.bind_eq_some_iff.mp hn'
    replace hn' := h'.moduleNames.name?_iff.mp hn'
    exact ⟨congrArg (fun id => CallableData.mk (some id) stamp) (Naming.translate_eq hn hn').symm,
      congrArg some (Naming.translate_translate hn hn')⟩

theorem callable_mem {r : Row CallableKey CallableData} (hr : r ∈ db.callables.rows) :
    (translation h h').callable r ∈ db'.callables.rows ∧
      (translation h' h).callable ((translation h h').callable r) = r := by
  have hdata := (h.callables.mem_rows_iff.mp hr).2
  have hnamed : (db'.callables.data? r.key).map (nameCallable h'.moduleNames)
      = some (nameCallable h.moduleNames r.data) :=
    (congrArg (fun c : Contents => c.callables r.key) heq).symm.trans
      (congrArg (Option.map (nameCallable h.moduleNames)) hdata)
  obtain ⟨data', hdata', hname⟩ := Option.map_eq_some_iff.mp hnamed
  obtain ⟨hmem, hback⟩ := Naming.translate_ofTable h.callables h'.callables hr hdata'
  obtain ⟨rfl, hmodule⟩ := module_of_name (h.callableModule r hr) (h'.callableModule _ hmem)
    hname.symm
  exact ⟨hmem, congrArg₂ (fun id module => Row.mk id r.key (CallableData.mk module r.data.stamp))
    hback hmodule⟩

theorem edge_mem {e : EdgeRow} (he : e ∈ db.edges) :
    (translation h h').edge e ∈ db'.edges ∧
      (translation h' h).edge ((translation h h').edge e) = e := by
  obtain ⟨hsource, htarget⟩ := h.edgeEnds e he
  obtain ⟨s, hs⟩ := h.exists_callableName hsource
  obtain ⟨t, ht⟩ := h.exists_callableName htarget
  have htext : (h'.callableNames.pair? (s, t)).bind (edgeText? db'.edges) = some e.metadata := by
    refine (congrArg (fun c : Contents => c.edges (s, t)) heq).symm.trans ?_
    exact Option.bind_eq_some_iff.mpr ⟨e.ends, Naming.pair?_eq_some_iff.mpr ⟨hs, ht⟩,
      (mem_edges_iff h.ends).mp he⟩
  obtain ⟨⟨s', t'⟩, hends, htext⟩ := Option.bind_eq_some_iff.mp htext
  obtain ⟨hs', ht'⟩ := Naming.pair?_eq_some_iff.mp hends
  have hedge : (translation h h').edge e = ⟨s', t', e.metadata⟩ :=
    congrArg₂ (EdgeRow.mk · · e.metadata) (Naming.translate_eq hs hs') (Naming.translate_eq ht ht')
  constructor
  · exact hedge ▸ (mem_edges_iff h'.ends).mpr htext
  · exact congrArg₂ (EdgeRow.mk · · e.metadata) (Naming.translate_translate hs hs')
      (Naming.translate_translate ht ht')

/-- Databases that hold the same are the same up to the ids of new rows. -/
theorem sameUpTo_of_contents {old : Database} {h₀ : old.Linked} (hk : NamesKept h₀ h)
    (hk' : NamesKept h₀ h') (hsettings : db'.settings = db.settings) :
    SameUpTo (translation h h') old db db' where
  settings := hsettings
  packages := Naming.renamed hk.packages hk'.packages (alike_packages heq) h₀.exists_packageName
    h.exists_packageName h.packages h'.packages (fun _ => package_mem heq)
    fun _ => package_mem heq.symm
  versions := Naming.renamed hk.versions hk'.versions (alike_versions heq) h₀.exists_versionName
    h.exists_versionName h.versions h'.versions (fun _ => version_mem heq)
    fun _ => version_mem heq.symm
  dependencies := perm_map_of_inverse h.dependencies h'.dependencies
    (fun _ => dependency_mem heq) fun _ => dependency_mem heq.symm
  dependencyLists := fun _ => dependencies_filter heq
  modules := Naming.renamed hk.modules hk'.modules (alike_modules heq) h₀.exists_moduleName
    h.exists_moduleName h.modules h'.modules (fun _ => module_mem heq)
    fun _ => module_mem heq.symm
  files := Naming.renamed hk.files hk'.files (alike_files heq) h₀.exists_fileName
    h.exists_fileName h.files h'.files (fun _ => file_mem heq) fun _ => file_mem heq.symm
  links := perm_map_of_inverse h.links h'.links (fun _ => link_mem heq) fun _ => link_mem heq.symm
  callables := Naming.renamed hk.callables hk'.callables (alike_callables heq)
    h₀.exists_callableName h.exists_callableName h.callables h'.callables
    (fun _ => callable_mem heq) fun _ => callable_mem heq.symm
  edges := perm_map_of_inverse (.of_map _ h.ends) (.of_map _ h'.ends) (fun _ => edge_mem heq)
    fun _ => edge_mem heq.symm

end Same

end CallArchive.Store
