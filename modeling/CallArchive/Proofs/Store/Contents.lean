import CallArchive.Proofs.Store.Linked

/-!
# What a database holds

`Linked.contents` says what a linked database holds with names in place of ids: the data of rows
under their names, the dependencies of each version in order, and the documents of edges.
-/

namespace CallArchive.Store

open Database (Linked)

/-- A callable with the name of its module. -/
structure NamedCallable where
  module : Option ModuleName
  stamp : Stamp

def NamedCallable.combine (old new : NamedCallable) : NamedCallable :=
  ⟨old.module, old.stamp.combine new.stamp⟩

/-- What a database holds, by name. -/
@[ext]
structure Contents where
  packages : PackageKey → Option PackageData
  versions : VersionName → Option Stamp
  dependencies : VersionName → List (Option PackageKey × String)
  modules : ModuleName → Option DigestData
  files : FileName → Option DigestData
  links : ModuleName × FileName → Prop
  callables : CallableKey → Option NamedCallable
  edges : CallableKey × CallableKey → Option String

/-- The document of the edge between two callables. -/
def edgeText? (edges : List EdgeRow) (ends : RowId × RowId) : Option String :=
  (Database.edgeRow? edges ends.1 ends.2).map EdgeRow.metadata

def nameDependency (N : Naming PackageKey) (r : DependencyRow) : Option PackageKey × String :=
  (N.name? r.package, r.ranges)

def nameCallable (N : Naming ModuleName) (data : CallableData) : NamedCallable :=
  ⟨data.module.bind N.name?, data.stamp⟩

def Database.Linked.contents {db : Database} (h : db.Linked) : Contents where
  packages := db.packages.data?
  versions n := (h.packageNames.key? VersionKey.parts n).bind db.versions.data?
  dependencies n := (h.versionNames.id? n).elim [] fun id =>
    (db.dependencies.filter (·.version = id)).map (nameDependency h.packageNames)
  modules n := (h.versionNames.key? ModuleKey.parts n).bind db.modules.data?
  files n := (h.versionNames.key? FileKey.parts n).bind db.files.data?
  links n := ∃ l ∈ db.links, h.moduleNames.id? n.1 = some l.module ∧
    h.fileNames.id? n.2 = some l.file
  callables k := (db.callables.data? k).map (nameCallable h.moduleNames)
  edges n := (h.callableNames.pair? n).bind (edgeText? db.edges)

/-! ## Callables -/

theorem nameCallable_take (N : Naming ModuleName) (old : Option CallableData) (new : CallableData) :
    nameCallable N (Table.take CallableData.combine old new)
      = Table.take NamedCallable.combine (old.map (nameCallable N)) (nameCallable N new) := by
  cases old <;> rfl

theorem nameCallable_kept {db : Database} (h : db.Linked) {N : Naming ModuleName}
    (hN : N.Extends h.moduleNames) {data : CallableData} (hmodule : db.modules.hasId? data.module = true) :
    nameCallable N data = nameCallable h.moduleNames data := by
  obtain ⟨_ | id, stamp⟩ := data
  · rfl
  · obtain ⟨n, hn⟩ := h.exists_moduleName hmodule
    have hname := h.moduleNames.name?_iff.mpr hn
    rw [nameCallable, nameCallable, Option.bind_some, Option.bind_some, hname, hN.name? hname]

/-! ## Edges -/

/-- The document of an edge once another has been merged into it. -/
def mergeText (old : Option String) (new : Json.Members) : String :=
  match old with
  | none => Database.documentText new
  | some text =>
    match Json.mergeTexts (some text) (some (Database.documentText new)) with
    | .ok merged => merged
    | .error _ => text

theorem ends_of_edgeRow? {edges : List EdgeRow} {source target : RowId} {e : EdgeRow}
    (h : Database.edgeRow? edges source target = some e) : e ∈ edges ∧ e.ends = (source, target) := by
  have hfound := List.find?_some h
  rw [Bool.and_eq_true, beq_iff_eq, beq_iff_eq] at hfound
  exact ⟨List.mem_of_find?_eq_some h, Prod.ext hfound.1 hfound.2⟩

theorem mem_of_edgeText? {edges : List EdgeRow} {ends : RowId × RowId}
    (h : edgeText? edges ends ≠ none) : ∃ e ∈ edges, e.ends = ends := by
  obtain ⟨text, htext⟩ := Option.ne_none_iff_exists'.mp h
  obtain ⟨e, he, -⟩ := Option.map_eq_some_iff.mp htext
  exact ⟨e, ends_of_edgeRow? he⟩

theorem mem_edges_iff {edges : List EdgeRow} (h : (edges.map EdgeRow.ends).Nodup) {e : EdgeRow} :
    e ∈ edges ↔ edgeText? edges e.ends = some e.metadata := by
  constructor
  · intro he
    have hsome : (Database.edgeRow? edges e.source e.target).isSome = true :=
      List.find?_isSome.mpr ⟨e, he, by simp⟩
    obtain ⟨e', he'⟩ := Option.isSome_iff_exists.mp hsome
    obtain ⟨hmem, hends⟩ := ends_of_edgeRow? he'
    obtain rfl := List.inj_on_of_nodup_map h hmem he hends
    exact congrArg (Option.map EdgeRow.metadata) he'
  · intro htext
    obtain ⟨e', he', hmetadata⟩ := Option.map_eq_some_iff.mp htext
    obtain ⟨hmem, hends⟩ := ends_of_edgeRow? he'
    obtain ⟨_, _, _⟩ := e
    obtain ⟨_, _, _⟩ := e'
    obtain ⟨rfl, rfl⟩ := Prod.mk.inj hends
    obtain rfl := hmetadata
    exact hmem

theorem edgeText?_add {edges : List EdgeRow} {e : EdgeRow}
    (h : Database.edgeRow? edges e.source e.target = none) (ends : RowId × RowId) :
    edgeText? (edges ++ [e]) ends
      = if ends = e.ends then some e.metadata else edgeText? edges ends := by
  rw [edgeText?, Database.edgeRow?, List.find?_append]
  split
  · next heq =>
    subst heq
    rw [Database.edgeRow?] at h
    simp [EdgeRow.ends, h]
  · next hne =>
    have hother : ¬ (e.source = ends.1 ∧ e.target = ends.2) := fun heq =>
      hne (Prod.ext heq.1.symm heq.2.symm)
    simp [edgeText?, Database.edgeRow?, hother]

theorem edgeText?_change {edges : List EdgeRow} {old : EdgeRow} {source target : RowId}
    (h : Database.edgeRow? edges source target = some old) (text : String)
    (ends : RowId × RowId) :
    edgeText? (edges.map fun r =>
        if r.source = source ∧ r.target = target then { r with metadata := text } else r) ends
      = if ends = (source, target) then some text else edgeText? edges ends := by
  have hends : ((fun r : EdgeRow => r.source == ends.1 && r.target == ends.2) ∘ fun r =>
        if r.source = source ∧ r.target = target then { r with metadata := text } else r)
      = fun r => r.source == ends.1 && r.target == ends.2 := by
    funext r
    simp only [Function.comp]
    split <;> rfl
  rw [edgeText?, Database.edgeRow?, List.find?_map, hends, edgeText?, Database.edgeRow?]
  split
  · next heq =>
    subst heq
    obtain ⟨rfl, rfl⟩ := Prod.mk.inj (ends_of_edgeRow? h).2
    rw [Database.edgeRow?] at h
    simp [h]
  · next hne =>
    cases hr : edges.find? fun r => r.source == ends.1 && r.target == ends.2 with
    | none => rfl
    | some r =>
      have hends : r.ends = ends := (ends_of_edgeRow? hr).2
      have hother : ¬ (r.source = source ∧ r.target = target) := fun heq =>
        hne (hends.symm.trans (Prod.ext heq.1 heq.2))
      simp [hother]

theorem edgeText?_putEdge {edges edges' : List EdgeRow} {e : NewEdge}
    (h : Database.putEdge edges e = .ok edges') :
    edgeText? edges' = putAt mergeText (edgeText? edges) e.entry := by
  funext ends
  rw [putAt, show e.entry.1 = (e.source, e.target) from rfl]
  unfold Database.putEdge at h
  split at h
  · next hnone =>
    obtain rfl := Except.ok.inj h
    refine (edgeText?_add hnone ends).trans (ite_congr rfl (fun heq => ?_) fun _ => rfl)
    rw [heq, edgeText?, hnone]
    rfl
  · next old hold =>
    split at h
    · cases h
    · next merged hmerged =>
      obtain rfl := Except.ok.inj h
      refine (edgeText?_change hold merged ends).trans (ite_congr rfl (fun heq => ?_) fun _ => rfl)
      rw [heq, edgeText?, hold, Option.map_some, mergeText, NewEdge.entry, hmerged]

theorem edgeText?_putEdges {edges edges' : List EdgeRow} {es : List NewEdge}
    (h : Database.putEdges edges es = .ok edges') :
    edgeText? edges' = putAll mergeText (edgeText? edges) (es.map NewEdge.entry) := by
  induction es generalizing edges with
  | nil =>
    obtain rfl := Except.ok.inj h
    rfl
  | cons e es ih =>
    rw [Database.putEdges, List.foldlM_cons] at h
    obtain ⟨between, hfirst, hrest⟩ := bind_ok_iff.mp h
    rw [ih hrest, edgeText?_putEdge hfirst]
    rfl

end CallArchive.Store
