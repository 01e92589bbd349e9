import CallArchive.Proofs.Except
import CallArchive.Validation.Validated
import Mathlib.Data.List.Nodup

/-!
# What a validated record has of the record

Validation keeps what identifies the record, all dependencies, and all types with their methods in
order (`validate_ok`). No two of its methods have one local id. Of the calls it keeps those that
pass, in order.
-/

namespace CallArchive

/-- The methods of all modules in order. -/
def Validated.methods (v : Validated) : List Method := v.modules.flatMap (·.methods)

/-- The dependency with the normal forms of its ranges. -/
def Dependency.spec (d : Dependency) : DependencySpec :=
  ⟨d.product, d.forge, d.ranges.map VersionRange.text⟩

theorem Dependency.spec_of_validate {d : Dependency} {s : DependencySpec}
    (h : d.validate = .ok s) : s = d.spec := by
  unfold Dependency.validate at h
  split at h
  · cases h
  · split at h
    · cases h
    · exact (Except.ok.inj h).symm

/-- The local id that a method is spelled with, and its address. -/
def methodOutline (entry : String × String) : Option LocalId × String :=
  (LocalId.ofText? entry.1, entry.2)

def Method.outline (m : Method) : Option LocalId × String := (some m.id, m.address)

/-- What is kept of a type: its namespace, its file if that is named, and its methods. -/
structure TypeOutline where
  «namespace» : String
  sourceFile : Option String
  methods : List (Option LocalId × String)

def ModuleSpec.outline (m : ModuleSpec) : TypeOutline :=
  ⟨m.namespace, m.sourceFile, m.methods.map Method.outline⟩

namespace CallGraph

def typeOutline (t : String × ClassType) : TypeOutline :=
  ⟨t.1, t.2.sourceFile.filter (· ≠ ""), t.2.methods.map methodOutline⟩

/-- The checks of a method, in their order. -/
theorem validateMethod_eq (table : MethodTable) (key address : String) :
    validateMethod table (key, address) =
      match LocalId.ofText? key with
      | none => .error (.invalidLocalId key)
      | some id =>
        match Address.ofString address with
        | .error cause => .error (.invalidAddress address cause)
        | .ok _ =>
          if id ∈ table.map (·.id) then .error (.duplicateLocalId id) else .ok ⟨id, address⟩ := by
  have hseen (id : LocalId) : (table.find? id).isSome = true ↔ id ∈ table.map (·.id) := by
    simp [MethodTable.find?]
  unfold validateMethod
  cases LocalId.ofText? key with
  | none => rfl
  | some id =>
    cases Address.ofString address with
    | error cause => rfl
    | ok a =>
      change (if (table.find? id).isSome = true then _ else _) = if _ then _ else _
      simp only [hseen]
      rfl

theorem validateMethod_ok {table : MethodTable} {entry : String × String} {m : Method}
    (h : validateMethod table entry = .ok m) :
    m.outline = methodOutline entry ∧ m.id ∉ table.map (·.id) := by
  obtain ⟨key, address⟩ := entry
  rw [validateMethod_eq] at h
  split at h
  · cases h
  · next id hid =>
    split at h
    · cases h
    · split at h
      · cases h
      · next hnew =>
        obtain rfl := Except.ok.inj h
        exact ⟨by rw [Method.outline, methodOutline, hid], hnew⟩

theorem validateMethods_cons_ok {table : MethodTable} {entry : String × String}
    {entries : List (String × String)} {ms : List Method}
    (h : validateMethods table (entry :: entries) = .ok ms) :
    ∃ m, validateMethod table entry = .ok m ∧
      ∃ rest, validateMethods (table ++ [m]) entries = .ok rest ∧ m :: rest = ms := by
  simpa only [validateMethods, bind_ok_iff, pure, Except.pure, Except.ok.injEq] using h

theorem validateMethods_ok {table : MethodTable} {entries : List (String × String)}
    {ms : List Method} (h : validateMethods table entries = .ok ms) :
    ms.map Method.outline = entries.map methodOutline ∧
      ((table.map (·.id)).Nodup → ((table ++ ms).map (·.id)).Nodup) := by
  induction entries generalizing table ms with
  | nil =>
    obtain rfl := Except.ok.inj h
    exact ⟨rfl, fun hn => by rwa [List.append_nil]⟩
  | cons entry entries ih =>
    obtain ⟨m, hm, rest, hrest, rfl⟩ := validateMethods_cons_ok h
    obtain ⟨houtline, hnew⟩ := validateMethod_ok hm
    obtain ⟨houtlines, hnodup⟩ := ih hrest
    refine ⟨by rw [List.map_cons, List.map_cons, houtline, houtlines], fun hn => ?_⟩
    have hadd : ((table ++ [m]).map (·.id)).Nodup := by
      rw [List.map_append, List.nodup_append]
      refine ⟨hn, List.nodup_singleton _, ?_⟩
      rintro a ha b hb rfl
      rw [List.mem_singleton.mp hb] at ha
      exact hnew ha
    have hall := hnodup hadd
    rwa [List.append_assoc] at hall

theorem validateTypes_cons_ok {table table' : MethodTable} {ns : String} {t : ClassType}
    {types : List (String × ClassType)} {modules : List ModuleSpec}
    (h : validateTypes table ((ns, t) :: types) = .ok (modules, table')) :
    ∃ ms, validateMethods table t.methods = .ok ms ∧
      ∃ rest, validateTypes (table ++ ms) types = .ok (rest, table') ∧
        moduleSpec ns t ms :: rest = modules := by
  simp only [validateTypes, bind_ok_iff, Prod.exists] at h
  simpa [pure, Except.pure] using h

theorem validateTypes_ok {table table' : MethodTable} {types : List (String × ClassType)}
    {modules : List ModuleSpec} (h : validateTypes table types = .ok (modules, table')) :
    modules.map ModuleSpec.outline = types.map typeOutline ∧
      table' = table ++ modules.flatMap (·.methods) ∧
      ((table.map (·.id)).Nodup → (table'.map (·.id)).Nodup) := by
  induction types generalizing table modules with
  | nil =>
    obtain ⟨rfl, rfl⟩ := Prod.mk.inj (Except.ok.inj h)
    exact ⟨rfl, (List.append_nil _).symm, id⟩
  | cons type types ih =>
    obtain ⟨ms, hms, rest, hrest, rfl⟩ := validateTypes_cons_ok h
    obtain ⟨houtlines, hnodup⟩ := validateMethods_ok hms
    obtain ⟨hmodules, htable, hrestNodup⟩ := ih hrest
    refine ⟨?_, ?_, hrestNodup ∘ hnodup⟩
    · rw [List.map_cons, List.map_cons, hmodules, ModuleSpec.outline, typeOutline, moduleSpec,
        houtlines]
    · rw [htable, List.flatMap_cons, List.append_assoc]
      rfl

/-- Sifting keeps the calls that pass. -/
theorem sift_arcs {α β : Type} (check : α → Except Rejection β) (report : ArcReport)
    (cs : List α) : (sift check report cs).1 = cs.filterMap fun c => (check c).toOption := by
  induction cs generalizing report with
  | nil => rfl
  | cons c cs ih =>
    cases hc : check c with
    | error reason => simp only [sift, List.filterMap_cons, hc, Except.toOption, ih]
    | ok arc => simp only [sift, List.filterMap_cons, hc, Except.toOption, ih]

/-- As many calls are counted as accepted as are kept. -/
theorem accepted_sift {α β : Type} (check : α → Except Rejection β) (report : ArcReport)
    (cs : List α) :
    (sift check report cs).2.accepted = report.accepted + (sift check report cs).1.length := by
  induction cs generalizing report with
  | nil => rfl
  | cons c cs ih =>
    cases hc : check c with
    | error reason => simp only [sift, hc, ih, ArcReport.reject]
    | ok arc =>
      simp only [sift, hc, ih, ArcReport.accept, List.length_cons]
      omega

/-- What validation keeps. -/
structure Validates (g : CallGraph) (v : Validated) : Prop where
  product_eq : v.product = g.product
  forge_eq : v.forge = g.forge
  generator_eq : v.generator = g.generator
  version_eq : v.version = g.version
  dependencies_eq : v.dependencies = g.dependencies.map Dependency.spec
  modules_eq : v.modules.map ModuleSpec.outline = g.types.map typeOutline
  ids_nodup : (v.methods.map (·.id)).Nodup
  internalArcs_eq : v.internalArcs
    = g.internalCalls.filterMap fun c => (checkInternal g.product v.methods c).toOption
  externalArcs_eq : v.externalArcs
    = g.externalCalls.filterMap fun c => (checkExternal g.product v.methods c).toOption

theorem validate_ok {g : CallGraph} {v : Validated} (h : g.validate = .ok v) : Validates g v := by
  simp only [validate, bind_ok_iff, Prod.exists] at h
  obtain ⟨dependencies, hdependencies, modules, table, htypes, h⟩ := h
  obtain rfl := Except.ok.inj h
  obtain ⟨hmodules, htable, hnodup⟩ := validateTypes_ok htypes
  rw [List.nil_append] at htable
  subst htable
  refine ⟨rfl, rfl, rfl, rfl, ?_, hmodules, hnodup List.nodup_nil, sift_arcs _ _ _,
    sift_arcs _ _ _⟩
  exact mapM_ok_eq_map (fun _ _ => Dependency.spec_of_validate) hdependencies

theorem accepted_validate {g : CallGraph} {v : Validated} (h : g.validate = .ok v) :
    v.report.accepted = v.arcCount := by
  simp only [validate, bind_ok_iff, Prod.exists] at h
  obtain ⟨dependencies, -, modules, table, -, h⟩ := h
  obtain rfl := Except.ok.inj h
  rw [Validated.arcCount, accepted_sift, accepted_sift, ArcReport.empty, Nat.zero_add]

theorem millis_of_validate {g : CallGraph} {v : Validated} (h : g.validate = .ok v) :
    v.millis = millis g.timestamp := by
  simp only [validate, bind_ok_iff, Prod.exists] at h
  obtain ⟨dependencies, -, modules, table, -, h⟩ := h
  obtain rfl := Except.ok.inj h
  rfl

namespace Validates

variable {g : CallGraph} {v : Validated}

theorem exists_of_map_eq {α β γ : Type} {f : α → γ} {f' : β → γ} {xs : List α} {ys : List β}
    (h : xs.map f = ys.map f') {P : γ → Prop} : (∃ x ∈ xs, P (f x)) ↔ ∃ y ∈ ys, P (f' y) := by
  have hany : (∃ z ∈ xs.map f, P z) ↔ ∃ z ∈ ys.map f', P z := by rw [h]
  simpa only [List.mem_map, exists_exists_and_eq_and] using hany

theorem exists_module_iff (h : Validates g v) {P : TypeOutline → Prop} :
    (∃ m ∈ v.modules, P m.outline) ↔ ∃ t ∈ g.types, P (typeOutline t) :=
  exists_of_map_eq h.modules_eq

theorem methods_eq (h : Validates g v) :
    v.methods.map Method.outline = g.methods.map methodOutline := by
  have houtlines := congrArg (List.flatMap TypeOutline.methods) h.modules_eq
  rw [List.flatMap_map, List.flatMap_map] at houtlines
  rw [Validated.methods, CallGraph.methods, List.map_flatMap, List.map_flatMap]
  exact houtlines

theorem exists_method_iff (h : Validates g v) {P : Option LocalId × String → Prop} :
    (∃ m ∈ v.methods, P m.outline) ↔ ∃ m ∈ g.methods, P (methodOutline m) :=
  exists_of_map_eq h.methods_eq

/-! ## Ends of arcs -/

theorem mem_of_address? {table : MethodTable} {id : LocalId} {address : String}
    (h : table.address? id = some address) : id ∈ table.map (·.id) := by
  obtain ⟨m, hm, -⟩ := Option.map_eq_some_iff.mp h
  rw [MethodTable.find?] at hm
  have hid := List.find?_some hm
  obtain rfl := beq_iff_eq.mp hid
  exact List.mem_map_of_mem (List.mem_of_find?_eq_some hm)

theorem checkInternal_ok {product : String} {table : MethodTable} {c : LocalId × LocalId}
    {arc : InternalArc} (h : checkInternal product table c = .ok arc) :
    ∃ source target ends, table.address? arc.source = some source ∧
      table.address? arc.target = some target ∧
      Address.checkArc product.toList source.toList target.toList = .ok ends := by
  unfold checkInternal at h
  split at h
  · next source target hsource htarget =>
    obtain ⟨ends, hends, h⟩ := bind_ok_iff.mp h
    obtain rfl := Except.ok.inj h
    exact ⟨source, target, ends, hsource, htarget, hends⟩
  · cases h

theorem checkExternal_ok {product : String} {table : MethodTable} {c : ExternalCall}
    {arc : ExternalArc} (h : checkExternal product table c = .ok arc) :
    ∃ source ends, table.address? arc.source = some source ∧
      Address.checkArc product.toList source.toList c.target.toList = .ok ends ∧
      arc.target = ends.2.text ∧ arc.metadata = c.metadata := by
  unfold checkExternal at h
  split at h
  · next source hsource =>
    obtain ⟨ends, hends, h⟩ := bind_ok_iff.mp h
    obtain rfl := Except.ok.inj h
    exact ⟨source, ends, hsource, hends, rfl, rfl⟩
  · cases h

/-- The ends of an arc that is kept have been checked. -/
theorem checked_internal (h : Validates g v) {arc : InternalArc} (harc : arc ∈ v.internalArcs) :
    ∃ source target ends, MethodTable.address? v.methods arc.source = some source ∧
      MethodTable.address? v.methods arc.target = some target ∧
      Address.checkArc g.product.toList source.toList target.toList = .ok ends := by
  rw [h.internalArcs_eq] at harc
  obtain ⟨c, -, hc⟩ := List.mem_filterMap.mp harc
  exact checkInternal_ok (toOption_eq_some_iff.mp hc)

theorem checked_external (h : Validates g v) {arc : ExternalArc} (harc : arc ∈ v.externalArcs) :
    ∃ (source target : String) (ends : Address × Address),
      MethodTable.address? v.methods arc.source = some source ∧
      Address.checkArc g.product.toList source.toList target.toList = .ok ends ∧
      arc.target = ends.2.text := by
  rw [h.externalArcs_eq] at harc
  obtain ⟨c, -, hc⟩ := List.mem_filterMap.mp harc
  obtain ⟨source, ends, hsource, hends, htarget, -⟩ :=
    checkExternal_ok (toOption_eq_some_iff.mp hc)
  exact ⟨source, c.target, ends, hsource, hends, htarget⟩

theorem document_external (h : Validates g v) {arc : ExternalArc} (harc : arc ∈ v.externalArcs) :
    ∃ c ∈ g.externalCalls, arc.metadata = c.metadata := by
  rw [h.externalArcs_eq] at harc
  obtain ⟨c, hmem, hc⟩ := List.mem_filterMap.mp harc
  obtain ⟨-, -, -, -, -, hdocument⟩ := checkExternal_ok (toOption_eq_some_iff.mp hc)
  exact ⟨c, hmem, hdocument⟩

/-- The arcs that are kept join methods of the record. -/
theorem ends_internal (h : Validates g v) {arc : InternalArc} (harc : arc ∈ v.internalArcs) :
    arc.source ∈ v.methods.map (·.id) ∧ arc.target ∈ v.methods.map (·.id) := by
  obtain ⟨source, target, ends, hsource, htarget, -⟩ := h.checked_internal harc
  exact ⟨mem_of_address? hsource, mem_of_address? htarget⟩

theorem source_external (h : Validates g v) {arc : ExternalArc} (harc : arc ∈ v.externalArcs) :
    arc.source ∈ v.methods.map (·.id) := by
  obtain ⟨source, target, ends, hsource, -, -⟩ := h.checked_external harc
  exact mem_of_address? hsource

end Validates

end CallGraph

end CallArchive
