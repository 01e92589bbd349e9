import CallArchive.Proofs.Record.Respelled
import CallArchive.Proofs.Validation.Flaws
import CallArchive.Proofs.Validation.Sifted
import Mathlib.Data.List.Perm.Basic

/-!
# How local ids are spelled does not matter

Two records that differ only in how their local ids are spelled are validated with one outcome: both
are refused, or the same is stored of both, up to the order of the methods inside a module
(`validate_respelled`).

As methods are in the order of their keys, validation meets those of the other record in another
order, and may refuse it for another reason. But whether a record is well structured does not depend
on the order of the methods (`WellStructured.alike`), nor does the address under a local id
(`find?_methods_eq`), which is all that the checks of arcs look up.
-/

namespace CallArchive

/-- Modules that are the same but for the order of their methods. -/
structure ModuleSpec.SameUpToOrder (m m' : ModuleSpec) : Prop where
  namespace_eq : m.namespace = m'.namespace
  sourceFile_eq : m.sourceFile = m'.sourceFile
  metadata_eq : m.metadata = m'.metadata
  methods : m.methods.Perm m'.methods

/-- Validated records that are the same but for the order of the methods inside their modules. -/
structure Validated.SameUpToOrder (v v' : Validated) : Prop where
  product_eq : v.product = v'.product
  forge_eq : v.forge = v'.forge
  generator_eq : v.generator = v'.generator
  version_eq : v.version = v'.version
  millis_eq : v.millis = v'.millis
  dependencies_eq : v.dependencies = v'.dependencies
  modules : List.Forall₂ ModuleSpec.SameUpToOrder v.modules v'.modules
  internalArcs_eq : v.internalArcs = v'.internalArcs
  externalArcs_eq : v.externalArcs = v'.externalArcs
  report_eq : v.report = v'.report

namespace CallGraph

variable {g g' : CallGraph} {v v' : Validated}

/-! ## Structure -/

/-- The structure of a record lies in the outlines of its methods. -/
theorem wellStructured_iff_outlines : g.WellStructured ↔
    (∀ d ∈ g.dependencies, Text.isBlankText d.product = false ∧ Text.isBlankText d.forge = false) ∧
    (∀ o ∈ g.methods.map methodOutline, ∃ id, o.1 = some id) ∧
    (∀ o ∈ g.methods.map methodOutline, ∃ a, Address.ofString o.2 = .ok a) ∧
    (g.methods.map methodOutline).Pairwise fun o o' => ∀ id, o.1 = some id → ¬ o'.1 = some id := by
  simp only [List.forall_mem_map, List.pairwise_map, methodOutline, LocalId.ofText?_eq_some_iff]
  constructor
  · rintro ⟨hnamed, hkeys, haddresses, hdistinct⟩
    exact ⟨hnamed, hkeys, haddresses, hdistinct⟩
  · rintro ⟨hnamed, hkeys, haddresses, hdistinct⟩
    exact ⟨hnamed, hkeys, haddresses, hdistinct⟩

theorem outlines_perm {types types' : List (String × ClassType)} (h : TypesAlike types types') :
    ((types.flatMap fun t => t.2.methods).map methodOutline).Perm
      ((types'.flatMap fun t => t.2.methods).map methodOutline) := by
  induction h with
  | nil => exact .refl _
  | cons ht _ ih =>
    rw [List.flatMap_cons, List.flatMap_cons, List.map_append, List.map_append]
    exact ht.2.methods.append ih

theorem WellStructured.alike (h : g.Alike g') : g.WellStructured ↔ g'.WellStructured := by
  have hperm : (g.methods.map methodOutline).Perm (g'.methods.map methodOutline) :=
    outlines_perm h.types
  have hdependencies : g.dependencies = g'.dependencies :=
    congrArg List.flatten h.dependencySets_eq
  have hsymm {o o' : Option LocalId × String} (hne : ∀ id, o.1 = some id → ¬ o'.1 = some id) :
      ∀ id, o'.1 = some id → ¬ o.1 = some id := fun id ho' ho => hne id ho ho'
  rw [wellStructured_iff_outlines, wellStructured_iff_outlines, hdependencies,
    hperm.pairwise_iff hsymm]
  simp only [hperm.mem_iff]

/-! ## Modules -/

theorem Method.outline_injective : Function.Injective Method.outline := by
  rintro ⟨id, address⟩ ⟨id', address'⟩ h
  obtain ⟨hid, rfl⟩ := Prod.mk.inj h
  obtain rfl := Option.some.inj hid
  rfl

theorem map_outline_eq {entries : List (String × String)} {ms : List Method}
    (h : List.Forall₂ MethodOf entries ms) : ms.map Method.outline = entries.map methodOutline := by
  induction h with
  | nil => rfl
  | cons hm _ ih =>
    rw [List.map_cons, List.map_cons, ih, Method.outline, methodOutline, hm.address_eq,
      LocalId.ofText?_eq_some_iff.mpr hm.spelled]

theorem sameUpToOrder_of_alike {type type' : String × ClassType} {m m' : ModuleSpec}
    (hns : type.1 = type'.1) (h : type.2.Alike type'.2) (hm : ModuleOf type m)
    (hm' : ModuleOf type' m') : m.SameUpToOrder m' where
  namespace_eq := by rw [hm.namespace_eq, hns, hm'.namespace_eq]
  sourceFile_eq := by rw [hm.sourceFile_eq, h.sourceFile_eq, hm'.sourceFile_eq]
  metadata_eq := by
    rw [hm.metadata_eq, supertypes, h.superClasses_eq, h.superInterfaces_eq, ← supertypes,
      hm'.metadata_eq]
  methods := by
    have hperm := h.methods
    rw [← map_outline_eq hm.methods, ← map_outline_eq hm'.methods] at hperm
    exact (List.map_perm_map_iff Method.outline_injective).mp hperm

theorem modules_sameUpToOrder {types types' : List (String × ClassType)}
    {ms ms' : List ModuleSpec} (h : TypesAlike types types') (hms : List.Forall₂ ModuleOf types ms)
    (hms' : List.Forall₂ ModuleOf types' ms') :
    List.Forall₂ ModuleSpec.SameUpToOrder ms ms' := by
  induction h generalizing ms ms' with
  | nil =>
    cases hms
    cases hms'
    exact .nil
  | cons ht _ ih =>
    cases hms with
    | cons hm hms =>
      cases hms' with
      | cons hm' hms' => exact .cons (sameUpToOrder_of_alike ht.1 ht.2 hm hm') (ih hms hms')

theorem methods_perm {ms ms' : List ModuleSpec}
    (h : List.Forall₂ ModuleSpec.SameUpToOrder ms ms') :
    (ms.flatMap (·.methods)).Perm (ms'.flatMap (·.methods)) := by
  induction h with
  | nil => exact .refl _
  | cons hm _ ih =>
    rw [List.flatMap_cons, List.flatMap_cons]
    exact hm.methods.append ih

/-! ## Arcs -/

/-- Where no two methods have one local id, their order does not matter for what is found. -/
theorem address?_eq_of_perm {table table' : MethodTable} (h : table.Perm table')
    (hnodup : (table.map (·.id)).Nodup) (id : LocalId) :
    table.address? id = table'.address? id := by
  have hone : {m ∈ table | (m.id == id) = true}.Subsingleton := by
    rintro m ⟨hm, hid⟩ m' ⟨hm', hid'⟩
    exact List.inj_on_of_nodup_map hnodup hm hm'
      ((beq_iff_eq.mp hid).trans (beq_iff_eq.mp hid').symm)
  exact congrArg (Option.map (·.address)) (List.find?_eq_find?_of_perm h hone)

theorem checkInternal_congr {table table' : MethodTable}
    (h : ∀ id, table.address? id = table'.address? id) (product : String) :
    checkInternal product table = checkInternal product table' := by
  funext c
  rw [checkInternal, h, h, checkInternal]

theorem checkExternal_congr {table table' : MethodTable}
    (h : ∀ id, table.address? id = table'.address? id) (product : String) :
    checkExternal product table = checkExternal product table' := by
  funext c
  rw [checkExternal, h, checkExternal]

/-! ## Validation -/

theorem sameUpToOrder_validate (h : g.Alike g') (hv : g.validate = .ok v)
    (hv' : g'.validate = .ok v') : v.SameUpToOrder v' := by
  have hkept := validate_ok hv
  have hkept' := validate_ok hv'
  have hmodules : List.Forall₂ ModuleSpec.SameUpToOrder v.modules v'.modules :=
    modules_sameUpToOrder h.types (modulesOf_validate hv) (modulesOf_validate hv')
  have haddress : ∀ id, MethodTable.address? v.methods id = MethodTable.address? v'.methods id :=
    address?_eq_of_perm (methods_perm hmodules) hkept.ids_nodup
  have hinternal : checkInternal g.product v.methods = checkInternal g'.product v'.methods := by
    rw [checkInternal_congr haddress, h.product_eq]
  have hexternal : checkExternal g.product v.methods = checkExternal g'.product v'.methods := by
    rw [checkExternal_congr haddress, h.product_eq]
  exact {
    product_eq := by rw [hkept.product_eq, h.product_eq, hkept'.product_eq]
    forge_eq := by rw [hkept.forge_eq, h.forge_eq, hkept'.forge_eq]
    generator_eq := by rw [hkept.generator_eq, h.generator_eq, hkept'.generator_eq]
    version_eq := by rw [hkept.version_eq, h.version_eq, hkept'.version_eq]
    millis_eq := by rw [millis_of_validate hv, h.timestamp_eq, millis_of_validate hv']
    dependencies_eq := by
      rw [hkept.dependencies_eq, dependencies, h.dependencySets_eq, hkept'.dependencies_eq,
        dependencies]
    modules := hmodules
    internalArcs_eq := by
      rw [hkept.internalArcs_eq, hinternal, h.internalCalls_eq, hkept'.internalArcs_eq]
    externalArcs_eq := by
      rw [hkept.externalArcs_eq, hexternal, h.externalCalls_eq, hkept'.externalArcs_eq]
    report_eq := by
      rw [report_eq hv, hinternal, hexternal, h.internalCalls_eq, h.externalCalls_eq,
        report_eq hv'] }

/-- Records that are alike have one outcome. -/
theorem validate_alike (h : g.Alike g') :
    Agree Validated.SameUpToOrder g.validate g'.validate := by
  have hiff := (exists_validate_iff.trans (WellStructured.alike h)).trans exists_validate_iff.symm
  cases hv : g.validate with
  | error e =>
    cases hv' : g'.validate with
    | error e' => exact .error e e'
    | ok v' =>
      obtain ⟨v, hok⟩ := hiff.mpr ⟨v', hv'⟩
      rw [hv] at hok
      cases hok
  | ok v =>
    obtain ⟨v', hv'⟩ := hiff.mp ⟨v, hv⟩
    rw [hv']
    exact .ok (sameUpToOrder_validate h hv hv')

/-- A record is read and validated with the same outcome however its local ids are spelled. -/
theorem validate_respelled {v w : Json.Value} (h : Respelled v w) :
    Agree Validated.SameUpToOrder (ofValue v >>= validate) (ofValue w >>= validate) :=
  (ofValue_respelled h).bind fun _ _ => validate_alike

/-- A record of one type, with a call between two methods. -/
def callingValue (methods : Json.Members) (source target : Json.Value) : Json.Value :=
  .object [
    ("cha", .object [("/n/A", .object [("methods", .object methods)])]),
    ("depset", .array []),
    ("forge", .text "mvn"),
    ("generator", .text "opal"),
    ("graph", .object [("internalCalls", .array [.array [source, target]])]),
    ("product", .text "p"),
    ("version", .text "1")]

open Respelling in
theorem respelled_callingValue {m q m' : Json.Members} {source source' target target' : Json.Value}
    (h : List.Forall₂ (fun p p' => SameKey p.1 p'.1 ∧ p.2 = p'.2) m q) (hperm : q.Perm m')
    (hsource : SameId source source') (htarget : SameId target target') :
    Respelled (callingValue m source target) (callingValue m' source' target') := by
  have htype : Entry (.object [("methods", .object m)]) (.object [("methods", .object m')]) :=
    .inl (.object (.cons ⟨rfl, .object h hperm⟩ .nil))
  have hcall : Call (.array [source, target]) (.array [source', target']) :=
    .array (.cons hsource (.cons htarget (.same [] [])))
  have hcalls : Calls (.object [("internalCalls", .array [.array [source, target]])])
      (.object [("internalCalls", .array [.array [source', target']])]) :=
    .inl (.object (.cons ⟨rfl, .array (.cons hcall .nil)⟩ .nil))
  exact .bare (.object (.cons ⟨rfl, .object (.cons ⟨rfl, htype⟩ .nil)⟩ (.cons ⟨rfl, rfl⟩
    (.cons ⟨rfl, rfl⟩ (.cons ⟨rfl, rfl⟩ (.cons ⟨rfl, hcalls⟩ (.cons ⟨rfl, rfl⟩
      (.cons ⟨rfl, rfl⟩ .nil))))))))

/-- Two methods that change places. -/
theorem validate_respelled_callingValue :
    let m := [("1", .text "/n/A.m()V"), ("2", .text "/n/A.k()V")]
    let m' := [(" 2", .text "/n/A.k()V"), ("+01", .text "/n/A.m()V")]
    let v := callingValue m (.number (.integer 1)) (.number (.integer 2))
    let w := callingValue m' (.text "001\n") (.number (.integer 2))
    Respelled v w ∧ (ofValue v >>= validate).map Validated.arcCount = .ok 1 ∧
      Agree Validated.SameUpToOrder (ofValue v >>= validate) (ofValue w >>= validate) := by
  intro m m' v w
  have hone {s : String} (h : LocalId.ofText? s = some ⟨1, by decide⟩) :
      LocalId.Spells ⟨1, by decide⟩ s.toList := LocalId.ofText?_eq_some_iff.mp h
  have htwo {s : String} (h : LocalId.ofText? s = some ⟨2, by decide⟩) :
      LocalId.Spells ⟨2, by decide⟩ s.toList := LocalId.ofText?_eq_some_iff.mp h
  have hkeys : List.Forall₂ (fun p p' => Respelling.SameKey p.1 p'.1 ∧ p.2 = p'.2) m m'.reverse :=
    .cons ⟨.inr ⟨_, hone (by decide +kernel), hone (by decide +kernel)⟩, rfl⟩
      (.cons ⟨.inr ⟨_, htwo (by decide +kernel), htwo (by decide +kernel)⟩, rfl⟩ .nil)
  have hsource : Respelling.SameId (.number (.integer 1)) (.text "001\n") :=
    .inr ⟨⟨1, by decide⟩, .number, .text (hone (by decide +kernel))⟩
  have h : Respelled v w := respelled_callingValue hkeys (List.reverse_perm m') hsource (.inl rfl)
  exact ⟨h, by decide +kernel, validate_respelled h⟩

end CallGraph

end CallArchive
