import CallArchive.Proofs.Record.Ascending
import CallArchive.Proofs.Record.LocalId
import CallArchive.Proofs.Validation.Validated

/-!
# Which records are refused, and with which error

Validation goes through the items of a record: all dependencies in order, then all methods by
namespace and key. `Flaw` lists what can be wrong with an item after the items before it, with the
error for each. A record is refused exactly when one of its items is flawed, and the error is that
of the first (`CallGraph.judged`).

The modules and the table of methods are built by nested loops. What decides between success and
failure is one walk over the items (`walk_validate`), in which the table knows of the items before
only the local ids that they define (`Registers`).
-/

namespace CallArchive.CallGraph

/-- What validation looks at, in turn. -/
inductive Item where
  | dependency (d : Dependency)
  | method (key address : String)

namespace Item

/-- The item is a method whose key spells `id`. -/
def Defines (id : LocalId) : Item → Prop
  | .dependency _ => False
  | .method key _ => id.Spells key.toList

/-- The two items are methods under one local id. -/
def Clash (x y : Item) : Prop := ∃ id : LocalId, x.Defines id ∧ y.Defines id

/-- Nothing is wrong with the item in itself. -/
inductive Sound : Item → Prop where
  | dependency {d : Dependency} (hproduct : Text.isBlankText d.product = false)
      (hforge : Text.isBlankText d.forge = false) : Sound (.dependency d)
  | method {key address : String} {id : LocalId} {a : Address} (hkey : id.Spells key.toList)
      (haddress : Address.ofString address = .ok a) : Sound (.method key address)

/-- What is wrong with an item that stands after the items `before`. -/
inductive Flaw (before : List Item) : Item → RecordError → Prop where
  | product {d : Dependency} (hproduct : Text.isBlankText d.product = true) :
      Flaw before (.dependency d) (.missingField "depset.product")
  | forge {d : Dependency} (hproduct : Text.isBlankText d.product = false)
      (hforge : Text.isBlankText d.forge = true) :
      Flaw before (.dependency d) (.missingField "depset.forge")
  | key {key address : String} (hkey : ∀ id : LocalId, ¬ id.Spells key.toList) :
      Flaw before (.method key address) (.invalidLocalId key)
  | address {key address : String} {id : LocalId} {cause : AddressError}
      (hkey : id.Spells key.toList) (haddress : Address.ofString address = .error cause) :
      Flaw before (.method key address) (.invalidAddress address cause)
  | repeated {key address : String} {id : LocalId} {a : Address} (hkey : id.Spells key.toList)
      (haddress : Address.ofString address = .ok a) (hseen : ∃ x ∈ before, x.Defines id) :
      Flaw before (.method key address) (.duplicateLocalId id)

/-- Some item is flawed. -/
def Flawed (items : List Item) : Prop :=
  ∃ before item after, items = before ++ item :: after ∧ ∃ e, Flaw before item e

/-- What is wrong with the first item that is flawed. -/
def FirstFlaw (items : List Item) (e : RecordError) : Prop :=
  ∃ before item after, items = before ++ item :: after ∧ ¬ Flawed before ∧ Flaw before item e

/-! ## One item -/

/-- An item is without flaw if it is sound and defines no local id a second time. -/
theorem not_flaw_iff {before : List Item} {item : Item} :
    (∀ e, ¬ Flaw before item e) ↔ item.Sound ∧ ∀ x ∈ before, ¬ Clash x item := by
  constructor
  · intro h
    cases item with
    | dependency d =>
      have hproduct := Bool.eq_false_iff.mpr fun hblank => h _ (.product hblank)
      have hforge := Bool.eq_false_iff.mpr fun hblank => h _ (.forge hproduct hblank)
      exact ⟨.dependency hproduct hforge, fun x _ ⟨_, _, hdefines⟩ => hdefines⟩
    | method key address =>
      obtain ⟨id, hkey⟩ := not_forall_not.mp fun hkey => h _ (.key hkey)
      cases haddress : Address.ofString address with
      | error cause => exact absurd (.address hkey haddress) (h _)
      | ok a =>
        refine ⟨.method hkey haddress, fun x hx ⟨id', hx', hitem⟩ => ?_⟩
        obtain rfl := hkey.unique hitem
        exact h _ (.repeated hkey haddress ⟨x, hx, hx'⟩)
  · rintro ⟨hsound, hclash⟩ e hflaw
    cases hflaw with
    | product hproduct =>
      cases hsound with
      | dependency hproduct' _ =>
        rw [hproduct] at hproduct'
        cases hproduct'
    | forge _ hforge =>
      cases hsound with
      | dependency _ hforge' =>
        rw [hforge] at hforge'
        cases hforge'
    | key hkey =>
      cases hsound with
      | method hkey' _ => exact hkey _ hkey'
    | address _ haddress =>
      cases hsound with
      | method _ haddress' =>
        rw [haddress] at haddress'
        cases haddress'
    | repeated hkey _ hseen =>
      obtain ⟨x, hx, hdefines⟩ := hseen
      exact hclash x hx ⟨_, hdefines, hkey⟩

/-! ## The walk over the items -/

section Splits

variable {α : Type} {P : List α → α → Prop} {xs : List α} {x : α}

/-- An item of a longer list is one of the shorter list, or the last. -/
theorem exists_split_concat :
    (∃ before y after, xs ++ [x] = before ++ y :: after ∧ P before y) ↔
      (∃ before y after, xs = before ++ y :: after ∧ P before y) ∨ P xs x := by
  constructor
  · rintro ⟨before, y, after, heq, hy⟩
    rcases after.eq_nil_or_concat with rfl | ⟨init, z, rfl⟩
    · obtain ⟨rfl, rfl⟩ := List.append_singleton_inj.mp heq
      exact .inr hy
    · rw [List.concat_eq_append, ← List.cons_append, ← List.append_assoc] at heq
      obtain ⟨rfl, rfl⟩ := List.append_singleton_inj.mp heq
      exact .inl ⟨before, y, init, rfl, hy⟩
  · rintro (⟨before, y, after, rfl, hy⟩ | hx)
    · exact ⟨before, y, after ++ [x], by rw [List.append_assoc, List.cons_append], hy⟩
    · exact ⟨xs, x, [], rfl, hx⟩

theorem not_exists_split_nil : ¬ ∃ before y after, [] = before ++ y :: after ∧ P before y :=
  fun ⟨_, _, _, h, _⟩ => List.append_ne_nil_of_right_ne_nil _ (List.cons_ne_nil _ _) h.symm

end Splits

section Walk

variable {table table' : MethodTable} {before items : List Item} {item : Item} {e : RecordError}

/-- Validation of one item, after those whose methods are in the table. -/
def check (table : MethodTable) : Item → Except RecordError MethodTable
  | .dependency d => d.validate.map fun _ => table
  | .method key address =>
    (validateMethod table (key, address)).map fun m => table ++ [m]

/-- Validation of all items, each after those before it. -/
def walk (items : List Item) : Except RecordError MethodTable := items.foldlM check []

theorem walk_concat (items : List Item) (item : Item) :
    walk (items ++ [item]) = walk items >>= fun table => item.check table := by
  simp [walk, List.foldlM_append]

/-- The table has the local ids that the items define. -/
def Registers (table : MethodTable) (items : List Item) : Prop :=
  ∀ id : LocalId, id ∈ table.map (·.id) ↔ ∃ x ∈ items, x.Defines id

theorem check_of_flaw (hregisters : Registers table before) (h : Flaw before item e) :
    item.check table = .error e := by
  cases h with
  | product hproduct => simp [check, Dependency.validate, hproduct, Except.map]
  | forge hproduct hforge => simp [check, Dependency.validate, hproduct, hforge, Except.map]
  | @key key _ hkey =>
    have hnone : LocalId.ofText? key = none :=
      Option.eq_none_iff_forall_ne_some.mpr fun id hid =>
        hkey id (LocalId.ofText?_eq_some_iff.mp hid)
    simp only [check, validateMethod_eq, hnone, Except.map]
  | address hkey haddress =>
    simp only [check, validateMethod_eq, LocalId.ofText?_eq_some_iff.mpr hkey, haddress,
      Except.map]
  | repeated hkey haddress hseen =>
    simp only [check, validateMethod_eq, LocalId.ofText?_eq_some_iff.mpr hkey, haddress,
      if_pos ((hregisters _).mpr hseen), Except.map]

theorem exists_check (hregisters : Registers table before) (hsound : item.Sound)
    (hclash : ∀ x ∈ before, ¬ Clash x item) : ∃ table', item.check table = .ok table' := by
  cases hsound with
  | dependency hproduct hforge =>
    exact ⟨table, by simp [check, Dependency.validate, hproduct, hforge, Except.map]⟩
  | @method key address id a hkey haddress =>
    have hnew : id ∉ table.map (·.id) := fun hmem => by
      obtain ⟨x, hx, hdefines⟩ := (hregisters id).mp hmem
      exact hclash x hx ⟨id, hdefines, hkey⟩
    refine ⟨table ++ [⟨id, address⟩], ?_⟩
    simp only [check, validateMethod_eq, LocalId.ofText?_eq_some_iff.mpr hkey, haddress,
      if_neg hnew, Except.map]

theorem check_error_iff (hregisters : Registers table before) :
    item.check table = .error e ↔ Flaw before item e := by
  refine ⟨fun h => by_contra fun hflaw => ?_, check_of_flaw hregisters⟩
  have hnone : ∀ e', ¬ Flaw before item e' := fun e' hflaw' => by
    obtain rfl := Except.error.inj ((check_of_flaw hregisters hflaw').symm.trans h)
    exact hflaw hflaw'
  obtain ⟨hsound, hclash⟩ := not_flaw_iff.mp hnone
  obtain ⟨table', hok⟩ := exists_check hregisters hsound hclash
  rw [h] at hok
  cases hok

theorem registers_check (hregisters : Registers table before)
    (h : item.check table = .ok table') : Registers table' (before ++ [item]) := by
  intro id
  simp only [List.mem_append, List.mem_singleton, or_and_right, exists_or, exists_eq_left,
    ← hregisters id]
  cases item with
  | dependency d =>
    obtain ⟨_, -, rfl⟩ := map_ok_iff.mp h
    exact (or_iff_left fun hdefines => hdefines).symm
  | method key address =>
    obtain ⟨m, hm, rfl⟩ := map_ok_iff.mp h
    obtain ⟨hspelled, -⟩ := Prod.mk.inj (validateMethod_ok hm).1
    have hkey := LocalId.ofText?_eq_some_iff.mp hspelled.symm
    rw [List.map_append, List.mem_append, List.map_singleton, List.mem_singleton]
    refine or_congr_right ⟨?_, fun hid => hid.unique hkey⟩
    rintro rfl
    exact hkey

theorem registers_walk (h : walk items = .ok table) : Registers table items := by
  induction items using List.reverseRecOn generalizing table with
  | nil =>
    obtain rfl := Except.ok.inj h
    simp [Registers]
  | append_singleton items item ih =>
    rw [walk_concat] at h
    obtain ⟨table₁, hitems, hitem⟩ := bind_ok_iff.mp h
    exact registers_check (ih hitems) hitem

theorem walk_ok_iff : (∃ table, walk items = .ok table) ↔ ¬ Flawed items := by
  induction items using List.reverseRecOn with
  | nil => exact iff_of_true ⟨[], rfl⟩ not_exists_split_nil
  | append_singleton items item ih =>
    rw [walk_concat, Flawed, exists_split_concat, not_or, ← Flawed, ← ih]
    simp only [bind_ok_iff]
    constructor
    · rintro ⟨table', table, hitems, hitem⟩
      refine ⟨⟨table, hitems⟩, fun ⟨e, hflaw⟩ => ?_⟩
      rw [check_of_flaw (registers_walk hitems) hflaw] at hitem
      cases hitem
    · rintro ⟨⟨table, hitems⟩, hflaw⟩
      obtain ⟨hsound, hclash⟩ := not_flaw_iff.mp (not_exists.mp hflaw)
      obtain ⟨table', hitem⟩ := exists_check (registers_walk hitems) hsound hclash
      exact ⟨table', table, hitems, hitem⟩

theorem walk_error_iff : walk items = .error e ↔ FirstFlaw items e := by
  induction items using List.reverseRecOn with
  | nil => exact iff_of_false nofun not_exists_split_nil
  | append_singleton items item ih =>
    rw [walk_concat, FirstFlaw, exists_split_concat, ← FirstFlaw, bind_error_iff, ← ih,
      ← walk_ok_iff]
    refine or_congr_right ⟨?_, ?_⟩
    · rintro ⟨table, hitems, hitem⟩
      exact ⟨⟨table, hitems⟩, (check_error_iff (registers_walk hitems)).mp hitem⟩
    · rintro ⟨⟨table, hitems⟩, hflaw⟩
      exact ⟨table, hitems, check_of_flaw (registers_walk hitems) hflaw⟩

/-- Without flaw are the lists of sound items of which no two clash. -/
theorem not_flawed_iff :
    ¬ Flawed items ↔ (∀ x ∈ items, x.Sound) ∧ items.Pairwise fun x y => ¬ Clash x y := by
  induction items using List.reverseRecOn with
  | nil => exact iff_of_true not_exists_split_nil ⟨List.forall_mem_nil _, .nil⟩
  | append_singleton items item ih =>
    rw [Flawed, exists_split_concat, not_or, ← Flawed, ih, not_exists, not_flaw_iff,
      List.pairwise_append, List.forall_mem_append, List.forall_mem_singleton]
    simp only [List.forall_mem_singleton, List.pairwise_singleton, true_and]
    tauto

end Walk

end Item

/-! ## Records -/

open Item (Flawed FirstFlaw walk check)

variable {g : CallGraph} {v : Validated} {table table' : MethodTable}

def methodItem (entry : String × String) : Item := .method entry.1 entry.2

/-- All dependencies in order, then all methods by namespace and key. -/
def items (g : CallGraph) : List Item :=
  g.dependencies.map .dependency ++ g.methods.map methodItem

theorem foldlM_dependencies (table : MethodTable) (ds : List Dependency) :
    (ds.map Item.dependency).foldlM check table
      = (ds.mapM Dependency.validate).map fun _ => table := by
  induction ds with
  | nil => rfl
  | cons d ds ih =>
    rw [List.map_cons, List.foldlM_cons, List.mapM_cons, check]
    cases d.validate with
    | error e => rfl
    | ok s =>
      change (ds.map Item.dependency).foldlM check table = _
      rw [ih]
      cases ds.mapM Dependency.validate <;> rfl

theorem foldlM_methods (table : MethodTable) (entries : List (String × String)) :
    (entries.map methodItem).foldlM check table
      = (validateMethods table entries).map fun ms => table ++ ms := by
  induction entries generalizing table with
  | nil => exact congrArg Except.ok (List.append_nil table).symm
  | cons entry entries ih =>
    rw [List.map_cons, List.foldlM_cons, validateMethods, methodItem, check]
    cases validateMethod table entry with
    | error e => rfl
    | ok m =>
      change (entries.map methodItem).foldlM check (table ++ [m]) = _
      rw [ih]
      change _ = Except.map _ (validateMethods (table ++ [m]) entries >>= fun ms => .ok (m :: ms))
      cases validateMethods (table ++ [m]) entries with
      | error e => rfl
      | ok ms => exact congrArg Except.ok (List.append_assoc table [m] ms)

theorem foldlM_types (table : MethodTable) (types : List (String × ClassType)) :
    ((types.flatMap fun t => t.2.methods).map methodItem).foldlM check table
      = (validateTypes table types).map Prod.snd := by
  induction types generalizing table with
  | nil => rfl
  | cons type types ih =>
    obtain ⟨ns, t⟩ := type
    rw [List.flatMap_cons, List.map_append, List.foldlM_append, foldlM_methods, validateTypes]
    cases validateMethods table t.methods with
    | error e => rfl
    | ok ms =>
      change ((types.flatMap fun t => t.2.methods).map methodItem).foldlM check (table ++ ms) = _
      rw [ih]
      change _ = Except.map _ (validateTypes (table ++ ms) types >>= fun p => .ok (_, p.2))
      cases validateTypes (table ++ ms) types <;> rfl

/-- Whether validation succeeds, and with which methods, is decided by the walk. -/
theorem walk_validate (g : CallGraph) : walk g.items = g.validate.map Validated.methods := by
  rw [items, walk, List.foldlM_append, foldlM_dependencies, validate]
  cases g.dependencies.mapM Dependency.validate with
  | error e => rfl
  | ok ds =>
    change (g.methods.map methodItem).foldlM check [] = _
    rw [methods, foldlM_types]
    cases h : validateTypes [] g.types with
    | error e => rfl
    | ok p =>
      exact congrArg Except.ok (validateTypes_ok h).2.1

/-- What a record must be to be validated. -/
structure WellStructured (g : CallGraph) : Prop where
  named : ∀ d ∈ g.dependencies,
    Text.isBlankText d.product = false ∧ Text.isBlankText d.forge = false
  keys : ∀ m ∈ g.methods, ∃ id : LocalId, id.Spells m.1.toList
  addresses : ∀ m ∈ g.methods, ∃ a, Address.ofString m.2 = .ok a
  distinct : g.methods.Pairwise fun m m' =>
    ∀ id : LocalId, id.Spells m.1.toList → ¬ id.Spells m'.1.toList

theorem sound_dependency_iff {d : Dependency} : (Item.dependency d).Sound ↔
    Text.isBlankText d.product = false ∧ Text.isBlankText d.forge = false := by
  constructor
  · rintro (⟨hproduct, hforge⟩ | _)
    exact ⟨hproduct, hforge⟩
  · exact fun ⟨hproduct, hforge⟩ => .dependency hproduct hforge

theorem sound_method_iff {m : String × String} : (methodItem m).Sound ↔
    (∃ id : LocalId, id.Spells m.1.toList) ∧ ∃ a, Address.ofString m.2 = .ok a := by
  constructor
  · rintro (_ | ⟨hkey, haddress⟩)
    exact ⟨⟨_, hkey⟩, _, haddress⟩
  · exact fun ⟨⟨_, hkey⟩, _, haddress⟩ => .method hkey haddress

theorem not_flawed_items_iff : ¬ Flawed g.items ↔ g.WellStructured := by
  have hclash : (g.items.Pairwise fun x y => ¬ Item.Clash x y) ↔ g.methods.Pairwise fun m m' =>
      ∀ id : LocalId, id.Spells m.1.toList → ¬ id.Spells m'.1.toList := by
    have hdependency (d : Dependency) (x : Item) : ¬ Item.Clash (.dependency d) x :=
      fun ⟨_, hdefines, _⟩ => hdefines
    have hmethod (m m' : String × String) : ¬ Item.Clash (methodItem m) (methodItem m') ↔
        ∀ id : LocalId, id.Spells m.1.toList → ¬ id.Spells m'.1.toList := by
      rw [Item.Clash, not_exists]
      exact forall_congr' fun id => not_and
    have hdependencies : g.dependencies.Pairwise fun _ _ => True :=
      List.pairwise_of_forall fun _ _ => trivial
    simp only [items, List.pairwise_append, List.pairwise_map, List.forall_mem_map, hdependency,
      not_false_eq_true, implies_true, hdependencies, true_and, and_true, hmethod]
  rw [Item.not_flawed_iff, hclash]
  simp only [items, List.forall_mem_append, List.forall_mem_map, sound_dependency_iff,
    sound_method_iff]
  constructor
  · rintro ⟨⟨hnamed, hmethods⟩, hdistinct⟩
    exact ⟨hnamed, fun m hm => (hmethods m hm).1, fun m hm => (hmethods m hm).2, hdistinct⟩
  · rintro ⟨hnamed, hkeys, haddresses, hdistinct⟩
    exact ⟨⟨hnamed, fun m hm => ⟨hkeys m hm, haddresses m hm⟩⟩, hdistinct⟩

/-- A record is validated exactly when it is well structured. -/
theorem exists_validate_iff : (∃ v, g.validate = .ok v) ↔ g.WellStructured := by
  rw [← not_flawed_items_iff, ← Item.walk_ok_iff, walk_validate]
  simp only [map_ok_iff]
  exact ⟨fun ⟨v, hv⟩ => ⟨_, v, hv, rfl⟩, fun ⟨_, v, hv, _⟩ => ⟨v, hv⟩⟩

theorem validate_error_iff {e : RecordError} :
    g.validate = .error e ↔ FirstFlaw g.items e := by
  rw [← Item.walk_error_iff, walk_validate, map_error_iff]

/-! ## Modules -/

/-- The method that a key and an address stand for. -/
structure MethodOf (entry : String × String) (m : Method) : Prop where
  spelled : m.id.Spells entry.1.toList
  address_eq : m.address = entry.2

/-- The module that a type is stored as. -/
structure ModuleOf (type : String × ClassType) (m : ModuleSpec) : Prop where
  namespace_eq : m.namespace = type.1
  sourceFile_eq : m.sourceFile = type.2.sourceFile.filter (· ≠ "")
  metadata_eq : m.metadata = supertypes type.2
  methods : List.Forall₂ MethodOf type.2.methods m.methods

theorem methodsOf {entries : List (String × String)} {ms : List Method}
    (h : validateMethods table entries = .ok ms) : List.Forall₂ MethodOf entries ms := by
  induction entries generalizing table ms with
  | nil =>
    obtain rfl := Except.ok.inj h
    exact .nil
  | cons entry entries ih =>
    obtain ⟨m, hm, rest, hrest, rfl⟩ := validateMethods_cons_ok h
    obtain ⟨hspelled, haddress⟩ := Prod.mk.inj (validateMethod_ok hm).1
    exact .cons ⟨LocalId.ofText?_eq_some_iff.mp hspelled.symm, haddress⟩ (ih hrest)

theorem modulesOf {types : List (String × ClassType)} {modules : List ModuleSpec}
    (h : validateTypes table types = .ok (modules, table')) :
    List.Forall₂ ModuleOf types modules := by
  induction types generalizing table modules with
  | nil =>
    obtain ⟨rfl, -⟩ := Prod.mk.inj (Except.ok.inj h)
    exact .nil
  | cons type types ih =>
    obtain ⟨ms, hms, rest, hrest, rfl⟩ := validateTypes_cons_ok h
    exact .cons ⟨rfl, rfl, rfl, methodsOf hms⟩ (ih hrest)

theorem modulesOf_validate (h : g.validate = .ok v) : List.Forall₂ ModuleOf g.types v.modules := by
  simp only [validate, bind_ok_iff, Prod.exists] at h
  obtain ⟨_, -, modules, table, htypes, h⟩ := h
  obtain rfl := Except.ok.inj h
  exact modulesOf htypes

theorem namespaces_eq (h : g.validate = .ok v) :
    v.modules.map (·.namespace) = g.types.map (·.1) := by
  have hmodules := congrArg (List.map TypeOutline.namespace) (validate_ok h).modules_eq
  rwa [List.map_map, List.map_map] at hmodules

/-- The modules of a record that was read stand in the order of their namespaces. -/
theorem ascending_modules {text : String} (h : CallGraph.ofText text = .ok g)
    (hv : g.validate = .ok v) : (v.modules.map (·.namespace)).Pairwise (· < ·) :=
  namespaces_eq hv ▸ (ascending_of_ofText h).namespaces

/-- The verdict of validation on the structure of a record. -/
structure Judged (g : CallGraph) : Prop where
  ok_iff : (∃ v, g.validate = .ok v) ↔ g.WellStructured
  error_iff : ∀ e, g.validate = .error e ↔ FirstFlaw g.items e
  modules : ∀ v, g.validate = .ok v → List.Forall₂ ModuleOf g.types v.modules
  namespaces : ∀ v, g.validate = .ok v → (g.types.map (·.1)).Nodup →
    (v.modules.map (·.namespace)).Nodup

/-- Records are refused exactly when an item is flawed, with the error of the first; otherwise each
type is a module with all its methods. -/
theorem judged (g : CallGraph) : g.Judged where
  ok_iff := exists_validate_iff
  error_iff _ := validate_error_iff
  modules _ := modulesOf_validate
  namespaces _ hv hnodup := namespaces_eq hv ▸ hnodup

example :
    (validate {
      product := "p", forge := "mvn", generator := "opal", version := "1", timestamp := none,
      dependencySets := [],
      types := [("/n/A", ⟨[("1", "/n/A.m()V")], [], [], none⟩),
        ("/n/B", ⟨[(" +01", "/n/B.m()V"), ("x", "/n/B.k()V")], [], [], none⟩)],
      internalCalls := [], externalCalls := [] } |>.map (·.methodCount))
      = .error (.duplicateLocalId ⟨1, by decide⟩) := by
  decide +kernel

end CallArchive.CallGraph
