import CallArchive.Proofs.Address.Spelling
import CallArchive.Validation.NodeRule

/-!
# Which texts may be ends of an arc

`checkNode` answers the first rule that a text breaks (`checkNode_error_iff`), and the texts that
break none have a grammar, `Admissible`. It allows an exclamation mark before the product and a
dollar sign after it, so that an external callable has four texts (`checkNode_external_iff`).
-/

namespace CallArchive.Address

open Text

variable {product s : List Char} {position : Position} {a : Address}

/-! ## The rules in order -/

/-- Whether an address that has been read breaks a rule. -/
def breaksRule (product : List Char) (position : Position) (a : Address) : Rejection → Bool
  | .malformed | .unknownLocalId => false
  | .hasScheme => a.scheme.isSome
  | .notCanonical => !a.isCanonical
  | .hasForgeOrVersion => a.forge.isSome || a.version.isSome
  | .selfProduct => a.product == some product
  | .externalSource => a.product.isSome && position == .source
  | .missingNamespace => a.namespace.isNone
  | .notCallable => !a.kind?.any EntityKind.isCallable

theorem checkProduct_eq :
    checkProduct product position a =
      if a.product == some product then .error .selfProduct
      else if a.product.isSome && position == .source then .error .externalSource else .ok () := by
  rw [checkProduct]
  cases a.product with
  | none => rfl
  | some p => simp

theorem checkRules_eq_find : checkRules product position a =
    match Rejection.all.find? (breaksRule product position a) with
    | some r => .error r
    | none => .ok () := by
  rw [checkRules, checkProduct_eq]
  simp only [Rejection.all, List.find?, breaksRule]
  cases a.scheme.isSome
  · cases !a.isCanonical
    · cases a.forge.isSome || a.version.isSome
      · cases a.product == some product
        · cases a.product.isSome && position == .source
          · cases a.namespace.isNone
            · cases !a.kind?.any EntityKind.isCallable <;> rfl
            · rfl
          · rfl
        · rfl
      · rfl
    · rfl
  · rfl

/-- Of the rules in their order `r` is the first that is broken. -/
def FirstBroken (broken : Rejection → Prop) (r : Rejection) : Prop :=
  ∃ before after, Rejection.all = before ++ r :: after ∧ broken r ∧ ∀ q ∈ before, ¬ broken q

theorem checkRules_error_iff {r : Rejection} : checkRules product position a = .error r ↔
    FirstBroken (fun q => breaksRule product position a q = true) r := by
  have hfind : checkRules product position a = .error r ↔
      Rejection.all.find? (breaksRule product position a) = some r := by
    rw [checkRules_eq_find]
    cases Rejection.all.find? (breaksRule product position a) <;> simp
  rw [hfind, List.find?_eq_some_iff_append, FirstBroken]
  constructor
  · rintro ⟨hr, before, after, hall, hbefore⟩
    exact ⟨before, after, hall, hr, fun q hq => by simpa using hbefore q hq⟩
  · rintro ⟨before, after, hall, hr, hbefore⟩
    exact ⟨hr, before, after, hall, fun q hq => by simpa using hbefore q hq⟩

theorem checkRules_ok_iff :
    checkRules product position a = .ok () ↔ ∀ r, breaksRule product position a r = false := by
  have hfind : checkRules product position a = .ok () ↔
      Rejection.all.find? (breaksRule product position a) = none := by
    rw [checkRules_eq_find]
    cases Rejection.all.find? (breaksRule product position a) <;> simp
  rw [hfind, List.find?_eq_none]
  constructor
  · exact fun h r => Bool.eq_false_iff.mpr (h r (Rejection.mem_all r))
  · exact fun h r _ => by simp [h r]

theorem checkNode_ok_iff : checkNode product position s = .ok a ↔
    parse s = .ok a ∧ ∀ r, breaksRule product position a r = false := by
  rw [checkNode]
  cases parse s with
  | error e => simp
  | ok b =>
    simp only [bind_ok_iff, pure, Except.pure, Except.ok.injEq]
    constructor
    · rintro ⟨⟨⟩, hrules, rfl⟩
      exact ⟨rfl, checkRules_ok_iff.mp hrules⟩
    · rintro ⟨rfl, hrules⟩
      exact ⟨(), checkRules_ok_iff.mpr hrules, rfl⟩

/-! ## The rules of spellings -/

namespace Spelling

def Breaks (product : List Char) (position : Position) (w : Spelling) : Rejection → Prop
  | .malformed | .unknownLocalId => False
  | .hasScheme => w.scheme ≠ none
  | .notCanonical => ¬ ((∀ n ∈ w.scheme, n = schemeName.toList) ∧ NormalEscapes w.text ∧
      ∀ p ∈ segments '/' w.path, ¬ IsDotSegment p)
  | .hasForgeOrVersion =>
      ∃ n ∈ w.naming, (∃ f ∈ n.forge, f ≠ []) ∨ ∃ v ∈ n.version, v ≠ []
  | .selfProduct => ∃ n ∈ w.naming, n.product ≠ [] ∧ n.product = product
  | .externalSource => position = .source ∧ ∃ n ∈ w.naming, n.product ≠ []
  | .missingNamespace =>
      ¬ ∃ ns entity, ns ≠ [] ∧ '/' ∉ ns ∧ w.path = '/' :: (ns ++ '/' :: entity)
  | .notCallable => ¬ ∃ entity, IsEntityOf w.path entity ∧ ('(' ∈ entity ∨ '.' ∈ entity)

variable {w : Spelling}

theorem isSome_bind_nonEmpty? {x : Option (List Char)} :
    (x.bind nonEmpty?).isSome = true ↔ ∃ t ∈ x, t ≠ [] := by
  cases x with
  | none => simp
  | some t => cases t <;> simp [nonEmpty?]

theorem address_product_eq_some_iff {p : List Char} :
    w.address.product = some p ↔ ∃ n ∈ w.naming, n.product = p ∧ p ≠ [] := by
  obtain ⟨scheme, naming, path⟩ := w
  cases naming with
  | none => simp [address, withParts, coordinates]
  | some n => simp [address, withParts, coordinates, Naming.coordinates, nonEmpty?_eq_some_iff]

theorem isCallable_of_iff {entity : List Char} :
    (EntityKind.of entity).isCallable = true ↔ '(' ∈ entity ∨ '.' ∈ entity := by
  unfold EntityKind.of
  split
  · next h => simp [EntityKind.isCallable, h]
  · next h => split <;> simp_all [EntityKind.isCallable]

/-- The rules of spellings are those of the addresses that they are read as. -/
theorem Spells.breaks_iff (h : w.Spells s) (r : Rejection) :
    w.Breaks product position r ↔ breaksRule product position w.address r = true := by
  cases r with
  | malformed => simp [Breaks, breaksRule]
  | unknownLocalId => simp [Breaks, breaksRule]
  | hasScheme => simp [Breaks, breaksRule, address, withParts, Option.isSome_iff_ne_none]
  | notCanonical =>
    have hread := Parsed.of_ok h.parse_eq
    rw [Breaks, breaksRule, Bool.not_eq_true', Bool.eq_false_iff, Ne, hread.isCanonical_iff, h.text]
    rfl
  | hasForgeOrVersion =>
    obtain ⟨scheme, naming, path⟩ := w
    cases naming with
    | none => simp [Breaks, breaksRule, address, withParts, coordinates]
    | some n =>
      simp only [Breaks, breaksRule, address, withParts, coordinates, Naming.coordinates,
        Bool.or_eq_true, isSome_bind_nonEmpty?]
      simp
  | selfProduct =>
    rw [Breaks, breaksRule, beq_iff_eq, address_product_eq_some_iff]
    constructor
    · rintro ⟨n, hn, hne, rfl⟩
      exact ⟨n, hn, rfl, hne⟩
    · rintro ⟨n, hn, rfl, hne⟩
      exact ⟨n, hn, hne, rfl⟩
  | externalSource =>
    have hsome : w.address.product.isSome = true ↔ ∃ n ∈ w.naming, n.product ≠ [] := by
      rw [Option.isSome_iff_exists]
      constructor
      · rintro ⟨p, hp⟩
        obtain ⟨n, hn, rfl, hne⟩ := address_product_eq_some_iff.mp hp
        exact ⟨n, hn, hne⟩
      · rintro ⟨n, hn, hne⟩
        exact ⟨n.product, address_product_eq_some_iff.mpr ⟨n, hn, rfl, hne⟩⟩
    rw [Breaks, breaksRule, Bool.and_eq_true, beq_iff_eq, hsome, and_comm]
  | missingNamespace =>
    rw [Breaks, breaksRule, Option.isNone_iff_eq_none, Option.eq_none_iff_forall_ne_some, not_exists]
    refine forall_congr' fun ns => not_congr ?_
    rw [show w.address.namespace = (splitPath w.path).1 from rfl, splitPath_namespace_iff]
    simp
  | notCallable =>
    have hkind : w.address.kind?.any EntityKind.isCallable = true ↔
        ∃ entity, IsEntityOf w.path entity ∧ ('(' ∈ entity ∨ '.' ∈ entity) := by
      rw [show w.address.kind? = (splitPath w.path).2.map EntityKind.of from rfl, Option.any_map,
        Option.any_eq_true]
      constructor
      · rintro ⟨entity, hentity, hcallable⟩
        exact ⟨entity, (splitPath_entity_iff.mp hentity).2, isCallable_of_iff.mp hcallable⟩
      · rintro ⟨entity, hentity, hcallable⟩
        have hne : entity ≠ [] := by rintro rfl; simp at hcallable
        exact ⟨entity, splitPath_entity_iff.mpr ⟨hne, hentity⟩, isCallable_of_iff.mpr hcallable⟩
    rw [Breaks, breaksRule, Bool.not_eq_true', Bool.eq_false_iff, Ne, hkind]

end Spelling

/-! ## The grammar of admitted texts -/

/-- The text breaks the rule: it has no spelling, or none that keeps the rule. -/
def Breaks (product : List Char) (position : Position) (s : List Char) : Rejection → Prop
  | .malformed => ¬ ∃ w : Spelling, w.Spells s
  | r => ∃ w : Spelling, w.Spells s ∧ w.Breaks product position r

theorem breaks_iff (h : parse s = .ok a) (r : Rejection) :
    Breaks product position s r ↔ breaksRule product position a r = true := by
  obtain ⟨w, hw, rfl⟩ := parse_ok_iff_spells.mp h
  have hrule : (∃ w' : Spelling, w'.Spells s ∧ w'.Breaks product position r) ↔
      breaksRule product position w.address r = true := by
    constructor
    · rintro ⟨w', hw', hbreaks⟩
      rw [Except.ok.inj (hw.parse_eq.symm.trans hw'.parse_eq)]
      exact (hw'.breaks_iff r).mp hbreaks
    · exact fun hbreaks => ⟨w, hw, (hw.breaks_iff r).mpr hbreaks⟩
  cases r with
  | malformed => exact iff_of_false (fun hnone => hnone ⟨w, hw⟩) Bool.false_ne_true
  | _ => exact hrule

theorem checkNode_error_iff {r : Rejection} : checkNode product position s = .error r ↔
    FirstBroken (Breaks product position s) r := by
  cases hp : parse s with
  | ok a =>
    have hnode : checkNode product position s = .error r ↔
        checkRules product position a = .error r := by
      cases hrules : checkRules product position a <;>
        simp [checkNode, hp, hrules, bind, Except.bind, pure, Except.pure]
    rw [hnode, checkRules_error_iff]
    simp only [FirstBroken, breaks_iff hp]
  | error e =>
    have hnone := parse_error_iff.mp ⟨e, hp⟩
    rw [checkNode, hp]
    constructor
    · intro h
      obtain rfl := Except.error.inj h
      exact ⟨[], _, rfl, hnone, List.forall_mem_nil _⟩
    · rintro ⟨before, after, -, hr, -⟩
      cases r with
      | malformed => rfl
      | _ =>
        obtain ⟨w, hw, -⟩ := hr
        exact absurd ⟨w, hw⟩ hnone

/-- An authority in which only a product is named, which the rules allow. -/
structure Naming.Admissible (product : List Char) (position : Position) (n : Naming) : Prop where
  proper : n.Proper
  closed : '/' ∉ n.text
  forge : ∀ f ∈ n.forge, f = []
  version : ∀ v ∈ n.version, v = []
  other : n.product ≠ [] → n.product ≠ product
  internal : position = .source → n.product = []

/-- The texts that may stand at an end of an arc: `/namespace/entity` or
`//authority/namespace/entity` with escapes in normal form and without dot segments. -/
def Admissible (product : List Char) (position : Position) (s : List Char) : Prop :=
  NormalEscapes s ∧ ∃ (naming : Option Naming) (ns entity : List Char),
    s = authorityText (naming.map Naming.text) ++ '/' :: (ns ++ '/' :: entity) ∧
    (∀ n ∈ naming, n.Admissible product position) ∧
    ns ≠ [] ∧ '/' ∉ ns ∧ (∀ p ∈ segments '/' (ns ++ '/' :: entity), ¬ IsDotSegment p) ∧
    ('(' ∈ entity ∨ '.' ∈ entity)

theorem spells_of_admissible {naming : Option Naming} {ns rest : List Char}
    (hnaming : ∀ n ∈ naming, n.Admissible product position) (hne : ns ≠ []) (hns : '/' ∉ ns)
    (hwf : WellFormed (authorityText (naming.map Naming.text) ++ '/' :: (ns ++ rest))) :
    (⟨none, naming, '/' :: (ns ++ rest)⟩ : Spelling).Spells
      (authorityText (naming.map Naming.text) ++ '/' :: (ns ++ rest)) where
  shaped := {
    named := by simp
    closed := fun x hx => by
      obtain ⟨n, hn, rfl⟩ := Option.map_eq_some_iff.mp hx
      exact (hnaming n hn).closed
    rooted := rfl
    bare := fun _ => not_slashes_prefix hne hns }
  proper := fun n hn => (hnaming n hn).proper
  wellFormed := hwf
  text := rfl

/-- The admitted texts are those that break no rule. -/
theorem admissible_iff : Admissible product position s ↔ ∀ r, ¬ Breaks product position s r := by
  constructor
  · rintro ⟨hescapes, naming, ns, entity, rfl, hnaming, hne, hns, hdots, hcallable⟩
    let w : Spelling := ⟨none, naming, '/' :: (ns ++ '/' :: entity)⟩
    have hw : w.Spells w.text := spells_of_admissible hnaming hne hns hescapes.wellFormed
    have hkept : ∀ r, ¬ w.Breaks product position r := fun r hr => by
      cases r with
      | malformed | unknownLocalId => exact hr
      | hasScheme => exact hr rfl
      | notCanonical =>
        refine hr ⟨by simp, hescapes, ?_⟩
        simp only [w, segments, if_true]
        exact List.forall_mem_cons.mpr ⟨not_isDotSegment_nil, hdots⟩
      | hasForgeOrVersion =>
        obtain ⟨n, hn, ⟨f, hf, hempty⟩ | ⟨v, hv, hempty⟩⟩ := hr
        · exact hempty ((hnaming n hn).forge f hf)
        · exact hempty ((hnaming n hn).version v hv)
      | selfProduct =>
        obtain ⟨n, hn, hproduct, hself⟩ := hr
        exact (hnaming n hn).other hproduct hself
      | externalSource =>
        obtain ⟨hsource, n, hn, hproduct⟩ := hr
        exact hproduct ((hnaming n hn).internal hsource)
      | missingNamespace => exact hr ⟨ns, entity, hne, hns, rfl⟩
      | notCallable => exact hr ⟨entity, .inl ⟨ns, hns, rfl⟩, hcallable⟩
    intro r hr
    exact hkept r ((hw.breaks_iff r).mpr ((breaks_iff hw.parse_eq r).mp hr))
  · intro h
    have hspells : ∃ w : Spelling, w.Spells s := not_not.mp (h .malformed)
    obtain ⟨w, hw⟩ := hspells
    have hkept : ∀ r, ¬ w.Breaks product position r := fun r hr =>
      h r ((breaks_iff hw.parse_eq r).mpr ((hw.breaks_iff r).mp hr))
    obtain ⟨scheme, naming, path⟩ := w
    obtain rfl : scheme = none := not_not.mp (hkept .hasScheme)
    obtain ⟨-, hescapes, hdots⟩ := not_not.mp (hkept .notCanonical)
    obtain ⟨ns, entity, hne, hns, rfl⟩ := not_not.mp (hkept .missingNamespace)
    have hcallable : '(' ∈ entity ∨ '.' ∈ entity := by
      obtain ⟨entity', hentity, hcallable⟩ := not_not.mp (hkept .notCallable)
      exact hentity.eq hns ▸ hcallable
    rw [hw.text]
    refine ⟨hescapes, naming, ns, entity, rfl, fun n hn => ?_, hne, hns, ?_, hcallable⟩
    · exact {
        proper := hw.proper n hn
        closed := hw.shaped.closed n.text (Option.mem_map_of_mem _ hn)
        forge := fun f hf => not_not.mp fun hempty =>
          hkept .hasForgeOrVersion ⟨n, hn, .inl ⟨f, hf, hempty⟩⟩
        version := fun v hv => not_not.mp fun hempty =>
          hkept .hasForgeOrVersion ⟨n, hn, .inr ⟨v, hv, hempty⟩⟩
        other := fun hproduct hself => hkept .selfProduct ⟨n, hn, hproduct, hself⟩
        internal := fun hsource => not_not.mp fun hproduct =>
          hkept .externalSource ⟨hsource, n, hn, hproduct⟩ }
    · simp only [segments, if_true] at hdots
      exact (List.forall_mem_cons.mp hdots).2

/-- What is admitted as a source is admitted as a target. -/
theorem Admissible.target (h : Admissible product .source s) : Admissible product .target s := by
  obtain ⟨hescapes, naming, ns, entity, heq, hnaming, hrest⟩ := h
  refine ⟨hescapes, naming, ns, entity, heq, fun n hn => ?_, hrest⟩
  exact { hnaming n hn with internal := fun htarget => nomatch htarget }

theorem checkNode_ok_iff_admissible : checkNode product position s = .ok a ↔
    parse s = .ok a ∧ Admissible product position s := by
  rw [checkNode_ok_iff, admissible_iff]
  refine and_congr_right fun hp => forall_congr' fun r => ?_
  rw [breaks_iff hp, Bool.not_eq_true]

/-- The rules admit exactly their grammar and leave the text as it is; of a text that they do not
admit they answer the first rule that it breaks. -/
theorem checkNode_grammar (product : List Char) (position : Position) (s : List Char) :
    ((∃ a, checkNode product position s = .ok a) ↔ Admissible product position s) ∧
    (∀ a, checkNode product position s = .ok a → a.raw = s) ∧
    (∀ r, checkNode product position s = .error r ↔ FirstBroken (Breaks product position s) r) ∧
    ∀ a, checkNode product .source s = .ok a → checkNode product .target s = .ok a := by
  refine ⟨?_, fun a ha => ?_, fun r => checkNode_error_iff, fun a ha => ?_⟩
  · constructor
    · rintro ⟨a, ha⟩
      exact (checkNode_ok_iff_admissible.mp ha).2
    · intro h
      obtain ⟨w, hw⟩ : ∃ w : Spelling, w.Spells s := not_not.mp (admissible_iff.mp h .malformed)
      exact ⟨w.address, checkNode_ok_iff_admissible.mpr ⟨hw.parse_eq, h⟩⟩
  · exact (Parsed.of_ok (checkNode_ok_iff.mp ha).1).raw
  · obtain ⟨hread, hadmitted⟩ := checkNode_ok_iff_admissible.mp ha
    exact checkNode_ok_iff_admissible.mpr ⟨hread, hadmitted.target⟩

/-- A source `//p/ns/` breaks three rules of the package `p`, of which that on products is first. -/
theorem checkNode_grammar_dependency :
    Admissible "p".toList .target "//dep/ns/X.y()V".toList ∧
    FirstBroken (Breaks "p".toList .source "//p/ns/".toList) .selfProduct := by
  obtain ⟨hadmitted, -⟩ := checkNode_grammar "p".toList .target "//dep/ns/X.y()V".toList
  obtain ⟨-, -, hbroken, -⟩ := checkNode_grammar "p".toList .source "//p/ns/".toList
  exact ⟨hadmitted.mp (ok_of_isSome (by decide +kernel)), (hbroken .selfProduct).mp rfl⟩

/-! ## The texts of an external callable -/

/-- A delimiter with nothing beside it, or none. -/
def mark (b : Bool) : Option (List Char) := if b then some [] else none

/-- A callable of another package, with or without the delimiters of a forge and of a version. -/
def externalText (forge version : Bool) (p ns entity : List Char) : List Char :=
  authorityText (some (Naming.text ⟨mark forge, p, mark version⟩)) ++ '/' :: (ns ++ '/' :: entity)

/-- What can be the product, the namespace and the entity of an admitted target. -/
structure ExternalParts (product p ns entity : List Char) : Prop where
  named : p ≠ []
  other : p ≠ product
  unmarked : '!' ∉ p ∧ '$' ∉ p ∧ '/' ∉ p
  namespaced : ns ≠ [] ∧ '/' ∉ ns
  callable : '(' ∈ entity ∨ '.' ∈ entity
  plain : ∀ q ∈ segments '/' (ns ++ '/' :: entity), ¬ IsDotSegment q
  escapes : NormalEscapes p ∧ NormalEscapes (ns ++ '/' :: entity)

variable {p ns entity : List Char} {forge version : Bool}

theorem normalEscapes_externalText : NormalEscapes (externalText forge version p ns entity) ↔
    NormalEscapes p ∧ NormalEscapes (ns ++ '/' :: entity) := by
  have hslash (t : List Char) := normalEscapes_cons_delimiter (t := t) delimits_slash
  have hbang (t : List Char) := normalEscapes_cons_delimiter (t := t) delimits_bang
  have hdollar (t : List Char) := normalEscapes_append_delimiter (s := p) (t := t) delimits_dollar
  have hpath (t : List Char) := normalEscapes_append_delimiter (s := p) (t := t) delimits_slash
  cases forge <;> cases version <;>
    simp [externalText, authorityText, Naming.text, Naming.unforged, Naming.versionText, mark,
      hslash, hbang, hdollar, hpath]

theorem externalText_inj (hp : p ≠ []) (hbang : '!' ∉ p) {forge' version' : Bool} :
    externalText forge version p ns entity = externalText forge' version' p ns entity ↔
      forge = forge' ∧ version = version' := by
  constructor
  · intro h
    obtain ⟨c, p, rfl⟩ := List.exists_cons_of_ne_nil hp
    have hc : '!' ≠ c := fun heq => hbang (heq ▸ List.mem_cons_self)
    -- the forge shows in the first character, the version then in the length
    have hlength := congrArg List.length h
    cases forge <;> cases forge' <;> cases version <;> cases version' <;>
      simp_all [externalText, authorityText, Naming.text, Naming.unforged, Naming.versionText, mark]
  · rintro ⟨rfl, rfl⟩
    rfl

theorem eq_mark {x : Option (List Char)} (h : ∀ t ∈ x, t = []) : x = mark x.isSome := by
  cases x with
  | none => rfl
  | some t => exact congrArg some (h t rfl)

theorem eq_nil_of_mem_mark {b : Bool} {t : List Char} (h : t ∈ mark b) : t = [] := by
  cases b with
  | false => cases h
  | true => exact (Option.some.inj h).symm

theorem ExternalParts.admissible (h : ExternalParts product p ns entity) :
    Naming.Admissible product .target ⟨mark forge, p, mark version⟩ where
  proper := {
    forge := fun f hf => eq_nil_of_mem_mark hf ▸ List.not_mem_nil
    unforged := by cases version <;> simp [Naming.unforged, Naming.versionText, mark, h.unmarked]
    product := h.unmarked.2.1 }
  closed := by
    cases forge <;> cases version <;>
      simp [Naming.text, Naming.unforged, Naming.versionText, mark, h.unmarked]
  forge f hf := eq_nil_of_mem_mark hf
  version v hv := eq_nil_of_mem_mark hv
  other _ := h.other
  internal htarget := nomatch htarget

/-- The texts of a callable of another package are told apart by their empty delimiters only. -/
theorem checkNode_external_iff {t : List Char} :
    (∃ b, checkNode product .target t = .ok b ∧ b.product = some p ∧ b.namespace = some ns ∧
      b.entity = some entity) ↔
    ExternalParts product p ns entity ∧
      ∃ forge version, t = externalText forge version p ns entity := by
  constructor
  · rintro ⟨b, hb, hproduct, hns, hentity⟩
    obtain ⟨hread, hescapes, naming, ns', entity', rfl, hnaming, hne', hns', hdots, hcallable⟩ :=
      checkNode_ok_iff_admissible.mp hb
    have hw := spells_of_admissible hnaming hne' hns' hescapes.wellFormed
    obtain rfl := Except.ok.inj (hread.symm.trans hw.parse_eq)
    obtain ⟨n, hn, rfl, hne⟩ := Spelling.address_product_eq_some_iff.mp hproduct
    obtain rfl : naming = some n := hn
    have hpath := splitPath_slashes hns' entity'
    have hns : nonEmpty? ns' = some ns := (congrArg Prod.fst hpath).symm.trans hns
    have hentity : nonEmpty? entity' = some entity := (congrArg Prod.snd hpath).symm.trans hentity
    obtain ⟨rfl, -⟩ := nonEmpty?_eq_some_iff.mp hns
    obtain ⟨rfl, -⟩ := nonEmpty?_eq_some_iff.mp hentity
    have hadmissible := hnaming n rfl
    have htext : n = ⟨mark n.forge.isSome, n.product, mark n.version.isSome⟩ := by
      rw [← eq_mark hadmissible.forge, ← eq_mark hadmissible.version]
    have hexternal : authorityText (some n.text) ++ '/' :: (ns' ++ '/' :: entity') =
        externalText n.forge.isSome n.version.isSome n.product ns' entity' :=
      congrArg (fun m => authorityText (some (Naming.text m)) ++ '/' :: (ns' ++ '/' :: entity')) htext
    refine ⟨?_, _, _, hexternal⟩
    exact {
      named := hne
      other := hadmissible.other hne
      unmarked := ⟨fun hc => hadmissible.proper.unforged (List.mem_append_left _ hc),
        hadmissible.proper.product, fun hc => hadmissible.closed (n.product_subset_text hc)⟩
      namespaced := ⟨hne', hns'⟩
      callable := hcallable
      plain := hdots
      escapes := normalEscapes_externalText.mp (hexternal ▸ hescapes) }
  · rintro ⟨h, forge, version, rfl⟩
    have hescapes : NormalEscapes (externalText forge version p ns entity) :=
      normalEscapes_externalText.mpr h.escapes
    have hnaming : ∀ n ∈ some (⟨mark forge, p, mark version⟩ : Naming),
        n.Admissible product .target := fun n hn => Option.some.inj hn ▸ h.admissible
    obtain ⟨hne, hns⟩ := h.namespaced
    have hw := spells_of_admissible hnaming hne hns hescapes.wellFormed
    have hpath := splitPath_slashes hns entity
    have hentity : entity ≠ [] := by
      rintro rfl
      simpa using h.callable
    refine ⟨_, checkNode_ok_iff_admissible.mpr ⟨hw.parse_eq, hescapes, _, ns, entity, rfl, hnaming,
      hne, hns, h.plain, h.callable⟩, ?_, ?_, ?_⟩
    · exact Spelling.address_product_eq_some_iff.mpr ⟨_, rfl, rfl, h.named⟩
    · exact (congrArg Prod.fst hpath).trans (nonEmpty?_eq_some_iff.mpr ⟨rfl, hne⟩)
    · exact (congrArg Prod.snd hpath).trans (nonEmpty?_eq_some_iff.mpr ⟨rfl, hentity⟩)

/-- Two texts of one callable of another package are the same if their empty delimiters are. -/
theorem checkNode_external_eq_iff {t : List Char} {b : Address}
    (hs : checkNode product .target s = .ok a) (ht : checkNode product .target t = .ok b)
    (hexternal : a.product.isSome = true) (hproduct : a.product = b.product)
    (hns : a.namespace = b.namespace) (hentity : a.entity = b.entity) :
    ∃ p ns entity forge version forge' version',
      s = externalText forge version p ns entity ∧ t = externalText forge' version' p ns entity ∧
      (s = t ↔ forge = forge' ∧ version = version') := by
  obtain ⟨-, hrules⟩ := checkNode_ok_iff.mp hs
  obtain ⟨p, hp⟩ := Option.isSome_iff_exists.mp hexternal
  obtain ⟨ns, hn⟩ : ∃ ns, a.namespace = some ns := by
    have hkept := hrules .missingNamespace
    rw [breaksRule, Option.isNone_eq_false_iff] at hkept
    exact Option.isSome_iff_exists.mp hkept
  obtain ⟨entity, he⟩ : ∃ entity, a.entity = some entity := by
    have hkept := hrules .notCallable
    rw [breaksRule, kind?, Option.any_map, Bool.not_eq_false', Option.any_eq_true] at hkept
    obtain ⟨entity, he, -⟩ := hkept
    exact ⟨entity, he⟩
  obtain ⟨hparts, forge, version, rfl⟩ := checkNode_external_iff.mp ⟨a, hs, hp, hn, he⟩
  obtain ⟨-, forge', version', rfl⟩ := checkNode_external_iff.mp
    ⟨b, ht, hproduct ▸ hp, hns ▸ hn, hentity ▸ he⟩
  exact ⟨p, ns, entity, forge, version, forge', version', rfl, rfl,
    externalText_inj hparts.named hparts.unmarked.1⟩

theorem checkNode_external_eq_iff_bang :
    ∃ p ns entity forge version forge' version',
      "//p/n/m()".toList = externalText forge version p ns entity ∧
      "//!p/n/m()".toList = externalText forge' version' p ns entity ∧
      ("//p/n/m()".toList = "//!p/n/m()".toList ↔ forge = forge' ∧ version = version') :=
  checkNode_external_eq_iff (show checkNode "q".toList .target _ = .ok _ from rfl) rfl rfl rfl rfl
    rfl

/-- One callable with two texts. -/
theorem checkNode_external_twice :
    ∃ a b, checkNode "q".toList .target "//p/n/m()".toList = .ok a ∧
      checkNode "q".toList .target "//!p/n/m()".toList = .ok b ∧ a.product = some "p".toList ∧
      a.product = b.product ∧ a.namespace = b.namespace ∧ a.entity = b.entity ∧ a.raw ≠ b.raw := by
  refine ⟨_, _, rfl, rfl, ?_⟩
  decide +kernel

end CallArchive.Address
