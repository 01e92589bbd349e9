import CallArchive.Proofs.Address.Canonical

/-!
# How addresses are spelled

A `Spelling` is an address with its delimiters, of which some may have nothing beside them. The
texts that are read are those that have a spelling, and the parts that are read are those of the
spelling that are not empty (`parse_ok_iff_spells`).
-/

namespace CallArchive.Address

open Text

/-! ## Authorities -/

/-- An authority as it is spelled: a forge or a version may be there and be empty. -/
structure Naming where
  forge : Option (List Char)
  product : List Char
  version : Option (List Char)

namespace Naming

def versionText : Option (List Char) → List Char
  | none => []
  | some v => '$' :: v

def unforged (n : Naming) : List Char := n.product ++ versionText n.version

def text (n : Naming) : List Char :=
  match n.forge with
  | none => n.unforged
  | some f => f ++ '!' :: n.unforged

def coordinates (n : Naming) : Coordinates :=
  ⟨n.forge.bind nonEmpty?, nonEmpty? n.product, n.version.bind nonEmpty?⟩

/-- There is at most one exclamation mark, and no dollar sign before that of the version. -/
structure Proper (n : Naming) : Prop where
  forge : ∀ f ∈ n.forge, '!' ∉ f
  unforged : '!' ∉ n.unforged
  product : '$' ∉ n.product

theorem product_subset_text (n : Naming) : n.product ⊆ n.text := by
  obtain ⟨forge, product, version⟩ := n
  cases forge with
  | none => exact List.subset_append_left _ _
  | some f => exact fun c hc => by simp [text, unforged, hc]

theorem splitProduct_unforged {n : Naming} (h : '$' ∉ n.product) (forge : Option (List Char)) :
    splitProduct forge n.unforged = ⟨forge, nonEmpty? n.product, n.version.bind nonEmpty?⟩ := by
  obtain ⟨f, product, version⟩ := n
  cases version with
  | none => simp [splitProduct, unforged, versionText, cutAt_eq_none_iff.mpr h]
  | some v => simp [splitProduct, unforged, versionText, cutAt_append h]

theorem exists_unforged (forge : Option (List Char)) (s : List Char) :
    ∃ product version, s = product ++ versionText version ∧ '$' ∉ product ∧
      splitProduct forge s = ⟨forge, nonEmpty? product, version.bind nonEmpty?⟩ := by
  rw [splitProduct]
  cases hcut : cutAt '$' s with
  | none => exact ⟨s, none, (List.append_nil s).symm, cutAt_eq_none_iff.mp hcut, rfl⟩
  | some p =>
    obtain ⟨rfl, hp⟩ := cutAt_eq_some_iff.mp hcut
    exact ⟨p.1, some p.2, rfl, hp, rfl⟩

/-- The authorities that are read are those with a proper spelling. -/
theorem splitCoordinates_ok_iff {x : List Char} {c : Coordinates} :
    splitCoordinates x = .ok c ↔ ∃ n : Naming, n.Proper ∧ x = n.text ∧ c = n.coordinates := by
  constructor
  · intro h
    rw [splitCoordinates] at h
    cases hcut : cutAt '!' x with
    | none =>
      rw [hcut] at h
      obtain ⟨product, version, rfl, hproduct, hread⟩ := exists_unforged none x
      have hbang := cutAt_eq_none_iff.mp hcut
      exact ⟨⟨none, product, version⟩, ⟨by simp, hbang, hproduct⟩, rfl,
        (Except.ok.inj h).symm.trans hread⟩
    | some p =>
      obtain ⟨forge, rest⟩ := p
      obtain ⟨rfl, hforge⟩ := cutAt_eq_some_iff.mp hcut
      simp only [hcut] at h
      split at h
      · cases h
      · next hbang =>
        obtain ⟨product, version, rfl, hproduct, hread⟩ := exists_unforged (nonEmpty? forge) rest
        refine ⟨⟨some forge, product, version⟩, ⟨?_, hbang, hproduct⟩, rfl,
          (Except.ok.inj h).symm.trans hread⟩
        exact fun f hf => Option.some.inj hf ▸ hforge
  · rintro ⟨⟨forge, product, version⟩, h, rfl, rfl⟩
    have hread := splitProduct_unforged h.product
    cases forge with
    | none =>
      rw [text, splitCoordinates, cutAt_eq_none_iff.mpr h.unforged]
      exact congrArg Except.ok (hread none)
    | some f =>
      rw [text, splitCoordinates, cutAt_append (h.forge f rfl)]
      exact (if_neg h.unforged).trans (congrArg Except.ok (hread (nonEmpty? f)))

end Naming

/-! ## Paths -/

/-- What stands after the namespace, or in the path if nothing else does. -/
def IsEntityOf (path entity : List Char) : Prop :=
  (∃ ns, '/' ∉ ns ∧ path = '/' :: (ns ++ '/' :: entity)) ∨ path = '/' :: entity ∧ '/' ∉ entity

theorem splitPath_slashes {ns : List Char} (hns : '/' ∉ ns) (entity : List Char) :
    splitPath ('/' :: (ns ++ '/' :: entity)) = (nonEmpty? ns, nonEmpty? entity) := by
  rw [splitPath, cutAt_append hns]

/-- A path that begins with a namespace is not taken for an authority. -/
theorem not_slashes_prefix {ns rest : List Char} (hne : ns ≠ []) (hns : '/' ∉ ns) :
    ¬ ['/', '/'] <+: '/' :: (ns ++ rest) := by
  cases ns with
  | nil => exact absurd rfl hne
  | cons c ns =>
    rintro ⟨after, heq⟩
    simp only [List.cons_append, List.nil_append, List.cons.injEq, true_and] at heq
    exact hns (heq.1 ▸ List.mem_cons_self)

theorem IsEntityOf.eq {ns entity entity' : List Char} (hns : '/' ∉ ns)
    (h : IsEntityOf ('/' :: (ns ++ '/' :: entity)) entity') : entity' = entity := by
  rcases h with ⟨ns', hns', heq⟩ | ⟨heq, hentity⟩
  · have hcut := congrArg (cutAt '/') (List.cons.inj heq).2
    rw [cutAt_append hns, cutAt_append hns'] at hcut
    exact (Prod.mk.inj (Option.some.inj hcut)).2.symm
  · rw [← (List.cons.inj heq).2] at hentity
    exact absurd (List.mem_append_right ns List.mem_cons_self) hentity

theorem splitPath_namespace_iff {path ns : List Char} :
    (splitPath path).1 = some ns ↔
      ns ≠ [] ∧ '/' ∉ ns ∧ ∃ entity, path = '/' :: (ns ++ '/' :: entity) := by
  constructor
  · intro h
    unfold splitPath at h
    split at h
    · next body =>
      cases hcut : cutAt '/' body with
      | none =>
        rw [hcut] at h
        cases h
      | some p =>
        rw [hcut] at h
        obtain ⟨rfl, hns⟩ := cutAt_eq_some_iff.mp hcut
        obtain ⟨rfl, hne⟩ := nonEmpty?_eq_some_iff.mp h
        exact ⟨hne, hns, p.2, rfl⟩
    · cases h
  · rintro ⟨hne, hns, entity, rfl⟩
    rw [splitPath_slashes hns]
    exact nonEmpty?_of_ne_nil hne

theorem splitPath_entity_iff {path entity : List Char} :
    (splitPath path).2 = some entity ↔ entity ≠ [] ∧ IsEntityOf path entity := by
  constructor
  · intro h
    unfold splitPath at h
    split at h
    · next body =>
      cases hcut : cutAt '/' body with
      | none =>
        rw [hcut] at h
        obtain ⟨rfl, hne⟩ := nonEmpty?_eq_some_iff.mp h
        exact ⟨hne, .inr ⟨rfl, cutAt_eq_none_iff.mp hcut⟩⟩
      | some p =>
        rw [hcut] at h
        obtain ⟨rfl, hns⟩ := cutAt_eq_some_iff.mp hcut
        obtain ⟨rfl, hne⟩ := nonEmpty?_eq_some_iff.mp h
        exact ⟨hne, .inl ⟨p.1, hns, rfl⟩⟩
    · cases h
  · rintro ⟨hne, ⟨ns, hns, rfl⟩ | ⟨rfl, hentity⟩⟩
    · rw [splitPath_slashes hns]
      exact nonEmpty?_of_ne_nil hne
    · rw [splitPath, cutAt_eq_none_iff.mpr hentity]
      exact nonEmpty?_of_ne_nil hne

/-! ## Addresses -/

structure Spelling where
  scheme : Option (List Char)
  naming : Option Naming
  path : List Char

namespace Spelling

def authority (w : Spelling) : Option (List Char) := w.naming.map Naming.text

def coordinates (w : Spelling) : Coordinates :=
  match w.naming with
  | none => ⟨none, none, none⟩
  | some n => n.coordinates

def text (w : Spelling) : List Char := assemble w.scheme w.authority w.path

def address (w : Spelling) : Address := withParts w.scheme w.authority w.path w.coordinates

/-- The text is spelled like this, and its escapes are well formed. -/
structure Spells (w : Spelling) (s : List Char) : Prop where
  shaped : WellShaped w.scheme w.authority w.path
  proper : ∀ n ∈ w.naming, n.Proper
  wellFormed : WellFormed s
  text : s = w.text

variable {w : Spelling} {s : List Char} {a : Address}

theorem Spells.coordinatesOf_authority (h : w.Spells s) :
    coordinatesOf w.authority = .ok w.coordinates := by
  obtain ⟨scheme, naming, path⟩ := w
  cases naming with
  | none => rfl
  | some n => exact Naming.splitCoordinates_ok_iff.mpr ⟨n, h.proper n rfl, rfl, rfl⟩

theorem Spells.parse_eq (h : w.Spells s) : parse s = .ok w.address := by
  have hwf : WellFormed w.text := h.text ▸ h.wellFormed
  rw [h.text, Spelling.text, parse_assemble h.shaped hwf, h.coordinatesOf_authority]
  rfl

end Spelling

open Spelling in
/-- A text is read if it has a spelling, whose parts are what is read. -/
theorem parse_ok_iff_spells {s : List Char} {a : Address} :
    parse s = .ok a ↔ ∃ w : Spelling, w.Spells s ∧ a = w.address := by
  constructor
  · intro h
    have hread := Parsed.of_ok h
    have hspells : ∃ w : Spelling, w.Spells s := by
      cases hx : a.authority with
      | none =>
        have hshape := hread.shaped
        have htext := hread.text
        rw [hx] at hshape htext
        exact ⟨⟨a.scheme, none, a.path⟩, hshape, by simp, hread.wellFormed, htext⟩
      | some x =>
        have hshape := hread.shaped
        have htext := hread.text
        have hcoordinates := hread.coordinates
        rw [hx] at hshape htext hcoordinates
        obtain ⟨n, hn, rfl, -⟩ := Naming.splitCoordinates_ok_iff.mp hcoordinates
        exact ⟨⟨a.scheme, some n, a.path⟩, hshape, fun m hm => Option.some.inj hm ▸ hn,
          hread.wellFormed, htext⟩
    obtain ⟨w, hw⟩ := hspells
    exact ⟨w, hw, Except.ok.inj (h.symm.trans hw.parse_eq)⟩
  · rintro ⟨w, hw, rfl⟩
    exact hw.parse_eq

theorem parse_error_iff {s : List Char} :
    (∃ e, parse s = .error e) ↔ ¬ ∃ w : Spelling, w.Spells s := by
  constructor
  · rintro ⟨e, he⟩ ⟨w, hw⟩
    cases he.symm.trans hw.parse_eq
  · intro h
    cases hp : parse s with
    | error e => exact ⟨e, rfl⟩
    | ok a =>
      obtain ⟨w, hw, -⟩ := parse_ok_iff_spells.mp hp
      exact absurd ⟨w, hw⟩ h

end CallArchive.Address
