import CallArchive.Proofs.Address.Spelling

/-!
# Reading what has been put together

An address is put together from a scheme, an authority, a namespace and an entity (`Parts.text`).
Each part may contain the delimiters of the others, except for those by which the reader finds its
end (`Parts.Given`). Every choice of such parts is read back part by part (`parse_parts`).
-/

namespace CallArchive.Address

open Text

/-! ## Parts -/

/-- A part that is there: it is not empty, its escapes are complete, and the marks that would end it
are not in it. -/
structure IsPart (marks : List Char) (s : List Char) : Prop where
  ne_nil : s ≠ []
  wellFormed : WellFormed s
  closed : ∀ c ∈ marks, c ∉ s

/-- A product with its forge and its version, if they are named. -/
structure Naming.Given (n : Naming) : Prop where
  forge : ∀ f ∈ n.forge, IsPart ['!', '/'] f
  product : IsPart ['!', '$', '/'] n.product
  version : ∀ v ∈ n.version, IsPart ['!', '/'] v

/-- The parts of an address with a namespace and an entity. -/
structure Parts where
  scheme : Option (List Char)
  naming : Option Naming
  «namespace» : List Char
  entity : List Char

namespace Parts

structure Given (p : Parts) : Prop where
  scheme : ∀ n ∈ p.scheme, toLower n = schemeName.toList
  naming : ∀ n ∈ p.naming, n.Given
  «namespace» : IsPart ['/'] p.namespace
  entity : IsPart [] p.entity

def path (p : Parts) : List Char := '/' :: (p.namespace ++ '/' :: p.entity)

def text (p : Parts) : List Char := assemble p.scheme (p.naming.map Naming.text) p.path

/-- The address has these parts and no others. -/
structure ReadAs (p : Parts) (a : Address) : Prop where
  scheme : a.scheme = p.scheme
  forge : a.forge = p.naming.bind Naming.forge
  product : a.product = p.naming.map Naming.product
  version : a.version = p.naming.bind Naming.version
  «namespace» : a.namespace = some p.namespace
  entity : a.entity = some p.entity
  text : a.text = String.ofList p.text
  external : a.isExternal = true ↔ p.naming.isSome = true

end Parts

/-! ## Authorities -/

namespace Naming

variable {n : Naming}

/-- A mark that no part has is in the text only if it is a delimiter. -/
theorem not_mem_text {c : Char} (hbang : c ≠ '!') (hdollar : c ≠ '$')
    (hforge : ∀ f ∈ n.forge, c ∉ f) (hproduct : c ∉ n.product) (hversion : ∀ v ∈ n.version, c ∉ v) :
    c ∉ n.text := by
  obtain ⟨forge, product, version⟩ := n
  cases forge <;> cases version <;> simp_all [text, unforged, versionText]

theorem Given.proper (h : n.Given) : n.Proper where
  forge := fun f hf => (h.forge f hf).closed '!' (by decide)
  product := h.product.closed '$' (by decide)
  unforged := by
    have hproduct := h.product.closed '!' (by decide)
    have hversion := fun v hv => (h.version v hv).closed '!' (by decide)
    obtain ⟨forge, product, version⟩ := n
    cases version <;> simp_all [unforged, versionText]

theorem Given.closed (h : n.Given) : '/' ∉ n.text :=
  not_mem_text (by decide) (by decide) (fun f hf => (h.forge f hf).closed '/' (by decide))
    (h.product.closed '/' (by decide)) (fun v hv => (h.version v hv).closed '/' (by decide))

theorem Given.wellFormed (h : n.Given) : WellFormed n.text := by
  have hunforged : WellFormed n.unforged := by
    obtain ⟨forge, product, version⟩ := n
    cases version with
    | none => exact h.product.wellFormed.append trivial
    | some v =>
      apply (wellFormed_append_delimiter delimits_dollar).mpr
      exact ⟨h.product.wellFormed, (h.version v rfl).wellFormed⟩
  obtain ⟨forge, product, version⟩ := n
  cases forge with
  | none => exact hunforged
  | some f =>
    apply (wellFormed_append_delimiter delimits_bang).mpr
    exact ⟨(h.forge f rfl).wellFormed, hunforged⟩

theorem Given.coordinates_eq (h : n.Given) :
    n.coordinates = ⟨n.forge, some n.product, n.version⟩ := by
  rw [coordinates, bind_nonEmpty?_eq_self fun f hf => (h.forge f hf).ne_nil,
    bind_nonEmpty?_eq_self fun v hv => (h.version v hv).ne_nil,
    nonEmpty?_of_ne_nil h.product.ne_nil]

end Naming

/-! ## Addresses -/

namespace Parts

variable {p : Parts}

def spelling (p : Parts) : Spelling := ⟨p.scheme, p.naming, p.path⟩

theorem Given.wellShaped (h : p.Given) :
    WellShaped p.scheme (p.naming.map Naming.text) p.path where
  named := h.scheme
  closed := by
    intro x hx
    obtain ⟨n, hn, rfl⟩ := Option.map_eq_some_iff.mp hx
    exact (h.naming n hn).closed
  rooted := rfl
  bare := fun _ => not_slashes_prefix h.namespace.ne_nil (h.namespace.closed '/' (by decide))

theorem Given.wellFormed (h : p.Given) : WellFormed p.text := by
  apply (wellFormed_assemble h.wellShaped.rooted).mpr
  refine ⟨fun n hn => (normalEscapes_of_named (h.scheme n hn)).wellFormed, ?_, ?_⟩
  · intro x hx
    obtain ⟨n, hn, rfl⟩ := Option.map_eq_some_iff.mp hx
    exact (h.naming n hn).wellFormed
  · rw [path, wellFormed_char delimits_slash.1, wellFormed_append_delimiter delimits_slash]
    exact ⟨h.namespace.wellFormed, h.entity.wellFormed⟩

theorem Given.spells (h : p.Given) : p.spelling.Spells p.text :=
  ⟨h.wellShaped, fun n hn => (h.naming n hn).proper, h.wellFormed, rfl⟩

theorem Given.splitPath_eq (h : p.Given) :
    splitPath p.path = (some p.namespace, some p.entity) := by
  rw [path, splitPath_slashes (h.namespace.closed '/' (by decide)),
    nonEmpty?_of_ne_nil h.namespace.ne_nil, nonEmpty?_of_ne_nil h.entity.ne_nil]

theorem Given.coordinates_eq (h : p.Given) : p.spelling.coordinates =
    ⟨p.naming.bind Naming.forge, p.naming.map Naming.product, p.naming.bind Naming.version⟩ := by
  obtain ⟨scheme, naming, ns, entity⟩ := p
  cases naming with
  | none => rfl
  | some n => exact (h.naming n rfl).coordinates_eq

end Parts

/-- Whatever the parts are, the text that is put together from them is read, and as these parts. -/
theorem parse_parts {p : Parts} (h : p.Given) : ∃ a, parse p.text = .ok a ∧ p.ReadAs a := by
  refine ⟨p.spelling.address, h.spells.parse_eq, ?_⟩
  have hcoordinates := h.coordinates_eq
  have hsplit := h.splitPath_eq
  exact {
    scheme := rfl
    forge := congrArg Coordinates.forge hcoordinates
    product := congrArg Coordinates.product hcoordinates
    version := congrArg Coordinates.version hcoordinates
    «namespace» := congrArg Prod.fst hsplit
    entity := congrArg Prod.snd hsplit
    text := rfl
    external := by
      have hproduct := congrArg Coordinates.product hcoordinates
      change p.spelling.coordinates.product.isSome = true ↔ _
      rw [hproduct, Option.isSome_map] }

/-- Every part has delimiters of other parts. -/
def crowdedParts : Parts where
  scheme := some "FaStEn".toList
  naming := some ⟨some "m$v:n".toList, "p:q".toList, some "$1:%2f".toList⟩
  «namespace» := "n:s!$".toList
  entity := "/C.m(!)%24:/x".toList

theorem parse_parts_crowdedParts : crowdedParts.Given ∧
    crowdedParts.text = "FaStEn://m$v:n!p:q$$1:%2f/n:s!$//C.m(!)%24:/x".toList ∧
    ∃ a, parse crowdedParts.text = .ok a ∧ crowdedParts.ReadAs a := by
  have hpart {marks s : List Char} (h : s ≠ [] ∧ firstBadEscape s = none ∧ marks.all (· ∉ s)) :
      IsPart marks s := {
    ne_nil := h.1
    wellFormed := (firstBadEscape_eq_none_iff s).mp h.2.1
    closed := fun c hc => of_decide_eq_true (List.all_eq_true.mp h.2.2 c hc) }
  have hgiven : crowdedParts.Given := {
    scheme := by decide
    naming := by
      rintro n ⟨⟩
      exact {
        forge := fun f hf => Option.some.inj hf ▸ hpart (by decide)
        product := hpart (by decide)
        version := fun v hv => Option.some.inj hv ▸ hpart (by decide) }
    «namespace» := hpart (by decide)
    entity := hpart (by decide) }
  exact ⟨hgiven, by decide, parse_parts hgiven⟩

end CallArchive.Address
