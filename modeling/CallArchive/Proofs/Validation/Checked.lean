import CallArchive.Proofs.Validation.NodeRule
import CallArchive.Proofs.Validation.Validated

/-!
# What validation has checked

The arcs that are kept join methods of the record, or a method and an address outside, whose
addresses keep all rules of their end (`EndsArc`). The dependencies that are kept have a product and
a forge.
-/

namespace CallArchive

/-- What an address at an end of an arc has, and what it has not: only a target may name a
product. -/
structure Address.AtEnd (position : Position) (a : Address) : Prop where
  scheme : a.scheme = none
  forge : a.forge = none
  version : a.version = none
  product : position = .source → a.product = none
  canonical : a.canonicalForm = a.raw
  «namespace» : a.namespace.isSome = true
  callable : a.kind? = some .function ∨ a.kind? = some .attribute

/-- The text is that of an address which may stand at the end of an arc. -/
def EndsArc (position : Position) (text : String) : Prop :=
  ∃ a, Address.ofString text = .ok a ∧ a.text = text ∧ a.AtEnd position

theorem EntityKind.eq_of_isCallable {k : EntityKind} (h : k.isCallable = true) :
    k = .function ∨ k = .attribute := by
  cases k with
  | type => cases h
  | function => exact .inl rfl
  | «attribute» => exact .inr rfl

namespace Address

variable {product : List Char} {position : Position} {a : Address}

theorem AtEnd.of_rules (h : ∀ r, breaksRule product position a r = false) : a.AtEnd position where
  scheme := by simpa [breaksRule] using h .hasScheme
  forge := by simpa using (Bool.or_eq_false_iff.mp (h .hasForgeOrVersion)).1
  version := by simpa using (Bool.or_eq_false_iff.mp (h .hasForgeOrVersion)).2
  product := fun hsource => by simpa [breaksRule, hsource] using h .externalSource
  canonical := by
    have hcanonical : a.isCanonical = true := by simpa [breaksRule] using h .notCanonical
    exact (beq_iff_eq.mp hcanonical).symm
  «namespace» := by simpa [breaksRule] using h .missingNamespace
  callable := by
    have hany : a.kind?.any EntityKind.isCallable = true := by
      simpa [breaksRule] using h .notCallable
    obtain ⟨k, hk, hcallable⟩ := (Option.any_eq_true ..).mp hany
    rw [hk, Option.some.injEq, Option.some.injEq]
    exact EntityKind.eq_of_isCallable hcallable

theorem endsArc_of_checkNode {text : String}
    (h : checkNode product position text.toList = .ok a) :
    a.text = text ∧ EndsArc position text := by
  obtain ⟨hparse, hrules⟩ := checkNode_ok_iff.mp h
  have htext : a.text = text := by
    rw [Address.text, (Parsed.of_ok hparse).raw, String.ofList_toList]
  exact ⟨htext, a, hparse, htext, .of_rules hrules⟩

theorem checkArc_ok_iff {source target : List Char} {ends : Address × Address} :
    checkArc product source target = .ok ends ↔
      checkNode product .source source = .ok ends.1 ∧
        checkNode product .target target = .ok ends.2 := by
  simp [checkArc, bind_ok_iff, pure, Except.pure, Prod.ext_iff]

end Address

namespace CallGraph

namespace Validates

variable {g : CallGraph} {v : Validated}

/-! ## Arcs -/

theorem endsArc_internal (h : Validates g v) {arc : InternalArc} (harc : arc ∈ v.internalArcs) :
    ∃ source target, MethodTable.address? v.methods arc.source = some source ∧
      EndsArc .source source ∧ MethodTable.address? v.methods arc.target = some target ∧
      EndsArc .target target := by
  obtain ⟨source, target, ends, hsource, htarget, hends⟩ := h.checked_internal harc
  obtain ⟨hs, ht⟩ := Address.checkArc_ok_iff.mp hends
  exact ⟨source, target, hsource, (Address.endsArc_of_checkNode hs).2, htarget,
    (Address.endsArc_of_checkNode ht).2⟩

theorem endsArc_external (h : Validates g v) {arc : ExternalArc} (harc : arc ∈ v.externalArcs) :
    ∃ source, MethodTable.address? v.methods arc.source = some source ∧ EndsArc .source source ∧
      EndsArc .target arc.target := by
  obtain ⟨source, target, ends, hsource, hends, htext⟩ := h.checked_external harc
  obtain ⟨hs, ht⟩ := Address.checkArc_ok_iff.mp hends
  obtain ⟨hsame, htarget⟩ := Address.endsArc_of_checkNode ht
  rw [htext, hsame]
  exact ⟨source, hsource, (Address.endsArc_of_checkNode hs).2, htarget⟩

end Validates

end CallGraph

/-! ## Dependencies -/

/-- The dependency has a product and a forge. -/
structure DependencySpec.Named (d : DependencySpec) : Prop where
  product : Text.isBlankText d.product = false
  forge : Text.isBlankText d.forge = false

theorem Dependency.named_of_validate {d : Dependency} {s : DependencySpec}
    (h : d.validate = .ok s) : s.Named := by
  unfold Dependency.validate at h
  split at h
  · cases h
  · next hproduct =>
    split at h
    · cases h
    · next hforge =>
      obtain rfl := Except.ok.inj h
      exact ⟨Bool.eq_false_iff.mpr hproduct, Bool.eq_false_iff.mpr hforge⟩

theorem CallGraph.named_of_validate {g : CallGraph} {v : Validated} (h : g.validate = .ok v) :
    ∀ d ∈ v.dependencies, d.Named := by
  simp only [validate, bind_ok_iff, Prod.exists] at h
  obtain ⟨dependencies, hdependencies, modules, table, -, h⟩ := h
  obtain rfl := Except.ok.inj h
  intro s hs
  obtain ⟨d, -, hd⟩ := (mem_of_mapM_ok hdependencies).mp hs
  exact Dependency.named_of_validate hd

end CallArchive
