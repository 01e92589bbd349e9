import CallArchive.Proofs.Text.Blank
import CallArchive.Proofs.Text.Cut
import CallArchive.Record.VersionRange

/-!
# What the normal form of a version range is read as

The bounds of a range that has been read are trimmed and do not contain the separator (`Bare`), but
the lower one may end in a dot, as when a blank stood between that dot and the separator. In the
normal form there are then three dots, of which reading takes the first two (`ofText?_text`). All
other ranges read back, and are told apart by their normal forms (`text_faithful`).
-/

namespace CallArchive.VersionRange

open Text

variable {s t : String} {r q : VersionRange} {inner lower upper : List Char}

/-! ## Bounds -/

/-- What a bound is like that has been read: trimmed, not empty, and without the separator. -/
structure Bare (b : Option (List Char)) : Prop where
  bound_eq : bound (b.getD []) = b
  unseparated : ¬ separator <:+: b.getD []

theorem bound_getD (s : List Char) : (bound s).getD [] = trim s := by
  rw [bound]
  cases trim s <;> rfl

theorem bare_bound {s : List Char} (h : ¬ separator <:+: s) : Bare (bound s) where
  bound_eq := by rw [bound_getD, bound, trim_trim, bound]
  unseparated := by
    rw [bound_getD]
    exact fun hpiece => h (hpiece.trans (trim_isInfix s))

theorem Bare.trim_eq {b : Option (List Char)} (h : Bare b) : trim (b.getD []) = b.getD [] := by
  rw [← bound_getD, h.bound_eq]

/-! ## The separator -/

theorem separator_infix_concat :
    separator <:+: lower ++ ['.'] ↔ separator <:+: lower ∨ lower.getLast? = some '.' := by
  have hends : separator <:+ lower ++ ['.'] ↔ lower.getLast? = some '.' := by
    rw [List.suffix_concat_iff, List.getLast?_eq_some_iff]
    constructor
    · rintro (hnil | ⟨front, hfront, before, rfl⟩)
      · cases hnil
      · obtain rfl : ['.'] = front := List.append_cancel_right hfront
        exact ⟨before, rfl⟩
    · rintro ⟨before, rfl⟩
      exact .inr ⟨['.'], rfl, before, rfl⟩
  rw [List.infix_concat_iff, hends, or_comm]

theorem separator_infix_cons :
    separator <:+: '.' :: upper ↔ upper.head? = some '.' ∨ separator <:+: upper := by
  rw [List.infix_cons_iff]
  cases upper with
  | nil => simp [separator]
  | cons c upper => simp [separator, eq_comm]

theorem cutAt_separator_iff {s : List Char} :
    cutAtText separator s = some (lower, upper) ↔
      s = lower ++ separator ++ upper ∧ ¬ separator <:+: lower ++ ['.'] :=
  cutAtText_eq_some_iff (List.cons_ne_nil _ _)

/-- Where the first separator is named there is one way to cut. -/
theorem append_separator_inj {lower' upper' : List Char} (h : ¬ separator <:+: lower ++ ['.'])
    (h' : ¬ separator <:+: lower' ++ ['.'])
    (heq : lower ++ separator ++ upper = lower' ++ separator ++ upper') :
    lower = lower' ∧ upper = upper' := by
  have hcut := cutAt_separator_iff.mpr ⟨heq, h'⟩
  rw [cutAt_separator_iff.mpr ⟨rfl, h⟩] at hcut
  exact Prod.mk.inj (Option.some.inj hcut)

/-! ## Reading -/

theorem bare_ofInside? (h : ofInside? inner = some r) : Bare r.lower ∧ Bare r.upper := by
  unfold ofInside? at h
  split at h
  · next lower upper hcut =>
    split at h
    · cases h
    · next hupper =>
      obtain rfl := Option.some.inj h
      obtain ⟨-, hlower⟩ := cutAt_separator_iff.mp hcut
      rw [separator_infix_concat, not_or] at hlower
      exact ⟨bare_bound hlower.1, bare_bound fun hpiece => hupper (contains_iff.mpr hpiece)⟩
  · next hcut =>
    obtain rfl := Option.some.inj h
    have hinner : ¬ separator <:+: inner := fun hpiece => by
      have hcontains := contains_iff.mpr hpiece
      rw [contains, hcut] at hcontains
      cases hcontains
    exact ⟨bare_bound hinner, bare_bound hinner⟩

theorem bare_ofText? (h : ofText? s = some r) : Bare r.lower ∧ Bare r.upper := by
  obtain ⟨inner, -, hinside⟩ := Option.bind_eq_some_iff.mp h
  exact bare_ofInside? hinside

theorem ofInside?_append (h : ¬ separator <:+: lower ++ ['.']) (upper : List Char) :
    ofInside? (lower ++ separator ++ upper) =
      if contains separator upper then none else some ⟨bound lower, bound upper⟩ := by
  rw [ofInside?, cutAt_separator_iff.mpr ⟨rfl, h⟩]

theorem inside?_bracketed (inner : List Char) : inside? ('[' :: (inner ++ [']'])) = some inner := by
  rw [inside?, List.getLast?_concat, if_pos rfl, List.dropLast_concat]

theorem ofText?_text_eq (r : VersionRange) :
    ofText? r.text = ofInside? (r.lower.getD [] ++ separator ++ r.upper.getD []) := by
  rw [ofText?, text, String.toList_ofList, ofChars?, chars, inside?_bracketed, Option.bind_some]

/-! ## The normal form -/

def EndsInDot (r : VersionRange) : Prop := (r.lower.getD []).getLast? = some '.'

instance (r : VersionRange) : Decidable r.EndsInDot :=
  inferInstanceAs (Decidable (_ = _))

/-- What the normal form is read as: a dot at the end of the lower bound goes over to the upper one,
and two dots in front of that are a second separator. -/
def reread? (r : VersionRange) : Option VersionRange :=
  if r.EndsInDot then
    if (r.upper.getD []).head? = some '.' then none
    else some ⟨bound (r.lower.getD []).dropLast, some ('.' :: r.upper.getD [])⟩
  else some r

theorem exists_of_endsInDot (h : r.EndsInDot) : ∃ lower, r.lower.getD [] = lower ++ ['.'] :=
  List.getLast?_eq_some_iff.mp h

theorem not_infix_of_not_endsInDot (hr : Bare r.lower) (h : ¬ r.EndsInDot) :
    ¬ separator <:+: r.lower.getD [] ++ ['.'] := by
  rw [separator_infix_concat, not_or]
  exact ⟨hr.unseparated, h⟩

theorem ofText?_text (h : ofText? s = some r) : ofText? r.text = r.reread? := by
  obtain ⟨hlower, hupper⟩ := bare_ofText? h
  rw [ofText?_text_eq, reread?]
  split
  · next hdot =>
    obtain ⟨lower, heq⟩ := exists_of_endsInDot hdot
    have hfirst : ¬ separator <:+: lower ++ ['.'] := heq ▸ hlower.unseparated
    have hmoved : lower ++ ['.'] ++ separator ++ r.upper.getD []
        = lower ++ separator ++ ('.' :: r.upper.getD []) := by simp [separator]
    have hbound : bound ('.' :: r.upper.getD []) = some ('.' :: r.upper.getD []) := by
      rw [bound, trim_cons (by decide) hupper.trim_eq]
      rfl
    rw [heq, hmoved, ofInside?_append hfirst, hbound, List.dropLast_concat]
    simp only [contains_iff, separator_infix_cons, hupper.unseparated, or_false]
  · next hdot =>
    rw [ofInside?_append (not_infix_of_not_endsInDot hlower hdot),
      if_neg (mt contains_iff.mp hupper.unseparated), hlower.bound_eq, hupper.bound_eq]

theorem reread?_eq_self_iff : r.reread? = some r ↔ ¬ r.EndsInDot := by
  unfold reread?
  split
  · next hdot =>
    refine ⟨fun h => ?_, fun h => absurd hdot h⟩
    split at h
    · cases h
    · have hupper := congrArg (fun q : VersionRange => (q.upper.getD []).length) (Option.some.inj h)
      simp at hupper
  · next hdot => simp [hdot]

/-- The bounds are found again in the normal form, unless only one of two ranges has the dot. -/
theorem eq_of_text_eq (hr : ofText? s = some r) (hq : ofText? t = some q)
    (hdot : r.EndsInDot ↔ q.EndsInDot) (h : r.text = q.text) : r = q := by
  obtain ⟨hrlower, hrupper⟩ := bare_ofText? hr
  obtain ⟨hqlower, hqupper⟩ := bare_ofText? hq
  have heq : r.lower.getD [] ++ separator ++ r.upper.getD []
      = q.lower.getD [] ++ separator ++ q.upper.getD [] := by
    have hchars : r.chars = q.chars := String.ofList_injective h
    exact List.append_cancel_right (List.cons.inj hchars).2
  obtain ⟨hlower, hupper⟩ :
      r.lower.getD [] = q.lower.getD [] ∧ r.upper.getD [] = q.upper.getD [] := by
    by_cases hr' : r.EndsInDot
    · obtain ⟨l, hl⟩ := exists_of_endsInDot hr'
      obtain ⟨m, hm⟩ := exists_of_endsInDot (hdot.mp hr')
      have hmoved : l ++ separator ++ ('.' :: r.upper.getD [])
          = m ++ separator ++ ('.' :: q.upper.getD []) := by
        simpa [hl, hm, separator] using heq
      obtain ⟨rfl, hupper⟩ := append_separator_inj (hl ▸ hrlower.unseparated)
        (hm ▸ hqlower.unseparated) hmoved
      exact ⟨hl.trans hm.symm, (List.cons.inj hupper).2⟩
    · exact append_separator_inj (not_infix_of_not_endsInDot hrlower hr')
        (not_infix_of_not_endsInDot hqlower (mt hdot.mpr hr')) heq
  have hl := hrlower.bound_eq.symm.trans ((congrArg bound hlower).trans hqlower.bound_eq)
  have hu := hrupper.bound_eq.symm.trans ((congrArg bound hupper).trans hqupper.bound_eq)
  cases r
  cases q
  exact congrArg₂ VersionRange.mk hl hu

/-- A normal form reads as the range again, and stands for that range alone, as far as no lower
bound ends in a dot. Where one does, the normal form is read as `reread?` says, and only a range that
has no such dot can have the same. -/
theorem text_faithful (hr : ofText? s = some r) (hq : ofText? t = some q) :
    ofText? r.text = r.reread? ∧ (r.reread? = some r ↔ ¬ r.EndsInDot) ∧
      (¬ r.EndsInDot → (ofText? r.text).map text = some r.text) ∧
      (r.text = q.text → (r.EndsInDot ↔ q.EndsInDot) → r = q) := by
  have hread := ofText?_text hr
  refine ⟨hread, reread?_eq_self_iff, fun hdot => ?_, fun h hdot => eq_of_text_eq hr hq hdot h⟩
  rw [hread, reread?_eq_self_iff.mpr hdot, Option.map_some]

/-- An open range reads back, and in a dotted one a dot goes over. -/
theorem text_faithful_open :
    ofText? "[ 1.0 .. ]" = some ⟨some ['1', '.', '0'], none⟩ ∧
      ofText? (text ⟨some ['1', '.', '0'], none⟩) = some ⟨some ['1', '.', '0'], none⟩ ∧
      ofText? "[1. ..2]" = some ⟨some ['1', '.'], some ['2']⟩ ∧
      ofText? (text ⟨some ['1', '.'], some ['2']⟩) = some ⟨some ['1'], some ['.', '2']⟩ := by
  have hr : ofText? "[ 1.0 .. ]" = some ⟨some ['1', '.', '0'], none⟩ := by decide +kernel
  have hq : ofText? "[1. ..2]" = some ⟨some ['1', '.'], some ['2']⟩ := by decide +kernel
  have hdot : ¬ EndsInDot ⟨some ['1', '.', '0'], none⟩ := by decide
  obtain ⟨hread, hself, -⟩ := text_faithful hr hq
  obtain ⟨hmoved, -⟩ := text_faithful hq hr
  exact ⟨hr, hread.trans (hself.mpr hdot), hq, hmoved.trans (by decide)⟩

/-- Two ranges have one normal form, and the normal form of a third one is none that is read. -/
theorem text_ambiguous :
    (ofText? "[1. ..2]" = some ⟨some ['1', '.'], some ['2']⟩ ∧
      ofText? "[1...2]" = some ⟨some ['1'], some ['.', '2']⟩ ∧
      text ⟨some ['1', '.'], some ['2']⟩ = text ⟨some ['1'], some ['.', '2']⟩) ∧
    ofText? "[.]" = some ⟨some ['.'], some ['.']⟩ ∧
      ofText? (text ⟨some ['.'], some ['.']⟩) = none := by
  decide +kernel

end CallArchive.VersionRange
