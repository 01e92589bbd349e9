import CallArchive.Proofs.Address.Grammar
import CallArchive.Proofs.Address.Canonical

/-!
# Addresses that are spelled differently

A character that may stand for itself may also be written as an escape, and neither the case of an
escape's digits nor that of the scheme has a meaning. `Respells` says of two texts that the second
comes from the first in this way. Delimiters stay what they are, so a text that is respelled in its
parts is read again (`WellShaped.respelled`), and since the parts have the same normal forms, the
canonical form is the same (`canonicalForm_respelled`).
-/

namespace CallArchive.Address

open Text

/-! ## Digits -/

/-- The same hexadecimal digit, perhaps in the other case. -/
structure SameDigit (a b : Char) : Prop where
  digit : isHexDigit a = true
  lower : b.toLower = a.toLower

theorem isHexDigit_of_toLower {c : Char} (h : isHexDigit c.toLower = true) :
    isHexDigit c = true := by
  by_cases hupper : c.val ≥ 'A'.val ∧ c.val ≤ 'Z'.val
  · have hall : ∀ n < 128, isHexDigit (Char.ofNat n).toLower = true →
        isHexDigit (Char.ofNat n) = true := by decide
    have hlt : c.toNat < 128 := by
      have hZ : c.val.toNat ≤ 90 := UInt32.le_iff_toNat_le.mp hupper.2
      exact Nat.lt_of_le_of_lt hZ (by omega)
    have hc := hall c.toNat hlt
    rw [Char.ofNat_toNat] at hc
    exact hc h
  · have hsame : c.toLower = c := dif_neg hupper
    rwa [hsame] at h

theorem toUpper_toLower {c : Char} (h : isHexDigit c = true) : c.toLower.toUpper = c.toUpper :=
  forall_hexDigit (p := fun c => c.toLower.toUpper = c.toUpper) (by decide) h

theorem isHexDigit_toLower {c : Char} (h : isHexDigit c = true) : isHexDigit c.toLower = true :=
  forall_hexDigit (p := fun c => isHexDigit c.toLower = true) (by decide) h

namespace SameDigit

variable {a b a' b' : Char}

theorem refl (h : isHexDigit a = true) : SameDigit a a := ⟨h, rfl⟩

theorem digit' (h : SameDigit a b) : isHexDigit b = true :=
  isHexDigit_of_toLower (h.lower ▸ isHexDigit_toLower h.digit)

theorem toUpper_eq (h : SameDigit a b) : b.toUpper = a.toUpper := by
  rw [← toUpper_toLower h.digit', h.lower, toUpper_toLower h.digit]

theorem hexValue_eq (h : SameDigit a b) : hexValue b = hexValue a := by
  rw [← (isUpperHexDigit_toUpper h.digit').2, h.toUpper_eq, (isUpperHexDigit_toUpper h.digit).2]

theorem normalEscape_eq (ha : SameDigit a a') (hb : SameDigit b b') :
    normalEscape a' b' = normalEscape a b := by
  have hchar : escapedChar a' b' = escapedChar a b := by
    rw [escapedChar, escapedChar, ha.hexValue_eq, hb.hexValue_eq]
  rw [normalEscape, normalEscape, hchar, ha.toUpper_eq, hb.toUpper_eq]

end SameDigit

/-! ## Texts -/

/-- The second text is the first, with escapes for some characters that need none, and with the
digits of escapes in any case. -/
inductive Respells : List Char → List Char → Prop
  | nil : Respells [] []
  | char {c : Char} {s t : List Char} : c ≠ '%' → Respells s t → Respells (c :: s) (c :: t)
  | encode {c a b : Char} {s t : List Char} : isUnreserved c = true → isHexDigit a = true →
      isHexDigit b = true → escapedChar a b = c → Respells s t →
      Respells (c :: s) ('%' :: a :: b :: t)
  | escape {a b a' b' : Char} {s t : List Char} : SameDigit a a' → SameDigit b b' →
      Respells s t → Respells ('%' :: a :: b :: s) ('%' :: a' :: b' :: t)

namespace Respells

variable {s t s' t' : List Char}

theorem refl (h : WellFormed s) : Respells s s := by
  induction h using WellFormed.induction with
  | nil => exact .nil
  | escape a b s ha hb _ ih => exact .escape (.refl ha) (.refl hb) ih
  | char c s hc _ ih => exact .char hc ih

theorem append (h : Respells s t) (h' : Respells s' t') : Respells (s ++ s') (t ++ t') := by
  induction h with
  | nil => exact h'
  | char hc _ ih => exact .char hc ih
  | encode hc ha hb hab _ ih => exact .encode hc ha hb hab ih
  | escape ha hb _ ih => exact .escape ha hb ih

theorem wellFormed (h : Respells s t) : WellFormed t := by
  induction h with
  | nil => trivial
  | char hc _ ih => exact (wellFormed_char hc).mpr ih
  | encode _ ha hb _ _ ih => exact ⟨ha, hb, ih⟩
  | escape ha hb _ ih => exact ⟨ha.digit', hb.digit', ih⟩

theorem ne_percent_of_isUnreserved {c : Char} (h : isUnreserved c = true) : c ≠ '%' := by
  rintro rfl
  cases h

/-- Both are decoded to the same text. -/
theorem normalize_eq (h : Respells s t) : normalize t = normalize s := by
  induction h with
  | nil => rfl
  | char hc _ ih => rw [normalize_char hc, normalize_char hc, ih]
  | encode hc _ _ hab _ ih =>
    rw [normalize_char (ne_percent_of_isUnreserved hc), normalize, normalEscape, hab, if_pos hc, ih]
    rfl
  | escape ha hb _ ih => rw [normalize, normalize, ha.normalEscape_eq hb, ih]

/-- Delimiters are neither encoded nor part of an escape. -/
theorem count_eq (h : Respells s t) {d : Char} (hd : Delimits d) : t.count d = s.count d := by
  induction h with
  | nil => rfl
  | char hc _ ih => rw [List.count_cons, List.count_cons, ih]
  | encode hc ha hb _ _ ih =>
    have hne : _ ≠ d := fun heq => Bool.false_ne_true ((heq ▸ hd.2).symm.trans hc)
    rw [List.count_cons_of_ne hd.1.symm, List.count_cons_of_ne (hd.ne_hexDigit ha).symm,
      List.count_cons_of_ne (hd.ne_hexDigit hb).symm, List.count_cons_of_ne hne, ih]
  | escape ha hb _ ih =>
    rw [List.count_cons_of_ne hd.1.symm, List.count_cons_of_ne (hd.ne_hexDigit ha.digit').symm,
      List.count_cons_of_ne (hd.ne_hexDigit hb.digit').symm, List.count_cons_of_ne hd.1.symm,
      List.count_cons_of_ne (hd.ne_hexDigit ha.digit).symm,
      List.count_cons_of_ne (hd.ne_hexDigit hb.digit).symm, ih]

theorem not_mem (h : Respells s t) {d : Char} (hd : Delimits d) (hs : d ∉ s) : d ∉ t := by
  rw [← List.count_eq_zero] at hs ⊢
  rw [h.count_eq hd, hs]

/-- A slash at the front stands for itself. -/
theorem slash (h : Respells s ('/' :: t)) : ∃ s', s = '/' :: s' ∧ Respells s' t := by
  cases h with
  | char _ h => exact ⟨_, rfl, h⟩

theorem rooted (h : Respells s t) (hs : isPath s = true) : isPath t = true := by
  cases h with
  | nil => rfl
  | char _ _ => exact hs
  | encode hc _ _ _ _ =>
    rw [eq_of_beq hs] at hc
    cases hc
  | escape _ _ _ => cases hs

end Respells

/-! ## Addresses -/

/-- The text has the scheme of the address in any case, and its authority and its path respelled. -/
def IsRespelling (a : Address) (t : List Char) : Prop :=
  ∃ scheme authority path, t = assemble scheme authority path ∧
    Option.Rel (fun n n' => toLower n' = toLower n) a.scheme scheme ∧
    Option.Rel Respells a.authority authority ∧ Respells a.path path

section

variable {α β : Type} {r : α → α → Prop} {x y : Option α}

theorem map_eq_of_rel {f : α → β} (hf : ∀ u v, r u v → f v = f u) (h : Option.Rel r x y) :
    y.map f = x.map f := by
  cases h with
  | none => rfl
  | some h => exact congrArg some (hf _ _ h)

theorem forall_of_rel {p q : α → Prop} (hr : ∀ u v, r u v → p u → q v) (h : Option.Rel r x y)
    (hx : ∀ u ∈ x, p u) : ∀ v ∈ y, q v := by
  cases h with
  | none => nofun
  | some h =>
    rintro v ⟨⟩
    exact hr _ _ h (hx _ rfl)

end

variable {s t : List Char} {a : Address}

/-- There are as many exclamation marks. -/
theorem splitCoordinates_of_respells {x y : List Char} (h : Respells x y) {c : Coordinates}
    (hx : splitCoordinates x = .ok c) : ∃ d, splitCoordinates y = .ok d := by
  apply splitCoordinates_of_count_le
  rw [h.count_eq delimits_bang]
  by_contra hcount
  rw [splitCoordinates_of_lt_count (Nat.lt_of_not_le hcount)] at hx
  cases hx

theorem coordinatesOf_of_respells {x y : Option (List Char)} (h : Option.Rel Respells x y)
    {c : Coordinates} (hx : coordinatesOf x = .ok c) : ∃ d, coordinatesOf y = .ok d := by
  cases h with
  | none => exact ⟨_, rfl⟩
  | some h => exact splitCoordinates_of_respells h hx

/-- Parts that are respelled keep their shape. -/
theorem WellShaped.respelled {scheme scheme' x x' : Option (List Char)} {path path' : List Char}
    (h : WellShaped scheme x path)
    (hscheme : Option.Rel (fun n n' => toLower n' = toLower n) scheme scheme')
    (hx : Option.Rel Respells x x') (hpath : Respells path path') :
    WellShaped scheme' x' path' where
  named := forall_of_rel (fun _ _ hsame hn => hsame.trans hn) hscheme h.named
  closed := forall_of_rel (fun _ _ hsame hn => hsame.not_mem delimits_slash hn) hx h.closed
  rooted := hpath.rooted h.rooted
  bare := by
    rintro rfl ⟨after, rfl⟩
    cases hx
    obtain ⟨front, rfl, hfront⟩ := hpath.slash
    obtain ⟨body, rfl, -⟩ := hfront.slash
    exact h.bare rfl (List.prefix_append _ _)

theorem wellFormed_respelled {scheme x x' : Option (List Char)} {path path' : List Char}
    (hshape : WellShaped scheme x' path') (hx : Option.Rel Respells x x')
    (hpath : Respells path path') : WellFormed (assemble scheme x' path') := by
  apply (wellFormed_assemble hshape.rooted).mpr
  refine ⟨fun n hn => (normalEscapes_of_named (hshape.named n hn)).wellFormed, ?_, hpath.wellFormed⟩
  intro y hy
  cases hx with
  | none => cases hy
  | some hsame =>
    obtain rfl := Option.some.inj hy
    exact hsame.wellFormed

/-- A text is what its parts make together, and if they are spelled differently it is read as well
and has the same canonical form. -/
theorem canonicalForm_respelled (h : parse s = .ok a) (ht : IsRespelling a t) :
    s = assemble a.scheme a.authority a.path ∧
      ∃ b, parse t = .ok b ∧ b.canonicalForm = a.canonicalForm := by
  have hread := Parsed.of_ok h
  refine ⟨hread.text, ?_⟩
  obtain ⟨scheme, authority, path, rfl, hscheme, hauthority, hpath⟩ := ht
  have hshape := hread.shaped.respelled hscheme hauthority hpath
  have hwf := wellFormed_respelled hshape hauthority hpath
  obtain ⟨c, hc⟩ := coordinatesOf_of_respells hauthority hread.coordinates
  have hparse := parse_assemble hshape hwf
  rw [hc] at hparse
  have hlower : scheme.map toLower = a.scheme.map toLower :=
    map_eq_of_rel (fun _ _ hsame => hsame) hscheme
  have hnormal : authority.map normalize = a.authority.map normalize :=
    map_eq_of_rel (fun _ _ hsame => hsame.normalize_eq) hauthority
  refine ⟨_, hparse, ?_⟩
  rw [canonicalForm_eq, canonicalForm_eq]
  simp only [withParts, hlower, hnormal, hpath.normalize_eq]

/-- The letters on both sides of an exclamation mark, the dots of a dot segment and an escape that is
needed are spelled differently. -/
theorem canonicalForm_respelled_dots : ∃ a b,
    parse "Fasten://mvn!p/../n/m()%2f".toList = .ok a ∧
      IsRespelling a "fASTEN://mv%6E!%70/.%2e/n/%6d()%2F".toList ∧
      parse "fASTEN://mv%6E!%70/.%2e/n/%6d()%2F".toList = .ok b ∧
      b.canonicalForm = a.canonicalForm ∧ a.canonicalForm = "fasten://mvn!p/n/m()%2F".toList := by
  obtain ⟨a, ha⟩ := ok_of_isSome (x := parse "Fasten://mvn!p/../n/m()%2f".toList) (by decide +kernel)
  have hparts : ((parse "Fasten://mvn!p/../n/m()%2f".toList).map fun a =>
      ((a.scheme, a.authority), a.path, a.canonicalForm)).toOption =
      some ((some "Fasten".toList, some "mvn!p".toList), "/../n/m()%2f".toList,
        "fasten://mvn!p/n/m()%2F".toList) := by decide +kernel
  rw [ha] at hparts
  obtain ⟨hleft, hright⟩ := Prod.mk.inj (Option.some.inj hparts)
  obtain ⟨hscheme, hauthority⟩ := Prod.mk.inj hleft
  obtain ⟨hpath, hform⟩ := Prod.mk.inj hright
  have hn : Respells ['n'] "%6E".toList :=
    .encode (by decide) (by decide) (by decide) (by decide) .nil
  have hp : Respells ['p'] "%70".toList :=
    .encode (by decide) (by decide) (by decide) (by decide) .nil
  have hdot : Respells ['.'] "%2e".toList :=
    .encode (by decide) (by decide) (by decide) (by decide) .nil
  have hm : Respells ['m'] "%6d".toList :=
    .encode (by decide) (by decide) (by decide) (by decide) .nil
  have hslash : Respells "%2f".toList "%2F".toList :=
    .escape ⟨by decide, by decide⟩ ⟨by decide, by decide⟩ .nil
  have hplain {s : List Char} (hs : '%' ∉ s) : Respells s s :=
    .refl (normalEscapes_of_not_mem hs).wellFormed
  have hrespelled : IsRespelling a "fASTEN://mv%6E!%70/.%2e/n/%6d()%2F".toList := by
    refine ⟨some "fASTEN".toList, some "mv%6E!%70".toList, "/.%2e/n/%6d()%2F".toList, rfl, ?_, ?_, ?_⟩
    · rw [hscheme]
      exact .some (by decide)
    · rw [hauthority]
      exact .some ((hplain (s := "mv".toList) (by decide)).append
        (hn.append ((hplain (s := ['!']) (by decide)).append hp)))
    · rw [hpath]
      exact (hplain (s := "/.".toList) (by decide)).append (hdot.append
        ((hplain (s := "/n/".toList) (by decide)).append (hm.append
          ((hplain (s := "()".toList) (by decide)).append hslash))))
  obtain ⟨-, b, hb, heq⟩ := canonicalForm_respelled ha hrespelled
  exact ⟨a, b, ha, hrespelled, hb, heq, hform⟩

end CallArchive.Address
