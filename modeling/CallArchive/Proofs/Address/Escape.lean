import CallArchive.Address.Escape
import CallArchive.Proofs.Text.Cut

/-!
# Well-formed escapes and their normal form

A text is `WellFormed` if each of its percent signs starts an escape (`wellFormed_iff`), and such
texts may be cut at delimiters, which are no part of an escape (`wellFormed_append_delimiter`).
`normalize` goes through them escape by escape (`WellFormed.induction`), so it leaves delimiters
where they are (`cutAt_normalize`, `segments_normalize`). The texts that it does not change are those
with `NormalEscapes` (`normalize_eq_self_iff`), and what it answers is one of them.
-/

namespace CallArchive.Address

open Text

/-! ## Hexadecimal digits -/

theorem isHexDigit_lt {c : Char} (h : isHexDigit c = true) : c.toNat < 128 := by
  simp only [isHexDigit, Char.isDigit, Bool.or_eq_true, Bool.and_eq_true, decide_eq_true_eq,
    Char.le_def, UInt32.le_iff_toNat_le] at h
  have h9 : '9'.val.toNat = 57 := rfl
  have hf : 'f'.val.toNat = 102 := rfl
  have hF : 'F'.val.toNat = 70 := rfl
  have hc : c.toNat = c.val.toNat := rfl
  omega

/-- What is decidable of hexadecimal digits can be tried on them. -/
theorem forall_hexDigit {p : Char → Prop}
    (h : ∀ n < 128, isHexDigit (Char.ofNat n) = true → p (Char.ofNat n)) {c : Char}
    (hc : isHexDigit c = true) : p c := by
  have hn := h c.toNat (isHexDigit_lt hc)
  rw [Char.ofNat_toNat] at hn
  exact hn hc

theorem isUnreserved_of_isHexDigit {c : Char} (h : isHexDigit c = true) : isUnreserved c = true :=
  forall_hexDigit (p := fun c => isUnreserved c = true) (by decide) h

/-- A digit of an escape in normal form. -/
def isUpperHexDigit (c : Char) : Bool := c.isDigit || (decide ('A' ≤ c) && decide (c ≤ 'F'))

theorem isHexDigit_of_isUpperHexDigit {c : Char} (h : isUpperHexDigit c = true) :
    isHexDigit c = true := by
  unfold isUpperHexDigit at h
  unfold isHexDigit
  rcases Bool.or_eq_true_iff.mp h with h | h <;> simp [h]

theorem isUpperHexDigit_toUpper {c : Char} (h : isHexDigit c = true) :
    isUpperHexDigit c.toUpper = true ∧ hexValue c.toUpper = hexValue c :=
  forall_hexDigit (p := fun c => isUpperHexDigit c.toUpper = true ∧ hexValue c.toUpper = hexValue c)
    (by decide) h

theorem toUpper_of_isUpperHexDigit {c : Char} (h : isUpperHexDigit c = true) : c.toUpper = c :=
  forall_hexDigit (p := fun c => isUpperHexDigit c = true → c.toUpper = c) (by decide)
    (isHexDigit_of_isUpperHexDigit h) h

/-! ## Percent signs -/

/-- Characters that stand between the parts of an address and in no escape. -/
def Delimits (c : Char) : Prop := c ≠ '%' ∧ isUnreserved c = false

theorem Delimits.ne_hexDigit {c d : Char} (h : Delimits c) (hd : isHexDigit d = true) : c ≠ d := by
  rintro rfl
  exact Bool.false_ne_true (h.2.symm.trans (isUnreserved_of_isHexDigit hd))

theorem percent_ne_hexDigit {d : Char} (hd : isHexDigit d = true) : '%' ≠ d := by
  rintro rfl
  cases hd

theorem delimits_slash : Delimits '/' := ⟨by decide, by decide⟩

theorem delimits_bang : Delimits '!' := ⟨by decide, by decide⟩

theorem delimits_dollar : Delimits '$' := ⟨by decide, by decide⟩

theorem delimits_colon : Delimits ':' := ⟨by decide, by decide⟩

theorem wellFormed_char {c : Char} (h : c ≠ '%') {s : List Char} :
    WellFormed (c :: s) ↔ WellFormed s := by
  rw [WellFormed]
  · exact ⟨And.right, fun hs => ⟨h, hs⟩⟩
  · rintro a b rest rfl
    exact absurd rfl h

/-- Well-formed texts consist of escapes and of other characters. -/
@[elab_as_elim]
theorem WellFormed.induction {motive : (s : List Char) → WellFormed s → Prop}
    (nil : motive [] trivial)
    (escape : ∀ a b s, (ha : isHexDigit a = true) → (hb : isHexDigit b = true) →
      (hs : WellFormed s) → motive s hs → motive ('%' :: a :: b :: s) ⟨ha, hb, hs⟩)
    (char : ∀ c s, (hc : c ≠ '%') → (hs : WellFormed s) → motive s hs →
      motive (c :: s) ((wellFormed_char hc).mpr hs)) {s : List Char} (h : WellFormed s) :
    motive s h := by
  fun_induction WellFormed s with
  | case1 => exact nil
  | case2 a b s ih => exact escape a b s h.1 h.2.1 h.2.2 (ih h.2.2)
  | case3 c s hne ih =>
    have hparts : c ≠ '%' ∧ WellFormed s := by
      rw [WellFormed] at h
      · exact h
      · exact hne
    exact char c s hparts.1 hparts.2 (ih hparts.2)

/-- Every percent sign of a well-formed text starts an escape. -/
theorem wellFormed_iff {s : List Char} :
    WellFormed s ↔ ∀ after, '%' :: after <:+ s →
      ∃ a b rest, after = a :: b :: rest ∧ isHexDigit a = true ∧ isHexDigit b = true := by
  constructor
  · intro h
    induction h using WellFormed.induction with
    | nil => exact fun after hs => nomatch List.suffix_nil.mp hs
    | escape a b s ha hb _ ih =>
      intro after hs
      rcases List.suffix_cons_iff.mp hs with heq | hs
      · exact ⟨a, b, s, (List.cons.inj heq).2, ha, hb⟩
      rcases List.suffix_cons_iff.mp hs with heq | hs
      · exact absurd (List.cons.inj heq).1 (percent_ne_hexDigit ha)
      rcases List.suffix_cons_iff.mp hs with heq | hs
      · exact absurd (List.cons.inj heq).1 (percent_ne_hexDigit hb)
      · exact ih after hs
    | char c s hc _ ih =>
      intro after hs
      rcases List.suffix_cons_iff.mp hs with heq | hs
      · exact absurd (List.cons.inj heq).1 (Ne.symm hc)
      · exact ih after hs
  · intro h
    fun_induction WellFormed s with
    | case1 => trivial
    | case2 a b s ih =>
      obtain ⟨a', b', rest, heq, ha, hb⟩ := h _ (List.suffix_refl _)
      simp only [List.cons.injEq] at heq
      obtain ⟨rfl, rfl, -⟩ := heq
      exact ⟨ha, hb, ih fun after hs => h after (hs.trans (List.suffix_append ['%', a, b] s))⟩
    | case3 c s hne ih =>
      refine ⟨?_, ih fun after hs => h after (hs.trans (List.suffix_cons c s))⟩
      rintro rfl
      obtain ⟨a, b, rest, rfl, -, -⟩ := h s (List.suffix_refl _)
      exact hne a b rest rfl rfl

theorem WellFormed.of_suffix {s t : List Char} (h : WellFormed t) (hs : s <:+ t) : WellFormed s :=
  wellFormed_iff.mpr fun after ha => wellFormed_iff.mp h after (ha.trans hs)

theorem WellFormed.append {s t : List Char} (hs : WellFormed s) (ht : WellFormed t) :
    WellFormed (s ++ t) := by
  induction hs using WellFormed.induction with
  | nil => exact ht
  | escape a b s ha hb _ ih => exact ⟨ha, hb, ih⟩
  | char c s hc _ ih => exact (wellFormed_char hc).mpr ih

/-- An escape does not go across a delimiter. -/
theorem wellFormed_append_delimiter {c : Char} (hc : Delimits c) {s t : List Char} :
    WellFormed (s ++ c :: t) ↔ WellFormed s ∧ WellFormed t := by
  constructor
  · intro h
    refine ⟨wellFormed_iff.mpr fun after hs => ?_, ?_⟩
    · have hafter : '%' :: (after ++ c :: t) <:+ s ++ c :: t :=
        (List.suffix_append_inj_of_length_eq rfl).mpr ⟨hs, rfl⟩
      obtain ⟨a, b, rest, heq, ha, hb⟩ := wellFormed_iff.mp h _ hafter
      match after with
      | [] => exact absurd (List.cons.inj heq).1 (hc.ne_hexDigit ha)
      | [x] => exact absurd (List.cons.inj (List.cons.inj heq).2).1 (hc.ne_hexDigit hb)
      | x :: y :: after =>
        simp only [List.cons_append, List.cons.injEq] at heq
        obtain ⟨rfl, rfl, -⟩ := heq
        exact ⟨x, y, after, rfl, ha, hb⟩
    · exact h.of_suffix ((List.suffix_cons c t).trans (List.suffix_append s (c :: t)))
  · rintro ⟨hs, ht⟩
    exact hs.append ((wellFormed_char hc.1).mpr ht)

theorem wellFormed_join {c : Char} (hc : Delimits c) {pieces : List (List Char)} :
    WellFormed (join c pieces) ↔ ∀ p ∈ pieces, WellFormed p := by
  induction pieces with
  | nil => simp [join, WellFormed]
  | cons p pieces ih =>
    cases pieces with
    | nil => simp [join]
    | cons q pieces =>
      rw [join, wellFormed_append_delimiter hc, ih]
      exact List.forall_mem_cons.symm

/-! ## The normal form -/

theorem normalize_char {c : Char} (h : c ≠ '%') (s : List Char) :
    normalize (c :: s) = c :: normalize s := by
  rw [normalize]
  rintro a b rest rfl
  exact absurd rfl h

theorem normalize_append {s : List Char} (hs : WellFormed s) (t : List Char) :
    normalize (s ++ t) = normalize s ++ normalize t := by
  induction hs using WellFormed.induction with
  | nil => rfl
  | escape a b s _ _ _ ih =>
    rw [List.cons_append, List.cons_append, List.cons_append, normalize, normalize, ih,
      List.append_assoc]
  | char c s hc _ ih => rw [List.cons_append, normalize_char hc, normalize_char hc, ih,
      List.cons_append]

theorem normalEscape_ne_nil (a b : Char) : normalEscape a b ≠ [] := by
  unfold normalEscape
  split <;> exact List.cons_ne_nil _ _

theorem normalize_eq_nil_iff {s : List Char} : normalize s = [] ↔ s = [] := by
  fun_cases normalize s with
  | case1 => simp
  | case2 a b s => simp [normalEscape_ne_nil]
  | case3 c s h => simp

theorem nonEmpty?_normalize (s : List Char) :
    nonEmpty? (normalize s) = (nonEmpty? s).map normalize := by
  cases s with
  | nil => rfl
  | cons c s =>
    have hne : normalize (c :: s) ≠ [] := mt normalize_eq_nil_iff.mp (List.cons_ne_nil c s)
    rw [nonEmpty?_of_ne_nil hne]
    rfl

/-- A delimiter is in the normal form of an escape no more than in the escape. -/
theorem not_mem_normalEscape {a b c : Char} (ha : isHexDigit a = true) (hb : isHexDigit b = true)
    (hc : Delimits c) : c ∉ normalEscape a b := by
  have hupper := hc.ne_hexDigit (isHexDigit_of_isUpperHexDigit (isUpperHexDigit_toUpper ha).1)
  have hupper' := hc.ne_hexDigit (isHexDigit_of_isUpperHexDigit (isUpperHexDigit_toUpper hb).1)
  unfold normalEscape
  split
  · next h =>
    refine mt List.mem_singleton.mp ?_
    rintro rfl
    rw [hc.2] at h
    cases h
  · simp [hc.1, hupper, hupper']

theorem mem_normalize_iff {c : Char} (hc : Delimits c) {s : List Char} (hs : WellFormed s) :
    c ∈ normalize s ↔ c ∈ s := by
  induction hs using WellFormed.induction with
  | nil => rfl
  | escape a b s ha hb _ ih =>
    rw [normalize, List.mem_append, ih]
    simp [not_mem_normalEscape ha hb hc, hc.1, hc.ne_hexDigit ha, hc.ne_hexDigit hb]
  | char x s hx _ ih => rw [normalize_char hx, List.mem_cons, List.mem_cons, ih]

/-- What stands on both sides of a delimiter is normalized on its own. -/
theorem cutAt_normalize {c : Char} (hc : Delimits c) {s : List Char} (hs : WellFormed s) :
    cutAt c (normalize s) = (cutAt c s).map fun p => (normalize p.1, normalize p.2) := by
  cases hcut : cutAt c s with
  | none => exact cutAt_eq_none_iff.mpr (mt (mem_normalize_iff hc hs).mp (cutAt_eq_none_iff.mp hcut))
  | some p =>
    obtain ⟨rfl, hnot⟩ := cutAt_eq_some_iff.mp hcut
    have hwf := (wellFormed_append_delimiter hc).mp hs
    rw [normalize_append hwf.1, normalize_char hc.1]
    exact cutAt_append (mt (mem_normalize_iff hc hwf.1).mp hnot) _

theorem normalize_join {c : Char} (hc : Delimits c) {pieces : List (List Char)}
    (h : ∀ p ∈ pieces, WellFormed p) :
    normalize (join c pieces) = join c (pieces.map normalize) := by
  induction pieces with
  | nil => rfl
  | cons p pieces ih =>
    obtain ⟨hp, hpieces⟩ := List.forall_mem_cons.mp h
    cases pieces with
    | nil => rfl
    | cons q pieces =>
      rw [join, normalize_append hp, normalize_char hc.1, ih hpieces]
      rfl

theorem wellFormed_of_mem_segments {c : Char} (hc : Delimits c) {s : List Char} (hs : WellFormed s) :
    ∀ p ∈ segments c s, WellFormed p := by
  rw [← wellFormed_join hc, join_segments]
  exact hs

theorem segments_normalize {c : Char} (hc : Delimits c) {s : List Char} (hs : WellFormed s) :
    segments c (normalize s) = (segments c s).map normalize := by
  have hwf := wellFormed_of_mem_segments hc hs
  conv_lhs => rw [← join_segments c s, normalize_join hc hwf]
  refine segments_join (fun p hp => ?_) (mt List.map_eq_nil_iff.mp (segments_ne_nil c s))
  obtain ⟨q, hq, rfl⟩ := List.mem_map.mp hp
  exact mt (mem_normalize_iff hc (hwf q hq)).mp (not_mem_of_mem_segments hq)

/-! ## Texts in normal form -/

/-- Every percent sign starts an escape with digits in upper case, of a character that needs one. -/
def NormalEscapes (s : List Char) : Prop :=
  ∀ after, '%' :: after <:+ s → ∃ a b rest, after = a :: b :: rest ∧
    isUpperHexDigit a = true ∧ isUpperHexDigit b = true ∧ isUnreserved (escapedChar a b) = false

theorem NormalEscapes.wellFormed {s : List Char} (h : NormalEscapes s) : WellFormed s :=
  wellFormed_iff.mpr fun after hs => by
    obtain ⟨a, b, rest, rfl, ha, hb, -⟩ := h after hs
    exact ⟨a, b, rest, rfl, isHexDigit_of_isUpperHexDigit ha, isHexDigit_of_isUpperHexDigit hb⟩

theorem NormalEscapes.of_suffix {s t : List Char} (h : NormalEscapes t) (hs : s <:+ t) :
    NormalEscapes s := fun after ha => h after (ha.trans hs)

theorem normalEscapes_nil : NormalEscapes [] := fun _ hs => nomatch List.suffix_nil.mp hs

theorem normalEscapes_of_not_mem {s : List Char} (h : '%' ∉ s) : NormalEscapes s := fun _ hs =>
  absurd (hs.subset List.mem_cons_self) h

theorem NormalEscapes.char {c : Char} {s : List Char} (hc : c ≠ '%') (h : NormalEscapes s) :
    NormalEscapes (c :: s) := by
  intro after hs
  rcases List.suffix_cons_iff.mp hs with heq | hs
  · exact absurd (List.cons.inj heq).1 (Ne.symm hc)
  · exact h after hs

theorem NormalEscapes.escape {a b : Char} {s : List Char} (ha : isUpperHexDigit a = true)
    (hb : isUpperHexDigit b = true) (hab : isUnreserved (escapedChar a b) = false)
    (h : NormalEscapes s) : NormalEscapes ('%' :: a :: b :: s) := by
  have ha' := percent_ne_hexDigit (isHexDigit_of_isUpperHexDigit ha)
  have hb' := percent_ne_hexDigit (isHexDigit_of_isUpperHexDigit hb)
  intro after hs
  rcases List.suffix_cons_iff.mp hs with heq | hs
  · exact ⟨a, b, s, (List.cons.inj heq).2, ha, hb, hab⟩
  · exact (h.char hb'.symm).char ha'.symm after hs

theorem normalEscapes_normalize {s : List Char} (h : WellFormed s) :
    NormalEscapes (normalize s) := by
  induction h using WellFormed.induction with
  | nil => exact normalEscapes_nil
  | escape a b s ha hb _ ih =>
    rw [normalize, normalEscape]
    split
    · next hab =>
      refine ih.char ?_
      intro heq
      rw [heq] at hab
      cases hab
    · next hab =>
      obtain ⟨ha, hva⟩ := isUpperHexDigit_toUpper ha
      obtain ⟨hb, hvb⟩ := isUpperHexDigit_toUpper hb
      refine ih.escape ha hb ?_
      rw [escapedChar, hva, hvb]
      exact Bool.eq_false_iff.mpr hab
  | char c s hc _ ih =>
    rw [normalize_char hc]
    exact ih.char hc

theorem NormalEscapes.normalize_eq {s : List Char} (h : NormalEscapes s) : normalize s = s := by
  induction h.wellFormed using WellFormed.induction with
  | nil => rfl
  | escape a b s _ _ _ ih =>
    obtain ⟨a', b', rest, heq, ha, hb, hab⟩ := h _ (List.suffix_refl _)
    simp only [List.cons.injEq] at heq
    obtain ⟨rfl, rfl, rfl⟩ := heq
    rw [normalize, normalEscape, hab, if_neg Bool.false_ne_true, toUpper_of_isUpperHexDigit ha,
      toUpper_of_isUpperHexDigit hb, ih (h.of_suffix (List.suffix_append ['%', a, b] s))]
    rfl
  | char c s hc _ ih => rw [normalize_char hc, ih (h.of_suffix (List.suffix_cons c s))]

/-- The texts in normal form are those that stay as they are. -/
theorem normalize_eq_self_iff {s : List Char} (hs : WellFormed s) :
    normalize s = s ↔ NormalEscapes s :=
  ⟨fun h => h ▸ normalEscapes_normalize hs, NormalEscapes.normalize_eq⟩

theorem normalEscapes_append_delimiter {c : Char} (hc : Delimits c) {s t : List Char} :
    NormalEscapes (s ++ c :: t) ↔ NormalEscapes s ∧ NormalEscapes t := by
  constructor
  · intro h
    obtain ⟨hs, -⟩ := (wellFormed_append_delimiter hc).mp h.wellFormed
    have ht : NormalEscapes t := h.of_suffix ((List.suffix_cons c t).trans (List.suffix_append s _))
    have heq := h.normalize_eq
    rw [normalize_append hs, normalize_char hc.1, ht.normalize_eq] at heq
    exact ⟨(normalize_eq_self_iff hs).mp (List.append_cancel_right heq), ht⟩
  · rintro ⟨hs, ht⟩
    have hwf := (wellFormed_append_delimiter hc).mpr ⟨hs.wellFormed, ht.wellFormed⟩
    refine (normalize_eq_self_iff hwf).mp ?_
    rw [normalize_append hs.wellFormed, normalize_char hc.1, hs.normalize_eq, ht.normalize_eq]

theorem normalEscapes_cons_delimiter {c : Char} (hc : Delimits c) {t : List Char} :
    NormalEscapes (c :: t) ↔ NormalEscapes t :=
  (normalEscapes_append_delimiter (s := []) hc).trans (and_iff_right normalEscapes_nil)

theorem wellFormed_normalize {s : List Char} (h : WellFormed s) : WellFormed (normalize s) :=
  (normalEscapes_normalize h).wellFormed

theorem normalize_normalize {s : List Char} (h : WellFormed s) :
    normalize (normalize s) = normalize s :=
  (normalEscapes_normalize h).normalize_eq

end CallArchive.Address
