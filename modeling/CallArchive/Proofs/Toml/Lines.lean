import CallArchive.Proofs.Json.Literal
import CallArchive.Proofs.Toml.Quoted
import CallArchive.Toml.Parser

/-!
# Lines are read back

A number, a quoted text and a plain key are read up to their end, so a line that holds a key with
one of these values is read as the entry that it is (`takeLine_entry`), and a line that names a
section as its header (`takeLine_header`). `takeLines` goes through such lines one by one.
-/

namespace CallArchive.Toml

open Text (AllDigits digits)

/-! ## Numbers -/

theorem ne_of_isDigit {c x : Char} (hc : c.isDigit = true) (hx : x.isDigit = false) : c ≠ x := by
  rintro rfl
  exact Bool.false_ne_true (hx.symm.trans hc)

section Digits

variable {ds : List Char} {t : List Char}

theorem takeMoreDigits_line (hds : AllDigits ds) :
    takeMoreDigits Char.isDigit (ds ++ '\n' :: t) = some (ds, '\n' :: t) := by
  induction ds with
  | nil => rfl
  | cons c ds ih =>
    obtain ⟨hc, hds⟩ := Text.allDigits_cons.mp hds
    have hne : c ≠ '_' := ne_of_isDigit hc (by decide)
    rw [List.cons_append, takeMoreDigits.eq_3 _ _ _ (fun _ _ h _ => hne h), if_neg hne, if_pos hc,
      ih hds]
    rfl

theorem takeGrouped_line (hds : AllDigits ds) (hne : ds ≠ []) :
    takeGrouped Char.isDigit (ds ++ '\n' :: t) = some (ds, '\n' :: t) := by
  cases ds with
  | nil => exact absurd rfl hne
  | cons c ds =>
    obtain ⟨hc, hds⟩ := Text.allDigits_cons.mp hds
    rw [List.cons_append, takeGrouped, if_pos hc, takeMoreDigits_line hds]
    rfl

/-- What follows digits at the start of a line of digits is a digit or the end. -/
theorem isDigit_or_break {pre rest : List Char} {x : Char} (hds : AllDigits ds)
    (hpre : AllDigits pre) (h : ds ++ '\n' :: t = pre ++ x :: rest) :
    x.isDigit = true ∨ x = '\n' := by
  induction pre generalizing ds with
  | nil =>
    cases ds with
    | nil => exact .inr (List.cons.inj h).1.symm
    | cons c ds =>
      rw [← (List.cons.inj h).1]
      exact .inl (Text.allDigits_cons.mp hds).1
  | cons p pre ih =>
    obtain ⟨hp, hpre⟩ := Text.allDigits_cons.mp hpre
    cases ds with
    | nil =>
      rw [← (List.cons.inj h).1] at hp
      cases hp
    | cons c ds => exact ih (Text.allDigits_cons.mp hds).2 hpre (List.cons.inj h).2

theorem isDateLike_line (hds : AllDigits ds) : isDateLike (ds ++ '\n' :: t) = false := by
  unfold isDateLike
  split
  · next a b c d rest heq =>
    by_contra hdigits
    simp only [Bool.not_eq_false, Bool.and_eq_true] at hdigits
    obtain ⟨⟨⟨ha, hb⟩, hc⟩, hd⟩ := hdigits
    have hmark := @isDigit_or_break ds t [a, b, c, d] rest '-' hds (by simp [ha, hb, hc, hd]) heq
    revert hmark
    decide
  · rfl

theorem isTimeLike_line (hds : AllDigits ds) : isTimeLike (ds ++ '\n' :: t) = false := by
  unfold isTimeLike
  split
  · next a b rest heq =>
    by_contra hdigits
    simp only [Bool.not_eq_false, Bool.and_eq_true] at hdigits
    have hmark := @isDigit_or_break ds t [a, b] rest ':' hds (by simp [hdigits]) heq
    revert hmark
    decide
  · rfl

end Digits

/-! A number is written without leading zeros. -/

section Number

variable {n : Nat} (t : List Char)

theorem takeWhole_digits : takeWhole (digits n ++ '\n' :: t) = some (digits n, '\n' :: t) := by
  obtain ⟨c, s, heq, hzero⟩ := Json.Numeral.digits_leading n
  by_cases hc : c = '0'
  · obtain rfl := hzero hc
    rw [heq, hc]
    rfl
  · unfold takeWhole
    split
    · next rest hrest =>
      rw [heq] at hrest
      exact absurd (List.cons.inj hrest).1 hc
    · exact takeGrouped_line (Text.allDigits_digits n) (by simp [heq])

theorem takeDecimal_digits (hn : (n : Int) ≤ maxInteger) :
    takeDecimal (digits n ++ '\n' :: t) = some (.integer n, '\n' :: t) := by
  obtain ⟨c, s, heq, -⟩ := Json.Numeral.digits_leading n
  have hc : c.isDigit = true := Text.allDigits_digits n c (heq ▸ List.mem_cons_self)
  have hsign : takeSign (digits n ++ '\n' :: t) = (1, digits n ++ '\n' :: t) := by
    unfold takeSign
    split
    · next hrest =>
      rw [heq] at hrest
      exact absurd (List.cons.inj hrest).1 (ne_of_isDigit hc (by decide))
    · next hrest =>
      rw [heq] at hrest
      exact absurd (List.cons.inj hrest).1 (ne_of_isDigit hc (by decide))
    · rfl
  have hword (word : String) {x : Char} {xs : List Char} (hword : word.toList = x :: xs)
      (hx : x.isDigit = false) : startsWord word (digits n ++ '\n' :: t) = none := by
    unfold startsWord
    rw [hword, heq, List.cons_append, List.isPrefixOf, beq_false_of_ne (ne_of_isDigit hc hx).symm]
    rfl
  have hwhole := @takeWhole_digits n t
  have hbounded : boundedInteger (1 * (Text.ofDigits (digits n) : Int)) = some (.integer n) := by
    rw [one_mul, Text.ofDigits_digits]
    exact if_pos ⟨by unfold minInteger; omega, hn⟩
  have htail : takeFloatTail ('\n' :: t) = none := rfl
  unfold takeDecimal
  simp only [hsign, hword "inf" rfl rfl, hword "nan" rfl rfl, takeWhole_digits, htail, hbounded,
    Option.orElse_none, Option.bind_eq_bind, Option.bind_some, Option.pure_def]

theorem takeScalar_digits (hn : (n : Int) ≤ maxInteger) :
    takeScalar (digits n ++ '\n' :: t) = some (.integer n, '\n' :: t) := by
  have hdecimal := takeDecimal_digits t hn
  obtain ⟨c, s, heq, hzero⟩ := Json.Numeral.digits_leading n
  have hc : c.isDigit = true := Text.allDigits_digits n c (heq ▸ List.mem_cons_self)
  unfold takeScalar
  rw [isDateLike_line (Text.allDigits_digits n), isTimeLike_line (Text.allDigits_digits n),
    if_neg (by decide)]
  rw [heq] at hdecimal ⊢
  split
  · next h =>
    obtain ⟨rfl, h⟩ := List.cons.inj h
    rw [hzero rfl] at h
    cases h
  · next h =>
    obtain ⟨rfl, h⟩ := List.cons.inj h
    rw [hzero rfl] at h
    cases h
  · next h =>
    obtain ⟨rfl, h⟩ := List.cons.inj h
    rw [hzero rfl] at h
    cases h
  · next h =>
    obtain ⟨rfl, -⟩ := List.cons.inj h
    cases hc
  · next h =>
    obtain ⟨rfl, -⟩ := List.cons.inj h
    cases hc
  · exact hdecimal

theorem valueOf_digits (hn : (n : Int) ≤ maxInteger) :
    valueOf (digits n ++ '\n' :: t) = some (.integer n, '\n' :: t) := by
  have hscalar := takeScalar_digits t hn
  obtain ⟨c, s, heq, -⟩ := Json.Numeral.digits_leading n
  have hc : c.isDigit = true := Text.allDigits_digits n c (heq ▸ List.mem_cons_self)
  unfold valueOf
  rw [heq] at hscalar ⊢
  rw [List.cons_append] at hscalar ⊢
  unfold takeValue
  split
  · next h =>
    obtain ⟨rfl, -⟩ := List.cons.inj h
    cases hc
  · next h =>
    obtain ⟨rfl, -⟩ := List.cons.inj h
    cases hc
  · next h =>
    obtain ⟨rfl, -⟩ := List.cons.inj h
    cases hc
  · next h =>
    obtain ⟨rfl, -⟩ := List.cons.inj h
    cases hc
  · next h =>
    obtain ⟨rfl, -⟩ := List.cons.inj h
    cases hc
  · next h =>
    obtain ⟨rfl, -⟩ := List.cons.inj h
    cases hc
  · exact hscalar

end Number

theorem exists_quote (s : List Char) : ∃ f : Form, ∃ u, quote s = f.mark :: u := by
  refine ⟨chooseForm s, ?_⟩
  unfold quote quoteAs Form.delimiter
  cases (chooseForm s).isLong with
  | false => exact ⟨_, rfl⟩
  | true => exact ⟨_, rfl⟩

theorem valueOf_quote (s : List Char) (t : List Char) :
    valueOf (quote s ++ '\n' :: t) = some (.text (String.ofList s), '\n' :: t) := by
  have hread := @takeQuoted_quote s ('\n' :: t) (fun f h => f.mark_ne_break (Option.some.inj h).symm)
  obtain ⟨f, u, heq⟩ := exists_quote s
  unfold valueOf
  rw [heq, List.cons_append] at hread ⊢
  have hmark : f.mark = '"' ∨ f.mark = '\'' := by cases f <;> decide
  rcases hmark with hmark | hmark
  all_goals
    rw [hmark] at hread ⊢
    unfold takeValue
    simp only [hread, Option.map_some]

/-- The characters of a value that ends a line. -/
def IsValueText (v : List Char) (item : Item) : Prop :=
  ∀ t, valueOf (skipGaps (v ++ '\n' :: t)) = some (item, '\n' :: t)

theorem skipGaps_of_not_gap {c : Char} (hc : isGap c = false) (t : List Char) :
    skipGaps (c :: t) = c :: t := List.dropWhile_cons_of_neg (by simp [hc])

theorem isValueText_digits {n : Nat} (hn : (n : Int) ≤ maxInteger) :
    IsValueText (digits n) (.integer n) := by
  intro t
  have hread := valueOf_digits t hn
  obtain ⟨c, s, heq, -⟩ := Json.Numeral.digits_leading n
  have hc : c.isDigit = true := Text.allDigits_digits n c (heq ▸ List.mem_cons_self)
  have hgap : isGap c = false := by
    unfold isGap
    rw [beq_false_of_ne (ne_of_isDigit hc rfl), beq_false_of_ne (ne_of_isDigit hc rfl)]
    rfl
  rw [heq] at hread ⊢
  rw [List.cons_append, skipGaps_of_not_gap hgap]
  exact hread

theorem isValueText_quote (s : List Char) : IsValueText (quote s) (.text (String.ofList s)) := by
  intro t
  have hread := valueOf_quote s t
  obtain ⟨f, u, heq⟩ := exists_quote s
  have hgap : isGap f.mark = false := by cases f <;> decide
  rw [heq] at hread ⊢
  rw [List.cons_append, skipGaps_of_not_gap hgap]
  exact hread

/-! ## Lines -/

/-- Keys that need no quotes. -/
def IsBareKey (key : String) : Prop := key.toList ≠ [] ∧ ∀ c ∈ key.toList, isBareKeyChar c = true

instance : DecidablePred IsBareKey := fun key =>
  decidable_of_iff (key.toList ≠ [] ∧ key.toList.all isBareKeyChar = true)
    (and_congr_right fun _ => List.all_eq_true)

theorem ne_of_isBareKeyChar {c x : Char} (hc : isBareKeyChar c = true)
    (hx : isBareKeyChar x = false) : c ≠ x := by
  rintro rfl
  exact Bool.false_ne_true (hx.symm.trans hc)

theorem isGap_of_isBareKeyChar {c : Char} (hc : isBareKeyChar c = true) : isGap c = false := by
  unfold isGap
  rw [beq_false_of_ne (ne_of_isBareKeyChar hc rfl), beq_false_of_ne (ne_of_isBareKeyChar hc rfl)]
  rfl

section Lines

variable {key : String} {c : Char} {t u v : List Char} {item : Item}

theorem IsBareKey.exists_cons (hkey : IsBareKey key) :
    ∃ c cs, key.toList = c :: cs ∧ isBareKeyChar c = true := by
  obtain ⟨hne, hall⟩ := hkey
  cases hchars : key.toList with
  | nil => exact absurd hchars hne
  | cons c cs => exact ⟨c, cs, rfl, hall c (hchars ▸ List.mem_cons_self)⟩

theorem takeKeyPart_bare (hkey : IsBareKey key) (hc : isBareKeyChar c = false) :
    takeKeyPart (key.toList ++ c :: t) = some (key, c :: t) := by
  obtain ⟨hne, hall⟩ := hkey
  have htake : (key.toList ++ c :: t).takeWhile isBareKeyChar = key.toList := by
    rw [List.takeWhile_append_of_pos hall, List.takeWhile_cons_of_neg (by simp [hc]),
      List.append_nil]
  have hdrop : (key.toList ++ c :: t).dropWhile isBareKeyChar = c :: t := by
    rw [List.dropWhile_append_of_pos hall, List.dropWhile_cons_of_neg (by simp [hc])]
  unfold takeKeyPart
  rw [htake, hdrop, if_neg (by simpa using hne), String.ofList_toList]

theorem skipGaps_bare (hkey : IsBareKey key) (t : List Char) :
    skipGaps (key.toList ++ t) = key.toList ++ t := by
  obtain ⟨c, cs, heq, hc⟩ := hkey.exists_cons
  rw [heq, List.cons_append, skipGaps_of_not_gap (isGap_of_isBareKeyChar hc)]

/-- A plain key is read up to the mark after it. -/
theorem keyOf_bare {d : Char} (hkey : IsBareKey key) (hc : isBareKeyChar c = false)
    (hgap : skipGaps (c :: t) = d :: u) (hd : d ≠ '.') :
    keyOf (key.toList ++ c :: t) = some ([key], d :: u) := by
  unfold keyOf takeKey
  rw [skipGaps_bare hkey, takeKeyPart_bare hkey hc]
  simp only [Option.bind_eq_bind, Option.bind_some, hgap]
  split
  · next h => exact absurd (List.cons.inj h).1 hd
  · rfl

theorem takeLine_entry (hkey : IsBareKey key) (hv : IsValueText v item) (t : List Char) :
    takeLine (key.toList ++ ([' ', '=', ' '] ++ (v ++ '\n' :: t))) = some (.entry [key] item, t) := by
  have hread : keyOf (key.toList ++ ([' ', '=', ' '] ++ (v ++ '\n' :: t)))
      = some ([key], '=' :: ' ' :: (v ++ '\n' :: t)) :=
    keyOf_bare hkey (by decide) rfl (by decide)
  have hvalue := hv t
  obtain ⟨c, cs, heq, hc⟩ := hkey.exists_cons
  have hentry : takeEntry (key.toList ++ ([' ', '=', ' '] ++ (v ++ '\n' :: t)))
      = some (.entry [key] item, t) := by
    have hskip : skipGaps (' ' :: (v ++ '\n' :: t)) = skipGaps (v ++ '\n' :: t) := rfl
    unfold takeEntry
    rw [hread]
    simp only [Option.bind_eq_bind, Option.bind_some, takeMark, if_true, hskip, hvalue]
    rfl
  rw [heq] at hentry ⊢
  unfold takeLine
  split
  · next h =>
    obtain ⟨rfl, -⟩ := List.cons.inj h
    cases hc
  · next h =>
    obtain ⟨rfl, -⟩ := List.cons.inj h
    cases hc
  · exact hentry

theorem takeLine_header (hkey : IsBareKey key) (t : List Char) :
    takeLine ('[' :: (key.toList ++ ']' :: '\n' :: t)) = some (.header false [key], t) := by
  have hread : keyOf (key.toList ++ ']' :: '\n' :: t) = some ([key], ']' :: '\n' :: t) :=
    keyOf_bare hkey (by decide) rfl (by decide)
  have hheader : takeHeader false (key.toList ++ ']' :: '\n' :: t)
      = some (.header false [key], t) := by
    unfold takeHeader
    rw [hread]
    rfl
  obtain ⟨c, cs, heq, hc⟩ := hkey.exists_cons
  rw [heq] at hheader ⊢
  unfold takeLine
  split
  · next h =>
    obtain ⟨rfl, -⟩ := List.cons.inj (List.cons.inj h).2
    cases hc
  · next h =>
    obtain rfl := (List.cons.inj h).2
    exact hheader
  · next hother => exact absurd rfl (hother _)

end Lines

/-! ## Rows of lines -/

theorem takeLines_nil (fuel : Nat) (d : Document) : takeLines fuel d [] = .ok d := by
  cases fuel <;> rfl

theorem takeLines_break (fuel : Nat) (d : Document) (t : List Char) :
    takeLines (fuel + 1) d ('\n' :: t) = takeLines fuel d t := rfl

/-- A line that is neither empty nor a comment is taken and added. -/
theorem takeLines_line {fuel : Nat} {d d' : Document} {c : Char} {s after : List Char} {line : Line}
    (hgap : isGap c = false) (hcomment : c ≠ '#') (hbreak : c ≠ '\n' ∧ c ≠ '\r')
    (hline : takeLine (c :: s) = some (line, after)) (hadd : d.add line = some d') :
    takeLines (fuel + 1) d (c :: s) = takeLines fuel d' after := by
  have hskip : skipComment (c :: s) = c :: s := by
    unfold skipComment
    split
    · next h => exact absurd (List.cons.inj h).1 hcomment
    · rfl
  rw [takeLines, skipGaps_of_not_gap hgap, hskip]
  simp only [takeBreak_of_ne hbreak.1 hbreak.2, hline, hadd]

end CallArchive.Toml
