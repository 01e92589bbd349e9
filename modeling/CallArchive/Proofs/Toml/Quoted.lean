import CallArchive.Toml.Quoted

/-!
# Quoted texts are read back

The characters between the marks of a quoted text spell it (`Spelled`): most stand for themselves,
marks only in short rows, and in some forms a backslash begins an escape. What spells a text is read
as it, whatever the form; and the form that `quote` picks can spell the text (`takeQuoted_quote`).
-/

namespace CallArchive.Toml

/-! ## What is between the marks -/

/-- How many marks may follow each other between the marks of a form. -/
def Form.maxRow (f : Form) : Nat := if f.isLong then 2 else 0

/-- The characters after a backslash that stand for another one, whatever follows them. -/
structure IsEscape (e : List Char) (c : Char) : Prop where
  continues : ∀ rest, takeContinuation (e ++ rest) = none
  take : ∀ rest, takeEscape (e ++ rest) = some (c, rest)

/-- `Spelled f row s body` says that `body` spells `s` in a form, after a row of marks. -/
inductive Spelled (f : Form) : (row : Nat) → (s body : List Char) → Prop
  | nil {row} : Spelled f row [] []
  | mark {row s body} : row < f.maxRow → Spelled f (row + 1) s body →
      Spelled f row (f.mark :: s) (f.mark :: body)
  | plain {row c s body} : c ≠ f.mark → (f.isEscaped && c == '\\') = false → isPlain c = true →
      Spelled f 0 s body → Spelled f row (c :: s) (c :: body)
  | lineBreak {row s body} : f.isLong = true → Spelled f 0 s body →
      Spelled f row ('\n' :: s) ('\n' :: body)
  | escape {row c e s body} : f.isEscaped = true → IsEscape e c → Spelled f 0 s body →
      Spelled f row (c :: s) ('\\' :: (e ++ body))

namespace Form

theorem mark_ne_backslash (f : Form) : f.mark ≠ '\\' := by cases f <;> decide

theorem mark_ne_break (f : Form) : f.mark ≠ '\n' := by cases f <;> decide

end Form

/-! ## Reading -/

section Reading

variable {f : Form} {row fuel : Nat} {s body rest : List Char}

/-- In a short form no mark stands between the marks. -/
theorem takeShort_spelled (h : Spelled f row s body) (hshort : f.isLong = false)
    (hfuel : body.length < fuel) :
    takeShort f fuel (body ++ f.mark :: rest) = some (s, rest) := by
  induction h generalizing fuel with
  | nil =>
    obtain ⟨fuel, rfl⟩ := Nat.exists_eq_add_of_lt hfuel
    simp [takeShort]
  | mark hrow _ _ => simp [Form.maxRow, hshort] at hrow
  | plain hmark hescape hplain _ ih =>
    obtain ⟨fuel, rfl⟩ := Nat.exists_eq_add_of_lt hfuel
    rw [List.cons_append, takeShort, if_neg hmark, hescape, if_pos hplain,
      ih (by simp at hfuel ⊢; omega)]
    rfl
  | lineBreak hlong _ _ => simp [hshort] at hlong
  | escape hf he _ ih =>
    obtain ⟨fuel, rfl⟩ := Nat.exists_eq_add_of_lt hfuel
    rw [List.cons_append, List.append_assoc, takeShort, if_neg f.mark_ne_backslash.symm, hf]
    simp only [beq_self_eq_true, Bool.and_self, if_true, he.take]
    rw [Option.bind_eq_bind, Option.bind_some, ih (by simp at hfuel ⊢; omega)]
    rfl

theorem takeWhile_eq_nil {c : Char} (hc : c ≠ f.mark) (t : List Char) :
    (c :: t).takeWhile (· == f.mark) = [] :=
  List.takeWhile_cons_of_neg (by simpa using hc)

theorem takeWhile_mark (t : List Char) :
    (f.mark :: t).takeWhile (· == f.mark) = f.mark :: t.takeWhile (· == f.mark) :=
  List.takeWhile_cons_of_pos (beq_self_eq_true f.mark)

/-- A row of marks is short unless it reaches the end. -/
theorem Spelled.row_le (h : Spelled f row s body) (hrow : row ≤ f.maxRow) (t : List Char) :
    (∃ k, k + row ≤ f.maxRow ∧ s = List.replicate k f.mark ∧ body = s) ∨
      ((body ++ t).takeWhile (· == f.mark)).length + row ≤ f.maxRow := by
  induction h with
  | nil => exact .inl ⟨0, by omega, rfl, rfl⟩
  | mark hlt _ ih =>
    rcases ih hlt with ⟨k, hk, rfl, rfl⟩ | hlength
    · exact .inl ⟨k + 1, by omega, rfl, rfl⟩
    · refine .inr ?_
      rw [List.cons_append, takeWhile_mark, List.length_cons]
      omega
  | plain hmark _ _ _ _ =>
    rw [List.cons_append, takeWhile_eq_nil hmark]
    exact .inr (by simpa using hrow)
  | lineBreak _ _ _ =>
    rw [List.cons_append, takeWhile_eq_nil f.mark_ne_break.symm]
    exact .inr (by simpa using hrow)
  | escape _ _ _ _ =>
    rw [List.cons_append, takeWhile_eq_nil f.mark_ne_backslash.symm]
    exact .inr (by simpa using hrow)

theorem takeClosing_replicate {k : Nat} (hk : k ≤ 2) (hrest : rest.head? ≠ some f.mark) :
    takeClosing f.mark (List.replicate (k + 3) f.mark ++ rest)
      = some (List.replicate k f.mark, rest) := by
  have hrow : (List.replicate (k + 3) f.mark ++ rest).takeWhile (· == f.mark)
      = List.replicate (k + 3) f.mark := by
    rw [List.takeWhile_append_of_pos (by simp)]
    cases rest with
    | nil => simp
    | cons c rest =>
      rw [takeWhile_eq_nil (fun hc => hrest (congrArg some hc)), List.append_nil]
  unfold takeClosing
  rw [hrow, List.length_replicate, if_neg (by omega), Nat.min_eq_left (by omega),
    List.drop_left' (by simp)]
  rfl

theorem takeClosing_eq_none {t : List Char} (h : (t.takeWhile (· == f.mark)).length < 3) :
    takeClosing f.mark t = none := if_pos h

/-- In a long form the last three marks of a row at the end close the text. -/
theorem takeLong_spelled (h : Spelled f row s body) (hlong : f.isLong = true)
    (hrest : rest.head? ≠ some f.mark) (hfuel : body.length < fuel) :
    takeLong f fuel (body ++ (List.replicate 3 f.mark ++ rest)) = some (s, rest) := by
  have hmax : f.maxRow = 2 := if_pos hlong
  induction h generalizing fuel with
  | nil =>
    obtain ⟨fuel, rfl⟩ := Nat.exists_eq_add_of_lt hfuel
    have hclose := takeClosing_replicate (f := f) (k := 0) (by omega) hrest
    rw [List.replicate_succ, List.cons_append] at hclose
    rw [List.nil_append, List.replicate_succ, List.cons_append, takeLong, if_pos rfl, hclose]
    rfl
  | @mark row s body hlt hbody ih =>
    obtain ⟨fuel, rfl⟩ := Nat.exists_eq_add_of_lt hfuel
    rw [List.cons_append, takeLong, if_pos rfl]
    rcases hbody.row_le hlt (List.replicate 3 f.mark ++ rest) with ⟨k, hk, rfl, rfl⟩ | hlength
    · have hclose := takeClosing_replicate (f := f) (k := k + 1) (by omega) hrest
      rw [← List.replicate_append_replicate, List.append_assoc, List.replicate_succ,
        List.cons_append] at hclose
      rw [hclose]
    · have hnone : takeClosing f.mark (f.mark :: (body ++ (List.replicate 3 f.mark ++ rest)))
          = none := by
        apply takeClosing_eq_none
        rw [takeWhile_mark, List.length_cons]
        omega
      rw [hnone, ih (by simp at hfuel ⊢; omega)]
      rfl
  | plain hmark hescape hplain _ ih =>
    obtain ⟨fuel, rfl⟩ := Nat.exists_eq_add_of_lt hfuel
    rw [List.cons_append, takeLong, if_neg hmark, hescape, if_neg Bool.false_ne_true,
      if_pos hplain, ih (by simp at hfuel ⊢; omega)]
    rfl
  | lineBreak _ _ ih =>
    obtain ⟨fuel, rfl⟩ := Nat.exists_eq_add_of_lt hfuel
    have hescape : (f.isEscaped && '\n' == '\\') = false := by rw [Bool.and_eq_false_iff]; right; rfl
    rw [List.cons_append, takeLong, if_neg f.mark_ne_break.symm, hescape,
      if_neg Bool.false_ne_true, if_neg (by decide), takeBreak]
    rw [Option.bind_eq_bind, Option.bind_some, ih (by simp at hfuel ⊢; omega)]
    rfl
  | escape hf he _ ih =>
    obtain ⟨fuel, rfl⟩ := Nat.exists_eq_add_of_lt hfuel
    rw [List.cons_append, List.append_assoc, takeLong, if_neg f.mark_ne_backslash.symm, hf]
    simp only [beq_self_eq_true, Bool.and_self, if_true, he.take, he.continues]
    rw [Option.bind_eq_bind, Option.bind_some, ih (by simp at hfuel ⊢; omega)]
    rfl

theorem takeBreak_of_ne {c : Char} (hn : c ≠ '\n') (hr : c ≠ '\r') (t : List Char) :
    takeBreak (c :: t) = none := by
  unfold takeBreak
  split
  · next heq => exact absurd (List.cons.inj heq).1 hn
  · next heq => exact absurd (List.cons.inj heq).1 hr
  · rfl

/-- Only a line break of the text stands for one. -/
theorem Spelled.takeBreak_eq_none (h : Spelled f row s body) (hs : '\n' ∉ s) (t : List Char) :
    takeBreak (body ++ f.mark :: t) = none := by
  have hmark (t : List Char) : takeBreak (f.mark :: t) = none :=
    takeBreak_of_ne f.mark_ne_break (by cases f <;> decide) t
  cases h with
  | nil => exact hmark t
  | mark _ _ => exact hmark _
  | plain _ _ hplain _ =>
    refine takeBreak_of_ne ?_ ?_ _
    · rintro rfl
      revert hplain
      decide
    · rintro rfl
      revert hplain
      decide
  | lineBreak _ _ => exact absurd List.mem_cons_self hs
  | escape _ _ _ => rfl

theorem skipFirstBreak_spelled (h : Spelled f row s body) (hlong : f.isLong = true)
    (t : List Char) :
    skipFirstBreak ((if f.isLong && s.contains '\n' then ['\n'] else []) ++
      (body ++ f.mark :: t)) = body ++ f.mark :: t := by
  by_cases hs : '\n' ∈ s
  · rw [hlong, Bool.true_and, if_pos (List.contains_iff_mem.mpr hs)]
    rfl
  · rw [hlong, Bool.true_and, if_neg (mt List.contains_iff_mem.mp hs), List.nil_append,
      skipFirstBreak, h.takeBreak_eq_none hs]
    rfl

theorem takeQuoted_short (hshort : f.isLong = false) {t : List Char}
    (ht : ∀ u, t ≠ f.mark :: f.mark :: u) :
    takeQuoted (f.mark :: t) = takeShort f (t.length + 1) t := by
  cases f with
  | basic =>
    change takeQuoted ('"' :: t) = _
    unfold takeQuoted
    split
    · next heq => exact absurd (List.cons.inj heq).2 (ht _)
    · next heq => cases heq
    · next heq =>
      cases heq
      rfl
    all_goals simp_all
  | literal =>
    change takeQuoted ('\'' :: t) = _
    unfold takeQuoted
    split
    · next heq => cases heq
    · next heq => exact absurd (List.cons.inj heq).2 (ht _)
    · next heq => cases heq
    · next heq =>
      cases heq
      rfl
    · simp_all
  | longBasic => cases hshort
  | longLiteral => cases hshort

theorem takeQuoted_long (hlong : f.isLong = true) (t : List Char) :
    takeQuoted (List.replicate 3 f.mark ++ t) = takeLongFrom f t := by
  cases f with
  | basic => cases hlong
  | literal => cases hlong
  | longBasic => rfl
  | longLiteral => rfl

/-- What spells a text between the marks of a form is read as it. -/
theorem takeQuoted_spelled (h : Spelled f 0 s body) (hrest : rest.head? ≠ some f.mark) :
    takeQuoted (f.delimiter ++ ((if f.isLong && s.contains '\n' then ['\n'] else []) ++
      (body ++ (f.delimiter ++ rest)))) = some (s, rest) := by
  cases hlong : f.isLong with
  | false =>
    have hdelimiter : f.delimiter = [f.mark] := by simp [Form.delimiter, hlong]
    have hstart : ∀ u, body ++ f.mark :: rest ≠ f.mark :: f.mark :: u := by
      intro u heq
      cases h with
      | nil =>
        obtain ⟨-, heq⟩ := List.cons.inj heq
        exact hrest (by rw [heq]; rfl)
      | mark hlt _ => simp [Form.maxRow, hlong] at hlt
      | plain hmark _ _ _ => exact hmark (List.cons.inj heq).1
      | lineBreak hbreak _ => simp [hlong] at hbreak
      | escape _ _ _ => exact f.mark_ne_backslash (List.cons.inj heq).1.symm
    rw [hdelimiter]
    simp only [Bool.false_and, Bool.false_eq_true, if_false, List.nil_append, List.cons_append]
    rw [takeQuoted_short hlong hstart]
    refine takeShort_spelled h hlong ?_
    simp only [List.length_append, List.length_cons]
    omega
  | true =>
    have hdelimiter : f.delimiter = List.replicate 3 f.mark := by simp [Form.delimiter, hlong]
    have hskip := skipFirstBreak_spelled h hlong (List.replicate 2 f.mark ++ rest)
    rw [← List.cons_append, ← List.replicate_succ, hlong] at hskip
    rw [hdelimiter, takeQuoted_long hlong, takeLongFrom, hskip]
    refine takeLong_spelled h hlong hrest ?_
    simp only [List.length_append]
    omega

end Reading

/-! ## Writing -/

section Writing

theorem isEscape_single {x c : Char} (h : simpleEscape? x = some c) : IsEscape [x] c := by
  have hx : x = 'b' ∨ x = 't' ∨ x = 'n' ∨ x = 'f' ∨ x = 'r' ∨ x = '"' ∨ x = '\\' := by
    unfold simpleEscape? at h
    split at h <;> simp_all
  refine ⟨fun rest => ?_, fun rest => ?_⟩
  · rcases hx with rfl | rfl | rfl | rfl | rfl | rfl | rfl <;> rfl
  · rcases hx with rfl | rfl | rfl | rfl | rfl | rfl | rfl
    all_goals
      obtain rfl := Option.some.inj h
      rfl

theorem isEscape_code {c : Char} (h : needsCode c = true) :
    IsEscape ['u', '0', '0', upperHex (c.toNat / 16), upperHex (c.toNat % 16)] c := by
  have hall : ∀ n < 128, codeChar? ['0', '0', upperHex (n / 16), upperHex (n % 16)]
      = some (Char.ofNat n) := by decide +kernel
  have hlt : c.toNat < 128 := by
    simp only [needsCode, Bool.or_eq_true, Bool.and_eq_true, decide_eq_true_eq, beq_iff_eq] at h
    omega
  have hcode := hall c.toNat hlt
  rw [Char.ofNat_toNat] at hcode
  refine ⟨fun rest => rfl, fun rest => ?_⟩
  change (codeChar? _).map _ = _
  rw [hcode]
  rfl

theorem isPlain_of_needsCode {c : Char} (hcode : needsCode c = false) (hn : c ≠ '\n') :
    isPlain c = true := by
  simp only [needsCode, isPlain, Bool.or_eq_false_iff, Bool.and_eq_false_iff, decide_eq_false_iff_not,
    bne_eq_false_iff_eq, beq_eq_false_iff_ne, Bool.or_eq_true, Bool.and_eq_true, decide_eq_true_eq,
    bne_iff_ne, beq_iff_eq] at hcode ⊢
  obtain ⟨(hlow | htab) | hbreak, hdelete⟩ := hcode
  · exact .inr ⟨by omega, hdelete⟩
  · exact .inl htab
  · exact absurd hbreak hn

/-- How a character is written among escapes. -/
inductive Writes (f : Form) (row : Nat) (c : Char) : List Char → Prop
  | mark : c = f.mark → row < f.maxRow → Writes f row c [c]
  | plain : c ≠ f.mark → c ≠ '\\' → isPlain c = true → Writes f row c [c]
  | lineBreak : c = '\n' → f.isLong = true → Writes f row c [c]
  | escape {e} : IsEscape e c → Writes f row c ('\\' :: e)

theorem writes_escapedChar {f : Form} (hf : f.isEscaped = true) (row : Nat) (c : Char) :
    Writes f row c (escapedChar f.isLong row c) := by
  have hmark : f.mark = '"' := if_pos hf
  have hescape (x : Char) (h : simpleEscape? x = some c) : Writes f row c ['\\', x] :=
    .escape (isEscape_single h)
  unfold escapedChar
  split
  · next hquote =>
    change Writes f row c (if f.maxRow ≤ row then ['\\', '"'] else ['"'])
    split
    · exact hescape '"' (by rw [hquote]; rfl)
    · next hrow =>
      rw [← hquote]
      exact .mark (hquote.trans hmark.symm) (Nat.lt_of_not_le hrow)
  · next hquote =>
    split
    · next hc => exact hescape '\\' (by rw [hc]; rfl)
    · next hbackslash =>
      split
      · next hc => exact hescape 'b' (by rw [hc]; rfl)
      · split
        · next hc => exact hescape 't' (by rw [hc]; rfl)
        · split
          · next hc =>
            cases hlong : f.isLong with
            | true => exact hc ▸ .lineBreak hc hlong
            | false => exact hescape 'n' (by rw [hc]; rfl)
          · next hbreak =>
            split
            · next hc => exact hescape 'f' (by rw [hc]; rfl)
            · split
              · next hc => exact hescape 'r' (by rw [hc]; rfl)
              · split
                · next hcode => exact .escape (isEscape_code hcode)
                · next hcode =>
                  rw [Bool.not_eq_true] at hcode
                  exact .plain (hmark ▸ hquote) hbackslash (isPlain_of_needsCode hcode hbreak)

theorem spelled_escapedChars {f : Form} (hf : f.isEscaped = true) (row : Nat) (s : List Char) :
    Spelled f row s (escapedChars f.isLong row s) := by
  have hmark : f.mark = '"' := if_pos hf
  induction s generalizing row with
  | nil => exact .nil
  | cons c s ih =>
    have hwrites := writes_escapedChar hf row c
    simp only [escapedChars]
    generalize escapedChar f.isLong row c = written at hwrites ⊢
    cases hwrites with
    | mark hc hrow =>
      rw [hc, if_pos (by rw [hmark])]
      exact .mark hrow (ih _)
    | plain hc hbackslash hplain =>
      have hne : [c] ≠ ['"'] := fun heq => hc (hmark ▸ (List.cons.inj heq).1)
      rw [if_neg hne]
      exact .plain hc (by simp [hbackslash]) hplain (ih 0)
    | lineBreak hc hlong =>
      subst hc
      exact .lineBreak hlong (ih 0)
    | escape he =>
      rw [if_neg (fun heq => by cases heq)]
      exact .escape hf he (ih 0)

theorem le_longestRow (mark : Char) (row : Nat) (s : List Char) :
    row ≤ longestRow mark row s := by
  induction s generalizing row with
  | nil => exact Nat.le_refl row
  | cons c s ih =>
    unfold longestRow
    split
    · exact Nat.le_of_succ_le (ih (row + 1))
    · exact Nat.le_max_left ..

theorem spelled_self {f : Form} (hf : f.isEscaped = false) {row : Nat} {s : List Char}
    (hcode : ∀ c ∈ s, needsCode c = false) (hbreak : f.isLong = true ∨ '\n' ∉ s)
    (hrow : longestRow f.mark row s ≤ f.maxRow) : Spelled f row s s := by
  induction s generalizing row with
  | nil => exact .nil
  | cons c s ih =>
    obtain ⟨hc, hcodes⟩ := List.forall_mem_cons.mp hcode
    have hbreaks : f.isLong = true ∨ '\n' ∉ s :=
      hbreak.imp_right fun h hmem => h (List.mem_cons_of_mem _ hmem)
    unfold longestRow at hrow
    split at hrow
    · next hmark =>
      subst hmark
      exact .mark (Nat.le_trans (le_longestRow ..) hrow) (ih hcodes hbreaks hrow)
    · next hmark =>
      have hs := ih hcodes hbreaks (Nat.le_trans (Nat.le_max_right ..) hrow)
      by_cases hn : c = '\n'
      · subst hn
        exact .lineBreak (hbreak.resolve_right fun h => h List.mem_cons_self) hs
      · exact .plain hmark (by simp [hf]) (isPlain_of_needsCode hc hn) hs

end Writing

/-- The form that `quote` picks can hold a text as it stands or with escapes. -/
theorem spelled_chooseForm (s : List Char) :
    Spelled (chooseForm s) 0 s
      (if (chooseForm s).isEscaped then escapedChars (chooseForm s).isLong 0 s else s) := by
  cases hescaped : (chooseForm s).isEscaped with
  | true => exact spelled_escapedChars hescaped 0 s
  | false =>
    have hholds : (chooseForm s).holds s = true := by
      revert hescaped
      unfold chooseForm
      split
      · next f hf => exact fun _ => List.find?_some (p := fun f : Form => f.holds s) hf
      · split <;> exact fun h => by cases h
    simp only [Form.holds, Bool.and_eq_true, Bool.or_eq_true, Bool.not_eq_true', decide_eq_true_eq]
      at hholds
    obtain ⟨⟨⟨hcodes, hbreak⟩, -⟩, hrow⟩ := hholds
    refine spelled_self hescaped ?_ (hbreak.imp_right ?_) hrow
    · exact fun c hc => Bool.not_eq_true _ ▸ List.any_eq_false.mp hcodes c hc
    · exact fun hn hmem => Bool.false_ne_true (hn.symm.trans (List.contains_iff_mem.mpr hmem))

/-- A quoted text is read up to its end. -/
theorem takeQuoted_quote {s rest : List Char} (hrest : ∀ f : Form, rest.head? ≠ some f.mark) :
    takeQuoted (quote s ++ rest) = some (s, rest) := by
  have hread := takeQuoted_spelled (spelled_chooseForm s) (hrest (chooseForm s))
  unfold quote quoteAs
  rw [List.append_assoc, List.append_assoc, List.append_assoc]
  exact hread

end CallArchive.Toml
