import CallArchive.Proofs.Address.Canonical

/-!
# How canonical addresses are written

Whether an address is canonical shows in its text: in the letters of the scheme, in each escape of
the authority and of the path, and in the segments of the path (`CanonicalText`). No two changes of
canonicalisation make up for each other, so the addresses that are written in this way are exactly
those that it leaves alone (`isCanonical_iff_text`).
-/

namespace CallArchive.Address

open Text

/-- An escape with these digits is there because its byte may not stand for itself, and the digits
are in upper case. -/
structure NeededEscape (a b : Char) : Prop where
  first : isUpperHexDigit a = true
  second : isUpperHexDigit b = true
  reserved : isUnreserved (escapedChar a b) = false

def EscapesNeeded (s : List Char) : Prop := ∀ a b, ['%', a, b] <:+: s → NeededEscape a b

structure CanonicalText (a : Address) : Prop where
  scheme : ∀ n ∈ a.scheme, ∀ c ∈ n, c.isLower = true
  authority : ∀ x ∈ a.authority, EscapesNeeded x
  path : EscapesNeeded a.path
  segments : ∀ p ∈ segments '/' a.path, p ≠ ['.'] ∧ p ≠ ['.', '.']

/-- In a well-formed text every percent sign has two digits after it. -/
theorem normalEscapes_iff_needed {s : List Char} (hs : WellFormed s) :
    NormalEscapes s ↔ EscapesNeeded s := by
  constructor
  · rintro h a b ⟨before, after, rfl⟩
    have hsuffix : '%' :: a :: b :: after <:+ before ++ ['%', a, b] ++ after :=
      ⟨before, by simp⟩
    obtain ⟨a', b', rest, heq, ha, hb, hab⟩ := h _ hsuffix
    obtain ⟨rfl, rfl, rfl⟩ := by simpa only [List.cons.injEq] using heq
    exact ⟨ha, hb, hab⟩
  · rintro h after ⟨before, rfl⟩
    obtain ⟨a, b, rest, rfl, -, -⟩ := wellFormed_iff.mp hs after (List.suffix_append _ _)
    have hneeded := h a b ⟨before, rest, by simp⟩
    exact ⟨a, b, rest, rfl, hneeded.first, hneeded.second, hneeded.reserved⟩

theorem toLower_of_isLower {c : Char} (h : c.isLower = true) : c.toLower = c := by
  have hlower : 'a'.val ≤ c.val := of_decide_eq_true (Bool.and_eq_true_iff.mp h).1
  have hnot : ¬ (c.val ≥ 'A'.val ∧ c.val ≤ 'Z'.val) := by
    rw [UInt32.le_iff_toNat_le] at hlower
    rw [ge_iff_le, UInt32.le_iff_toNat_le, UInt32.le_iff_toNat_le]
    have ha : 'a'.val.toNat = 97 := rfl
    have hZ : 'Z'.val.toNat = 90 := rfl
    omega
  exact dif_neg hnot

/-- A scheme has only letters in lower case where it is spelled like its name. -/
theorem eq_schemeName_iff {n : List Char} (h : toLower n = schemeName.toList) :
    n = schemeName.toList ↔ ∀ c ∈ n, c.isLower = true := by
  have hname : schemeName.toList.all Char.isLower = true := by decide +kernel
  constructor
  · rintro rfl
    exact List.all_eq_true.mp hname
  · intro hlower
    calc n = n.map id := (List.map_id n).symm
      _ = toLower n := List.map_congr_left fun c hc => (toLower_of_isLower (hlower c hc)).symm
      _ = schemeName.toList := h

/-- The addresses that are canonical are those that are written so. -/
theorem isCanonical_iff_text {s : List Char} {a : Address} (h : parse s = .ok a) :
    a.isCanonical = true ↔ CanonicalText a := by
  have hread := Parsed.of_ok h
  obtain ⟨hauthority, hpath⟩ := hread.wellFormed_parts
  have hscheme : (∀ n ∈ a.scheme, n = schemeName.toList) ↔
      ∀ n ∈ a.scheme, ∀ c ∈ n, c.isLower = true :=
    forall₂_congr fun n hn => eq_schemeName_iff (hread.shaped.named n hn)
  have hescapes : (∀ x ∈ a.authority, NormalEscapes x) ↔ ∀ x ∈ a.authority, EscapesNeeded x :=
    forall₂_congr fun x hx => normalEscapes_iff_needed (hauthority x hx)
  have hsegments : (∀ p ∈ segments '/' a.path, ¬ IsDotSegment p) ↔
      ∀ p ∈ segments '/' a.path, p ≠ ['.'] ∧ p ≠ ['.', '.'] :=
    forall₂_congr fun _ _ => not_or
  rw [hread.isCanonical_iff_parts, hscheme, hescapes, normalEscapes_iff_needed hpath, hsegments]
  exact ⟨fun ⟨hs, hx, hp, hd⟩ => ⟨hs, hx, hp, hd⟩, fun ⟨hs, hx, hp, hd⟩ => ⟨hs, hx, hp, hd⟩⟩

/-- Escapes that are needed, an empty segment and one of three dots are left alone; an escape of a
letter is not. -/
theorem isCanonical_iff_text_escaped :
    (∃ a, parse "fasten://mvn!p%24$1/n//.../C.m()%2FV".toList = .ok a ∧ CanonicalText a) ∧
      ∃ a, parse "//p/n/C.%6d()".toList = .ok a ∧ a.isCanonical = false := by
  constructor
  · obtain ⟨a, ha⟩ := ok_of_isSome
      (x := parse "fasten://mvn!p%24$1/n//.../C.m()%2FV".toList) (by decide +kernel)
    have hcanonical : ((parse "fasten://mvn!p%24$1/n//.../C.m()%2FV".toList).toOption.any
        isCanonical) = true := by decide +kernel
    rw [ha] at hcanonical
    exact ⟨a, ha, (isCanonical_iff_text ha).mp hcanonical⟩
  · obtain ⟨a, ha⟩ := ok_of_isSome (x := parse "//p/n/C.%6d()".toList) (by decide +kernel)
    have hpath : (parse "//p/n/C.%6d()".toList).toOption.map path = some "/n/C.%6d()".toList := by
      decide +kernel
    rw [ha] at hpath
    refine ⟨a, ha, Bool.eq_false_iff.mpr fun hcanonical => ?_⟩
    have hescape : ['%', '6', 'd'] <:+: a.path := by
      rw [Option.some.inj hpath]
      exact ⟨"/n/C.".toList, "()".toList, rfl⟩
    exact absurd (((isCanonical_iff_text ha).mp hcanonical).path _ _ hescape).reserved (by decide)

end CallArchive.Address
