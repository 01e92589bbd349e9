import CallArchive.Address.Basic
import CallArchive.Proofs.Address.DotSegments
import CallArchive.Proofs.Except
import Mathlib.Data.List.TakeWhile

/-!
# The parts of an address

`assemble` puts a scheme, an authority and a path together. Of parts that are `WellShaped` the
reader finds each again (`parse_assemble`), and what it accepts is put together from such parts
(`Parsed.of_ok`).
-/

namespace CallArchive.Address

open Text

/-! ## Putting parts together -/

def schemeText : Option (List Char) → List Char
  | none => []
  | some n => n ++ [':']

def authorityText : Option (List Char) → List Char
  | none => []
  | some x => '/' :: '/' :: x

def assemble (scheme authority : Option (List Char)) (path : List Char) : List Char :=
  schemeText scheme ++ (authorityText authority ++ path)

/-- Two slashes in front of a path without an authority would be read as those of an authority. -/
structure WellShaped (scheme authority : Option (List Char)) (path : List Char) : Prop where
  named : ∀ n ∈ scheme, toLower n = schemeName.toList
  closed : ∀ x ∈ authority, '/' ∉ x
  rooted : isPath path = true
  bare : authority = none → ¬ ['/', '/'] <+: path

variable {scheme authority : Option (List Char)} {path rest s : List Char}

theorem isPath_iff : isPath path = true ↔ path = [] ∨ ∃ body, path = '/' :: body := by
  cases path with
  | nil => simp [isPath]
  | cons c body => simp [isPath]

theorem canonicalForm_eq (a : Address) :
    a.canonicalForm = assemble (a.scheme.map toLower) (a.authority.map normalize)
      (removeDotSegments (normalize a.path)) := by
  obtain ⟨raw, scheme, authority, forge, product, version, path, ns, entity⟩ := a
  cases scheme <;> cases authority <;> simp [canonicalForm, assemble, schemeText, authorityText]

/-! ## Schemes -/

theorem isAlpha_of_isAlpha_toLower {c : Char} (h : c.toLower.isAlpha = true) : c.isAlpha = true := by
  unfold Char.toLower at h
  split at h
  · next hu =>
    have hupper : c.isUpper = true := decide_eq_true hu
    exact Bool.or_eq_true_iff.mpr (.inl hupper)
  · exact h

theorem isSchemeShaped_of_toLower {n : List Char} (h : toLower n = schemeName.toList) :
    isSchemeShaped n = true := by
  have hall : ∀ c ∈ n, c.isAlpha = true := fun c hc => by
    have hmem : c.toLower ∈ schemeName.toList := h ▸ List.mem_map_of_mem hc
    have hname : ∀ d ∈ schemeName.toList, d.isAlpha = true := by simp [schemeName]
    exact isAlpha_of_isAlpha_toLower (hname _ hmem)
  cases n with
  | nil => exact absurd h (by decide)
  | cons c n =>
    obtain ⟨hc, hn⟩ := List.forall_mem_cons.mp hall
    simp only [isSchemeShaped, hc, Bool.true_and, List.all_eq_true]
    intro d hd
    simp [isSchemeChar, Char.isAlphanum, hn d hd]

theorem not_mem_of_isSchemeShaped {n : List Char} (h : isSchemeShaped n = true) {c : Char}
    (hc : isSchemeChar c = false) : c ∉ n := by
  cases n with
  | nil => exact List.not_mem_nil
  | cons d n =>
    simp only [isSchemeShaped, Bool.and_eq_true, List.all_eq_true] at h
    have hd : isSchemeChar d = true := by simp [isSchemeChar, Char.isAlphanum, h.1]
    have hall : ∀ e ∈ d :: n, isSchemeChar e = true := List.forall_mem_cons.mpr ⟨hd, h.2⟩
    exact fun hmem => Bool.false_ne_true (hc.symm.trans (hall c hmem))

theorem splitScheme_some {n : List Char} (h : isSchemeShaped n = true) (rest : List Char) :
    splitScheme (n ++ ':' :: rest) = (some n, rest) := by
  rw [splitScheme, cutAt_append (not_mem_of_isSchemeShaped h (by decide))]
  exact if_pos h

theorem splitScheme_slash (s : List Char) : splitScheme ('/' :: s) = (none, '/' :: s) := by
  rw [splitScheme, cutAt, if_neg (by decide)]
  cases cutAt ':' s with
  | none => rfl
  | some p => rfl

theorem splitScheme_text (s : List Char) :
    schemeText (splitScheme s).1 ++ (splitScheme s).2 = s := by
  unfold splitScheme
  split
  · next hcut =>
    split
    · rw [(cutAt_eq_some_iff.mp hcut).1]
      simp [schemeText]
    · rfl
  · rfl

/-! ## Authorities -/

theorem splitAuthority_some {x : List Char} (hx : '/' ∉ x) (hpath : isPath path = true) :
    splitAuthority ('/' :: '/' :: (x ++ path)) = (some x, path) := by
  have hall := forall_bne_of_not_mem hx
  rcases isPath_iff.mp hpath with rfl | ⟨body, rfl⟩
  · rw [splitAuthority, List.append_nil, List.takeWhile_eq_self_iff.mpr hall,
      List.dropWhile_eq_nil_iff.mpr hall]
  · rw [splitAuthority, List.takeWhile_append_of_pos hall, List.dropWhile_append_of_pos hall]
    simp

theorem splitAuthority_none (h : ¬ ['/', '/'] <+: path) : splitAuthority path = (none, path) := by
  unfold splitAuthority
  split
  · exact absurd (List.prefix_append ['/', '/'] _) h
  · rfl

theorem splitAuthority_text (s : List Char) :
    authorityText (splitAuthority s).1 ++ (splitAuthority s).2 = s := by
  unfold splitAuthority
  split
  · simp [authorityText, List.takeWhile_append_dropWhile]
  · rfl

theorem splitAuthority_shape (s : List Char) :
    (∀ x ∈ (splitAuthority s).1, '/' ∉ x) ∧
      ((splitAuthority s).1 = none → ¬ ['/', '/'] <+: (splitAuthority s).2) := by
  unfold splitAuthority
  split
  · next after =>
    have hx : '/' ∉ after.takeWhile (· != '/') := fun hmem =>
      absurd (List.mem_takeWhile_imp hmem) (by decide)
    exact ⟨fun x h => Option.some.inj h ▸ hx, fun h => nomatch h⟩
  · next hs =>
    refine ⟨by simp, fun _ hprefix => ?_⟩
    obtain ⟨after, heq⟩ := hprefix
    exact hs after heq.symm

/-! ## Reading -/

def coordinatesOf : Option (List Char) → Except AddressError Coordinates
  | some x => splitCoordinates x
  | none => .ok ⟨none, none, none⟩

/-- The address with these parts. -/
def withParts (scheme authority : Option (List Char)) (path : List Char) (c : Coordinates) :
    Address :=
  { raw := assemble scheme authority path, scheme, authority, forge := c.forge,
    product := c.product, version := c.version, path, «namespace» := (splitPath path).1,
    entity := (splitPath path).2 }

/-- What is left to do for a text with good escapes that has been split. -/
theorem parse_of_split (h : WellFormed s) (hs : splitScheme s = (scheme, rest))
    (hr : splitAuthority rest = (authority, path))
    (hscheme : ∀ n ∈ scheme, toLower n = schemeName.toList) (hpath : isPath path = true) :
    parse s = (coordinatesOf authority).map fun c =>
      { withParts scheme authority path c with raw := s } := by
  rw [parse, (firstBadEscape_eq_none_iff s).mpr h, hs]
  have hread : (do
        let c ← match authority with
          | some x => splitCoordinates x
          | none => pure ⟨none, none, none⟩
        pure { withParts scheme authority path c with raw := s }) =
      (coordinatesOf authority).map fun c => { withParts scheme authority path c with raw := s } := by
    cases authority with
    | none => rfl
    | some x => simp only [coordinatesOf]; cases splitCoordinates x <;> rfl
  cases scheme with
  | none =>
    simp only [hr, hpath]
    exact hread
  | some n =>
    simp only [hr, hpath, hscheme n rfl]
    exact hread

theorem splitScheme_assemble (hscheme : ∀ n ∈ scheme, toLower n = schemeName.toList)
    (hpath : isPath path = true) :
    splitScheme (assemble scheme authority path) = (scheme, authorityText authority ++ path) := by
  cases scheme with
  | some n =>
    rw [assemble, schemeText, List.append_assoc]
    exact splitScheme_some (isSchemeShaped_of_toLower (hscheme n rfl)) _
  | none =>
    cases authority with
    | some x => exact splitScheme_slash _
    | none =>
      rcases isPath_iff.mp hpath with rfl | ⟨body, rfl⟩
      · rfl
      · exact splitScheme_slash _

theorem splitAuthority_assemble (h : WellShaped scheme authority path) :
    splitAuthority (authorityText authority ++ path) = (authority, path) := by
  cases authority with
  | some x => exact splitAuthority_some (h.closed x rfl) h.rooted
  | none => exact splitAuthority_none (h.bare rfl)

/-- Of a text that is put together from parts the reader finds the parts. -/
theorem parse_assemble (h : WellShaped scheme authority path)
    (hwf : WellFormed (assemble scheme authority path)) :
    parse (assemble scheme authority path) =
      (coordinatesOf authority).map (withParts scheme authority path) :=
  parse_of_split hwf (splitScheme_assemble h.named h.rooted) (splitAuthority_assemble h) h.named
    h.rooted

theorem parse_badEscape {offset : Nat} (h : firstBadEscape s = some offset) :
    parse s = .error (.invalidEscape offset) := by
  rw [parse, h]
  rfl

theorem parse_unknownScheme (h : WellFormed s) {n : List Char} (hs : splitScheme s = (some n, rest))
    (hn : toLower n ≠ schemeName.toList) : parse s = .error (.unsupportedScheme n) := by
  rw [parse, (firstBadEscape_eq_none_iff s).mpr h, hs]
  exact if_pos hn

theorem parse_relativePath (h : WellFormed s) (hs : splitScheme s = (scheme, rest))
    (hr : splitAuthority rest = (authority, path))
    (hscheme : ∀ n ∈ scheme, toLower n = schemeName.toList) (hpath : isPath path = false) :
    parse s = .error (.relativePath path) := by
  rw [parse, (firstBadEscape_eq_none_iff s).mpr h, hs]
  cases scheme with
  | none =>
    simp only [hr, hpath]
    rfl
  | some n =>
    simp only [hr, hpath, hscheme n rfl]
    rfl

/-- What the reader accepts is put together from parts of the right shape. -/
structure Parsed (s : List Char) (a : Address) : Prop where
  shaped : WellShaped a.scheme a.authority a.path
  text : s = assemble a.scheme a.authority a.path
  wellFormed : WellFormed s
  coordinates : coordinatesOf a.authority = .ok ⟨a.forge, a.product, a.version⟩
  parts : splitPath a.path = (a.namespace, a.entity)
  raw : a.raw = s

theorem Parsed.of_ok {a : Address} (h : parse s = .ok a) : Parsed s a := by
  have hwf : WellFormed s := by
    refine (firstBadEscape_eq_none_iff s).mp (Option.eq_none_iff_forall_ne_some.mpr ?_)
    intro offset hbad
    cases (parse_badEscape hbad).symm.trans h
  rcases hs : splitScheme s with ⟨scheme, rest⟩
  rcases hr : splitAuthority rest with ⟨authority, path⟩
  have hscheme : ∀ n ∈ scheme, toLower n = schemeName.toList := by
    rintro n ⟨⟩
    by_contra hn
    cases (parse_unknownScheme hwf hs hn).symm.trans h
  have hpath : isPath path = true := by
    by_contra hpath
    cases (parse_relativePath hwf hs hr hscheme (Bool.eq_false_iff.mpr hpath)).symm.trans h
  rw [parse_of_split hwf hs hr hscheme hpath] at h
  have hsText := splitScheme_text s
  have hrText := splitAuthority_text rest
  obtain ⟨hclosed, hbare⟩ := splitAuthority_shape rest
  rw [hs] at hsText
  rw [hr] at hrText hclosed hbare
  cases hc : coordinatesOf authority with
  | error e =>
    rw [hc] at h
    cases h
  | ok c =>
    rw [hc] at h
    obtain rfl := Except.ok.inj h
    exact {
      shaped := ⟨hscheme, hclosed, hpath, hbare⟩
      text := (hsText.symm.trans (congrArg (schemeText scheme ++ ·) hrText.symm))
      wellFormed := hwf
      coordinates := hc
      parts := rfl
      raw := rfl }

/-- The reader accepts nothing else, and reads nothing else from it. -/
theorem parse_ok_iff {a : Address} : parse s = .ok a ↔ Parsed s a := by
  refine ⟨Parsed.of_ok, fun h => ?_⟩
  rw [h.text, parse_assemble h.shaped (h.text ▸ h.wellFormed), h.coordinates]
  have hraw := h.raw.trans h.text
  have hparts := h.parts
  obtain ⟨raw, scheme, authority, forge, product, version, path, ns, entity⟩ := a
  simp only at hraw hparts
  simp only [Except.map, withParts, hraw, hparts]

end CallArchive.Address
