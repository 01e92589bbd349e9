import CallArchive.Proofs.Text.Blank
import CallArchive.Proofs.Text.Digits
import CallArchive.Record.LocalId

/-!
# How local ids are spelled

A text spells a local id when between blanks there stand at most one plus sign and decimal digits,
leading zeros allowed, of the value of the id. These are the texts that are read as the id
(`ofText?_eq_some_iff`).
-/

namespace CallArchive.LocalId

/-- The parts of a text that spells `id`. -/
structure Spelling (id : LocalId) where
  left : List Char
  sign : List Char
  digits : List Char
  right : List Char
  left_blank : left.all Text.isBlank = true
  sign_plus : sign = [] ∨ sign = ['+']
  digits_ne_nil : digits ≠ []
  digits_all : Text.AllDigits digits
  ofDigits_eq : Text.ofDigits digits = id.value
  right_blank : right.all Text.isBlank = true

namespace Spelling

variable {id : LocalId}

def core (p : id.Spelling) : List Char := p.sign ++ p.digits

def chars (p : id.Spelling) : List Char := p.left ++ p.core ++ p.right

theorem trim_chars (p : id.Spelling) : Text.trim p.chars = p.core := by
  refine Text.trim_padded p.left_blank p.right_blank (Text.trim_eq_self fun c hc => ?_)
    (List.append_ne_nil_of_right_ne_nil _ p.digits_ne_nil)
  rcases List.mem_append.mp hc with hsign | hdigits
  · rcases p.sign_plus with hnone | hplus
    · rw [hnone] at hsign
      cases hsign
    · rw [hplus] at hsign
      rw [List.mem_singleton.mp hsign]
      decide
  · exact Text.isBlank_of_isDigit (p.digits_all c hdigits)

end Spelling

/-- The text `s` is one of the spellings of `id`. -/
def Spells (id : LocalId) (s : List Char) : Prop := ∃ p : id.Spelling, p.chars = s

theorem ofNat?_eq_some_iff {n : Nat} {id : LocalId} : ofNat? n = some id ↔ n = id.value := by
  constructor
  · intro h
    unfold ofNat? at h
    split at h
    · exact congrArg value (Option.some.inj h)
    · cases h
  · rintro rfl
    exact ofNat?_value id

theorem ofChars?_eq_some_iff {s : List Char} {id : LocalId} :
    ofChars? s = some id ↔ id.Spells s := by
  have hread : ofChars? s = some id ↔ Text.readUnsigned (Text.trim s) = some id.value := by
    simp only [ofChars?, Option.bind_eq_some_iff, ofNat?_eq_some_iff, exists_eq_right]
  rw [hread, Text.readUnsigned_eq_some_iff]
  constructor
  · rintro ⟨sign, ds, hsign, htrim, hds⟩
    obtain ⟨hne, hall, hvalue⟩ := Text.readNat_eq_some_iff.mp hds
    obtain ⟨left, right, heq, hleft, hright⟩ := Text.exists_trim s
    rw [htrim] at heq
    exact ⟨⟨left, sign, ds, right, hleft, hsign, hne, hall, hvalue, hright⟩, heq.symm⟩
  · rintro ⟨p, rfl⟩
    exact ⟨p.sign, p.digits, p.sign_plus, p.trim_chars,
      Text.readNat_eq_some_iff.mpr ⟨p.digits_ne_nil, p.digits_all, p.ofDigits_eq⟩⟩

theorem ofText?_eq_some_iff {s : String} {id : LocalId} :
    ofText? s = some id ↔ id.Spells s.toList := ofChars?_eq_some_iff

/-- A text spells one local id at most. -/
theorem Spells.unique {a b : LocalId} {s : List Char} (ha : a.Spells s) (hb : b.Spells s) : a = b :=
  Option.some.inj ((ofChars?_eq_some_iff.mpr ha).symm.trans (ofChars?_eq_some_iff.mpr hb))

end CallArchive.LocalId
