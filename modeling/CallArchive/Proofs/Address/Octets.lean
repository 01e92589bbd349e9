import CallArchive.Proofs.Address.Canonical

/-!
# Escapes in bytes

A text is stored as the bytes of its characters (`octets`), and escapes may be brought into normal
form there, without a look at the characters: `Octets.loop` goes through the bytes, copies them, and
takes three at a time where an escape starts. It computes with bytes, so it fails where a result is
no byte (`Octets.add?`, `Octets.mul?`, `Octets.sub?`), and it may be asked for the value of a byte
that is no digit. Neither happens on well-formed texts, and what it writes are the bytes of the
normal form (`Octets.loop_octets`). The authority and the path of an address are such texts
(`normalize_octets`).
-/

namespace CallArchive.Address

/-- The bytes of the characters, one after the other. -/
def octets (s : List Char) : List UInt8 := s.flatMap String.utf8EncodeChar

namespace Octets

/-! ## The loop -/

/-- The byte of a percent sign. -/
def percent : UInt8 := '%'.toUInt8

def add? (a b : UInt8) : Option UInt8 := if a.toNat + b.toNat < 256 then some (a + b) else none

def mul? (a b : UInt8) : Option UInt8 := if a.toNat * b.toNat < 256 then some (a * b) else none

def sub? (a b : UInt8) : Option UInt8 := if b ≤ a then some (a - b) else none

/-- The value of a hexadecimal digit. A byte that is no digit counts as one in upper case. -/
def digitValue? (b : UInt8) : Option UInt8 :=
  if '0'.toUInt8 ≤ b ∧ b ≤ '9'.toUInt8 then sub? b '0'.toUInt8
  else if 'a'.toUInt8 ≤ b ∧ b ≤ 'f'.toUInt8 then do add? (← sub? b 'a'.toUInt8) 10
  else do add? (← sub? b 'A'.toUInt8) 10

def toUpper (b : UInt8) : UInt8 := if 'a'.toUInt8 ≤ b ∧ b ≤ 'z'.toUInt8 then b - 32 else b

/-- An escape in its normal form, by the values that `value` gives to its digits. -/
def escape? (value : UInt8 → Option UInt8) (a b : UInt8) : Option (List UInt8) := do
  let high ← value a
  let low ← value b
  let decoded ← add? (← mul? high 16) low
  return if isUnreserved (.ofNat decoded.toNat) then [decoded] else [percent, toUpper a, toUpper b]

/-- Writes the normal form of what is left after `output`. -/
def loop (value : UInt8 → Option UInt8) (output : List UInt8) : List UInt8 → Option (List UInt8)
  | [] => some output
  | c :: a :: b :: rest =>
    if c = percent then do loop value (output ++ (← escape? value a b)) rest
    else loop value (output ++ [c]) (a :: b :: rest)
  | c :: rest => loop value (output ++ [c]) rest

/-- Tells the values of hexadecimal digits, whatever it says of other bytes. -/
def ReadsDigits (value : UInt8 → Option UInt8) : Prop :=
  ∀ c, isHexDigit c = true → value c.toUInt8 = digitValue? c.toUInt8

/-! ## Bytes of characters -/

theorem octets_cons (c : Char) (s : List Char) :
    octets (c :: s) = String.utf8EncodeChar c ++ octets s := List.flatMap_cons

theorem octets_append (s t : List Char) : octets (s ++ t) = octets s ++ octets t :=
  List.flatMap_append

theorem utf8EncodeChar_of_lt {c : Char} (h : c.toNat < 128) :
    String.utf8EncodeChar c = [c.toUInt8] := by
  refine String.utf8EncodeChar_eq_singleton (Char.utf8Size_eq_one_iff.mpr ?_)
  exact UInt32.le_iff_toNat_le.mpr (Nat.le_of_lt_succ h)

theorem octets_of_lt {s : List Char} (h : ∀ c ∈ s, c.toNat < 128) :
    octets s = s.map Char.toUInt8 := by
  induction s with
  | nil => rfl
  | cons c s ih =>
    obtain ⟨hc, hs⟩ := List.forall_mem_cons.mp h
    rw [octets_cons, utf8EncodeChar_of_lt hc, ih hs]
    rfl

/-- Characters of more than one byte have none that is a character of its own. -/
theorem le_of_mem_utf8EncodeChar {c : Char} (h : 128 ≤ c.toNat) :
    ∀ b ∈ String.utf8EncodeChar c, 128 ≤ b.toNat := by
  have hbyte : ∀ n : Nat, 128 ≤ n % 256 → 128 ≤ (UInt8.ofNat n).toNat := fun n hn => by
    rw [UInt8.toNat_ofNat']
    exact hn
  change 128 ≤ c.val.toNat at h
  unfold String.utf8EncodeChar
  simp only
  rw [if_neg (by omega)]
  split
  · simp only [List.forall_mem_cons, List.not_mem_nil, false_imp_iff, implies_true, and_true]
    exact ⟨hbyte _ (by omega), hbyte _ (by omega)⟩
  split
  · simp only [List.forall_mem_cons, List.not_mem_nil, false_imp_iff, implies_true, and_true]
    exact ⟨hbyte _ (by omega), hbyte _ (by omega), hbyte _ (by omega)⟩
  · simp only [List.forall_mem_cons, List.not_mem_nil, false_imp_iff, implies_true, and_true]
    exact ⟨hbyte _ (by omega), hbyte _ (by omega), hbyte _ (by omega), hbyte _ (by omega)⟩

theorem percent_not_mem {c : Char} (h : c ≠ '%') : percent ∉ String.utf8EncodeChar c := by
  rcases Nat.lt_or_ge c.toNat 128 with hlt | hge
  · rw [utf8EncodeChar_of_lt hlt, List.mem_singleton]
    intro heq
    refine h (Char.toNat_inj.mp ?_)
    have hnat := congrArg UInt8.toNat heq
    have hbyte : c.toUInt8.toNat = c.toNat % 256 := rfl
    have hpercent : percent.toNat = '%'.toNat := rfl
    omega
  · intro hmem
    exact absurd (le_of_mem_utf8EncodeChar hge _ hmem) (by decide)

/-- The bytes of a text are valid, and are read back as the text. -/
theorem fromUTF8?_octets (s : List Char) :
    String.fromUTF8? (octets s).toByteArray = some (String.ofList s) :=
  dif_pos (ByteArray.IsValidUTF8.intro s rfl)

/-! ## Digits -/

theorem add?_ofNat {m n : Nat} (h : m + n < 256) :
    add? (.ofNat m) (.ofNat n) = some (.ofNat (m + n)) := by
  have hm : m < 256 := Nat.lt_of_le_of_lt (Nat.le_add_right m n) h
  have hn : n < 256 := Nat.lt_of_le_of_lt (Nat.le_add_left n m) h
  rw [add?, UInt8.toNat_ofNat_of_lt' hm, UInt8.toNat_ofNat_of_lt' hn, if_pos h, UInt8.ofNat_add]

theorem mul?_ofNat {m n : Nat} (hm : m < 256) (hn : n < 256) (h : m * n < 256) :
    mul? (.ofNat m) (.ofNat n) = some (.ofNat (m * n)) := by
  rw [mul?, UInt8.toNat_ofNat_of_lt' hm, UInt8.toNat_ofNat_of_lt' hn, if_pos h, UInt8.ofNat_mul]

theorem readsDigits_digitValue? : ReadsDigits digitValue? := fun _ _ => rfl

theorem digitValue?_of_isHexDigit {c : Char} (h : isHexDigit c = true) :
    digitValue? c.toUInt8 = some (.ofNat (hexValue c)) ∧ hexValue c < 16 :=
  forall_hexDigit
    (p := fun c => digitValue? c.toUInt8 = some (.ofNat (hexValue c)) ∧ hexValue c < 16)
    (by decide) h

theorem toUpper_of_isHexDigit {c : Char} (h : isHexDigit c = true) :
    toUpper c.toUInt8 = c.toUpper.toUInt8 :=
  forall_hexDigit (p := fun c => toUpper c.toUInt8 = c.toUpper.toUInt8) (by decide) h

/-- The character with the number of a byte. -/
theorem toUInt8_ofNat_toNat (b : UInt8) : (Char.ofNat b.toNat).toUInt8 = b := by
  have hvalid : b.toNat.isValidChar := .inl (Nat.lt_trans b.toNat_lt (by decide))
  have hchar : (Char.ofNat b.toNat).toNat = b.toNat := by
    rw [Char.ofNat, dif_pos hvalid]
    rfl
  change UInt8.ofNat (Char.ofNat b.toNat).toNat = b
  rw [hchar, UInt8.ofNat_toNat]

theorem lt_of_isAlphanum {c : Char} (h : c.isAlphanum = true) : c.toNat < 128 := by
  have hle (d : Char) (hd : c.val ≤ d.val) : c.toNat ≤ d.toNat := UInt32.le_iff_toNat_le.mp hd
  rcases Bool.or_eq_true_iff.mp h with h | hdigit
  · rcases Bool.or_eq_true_iff.mp h with hupper | hlower
    · exact Nat.lt_of_le_of_lt (hle 'Z' (of_decide_eq_true hupper).2) (by decide)
    · have hz := of_decide_eq_true (Bool.and_eq_true_iff.mp hlower).2
      exact Nat.lt_of_le_of_lt (hle 'z' hz) (by decide)
  · have h9 := of_decide_eq_true (Bool.and_eq_true_iff.mp hdigit).2
    exact Nat.lt_of_le_of_lt (hle '9' h9) (by decide)

theorem lt_of_isUnreserved {c : Char} (h : isUnreserved c = true) : c.toNat < 128 := by
  simp only [isUnreserved, Bool.or_eq_true, beq_iff_eq] at h
  rcases h with (((h | rfl) | rfl) | rfl) | rfl
  · exact lt_of_isAlphanum h
  all_goals decide

/-- What is computed for an escape are bytes throughout. -/
theorem escape?_octets {value : UInt8 → Option UInt8} (hv : ReadsDigits value) {a b : Char}
    (ha : isHexDigit a = true) (hb : isHexDigit b = true) :
    escape? value a.toUInt8 b.toUInt8 = some (octets (normalEscape a b)) := by
  obtain ⟨hda, hlta⟩ := digitValue?_of_isHexDigit ha
  obtain ⟨hdb, hltb⟩ := digitValue?_of_isHexDigit hb
  -- no number on the way is larger than 15 * 16 + 15
  have hmul : mul? (.ofNat (hexValue a)) 16 = some (.ofNat (16 * hexValue a)) := by
    rw [Nat.mul_comm]
    exact mul?_ofNat (n := 16) (by omega) (by decide) (by omega)
  have hadd : add? (.ofNat (16 * hexValue a)) (.ofNat (hexValue b))
      = some (.ofNat (16 * hexValue a + hexValue b)) := add?_ofNat (by omega)
  have hchar : Char.ofNat (UInt8.ofNat (16 * hexValue a + hexValue b)).toNat = escapedChar a b := by
    rw [UInt8.toNat_ofNat', Nat.mod_eq_of_lt (by omega)]
    rfl
  rw [escape?, hv a ha, hv b hb, hda, hdb]
  simp only [Option.bind_eq_bind, Option.bind_some, hmul, hadd, hchar]
  unfold normalEscape
  split
  · next h =>
    rw [octets_of_lt (List.forall_mem_singleton.mpr (lt_of_isUnreserved h)), ← hchar]
    exact congrArg (some [·]) (toUInt8_ofNat_toNat _).symm
  · have hupper := isHexDigit_lt (isHexDigit_of_isUpperHexDigit (isUpperHexDigit_toUpper ha).1)
    have hupper' := isHexDigit_lt (isHexDigit_of_isUpperHexDigit (isUpperHexDigit_toUpper hb).1)
    rw [toUpper_of_isHexDigit ha, toUpper_of_isHexDigit hb, octets_of_lt (by simp [hupper, hupper'])]
    rfl

/-! ## The loop over a text -/

section

variable {value : UInt8 → Option UInt8}

theorem loop_byte {c : UInt8} (h : c ≠ percent) (output rest : List UInt8) :
    loop value output (c :: rest) = loop value (output ++ [c]) rest := by
  match rest with
  | [] => rfl
  | [_] => rfl
  | _ :: _ :: _ => exact if_neg h

theorem loop_escape (hv : ReadsDigits value) {a b : Char} (ha : isHexDigit a = true)
    (hb : isHexDigit b = true) (output rest : List UInt8) :
    loop value output (percent :: a.toUInt8 :: b.toUInt8 :: rest)
      = loop value (output ++ octets (normalEscape a b)) rest := by
  rw [loop, if_pos rfl, escape?_octets hv ha hb]
  rfl

/-- The bytes of a character that starts no escape are copied one by one. -/
theorem loop_copied {bytes : List UInt8} (h : percent ∉ bytes) (output rest : List UInt8) :
    loop value output (bytes ++ rest) = loop value (output ++ bytes) rest := by
  induction bytes generalizing output with
  | nil => rw [List.nil_append, List.append_nil]
  | cons c bytes ih =>
    obtain ⟨hc, hbytes⟩ := not_or.mp (mt List.mem_cons.mpr h)
    rw [List.cons_append, loop_byte (Ne.symm hc), ih hbytes, List.append_assoc]
    rfl

/-- Between two characters the output holds the bytes of the normal form of what has been read. -/
theorem loop_octets (hv : ReadsDigits value) {s : List Char} (hs : WellFormed s)
    (output : List UInt8) :
    loop value output (octets s) = some (output ++ octets (normalize s)) := by
  induction hs using WellFormed.induction generalizing output with
  | nil => exact congrArg some (List.append_nil output).symm
  | escape a b s ha hb _ ih =>
    have hbytes : octets ('%' :: a :: b :: s) = percent :: a.toUInt8 :: b.toUInt8 :: octets s := by
      rw [octets_cons, octets_cons, octets_cons, utf8EncodeChar_of_lt (by decide),
        utf8EncodeChar_of_lt (isHexDigit_lt ha), utf8EncodeChar_of_lt (isHexDigit_lt hb)]
      rfl
    rw [hbytes, loop_escape hv ha hb, ih, normalize, octets_append, List.append_assoc]
  | char c s hc _ ih =>
    rw [octets_cons, loop_copied (percent_not_mem hc), ih, normalize_char hc, octets_cons,
      List.append_assoc]

end

example : loop digitValue? [] (octets "é%c3%4a".toList) = some (octets "é%C3J".toList) := by decide

example : loop digitValue? [] (octets "%!0".toList) = none := by decide

end Octets

/-! ## Characters of several bytes -/

theorem delimits_of_le {c : Char} (h : 128 ≤ c.toNat) : Delimits c := by
  refine ⟨?_, ?_⟩
  · rintro rfl
    exact absurd h (by decide)
  · refine Bool.eq_false_iff.mpr fun hc => ?_
    exact absurd (Octets.lt_of_isUnreserved hc) (Nat.not_lt.mpr h)

/-- They come through in order, and no escape is decoded to one. -/
theorem filter_normalize {s : List Char} (hs : WellFormed s) :
    (normalize s).filter (128 ≤ ·.toNat) = s.filter (128 ≤ ·.toNat) := by
  induction hs using WellFormed.induction with
  | nil => rfl
  | escape a b s ha hb _ ih =>
    have hplain {c : Char} (hc : isHexDigit c = true) : ¬ 128 ≤ c.toNat :=
      Nat.not_le.mpr (isHexDigit_lt hc)
    have hnone : (normalEscape a b).filter (128 ≤ ·.toNat) = [] := by
      refine List.filter_eq_nil_iff.mpr fun c hc hle => ?_
      exact not_mem_normalEscape ha hb (delimits_of_le (of_decide_eq_true hle)) hc
    rw [normalize, List.filter_append, hnone, ih]
    simp [hplain ha, hplain hb]
  | char c s hc _ ih => rw [normalize_char hc, List.filter_cons, List.filter_cons, ih]

/-! ## Addresses -/

/-- Escapes can be brought into normal form byte by byte. The loop never fails and writes the bytes
of a text. A reader of digits that fails on all other bytes would do for it. -/
structure Normalizable (s : List Char) : Prop where
  escapes : ∀ after, '%' :: after <:+ s →
    ∃ a b rest, after = a :: b :: rest ∧ isHexDigit a = true ∧ isHexDigit b = true
  written : ∃ bytes, Octets.loop Octets.digitValue? [] (octets s) = some bytes ∧
    String.fromUTF8? bytes.toByteArray = some (String.ofList (normalize s)) ∧
      ∀ value, Octets.ReadsDigits value → Octets.loop value [] (octets s) = some bytes
  kept : ∀ before c after, 128 ≤ c.toNat → s = before ++ c :: after →
    normalize s = normalize before ++ c :: normalize after
  same : (normalize s).filter (128 ≤ ·.toNat) = s.filter (128 ≤ ·.toNat)
  again : firstBadEscape (normalize s) = none

theorem WellFormed.normalizable {s : List Char} (h : WellFormed s) : Normalizable s where
  escapes := wellFormed_iff.mp h
  written := ⟨_, Octets.loop_octets Octets.readsDigits_digitValue? h [],
    Octets.fromUTF8?_octets (normalize s), fun _ hv => Octets.loop_octets hv h []⟩
  kept := by
    rintro before c after hc rfl
    have hdelimits := delimits_of_le hc
    have hbefore := ((wellFormed_append_delimiter hdelimits).mp h).1
    rw [normalize_append hbefore, normalize_char hdelimits.1]
  same := filter_normalize h
  again := (firstBadEscape_eq_none_iff _).mpr (wellFormed_normalize h)

/-- No escape goes across the authority or the path of an address, and the escapes in them can be
brought into normal form byte by byte; those of the canonical form are good again. -/
theorem normalize_octets {s : List Char} {a : Address} (h : parse s = .ok a) :
    (∀ x ∈ a.path :: a.authority.toList, Normalizable x) ∧ firstBadEscape a.canonicalForm = none := by
  have hread := Parsed.of_ok h
  obtain ⟨hauthority, hpath⟩ := hread.wellFormed_parts
  refine ⟨List.forall_mem_cons.mpr ⟨hpath.normalizable, fun x hx => ?_⟩, ?_⟩
  · exact (hauthority x (Option.mem_toList.mp hx)).normalizable
  · exact (firstBadEscape_eq_none_iff _).mpr hread.wellFormed_canonicalForm

/-- Characters of two and three bytes stand beside escapes of such bytes, of a delimiter and of
letters. -/
theorem normalize_octets_manyBytes : ∃ a,
    parse "//é%21%70$1/n%2f→/Ç.m%c3%a9()%4a".toList = .ok a ∧ a.authority = some "é%21%70$1".toList ∧
      (∀ x ∈ a.path :: a.authority.toList, Normalizable x) ∧ firstBadEscape a.canonicalForm = none ∧
      Octets.loop Octets.digitValue? [] (octets a.path)
        = some (octets "/n%2F→/Ç.m%C3%A9()J".toList) := by
  obtain ⟨a, ha⟩ : ∃ a, parse "//é%21%70$1/n%2f→/Ç.m%c3%a9()%4a".toList = .ok a := ⟨_, rfl⟩
  have hparts : ((parse "//é%21%70$1/n%2f→/Ç.m%c3%a9()%4a".toList).map fun a =>
      (a.authority, a.path)).toOption =
      some (some "é%21%70$1".toList, "/n%2f→/Ç.m%c3%a9()%4a".toList) := by
    decide +kernel
  rw [ha] at hparts
  obtain ⟨hauthority, hpath⟩ := Prod.mk.inj (Option.some.inj hparts)
  obtain ⟨hsafe, hform⟩ := normalize_octets ha
  refine ⟨a, ha, hauthority, hsafe, hform, ?_⟩
  rw [hpath]
  decide +kernel

end CallArchive.Address
