import CallArchive.Proofs.Json.Reread
import CallArchive.Proofs.Text.Digits

/-!
# Numbers as texts

A `Numeral` is a number as it is written: digits, perhaps a fraction and perhaps a power of ten with
its sign. The scan of numbers accepts proper numerals (`Numeral.Proper.scanned`), and what is read of
one is its parts (`Numeral.Proper.ofChars_chars`).
-/

namespace CallArchive.Json

open Text
open CallArchive.Json.Parser (NumberScan)

structure Numeral where
  negative : Bool
  whole : List Char
  fraction : List Char
  /-- Whether the power is negative, and its digits. -/
  power : Option (Bool × List Char)

namespace Numeral

def signText (negative : Bool) : List Char := if negative then ['-'] else []

def fractionText : List Char → List Char
  | [] => []
  | fraction => '.' :: fraction

theorem fractionText_of_ne_nil {fraction : List Char} (h : fraction ≠ []) :
    fractionText fraction = '.' :: fraction := by
  cases fraction with
  | nil => exact absurd rfl h
  | cons c fraction => rfl

def powerText : Option (Bool × List Char) → List Char
  | none => []
  | some (negative, ds) => 'e' :: (if negative then '-' else '+') :: ds

def chars (n : Numeral) : List Char :=
  signText n.negative ++ (n.whole ++ (fractionText n.fraction ++ powerText n.power))

/-- There are only digits, and no zeros in front of others. -/
structure Proper (n : Numeral) : Prop where
  whole : AllDigits n.whole
  leading : ∃ c s, n.whole = c :: s ∧ (c = '0' → s = [])
  fraction : AllDigits n.fraction
  power : ∀ p ∈ n.power, p.2 ≠ [] ∧ AllDigits p.2

/-! ## Scanning -/

theorem nextAll?_append (scan : NumberScan) (cs ds : List Char) :
    scan.nextAll? (cs ++ ds) = (scan.nextAll? cs).bind fun scan => scan.nextAll? ds :=
  List.foldlM_append

theorem nextAll?_cons (scan : NumberScan) (c : Char) (cs : List Char) :
    scan.nextAll? (c :: cs) = (scan.next? c).bind fun scan => scan.nextAll? cs := by
  rw [NumberScan.nextAll?, List.foldlM_cons]
  rfl

/-- Inside a row of digits the scan stays where it is. -/
theorem nextAll?_digits {scan : NumberScan}
    (hscan : scan = .whole ∨ scan = .fraction ∨ scan = .power) {s : List Char} (hs : AllDigits s) :
    scan.nextAll? s = some scan := by
  induction s with
  | nil => rfl
  | cons c s ih =>
    obtain ⟨hc, hs⟩ := allDigits_cons.mp hs
    have hstay : scan.next? c = some scan := by
      rcases hscan with rfl | rfl | rfl <;> exact if_pos hc
    rw [nextAll?_cons, hstay, Option.bind_some, ih hs]

theorem ne_of_isDigit {c d : Char} (hc : c.isDigit = true) (hd : d.isDigit = false) : c ≠ d := by
  rintro rfl
  rw [hc] at hd
  cases hd

theorem scanned_power {scan : NumberScan} (hscan : scan = .zero ∨ scan = .whole ∨ scan = .fraction)
    {power : Option (Bool × List Char)} (hpower : ∀ p ∈ power, p.2 ≠ [] ∧ AllDigits p.2) :
    ∃ last, scan.nextAll? (powerText power) = some last ∧ last.isComplete = true := by
  cases power with
  | none =>
    refine ⟨scan, rfl, ?_⟩
    rcases hscan with rfl | rfl | rfl <;> rfl
  | some p =>
    obtain ⟨hne, hdigits⟩ := hpower p rfl
    obtain ⟨negative, ds⟩ := p
    obtain ⟨c, ds, rfl⟩ := List.exists_cons_of_ne_nil hne
    obtain ⟨hc, hds⟩ := allDigits_cons.mp hdigits
    have hmark : scan.next? 'e' = some .mark := by rcases hscan with rfl | rfl | rfl <;> rfl
    have hsign : NumberScan.next? (if negative then '-' else '+') .mark = some .powerSign := by
      cases negative <;> rfl
    have hfirst : NumberScan.next? c .powerSign = some .power := if_pos hc
    refine ⟨.power, ?_, rfl⟩
    rw [powerText, nextAll?_cons, hmark, Option.bind_some, nextAll?_cons, hsign, Option.bind_some,
      nextAll?_cons, hfirst, Option.bind_some]
    exact nextAll?_digits (.inr (.inr rfl)) hds

theorem scanned_fraction {scan : NumberScan} (hscan : scan = .zero ∨ scan = .whole)
    {fraction : List Char} (hfraction : AllDigits fraction) :
    ∃ next, scan.nextAll? (fractionText fraction) = some next ∧
      (next = .zero ∨ next = .whole ∨ next = .fraction) := by
  cases fraction with
  | nil => exact ⟨scan, rfl, hscan.imp_right .inl⟩
  | cons c fraction =>
    obtain ⟨hc, hfraction⟩ := allDigits_cons.mp hfraction
    have hpoint : scan.next? '.' = some .point := by rcases hscan with rfl | rfl <;> rfl
    have hfirst : NumberScan.next? c .point = some .fraction := if_pos hc
    refine ⟨.fraction, ?_, .inr (.inr rfl)⟩
    rw [fractionText, nextAll?_cons, hpoint, Option.bind_some, nextAll?_cons, hfirst,
      Option.bind_some]
    · exact nextAll?_digits (.inr (.inl rfl)) hfraction
    · exact List.cons_ne_nil _ _

theorem Proper.scanned {n : Numeral} (h : n.Proper) :
    ∃ c cs, n.chars = c :: cs ∧ ∃ first last, NumberScan.first? c = some first ∧
      first.nextAll? cs = some last ∧ last.isComplete = true := by
  obtain ⟨negative, whole, fraction, power⟩ := n
  obtain ⟨c, s, rfl, hzero⟩ := h.leading
  obtain ⟨hc, hs⟩ := allDigits_cons.mp h.whole
  have hfirst : ∃ first, NumberScan.first? c = some first ∧ NumberScan.next? c .sign = some first ∧
      first.nextAll? s = some first ∧ (first = .zero ∨ first = .whole) := by
    by_cases hc0 : c = '0'
    · obtain rfl := hzero hc0
      subst hc0
      exact ⟨.zero, rfl, rfl, rfl, .inl rfl⟩
    · have hminus := ne_of_isDigit hc (d := '-') rfl
      refine ⟨.whole, ?_, ?_, nextAll?_digits (.inl rfl) hs, .inr rfl⟩
      · rw [NumberScan.first?, if_neg hminus, if_neg hc0, if_pos hc]
      · rw [NumberScan.next?, if_neg hc0, if_pos hc]
  obtain ⟨first, hfirst, hsigned, hwhole, hkind⟩ := hfirst
  obtain ⟨next, hnext, hnextKind⟩ := scanned_fraction hkind h.fraction
  obtain ⟨last, hlast, hcomplete⟩ := scanned_power hnextKind h.power
  have hrest : first.nextAll? (s ++ (fractionText fraction ++ powerText power)) = some last := by
    rw [nextAll?_append, hwhole, Option.bind_some, nextAll?_append, hnext, Option.bind_some, hlast]
  cases negative with
  | false => exact ⟨c, _, rfl, first, last, hfirst, hrest, hcomplete⟩
  | true =>
    refine ⟨'-', _, rfl, .sign, last, rfl, ?_, hcomplete⟩
    exact (nextAll?_cons .sign c _).trans (by rw [hsigned]; exact hrest)

/-! ## Reading the parts -/

def powerValue : Option (Bool × List Char) → Option Int
  | none => none
  | some (negative, ds) => some (if negative then -(ofDigits ds : Int) else ofDigits ds)

theorem takeWhile_digits {s t : List Char} (hs : AllDigits s)
    (ht : ∀ c ∈ t.head?, c.isDigit = false) :
    (s ++ t).takeWhile Char.isDigit = s ∧ (s ++ t).dropWhile Char.isDigit = t := by
  rw [List.takeWhile_append_of_pos hs, List.dropWhile_append_of_pos hs]
  cases t with
  | nil => simp
  | cons c t => simp [ht c rfl]

theorem head?_powerText (power : Option (Bool × List Char)) :
    ∀ c ∈ (powerText power).head?, c.isDigit = false := by
  cases power with
  | none => exact fun c hc => nomatch hc
  | some p =>
    rintro c hc
    obtain rfl := Option.some.inj hc
    rfl

theorem readPower_signed (negative : Bool) (ds : List Char) :
    Number.readPower ((if negative then '-' else '+') :: ds) =
      if negative then -(ofDigits ds : Int) else ofDigits ds := by
  cases negative <;> rfl

/-- The parts of a literal once its sign has been taken off. -/
def unsigned (negative : Bool) (s : List Char) : Number.Literal :=
  let whole := s.takeWhile Char.isDigit
  let s := s.dropWhile Char.isDigit
  let (fraction, s) := match s with
    | '.' :: rest => (rest.takeWhile Char.isDigit, rest.dropWhile Char.isDigit)
    | _ => ([], s)
  { negative, whole, fraction
    power := match s with
      | [] => none
      | _ :: rest => some (Number.readPower rest) }

theorem ofChars_of_ne {c : Char} (hc : c ≠ '-') (s : List Char) :
    Number.Literal.ofChars (c :: s) = unsigned false (c :: s) := by
  unfold Number.Literal.ofChars
  split
  next heq =>
    split at heq
    · next h => exact absurd (List.cons.inj h).1 hc
    · obtain ⟨rfl, rfl⟩ := Prod.mk.inj heq
      rfl

theorem Proper.unsigned_eq {n : Numeral} (h : n.Proper) (negative : Bool) :
    unsigned negative (n.whole ++ (fractionText n.fraction ++ powerText n.power)) =
      ⟨negative, n.whole, n.fraction, powerValue n.power⟩ := by
  obtain ⟨_, whole, fraction, power⟩ := n
  have hrest : ∀ d ∈ (fractionText fraction ++ powerText power).head?, d.isDigit = false := by
    cases fraction with
    | nil => exact head?_powerText power
    | cons d fraction =>
      rintro d hd
      obtain rfl := Option.some.inj hd
      rfl
  obtain ⟨htake, hdrop⟩ := takeWhile_digits h.whole hrest
  simp only [unsigned]
  rw [htake, hdrop]
  cases fraction with
  | nil =>
    rcases power with _ | ⟨negative, ds⟩
    · rfl
    · simp [fractionText, powerText, powerValue, readPower_signed]
  | cons d fraction =>
    obtain ⟨htake, hdrop⟩ := takeWhile_digits h.fraction (head?_powerText power)
    simp only [fractionText, List.cons_append]
    rw [← List.cons_append, htake, hdrop]
    rcases power with _ | ⟨negative, ds⟩
    · rfl
    · simp [powerText, powerValue, readPower_signed]

/-- The parts of a proper numeral are found in its text. -/
theorem Proper.ofChars_chars {n : Numeral} (h : n.Proper) :
    Number.Literal.ofChars n.chars = ⟨n.negative, n.whole, n.fraction, powerValue n.power⟩ := by
  have hunsigned := h.unsigned_eq
  obtain ⟨negative, whole, fraction, power⟩ := n
  obtain ⟨c, s, rfl, -⟩ := h.leading
  have hminus : c ≠ '-' := ne_of_isDigit (allDigits_cons.mp h.whole).1 rfl
  cases negative with
  | false => exact (ofChars_of_ne hminus _).trans (hunsigned false)
  | true => exact hunsigned true

end Numeral

end CallArchive.Json
