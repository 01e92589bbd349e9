import CallArchive.Config.Text
import CallArchive.Proofs.Toml.Lines

/-!
# Configurations are read back

The sections that `toText` writes are read as tables with the written values in order
(`parse_toChars`), and reading them into the default configuration puts every value back.
-/

namespace CallArchive.Toml

/-! ## Tables -/

namespace Entries

variable {key : String} {before : Entries} {item new : Item}

theorem get?_concat (h : get? key before = none) : get? key (before ++ [(key, item)]) = some item := by
  induction before with
  | nil => exact if_pos rfl
  | cons p before ih =>
    obtain ⟨k, v⟩ := p
    rw [get?] at h
    split at h
    · cases h
    · next hk =>
      rw [List.cons_append, get?, if_neg hk]
      exact ih h

theorem put_concat (h : get? key before = none) :
    put key new (before ++ [(key, item)]) = before ++ [(key, new)] := by
  induction before with
  | nil => exact if_pos rfl
  | cons p before ih =>
    obtain ⟨k, v⟩ := p
    rw [get?] at h
    split at h
    · cases h
    · next hk =>
      rw [List.cons_append, put, if_neg hk, ih h, List.cons_append]

theorem get?_eq_none (h : key ∉ before.map (·.1)) : get? key before = none := by
  induction before with
  | nil => rfl
  | cons p before ih =>
    obtain ⟨k, v⟩ := p
    rw [List.map_cons, List.mem_cons, not_or] at h
    rw [get?, if_neg (Ne.symm h.1), ih h.2]

end Entries

/-- A document whose last table belongs to the header in force. -/
def Document.within (before : Entries) (name : String) (entries : Entries) : Document :=
  ⟨⟨.header, before ++ [(name, .table .header entries)]⟩, [name]⟩

theorem Document.add_header {before : Entries} {name : String} {current : List String}
    (h : Entries.get? name before = none) :
    Document.add ⟨⟨.header, before⟩, current⟩ (.header false [name]) = some (within before name []) := by
  have hopen : Table.openAt false [name] ⟨.header, before⟩
      = some ⟨.header, before ++ [(name, .table .header [])]⟩ := by
    simp [Table.openAt, Table.change, Table.openTable, h]
  rw [Document.add, hopen]
  rfl

theorem Document.add_entry {before entries : Entries} {name key : String} {item : Item}
    (h : Entries.get? name before = none) (hkey : Entries.get? key entries = none) :
    (within before name entries).add (.entry [key] item)
      = some (within before name (entries ++ [(key, item)])) := by
  have hadd : Table.addAt [name] [key] item ⟨.header, before ++ [(name, .table .header entries)]⟩
      = some ⟨.header, before ++ [(name, .table .header (entries ++ [(key, item)]))]⟩ := by
    simp [Table.addAt, Table.change, Table.addEntry, Entries.get?_concat h, Entries.put_concat h,
      hkey, Table.item]
  rw [Document.add, within, hadd]
  rfl

end CallArchive.Toml

namespace CallArchive.Config

open Toml

/-! ## Sections -/

def Written.item : Written → Item
  | .text s => .text s
  | .number n => .integer n

theorem isValueText_written {w : Written} (h : isWritable w = true) :
    IsValueText (writtenChars w) w.item := by
  cases w with
  | text s =>
    have hquote := isValueText_quote s.toList
    rwa [String.ofList_toList] at hquote
  | number n => exact isValueText_digits (of_decide_eq_true h)

/-- Entries as a section may have them. -/
structure AreWritable (entries : List (String × Written)) : Prop where
  keys : (entries.map (·.1)).Nodup
  bare : ∀ e ∈ entries, IsBareKey e.1
  writable : ∀ e ∈ entries, isWritable e.2 = true

def items (entries : List (String × Written)) : Entries := entries.map fun e => (e.1, e.2.item)

section Sections

variable {before read : Entries} {name : String} {entries : List (String × Written)} {fuel : Nat}

/-- A line with an entry puts it behind those that have been read. -/
theorem takeLines_entry {e : String × Written} (hbare : IsBareKey e.1)
    (hwritable : isWritable e.2 = true) (hname : Entries.get? name before = none)
    (hnew : e.1 ∉ read.map (·.1)) (t : List Char) :
    takeLines (fuel + 1) (.within before name read) (entryChars e ++ t)
      = takeLines fuel (.within before name (read ++ [(e.1, e.2.item)])) t := by
  have hline := takeLine_entry hbare (isValueText_written hwritable) t
  have hchars : entryChars e ++ t
      = e.1.toList ++ ([' ', '=', ' '] ++ (writtenChars e.2 ++ '\n' :: t)) := by
    simp [entryChars]
  obtain ⟨c, cs, heq, hc⟩ := hbare.exists_cons
  have hother (x : Char) (hx : isBareKeyChar x = false) : c ≠ x := ne_of_isBareKeyChar hc hx
  rw [hchars]
  rw [heq, List.cons_append] at hline ⊢
  exact takeLines_line (isGap_of_isBareKeyChar hc) (hother '#' rfl)
    ⟨hother '\n' rfl, hother '\r' rfl⟩ hline
    (Document.add_entry hname (Entries.get?_eq_none hnew))

theorem takeLines_entries (h : AreWritable entries) (hname : Entries.get? name before = none)
    (hnew : ∀ e ∈ entries, e.1 ∉ read.map (·.1)) (t : List Char) :
    takeLines (fuel + entries.length) (.within before name read) (entries.flatMap entryChars ++ t)
      = takeLines fuel (.within before name (read ++ items entries)) t := by
  induction entries generalizing read with
  | nil =>
    rw [items, List.map_nil, List.append_nil]
    rfl
  | cons e entries ih =>
    obtain ⟨hfresh, hkeys⟩ := List.nodup_cons.mp h.keys
    obtain ⟨hbare, hbares⟩ := List.forall_mem_cons.mp h.bare
    obtain ⟨hwritable, hwritables⟩ := List.forall_mem_cons.mp h.writable
    obtain ⟨hkey, hnews⟩ := List.forall_mem_cons.mp hnew
    have hafter : ∀ e' ∈ entries, e'.1 ∉ (read ++ [(e.1, e.2.item)]).map (·.1) := by
      intro e' he' hmem
      rw [List.map_append, List.mem_append, List.map_singleton, List.mem_singleton] at hmem
      rcases hmem with hmem | hmem
      · exact hnews e' he' hmem
      · exact hfresh (List.mem_map.mpr ⟨e', he', hmem⟩)
    rw [List.length_cons, ← Nat.add_assoc, List.flatMap_cons, List.append_assoc,
      takeLines_entry hbare hwritable hname hkey, ih ⟨hkeys, hbares, hwritables⟩ hafter,
      List.append_assoc]
    rfl

theorem takeLines_section (h : AreWritable entries) (hbare : IsBareKey name)
    (hname : Entries.get? name before = none) (current : List String) (t : List Char) :
    takeLines (fuel + entries.length + 1) ⟨⟨.header, before⟩, current⟩ (sectionChars name entries ++ t)
      = takeLines fuel (.within before name (items entries)) t := by
  have hline := takeLine_header hbare (entries.flatMap entryChars ++ t)
  have hchars : sectionChars name entries ++ t
      = '[' :: (name.toList ++ ']' :: '\n' :: (entries.flatMap entryChars ++ t)) := by
    simp [sectionChars]
  rw [hchars, takeLines_line (by decide) (by decide) (by decide) hline (Document.add_header hname),
    takeLines_entries h hname (fun e _ => List.not_mem_nil)]
  rfl

theorem length_sectionChars (name : String) (entries : List (String × Written)) :
    entries.length + 2 ≤ (sectionChars name entries).length := by
  have hentries : entries.length ≤ (entries.flatMap entryChars).length := by
    induction entries with
    | nil => exact Nat.zero_le _
    | cons e entries ih =>
      rw [List.flatMap_cons, List.length_append, List.length_cons]
      have hone : 1 ≤ (entryChars e).length := by
        simp only [entryChars, List.length_append, List.length_cons]
        omega
      omega
  simp only [sectionChars, List.length_cons, List.length_append]
  omega

end Sections

/-! ## Configurations -/

section Configurations

variable {c : Config} {s : String}

theorem toText_eq_ok (h : c.toText = .ok s) :
    s = String.ofList c.toChars ∧ ∀ e ∈ c.storeEntries ++ c.ingestEntries, isWritable e.2 = true := by
  unfold toText at h
  split at h
  · next hall => exact ⟨(Except.ok.inj h).symm, List.all_eq_true.mp hall⟩
  · cases h

theorem isBareKey_sections : IsBareKey "store" ∧ IsBareKey "ingest" := by
  decide +kernel

theorem areWritable (hwritable : ∀ e ∈ c.storeEntries ++ c.ingestEntries, isWritable e.2 = true) :
    AreWritable c.storeEntries ∧ AreWritable c.ingestEntries := by
  have hbare : ∀ key ∈ ["path", "busy_timeout_ms", "batch_size", "retry_limit", "retry_backoff_ms",
      "workers"], IsBareKey key := by
    decide +kernel
  constructor
  · refine ⟨?_, fun e he => hbare e.1 ?_, fun e he => hwritable e (List.mem_append_left _ he)⟩
    · simp [storeEntries]
    · simp only [storeEntries, List.mem_cons, List.not_mem_nil, or_false] at he
      rcases he with rfl | rfl <;> simp
  · refine ⟨?_, fun e he => hbare e.1 ?_, fun e he => hwritable e (List.mem_append_right _ he)⟩
    · simp [ingestEntries]
    · simp only [ingestEntries, List.mem_cons, List.not_mem_nil, or_false] at he
      rcases he with rfl | rfl | rfl | rfl <;> simp

theorem parse_toChars (hwritable : ∀ e ∈ c.storeEntries ++ c.ingestEntries, isWritable e.2 = true) :
    Toml.parse c.toChars = .ok [("store", .table .header (items c.storeEntries)),
      ("ingest", .table .header (items c.ingestEntries))] := by
  obtain ⟨hstore, hingest⟩ := areWritable hwritable
  obtain ⟨hstoreKey, hingestKey⟩ := isBareKey_sections
  have hmark : skipByteOrderMark c.toChars = c.toChars := rfl
  have hlength : 11 ≤ c.toChars.length := by
    have hs := length_sectionChars "store" c.storeEntries
    have hi := length_sectionChars "ingest" c.ingestEntries
    simp only [storeEntries, ingestEntries, List.length_cons, List.length_nil] at hs hi
    simp only [toChars, List.length_append, List.length_cons, storeEntries, ingestEntries]
    omega
  obtain ⟨fuel, hfuel⟩ := Nat.exists_eq_add_of_le hlength
  -- Both sections and the empty line between them take nine lines.
  have hlines : c.toChars.length + 1
      = (fuel + 3 + c.ingestEntries.length + 1) + 1 + c.storeEntries.length + 1 := by
    rw [hfuel]
    simp only [storeEntries, ingestEntries, List.length_cons, List.length_nil]
    omega
  have hend : sectionChars "ingest" c.ingestEntries
      = sectionChars "ingest" c.ingestEntries ++ [] := (List.append_nil _).symm
  unfold Toml.parse
  simp only [hmark]
  rw [hlines]
  simp only [toChars, emptyRoot]
  rw [takeLines_section hstore hstoreKey rfl, takeLines_break, hend,
    Document.within, takeLines_section hingest hingestKey rfl, takeLines_nil]
  rfl

/-! ## Reading the values -/

theorem natural_ofNat (n : Nat) : natural (.integer n) = some n := by
  simp [natural]

theorem limit_ofNat {n : Nat} (h : n < 2 ^ 32) : limit (.integer n) = some n := by
  have hbounds : (0 : Int) ≤ n ∧ (n : Int) ≤ maxLimit := by
    unfold maxLimit
    omega
  simp [limit, hbounds]

theorem ofChars_toChars (hwritable : ∀ e ∈ c.storeEntries ++ c.ingestEntries, isWritable e.2 = true)
    (hlimit : c.retryLimit < 2 ^ 32) : ofChars c.toChars = .ok c := by
  have hstore (d : Config) : readSection storeFields d (.table .header (items c.storeEntries))
      = some { d with path := c.path, busyTimeout := c.busyTimeout } := by
    simp [readSection, items, storeEntries, Written.item, readEntry, storeFields, text, natural_ofNat]
  have hingest (d : Config) : readSection ingestFields d (.table .header (items c.ingestEntries))
      = some { d with batchSize := c.batchSize, retryLimit := c.retryLimit,
                      retryBackoff := c.retryBackoff, workers := c.workers } := by
    simp [readSection, items, ingestEntries, Written.item, readEntry, ingestFields, natural_ofNat,
      limit_ofNat hlimit]
  unfold ofChars
  rw [parse_toChars hwritable]
  simp [readEntry, sections, hstore, hingest]

/-- What a configuration was written as is read as it. -/
theorem ofText_toText (hcheck : c.check = .ok ()) (hlimit : c.retryLimit < 2 ^ 32)
    (h : c.toText = .ok s) : ofText s = .ok c := by
  obtain ⟨rfl, hwritable⟩ := toText_eq_ok h
  have hread := ofChars_toChars hwritable hlimit
  unfold ofText
  rw [String.toList_ofList, hread]
  unfold validate
  simp only [bind, Except.bind, hcheck]
  rfl

end Configurations

end CallArchive.Config
