import CallArchive.Proofs.Json.Drift

/-!
# Merging texts

Objects with ascending keys and `Members.merge` are a monoid in which every object is idempotent.
`mergeTexts` reads both texts, merges and writes, so on texts of objects that read back the laws
hold of the texts it answers (`mergeTexts_lawful`). A number that is not read as it is written
breaks them, which is what `ReadsBack` excludes.
-/

namespace CallArchive.Json

namespace Members

variable {a b m : Members} {key : String}

theorem nil_merge (ha : a.Sorted) : merge [] a = a := by
  refine (sorted_nil.merge a).ext ha fun key => ?_
  rw [find?_merge ha]
  exact Option.or_none

theorem mem_keys_merge (hb : b.Sorted) : key ∈ (merge a b).keys ↔ key ∈ a.keys ∨ key ∈ b.keys := by
  rw [← find?_isSome_iff, find?_merge hb, Option.isSome_or, Bool.or_eq_true, find?_isSome_iff,
    find?_isSome_iff, or_comm]

/-- The object has the keys of both, each once, with the value of `b` where `b` has the key. -/
structure IsUnion (a b m : Members) : Prop where
  sorted : m.Sorted
  keys : ∀ key, key ∈ m.keys ↔ key ∈ a.keys ∨ key ∈ b.keys
  new : ∀ key ∈ b.keys, m.find? key = b.find? key
  old : ∀ key, key ∉ b.keys → m.find? key = a.find? key

theorem isUnion_merge (ha : a.Sorted) (hb : b.Sorted) : IsUnion a b (merge a b) where
  sorted := ha.merge b
  keys _ := mem_keys_merge hb
  new key hkey := by
    obtain ⟨v, hv⟩ := Option.isSome_iff_exists.mp (find?_isSome_iff.mpr hkey)
    rw [find?_merge hb, hv]
    rfl
  old key hkey := by
    rw [find?_merge hb, find?_eq_none_iff.mpr hkey]
    rfl

end Members

/-- The text is read as the object, which reads back. -/
structure Holds (text : Option String) (m : Members) : Prop where
  read : parseOr text = .ok (.object m)
  back : ReadsBack m

variable {s t : Option String} {a b : Members}

theorem ReadsBack.holds (h : ReadsBack a) : Holds (some (Value.object a).print) a :=
  ⟨h.parse_print, h⟩

/-- There is no member that would not read back. -/
theorem readsBack_nil : ReadsBack [] := readsBack_iff.mpr ⟨Members.sorted_nil, nofun⟩

/-- The texts that count as the empty object. -/
theorem holds_empty {text : Option String} (h : text = none ∨ text = some "\x7b\x7d") :
    Holds text [] := by
  rcases h with rfl | rfl
  · exact ⟨rfl, readsBack_nil⟩
  · exact readsBack_nil.holds

theorem Holds.mergeTexts_eq (hs : Holds s a) (ht : Holds t b) :
    mergeTexts s t = .ok (Value.object (Members.merge a b)).print := by
  rw [mergeTexts, hs.read, ht.read]
  rfl

theorem Holds.merge (hs : Holds s a) (ht : Holds t b) :
    Holds (some (Value.object (Members.merge a b)).print) (Members.merge a b) :=
  (hs.back.merge ht.back).holds

/-- On objects that read back the merge of texts is a union in which the second wins. It is
associative, absorbs what it has merged already, and has a missing text and the empty object as
neutral elements. -/
theorem mergeTexts_lawful {a b c : String} {A B C : Members}
    (ha : parse a = .ok (.object A)) (hb : parse b = .ok (.object B))
    (hc : parse c = .ok (.object C)) (hA : ReadsBack A) (hB : ReadsBack B) (hC : ReadsBack C) :
    ∃ ab bc abc : String,
      (mergeTexts (some a) (some b) = .ok ab ∧
        ∃ M, parse ab = .ok (.object M) ∧ Members.IsUnion A B M) ∧
      (mergeTexts (some b) (some c) = .ok bc ∧
        mergeTexts (some ab) (some c) = .ok abc ∧ mergeTexts (some a) (some bc) = .ok abc) ∧
      mergeTexts (some ab) (some b) = .ok ab ∧
      ∀ empty, empty = none ∨ empty = some "\x7b\x7d" →
        mergeTexts empty (some a) = .ok (Value.object A).print ∧
        mergeTexts (some a) empty = .ok (Value.object A).print := by
  have hold : Holds (some a) A := ⟨ha, hA⟩
  have hnew : Holds (some b) B := ⟨hb, hB⟩
  have hlast : Holds (some c) C := ⟨hc, hC⟩
  have hassoc : Members.merge A (Members.merge B C) = Members.merge (Members.merge A B) C :=
    (Members.merge_assoc hA.sorted hB.sorted hC.sorted).symm
  have habsorb : Members.merge (Members.merge A B) B = Members.merge A B := by
    rw [Members.merge_assoc hA.sorted hB.sorted hB.sorted, Members.merge_self hB.sorted]
  refine ⟨_, _, _, ⟨hold.mergeTexts_eq hnew, _, (hA.merge hB).parse_print,
    Members.isUnion_merge hA.sorted hB.sorted⟩, ⟨hnew.mergeTexts_eq hlast,
    (hold.merge hnew).mergeTexts_eq hlast, ?_⟩, ?_, fun empty hempty => ⟨?_, ?_⟩⟩
  · rw [hold.mergeTexts_eq (hnew.merge hlast), hassoc]
  · rw [(hold.merge hnew).mergeTexts_eq hnew, habsorb]
  · rw [(holds_empty hempty).mergeTexts_eq hold, Members.nil_merge hA.sorted]
  · exact hold.mergeTexts_eq (holds_empty hempty)

/-- A text in which a key stands twice. -/
def repeatedKey : String := "\x7b\"x\":1,\"y\":\x7b\"p\":0\x7d,\"x\":[true]\x7d"

/-- A text with blanks and an escaped letter. -/
def escapedLetter : String := " \x7b\"y\" : null,\"w\":\"a\\u0062\"\x7d\n"

theorem mergeTexts_lawful_repeatedKey :
    ∃ bc : String,
      mergeTexts (some repeatedKey) (some escapedLetter)
        = .ok "\x7b\"w\":\"ab\",\"x\":[true],\"y\":null\x7d" ∧
      mergeTexts (some escapedLetter) (some "\x7b\"x\": -25\x7d") = .ok bc ∧
      mergeTexts (some repeatedKey) (some bc)
        = .ok "\x7b\"w\":\"ab\",\"x\":-25,\"y\":null\x7d" ∧
      mergeTexts (some "\x7b\"w\":\"ab\",\"x\":[true],\"y\":null\x7d") (some escapedLetter)
        = .ok "\x7b\"w\":\"ab\",\"x\":[true],\"y\":null\x7d" := by
  obtain ⟨ab, bc, abc, ⟨hab, -⟩, ⟨hbc, hleft, hright⟩, habsorb, -⟩ :=
    mergeTexts_lawful (a := repeatedKey) (b := escapedLetter) (c := "\x7b\"x\": -25\x7d")
      (A := [("x", .array [.bool true]), ("y", .object [("p", .number (.integer 0))])])
      (B := [("w", .text "ab"), ("y", .null)]) (C := [("x", .number (.integer (-25)))])
      rfl rfl rfl rfl rfl rfl
  obtain rfl : "\x7b\"w\":\"ab\",\"x\":[true],\"y\":null\x7d" = ab := Except.ok.inj hab
  obtain rfl : "\x7b\"w\":\"ab\",\"x\":-25,\"y\":null\x7d" = abc := Except.ok.inj hleft
  exact ⟨bc, hab, hbc, hright, habsorb⟩

end CallArchive.Json
