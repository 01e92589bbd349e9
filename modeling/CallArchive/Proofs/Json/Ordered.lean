import CallArchive.Proofs.Json.Drift
import CallArchive.Proofs.Json.Reader

/-!
# What is read is in order

In every value that the reader answers the members of all objects are in the order of their keys,
each key once (`ordered_of_parse`), however the text had them.
-/

namespace CallArchive.Json

/-- The keys of all objects in the value ascend. -/
inductive Value.Ordered : Value → Prop where
  | null : Ordered .null
  | bool (b : Bool) : Ordered (.bool b)
  | number (n : Number) : Ordered (.number n)
  | text (s : String) : Ordered (.text s)
  | array {xs : List Value} : (∀ x ∈ xs, Ordered x) → Ordered (.array xs)
  | object {m : Members} : m.Sorted → (∀ p ∈ m, Ordered p.2) → Ordered (.object m)

namespace Value.Ordered

variable {m : Members}

theorem sorted (h : (Value.object m).Ordered) : m.Sorted := by
  cases h with
  | object hm _ => exact hm

theorem member (h : (Value.object m).Ordered) : ∀ p ∈ m, p.2.Ordered := by
  cases h with
  | object _ hm => exact hm

theorem nil : (Value.object []).Ordered := .object Members.sorted_nil nofun

theorem insert (h : (Value.object m).Ordered) (key : String) {v : Value} (hv : v.Ordered) :
    (Value.object (m.insert key v)).Ordered := by
  refine .object (h.sorted.insert key v) fun p hp => ?_
  rcases mem_insert hp with rfl | hp
  · exact hv
  · exact h.member p hp

end Value.Ordered

theorem hereditary_ordered : Hereditary fun _ => Value.Ordered where
  null _ := .null
  bool _ := .bool
  number _ n _ := .number n
  text _ := .text
  array _ := .array
  empty _ := .nil
  insert key hm hv := hm.insert key hv

theorem ordered_of_parse {text : String} {v : Value} (h : parse text = .ok v) : v.Ordered :=
  hereditary_ordered.of_parse h

/-- What an object of such a value has under a key is in order too. -/
theorem Value.Ordered.get? {v w : Value} {key : String} (hv : v.Ordered)
    (h : v.get? key = some w) : w.Ordered := by
  obtain ⟨m, rfl, hmem⟩ := Value.mem_of_get? h
  exact hv.member (key, w) hmem

end CallArchive.Json
