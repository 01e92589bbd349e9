import CallArchive.Proofs.Json.Drift
import CallArchive.Proofs.Record.LocalId
import CallArchive.Record.Builder

/-!
# Rows of entries

`Draft.Entry` is a call on a draft, and `Draft.ofEntries` makes a draft by a row of them. What the
row says is read off the row itself: the last generator and the last time, the dependencies and the
calls in order, and for each namespace the methods of its last type. The draft holds just that
(`Draft.ofEntries_eq`), and in its objects each key has the last value given to it
(`Json.Members.mem_ofList`).
-/

namespace CallArchive

open Json (Members Value)

theorem Json.Members.ofList_append (l new : List (String × Value)) :
    Members.ofList (l ++ new) = Members.merge (Members.ofList l) new := List.foldl_append ..

namespace Draft

/-! ## What is put into a draft -/

inductive Entry where
  | generator (name : String)
  | timestamp (time : Int)
  | dependency (product : String) (ranges : List String)
  | type (ns : String) (methods : List (LocalId × String))
  | call (source target : LocalId)
  | externalCall (source : LocalId) (target : String) (metadata : Value)

namespace Entry

def generator? : Entry → Option String
  | generator name => some name
  | _ => none

def time? : Entry → Option Int
  | timestamp time => some time
  | _ => none

def dependency? : Entry → Option (String × List String)
  | dependency product ranges => some (product, ranges)
  | _ => none

def type? : Entry → Option (String × List (LocalId × String))
  | type ns methods => some (ns, methods)
  | _ => none

def call? : Entry → Option (LocalId × LocalId)
  | call source target => some (source, target)
  | _ => none

/-- Metadata that is not an object counts as empty. -/
def externalCall? : Entry → Option (LocalId × String × Members)
  | externalCall source target metadata => some (source, target, metadata.members?.getD [])
  | _ => none

end Entry

def add (d : Draft) : Entry → Draft
  | .generator name => d.withGenerator name
  | .timestamp time => d.withTimestamp time
  | .dependency product ranges => d.dependency product ranges
  | .type ns methods => d.type ns methods
  | .call source target => d.call source target
  | .externalCall source target metadata => d.externalCall source target metadata

def ofEntries (product version : String) (entries : List Entry) : Draft :=
  entries.foldl add (new product version)

/-! ## What a row of entries says -/

/-- The last value that is given to a key. -/
def lastFor {κ υ : Type} [BEq κ] (key : κ) (pairs : List (κ × υ)) : Option υ :=
  pairs.reverse.lookup key

theorem lastFor_concat {κ υ : Type} [DecidableEq κ] (key : κ) (pairs : List (κ × υ)) (p : κ × υ) :
    lastFor key (pairs ++ [p]) = if p.1 = key then some p.2 else lastFor key pairs := by
  unfold lastFor
  rw [List.reverse_append, List.reverse_singleton, List.singleton_append, List.lookup_cons]
  by_cases h : p.1 = key
  · simp [h]
  · rw [beq_false_of_ne (Ne.symm h), if_neg h]

theorem filterMap_concat {α β : Type} (f : α → Option β) (xs : List α) (x : α) :
    (xs ++ [x]).filterMap f = xs.filterMap f ++ (f x).toList := by
  cases h : f x <;> simp [h]

def generatorOf (entries : List Entry) : String :=
  (entries.filterMap Entry.generator?).getLast?.getD defaultGenerator

/-- The last time; minus one stands for an unknown one. -/
def timeOf (entries : List Entry) : Int := (entries.filterMap Entry.time?).getLast?.getD (-1)

def dependenciesOf (entries : List Entry) : List (String × List String) :=
  entries.filterMap Entry.dependency?

def typesOf (entries : List Entry) : List (String × List (LocalId × String)) :=
  entries.filterMap Entry.type?

/-- The texts of all version ranges in order. -/
def rangeTexts (entries : List Entry) : List String := (dependenciesOf entries).flatMap (·.2)

/-! ## The draft of a row of entries -/

def dependencyValue (d : String × List String) : Value :=
  .array [.object (Members.ofList
    [("product", .text d.1), ("forge", .text defaultForge), ("constraints", .ofTexts d.2)])]

def methodMembers (methods : List (LocalId × String)) : Members :=
  Members.ofList (methods.map fun m => (m.1.text, .text m.2))

def typeValue (ns : String) (methods : List (LocalId × String)) : Value :=
  .object (Members.ofList
    [("methods", .object (methodMembers methods)), ("superClasses", .ofTexts [rootClass]),
      ("superInterfaces", .array []), ("sourceFile", .text (lastSegment ns ++ ".java"))])

def typeMembers (types : List (String × List (LocalId × String))) : Members :=
  Members.ofList (types.map fun t => (t.1, typeValue t.1 t.2))

theorem ofEntries_eq (product version : String) (entries : List Entry) :
    ofEntries product version entries =
      { product, version, forge := defaultForge, generator := generatorOf entries,
        timestamp := (entries.filterMap Entry.time?).getLast?,
        dependencies := (dependenciesOf entries).map dependencyValue,
        types := typeMembers (typesOf entries),
        internalCalls := entries.filterMap Entry.call?,
        externalCalls := entries.filterMap Entry.externalCall? } := by
  induction entries using List.reverseRecOn with
  | nil => rfl
  | append_singleton entries e ih =>
    have hstep : ofEntries product version (entries ++ [e])
        = (ofEntries product version entries).add e := List.foldl_concat ..
    rw [hstep, ih]
    simp only [generatorOf, dependenciesOf, typesOf, filterMap_concat, typeMembers, List.map_append,
      Members.ofList_append]
    cases e
    all_goals
      simp [add, withGenerator, withTimestamp, dependency, type, call, externalCall,
        dependencyValue, typeValue, methodMembers, Members.merge, Entry.generator?, Entry.time?,
        Entry.dependency?, Entry.type?, Entry.call?, Entry.externalCall?]

end Draft

/-! ## Objects made from pairs -/

namespace Json.Members

theorem sorted_ofList (pairs : List (String × Value)) : (ofList pairs).Sorted :=
  sorted_nil.merge pairs

theorem find?_ofList (key : String) (pairs : List (String × Value)) :
    (ofList pairs).find? key = Draft.lastFor key pairs := by
  induction pairs using List.reverseRecOn with
  | nil => rfl
  | append_singleton pairs p ih =>
    rw [ofList_append, Draft.lastFor_concat, ← ih]
    exact find?_insert p.1 key p.2 (ofList pairs)

theorem mem_ofList {key : String} {v : Value} {pairs : List (String × Value)} :
    (key, v) ∈ ofList pairs ↔ Draft.lastFor key pairs = some v := by
  rw [← find?_ofList]
  exact ⟨find?_of_mem (sorted_ofList pairs), mem_of_find?⟩

/-- The members that are texts. -/
def texts (m : Members) : List (String × String) := m.filterMap fun p => p.2.text?.map (p.1, ·)

theorem mem_texts {key s : String} {m : Members} : (key, s) ∈ m.texts ↔ (key, .text s) ∈ m := by
  unfold texts
  rw [List.mem_filterMap]
  constructor
  · rintro ⟨⟨k, v⟩, hmem, heq⟩
    cases v with
    | text s' =>
      obtain ⟨rfl, rfl⟩ := Prod.mk.inj (Option.some.inj heq)
      exact hmem
    | _ => cases heq
  · intro h
    exact ⟨(key, .text s), h, rfl⟩

end Json.Members

namespace LocalId

theorem toList_text (id : LocalId) : id.text.toList = Text.digits id.value := Nat.toList_repr

theorem ofText?_text (id : LocalId) : ofText? id.text = some id := by
  apply ofText?_eq_some_iff.mpr
  refine ⟨⟨[], [], Text.digits id.value, [], rfl, .inl rfl, Nat.toDigits_ne_nil,
    Text.allDigits_digits _, Text.ofDigits_digits _, rfl⟩, ?_⟩
  simp [Spelling.chars, Spelling.core, toList_text]

theorem text_injective {a b : LocalId} (h : a.text = b.text) : a = b := by
  apply Option.some.inj
  rw [← ofText?_text a, h, ofText?_text b]

end LocalId

namespace Draft

theorem lastFor_map {α β : Type} (f : String → α → β) (key : String) (pairs : List (String × α)) :
    lastFor key (pairs.map fun p => (p.1, f p.1 p.2)) = (lastFor key pairs).map (f key) := by
  induction pairs using List.reverseRecOn with
  | nil => rfl
  | append_singleton pairs p ih =>
    rw [List.map_append, List.map_singleton, lastFor_concat, lastFor_concat, ih]
    split
    · next h => rw [← h]; rfl
    · rfl

/-- Local ids do not share a text. -/
theorem mem_methodMembers {key : String} {v : Value} {methods : List (LocalId × String)} :
    (key, v) ∈ methodMembers methods ↔
      ∃ id address, key = id.text ∧ v = .text address ∧ lastFor id methods = some address := by
  unfold methodMembers
  rw [Json.Members.mem_ofList]
  induction methods using List.reverseRecOn with
  | nil => simp [lastFor]
  | append_singleton methods m ih =>
    rw [List.map_append, List.map_singleton, lastFor_concat]
    simp only [lastFor_concat]
    by_cases hkey : m.1.text = key
    · subst hkey
      rw [if_pos rfl]
      constructor
      · intro h
        exact ⟨m.1, m.2, rfl, (Option.some.inj h).symm, if_pos rfl⟩
      · rintro ⟨id, address, htext, rfl, hlast⟩
        obtain rfl := LocalId.text_injective htext
        rw [if_pos rfl] at hlast
        rw [Option.some.inj hlast]
    · rw [if_neg hkey, ih]
      have hne {id : LocalId} (h : key = id.text) : m.1 ≠ id := fun heq => hkey (heq ▸ h.symm)
      constructor
      · rintro ⟨id, address, htext, hv, hlast⟩
        exact ⟨id, address, htext, hv, (if_neg (hne htext)).trans hlast⟩
      · rintro ⟨id, address, htext, hv, hlast⟩
        rw [if_neg (hne htext)] at hlast
        exact ⟨id, address, htext, hv, hlast⟩

end Draft

end CallArchive
