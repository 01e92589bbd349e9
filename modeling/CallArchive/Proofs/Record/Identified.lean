import CallArchive.Proofs.Json.Ordered
import CallArchive.Record.Decode

/-!
# Records say what they are

The fields that identify a record are looked up before its members are read one after the other. As
an object that was read has each key once, the fields read are those looked up, so none of them is
blank (`CallGraph.identified_of_ofText`).
-/

namespace CallArchive

open Json (Members Value)

namespace Decode

/-! ## Fields of objects -/

section Fields

variable {σ τ : Type} {step : σ → String → Value → Decoded σ} {get : σ → τ} {key : String}
  {m : Members} {st st' : σ}

theorem fields_cons_ok_iff {p : String × Value} :
    fields st step (p :: m) = .ok st' ↔ ∃ st₁, step st p.1 p.2 = .ok st₁ ∧
      fields st₁ step m = .ok st' := by
  rw [fields, List.foldlM_cons, bind_ok_iff]
  rfl

/-- What only the members of one key change is as before if there is no such member. -/
theorem fields_of_not_mem
    (hother : ∀ {st st' k v}, k ≠ key → step st k v = .ok st' → get st' = get st)
    (hm : key ∉ Members.keys m) (h : fields st step m = .ok st') : get st' = get st := by
  induction m generalizing st with
  | nil => exact congrArg get (Except.ok.inj h).symm
  | cons p m ih =>
    obtain ⟨st₁, hstep, hrest⟩ := fields_cons_ok_iff.mp h
    have hp : p.1 ≠ key := fun heq => hm (heq ▸ List.mem_cons_self)
    rw [ih (fun hmem => hm (List.mem_cons_of_mem _ hmem)) hrest, hother hp hstep]

/-- It is what the member with the key says. -/
theorem fields_of_find? (read : Value → τ)
    (hown : ∀ {st st' v}, step st key v = .ok st' → get st' = read v)
    (hother : ∀ {st st' k v}, k ≠ key → step st k v = .ok st' → get st' = get st)
    (hm : m.Sorted) {v : Value} (hfind : m.find? key = some v)
    (h : fields st step m = .ok st') : get st' = read v := by
  induction m generalizing st with
  | nil => cases hfind
  | cons p m ih =>
    obtain ⟨k, w⟩ := p
    obtain ⟨st₁, hstep, hrest⟩ := fields_cons_ok_iff.mp h
    obtain ⟨hlt, hm⟩ := Members.sorted_cons.mp hm
    by_cases hk : k = key
    · subst hk
      rw [Members.find?, if_pos rfl] at hfind
      obtain rfl := Option.some.inj hfind
      have hnone : k ∉ Members.keys m := fun hmem => String.lt_irrefl k (hlt k hmem)
      rw [fields_of_not_mem hother hnone hrest, hown hstep]
    · rw [Members.find?, if_neg hk] at hfind
      exact ih hm hfind hrest

/-- What every member of a kind keeps holds at the end if all members are of the kind. -/
theorem fields_invariant {Q : Value → Prop} {P : σ → Prop}
    (hstep : ∀ {st st' key v}, Q v → P st → step st key v = .ok st' → P st')
    (hm : ∀ p ∈ m, Q p.2) (hst : P st) (h : fields st step m = .ok st') : P st' := by
  induction m generalizing st with
  | nil =>
    obtain rfl := Except.ok.inj h
    exact hst
  | cons p m ih =>
    obtain ⟨hp, hm⟩ := List.forall_mem_cons.mp hm
    obtain ⟨st₁, hone, hrest⟩ := fields_cons_ok_iff.mp h
    exact ih hm (hstep hp hst hone) hrest

end Fields

/-! ## Items of arrays -/

section Items

variable {α : Type} {item : Value → Decoded α} {x default : α} {items left : List Value}

theorem next_ok {taken : Nat} {shape : Shape} (h : next taken shape item items = .ok (x, left)) :
    ∃ v, items = v :: left ∧ item v = .ok x := by
  cases items with
  | nil => cases h
  | cons v rest =>
    obtain ⟨y, hy, heq⟩ := map_ok_iff.mp h
    obtain ⟨rfl, rfl⟩ := Prod.mk.inj heq
    exact ⟨v, rfl, hy⟩

theorem nextOr_ok (h : nextOr default item items = .ok (x, left)) :
    items = [] ∧ x = default ∧ left = [] ∨ ∃ v, items = v :: left ∧ item v = .ok x := by
  cases items with
  | nil =>
    obtain ⟨rfl, rfl⟩ := Prod.mk.inj (Except.ok.inj h)
    exact .inl ⟨rfl, rfl, rfl⟩
  | cons v rest =>
    obtain ⟨y, hy, heq⟩ := map_ok_iff.mp h
    obtain ⟨rfl, rfl⟩ := Prod.mk.inj heq
    exact .inr ⟨v, rfl, hy⟩

end Items

/-! ## The fields that identify a record -/

theorem isPresent_iff {m : Members} {field : String} : isPresent m field = true ↔
    ∃ s, m.find? field = some (.text s) ∧ Text.isBlankText s = false := by
  unfold isPresent
  split
  · next s hs => simp [hs]
  · next hs => exact iff_of_false Bool.false_ne_true fun ⟨s, hfind, _⟩ => hs s hfind

/-- What one member does to what has been read of a record. -/
structure TakesOver (key : String) (v : Value) (r r' : PartialRecord) : Prop where
  product : r'.product = if key = "product" then (text v).toOption else r.product
  forge : r'.forge = if key = "forge" then (text v).toOption else r.forge
  generator : r'.generator = if key = "generator" then (text v).toOption else r.generator
  version : r'.version = if key = "version" then (text v).toOption else r.version
  types : r'.types = if key = "cha" then (map classType v).toOption else r.types
  calls : r'.calls = if key = "graph" then (calls v).toOption else r.calls

theorem recordField_ok {r r' : PartialRecord} {key : String} {v : Value}
    (h : recordField r key v = .ok r') : TakesOver key v r r' := by
  unfold recordField at h
  split_ifs at h with h1 h2 h3 h4 h5 h6 h7 h8
  case neg =>
    obtain rfl := Except.ok.inj h
    exact ⟨(if_neg h1).symm, (if_neg h2).symm, (if_neg h3).symm, (if_neg h4).symm,
      (if_neg h7).symm, (if_neg h8).symm⟩
  all_goals
    subst key
    obtain ⟨x, hx, h⟩ := bind_ok_iff.mp h
    obtain rfl := Except.ok.inj h
    constructor <;> first
      | exact (if_neg (by decide)).symm
      | rw [if_pos rfl, hx]; rfl

theorem required_ok_iff {α : Type} {field : String} {x : Option α} {a : α} :
    required field x = .ok a ↔ x = some a := by
  cases x <;> simp [required]

end Decode

/-- None of the fields that identify the record is blank. -/
structure CallGraph.Identified (g : CallGraph) : Prop where
  product : Text.isBlankText g.product = false
  forge : Text.isBlankText g.forge = false
  generator : Text.isBlankText g.generator = false
  version : Text.isBlankText g.version = false

namespace Decode

theorem identified_of_record {m : Members} {g : CallGraph} (hm : m.Sorted)
    (hpresent : ∀ field ∈ identifying, isPresent m field = true) (h : record m = .ok g) :
    g.Identified := by
  simp only [record, bind_ok_iff] at h
  obtain ⟨r, hr, product, hproduct, forge, hforge, generator, hgenerator, version, hversion,
    _, -, _, -, _, -, h⟩ := h
  obtain rfl := Except.ok.inj h
  have hpart (get : PartialRecord → Option String) (field : String) (hfield : field ∈ identifying)
      (hget : ∀ {r r' k v}, recordField r k v = .ok r' →
        get r' = if k = field then (text v).toOption else get r)
      {s : String} (hs : get r = some s) : Text.isBlankText s = false := by
    obtain ⟨s', hfind, hblank⟩ := isPresent_iff.mp (hpresent field hfield)
    have hread := fields_of_find? (fun v => (text v).toOption)
      (fun hstep => (hget hstep).trans (if_pos rfl))
      (fun hne hstep => (hget hstep).trans (if_neg hne)) hm hfind hr
    obtain rfl := Option.some.inj (hs.symm.trans hread)
    exact hblank
  exact {
    product := hpart (·.product) "product" (by decide) (fun hstep => (recordField_ok hstep).product)
      (required_ok_iff.mp hproduct)
    forge := hpart (·.forge) "forge" (by decide) (fun hstep => (recordField_ok hstep).forge)
      (required_ok_iff.mp hforge)
    generator := hpart (·.generator) "generator" (by decide)
      (fun hstep => (recordField_ok hstep).generator) (required_ok_iff.mp hgenerator)
    version := hpart (·.version) "version" (by decide)
      (fun hstep => (recordField_ok hstep).version) (required_ok_iff.mp hversion) }

theorem ordered_openEnvelope {v : Value} (h : v.Ordered) : (openEnvelope v).Ordered := by
  unfold openEnvelope
  split
  · next m hm => exact h.get? hm
  · exact h

/-- A text that is read as a record holds an object, in an envelope or not, which names the record. -/
theorem exists_record_of_ofText {text : String} {g : CallGraph}
    (h : CallGraph.ofText text = .ok g) : ∃ v m, Json.parse text = .ok v ∧
      openEnvelope v = .object m ∧ (∀ field ∈ identifying, isPresent m field = true) ∧
      record m = .ok g := by
  obtain ⟨v, hv, h⟩ := bind_ok_iff.mp h
  have hparse : Json.parse text = .ok v := by
    cases hp : Json.parse text with
    | error e =>
      rw [hp] at hv
      cases hv
    | ok w =>
      rw [hp] at hv
      exact congrArg Except.ok (Except.ok.inj hv)
  unfold CallGraph.ofValue at h
  split at h
  · next m hm =>
    split at h
    · cases h
    · next hpresent =>
      have hall : ∀ field ∈ identifying, isPresent m field = true := fun field hf => by
        simpa using List.find?_eq_none.mp hpresent field hf
      cases hrecord : record m with
      | error e =>
        rw [hrecord] at h
        cases h
      | ok g' =>
        rw [hrecord] at h
        obtain rfl := Except.ok.inj h
        exact ⟨v, m, hparse, hm, hall, hrecord⟩
  · cases h

theorem ordered_record {text : String} {v : Value} {m : Members} (hparse : Json.parse text = .ok v)
    (hm : openEnvelope v = .object m) : (Value.object m).Ordered :=
  hm ▸ ordered_openEnvelope (Json.ordered_of_parse hparse)

end Decode

theorem CallGraph.identified_of_ofText {text : String} {g : CallGraph}
    (h : CallGraph.ofText text = .ok g) : g.Identified := by
  obtain ⟨v, m, hparse, hm, hpresent, hrecord⟩ := Decode.exists_record_of_ofText h
  exact Decode.identified_of_record (Decode.ordered_record hparse hm).sorted hpresent hrecord

end CallArchive
