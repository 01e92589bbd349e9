import CallArchive.Proofs.Agreement
import CallArchive.Proofs.Record.LocalId
import CallArchive.Proofs.Validation.Validated
import CallArchive.Record.Decode
import Mathlib.Data.List.Find
import Mathlib.Data.Option.Basic
import Mathlib.Tactic.SplitIfs

/-!
# Respelled records

`Respelled v w`: the values `v` and `w` are records that are alike but for the spelling of local ids
in method keys and in calls. As the members of an object stand in the order of their keys, methods
whose keys are respelled may change places.

Where one of the two is read, so is the other, and the records differ in the keys of methods only
(`ofValue_respelled`). The relation follows the shape of records; the readers are gone through in
the same way, one lemma for each.
-/

namespace CallArchive

open Json (Members Value)

namespace LocalId

/-- The value is a number or a text that reads as the local id. -/
inductive SpelledBy (id : LocalId) : Value → Prop where
  | number : SpelledBy id (.number (.integer id.value))
  | text {s : String} (h : id.Spells s.toList) : SpelledBy id (.text s)

end LocalId

namespace Respelling

/-! ## Similar values -/

abbrev Similarity := Value → Value → Prop

/-- The same value, or two spellings of one local id. -/
def SameId (v w : Value) : Prop := v = w ∨ ∃ id : LocalId, id.SpelledBy v ∧ id.SpelledBy w

/-- The same key, or two spellings of one local id. -/
def SameKey (k k' : String) : Prop :=
  k = k' ∨ ∃ id : LocalId, id.Spells k.toList ∧ id.Spells k'.toList

/-- How the member of an object has to be similar: as its part says, or else by being the same. -/
def part : List (String × Similarity) → String → Similarity
  | [], _ => Eq
  | (name, R) :: parts, key => if key = name then R else part parts key

/-- Members with the same keys in the same order. -/
def SameKeys (rel : String → Similarity) (m m' : Members) : Prop :=
  List.Forall₂ (fun p q => p.1 = q.1 ∧ rel p.1 p.2 q.2) m m'

/-- Objects whose members are similar, each in the way of its key. -/
inductive Objects (rel : String → Similarity) : Similarity where
  | same (v : Value) : Objects rel v v
  | object {m m' : Members} (h : SameKeys rel m m') : Objects rel (.object m) (.object m')

/-- Arrays of similar items. -/
inductive Each (R : Similarity) : Similarity where
  | same (v : Value) : Each R v v
  | array {xs ys : List Value} (h : List.Forall₂ R xs ys) : Each R (.array xs) (.array ys)

/-- Items that are similar each in the way of its place, and the same after that. -/
inductive Slots : List Similarity → List Value → List Value → Prop where
  | same (rels : List Similarity) (xs : List Value) : Slots rels xs xs
  | cons {R : Similarity} {rels : List Similarity} {x y : Value} {xs ys : List Value} (h : R x y)
      (hrest : Slots rels xs ys) : Slots (R :: rels) (x :: xs) (y :: ys)

/-- Arrays that stand for a number of fields. -/
inductive Tuple (rels : List Similarity) : Similarity where
  | same (v : Value) : Tuple rels v v
  | array {xs ys : List Value} (h : Slots rels xs ys) : Tuple rels (.array xs) (.array ys)

/-- Objects, or arrays of the fields in the order of declaration. -/
def Struct (parts : List (String × Similarity)) (v w : Value) : Prop :=
  Objects (part parts) v w ∨ Tuple (parts.map (·.2)) v w

/-! ## Parts of records -/

def Call : Similarity := Tuple [SameId, SameId]

def OutCall : Similarity := Tuple [SameId]

def Calls : Similarity := Struct [("internalCalls", Each Call), ("externalCalls", Each OutCall)]

/-- Methods under other spellings of their local ids, which may stand in another order. -/
inductive Methods : Similarity where
  | same (v : Value) : Methods v v
  | object {m q m' : Members} (h : List.Forall₂ (fun p p' => SameKey p.1 p'.1 ∧ p.2 = p'.2) m q)
      (hperm : q.Perm m') : Methods (.object m) (.object m')

def Entry : Similarity := Struct [("methods", Methods)]

def Record : Similarity := Objects (part [("cha", Objects fun _ => Entry), ("graph", Calls)])

end Respelling

/-- Records that differ in the spelling of local ids, as they are or in envelopes. Of an envelope
nothing but the record is read. -/
inductive Respelled : Value → Value → Prop where
  | bare {v w : Value} (h : Respelling.Record v w) : Respelled v w
  | enveloped {v w : Value} {m m' : Members} (hv : v.get? "payload" = some (.object m))
      (hw : w.get? "payload" = some (.object m')) (h : Respelling.Record (.object m) (.object m')) :
      Respelled v w

/-- Types with the same methods, in whatever order and spelling, and the same of all else. -/
structure ClassType.Alike (t t' : ClassType) : Prop where
  methods : (t.methods.map methodOutline).Perm (t'.methods.map methodOutline)
  superClasses_eq : t.superClasses = t'.superClasses
  superInterfaces_eq : t.superInterfaces = t'.superInterfaces
  sourceFile_eq : t.sourceFile = t'.sourceFile

theorem ClassType.Alike.refl (t : ClassType) : t.Alike t := ⟨.refl _, rfl, rfl, rfl⟩

/-- The same namespaces, with types that are alike. -/
def TypesAlike : List (String × ClassType) → List (String × ClassType) → Prop :=
  List.Forall₂ fun p q => p.1 = q.1 ∧ p.2.Alike q.2

/-- Records that are the same but for the order and the spelling of methods. -/
structure CallGraph.Alike (g g' : CallGraph) : Prop where
  product_eq : g.product = g'.product
  forge_eq : g.forge = g'.forge
  generator_eq : g.generator = g'.generator
  version_eq : g.version = g'.version
  timestamp_eq : g.timestamp = g'.timestamp
  dependencySets_eq : g.dependencySets = g'.dependencySets
  types : TypesAlike g.types g'.types
  internalCalls_eq : g.internalCalls = g'.internalCalls
  externalCalls_eq : g.externalCalls = g'.externalCalls

theorem CallGraph.Alike.refl (g : CallGraph) : g.Alike g :=
  ⟨rfl, rfl, rfl, rfl, rfl, rfl, List.forall₂_same.mpr fun t _ => ⟨rfl, .refl t.2⟩, rfl, rfl⟩

namespace Respelling

theorem SameId.refl (v : Value) : SameId v v := .inl rfl

theorem Struct.refl (parts : List (String × Similarity)) (v : Value) : Struct parts v v :=
  .inl (.same v)

theorem SameKeys.refl {rel : String → Similarity} (hrel : ∀ k v, rel k v v) (m : Members) :
    SameKeys rel m m :=
  List.forall₂_same.mpr fun p _ => ⟨rfl, hrel p.1 p.2⟩

theorem SameKey.ofText?_eq {k k' : String} (h : SameKey k k') :
    LocalId.ofText? k = LocalId.ofText? k' := by
  rcases h with rfl | ⟨id, hk, hk'⟩
  · rfl
  · rw [LocalId.ofText?_eq_some_iff.mpr hk, LocalId.ofText?_eq_some_iff.mpr hk']

theorem SameKeys.find?_eq {rel : String → Similarity} {m m' : Members} (h : SameKeys rel m m')
    {key : String} (hrel : rel key = Eq) : m.find? key = m'.find? key := by
  induction h with
  | nil => rfl
  | @cons p q m m' hpq _ ih =>
    obtain ⟨k, v⟩ := p
    obtain ⟨k', w⟩ := q
    obtain ⟨rfl, hvw⟩ := hpq
    by_cases hk : k = key
    · subst hk
      dsimp only at hvw
      rw [hrel] at hvw
      rw [hvw, Members.find?, Members.find?, if_pos rfl, if_pos rfl]
    · rw [Members.find?, Members.find?, if_neg hk, if_neg hk, ih]

theorem Slots.length_eq {rels : List Similarity} {xs ys : List Value} (h : Slots rels xs ys) :
    xs.length = ys.length := by
  induction h with
  | same => rfl
  | cons _ _ ih => rw [List.length_cons, List.length_cons, ih]

theorem Slots.eq_of_nil {xs ys : List Value} (h : Slots [] xs ys) : xs = ys := by
  cases h
  rfl

/-! ## Reading similar values -/

open Decode

section Readers

variable {α β : Type} {Q : α → α → Prop} {item : Value → Decoded α} {R : Similarity}
  {rels : List Similarity} {v w : Value} {xs ys : List Value}

theorem localId_agree (h : SameId v w) : Agree Eq (localId v) (localId w) := by
  have hread {id : LocalId} {u : Value} (hu : id.SpelledBy u) : localId u = .ok id := by
    cases hu with
    | number =>
      have hid : LocalId.ofInt? (id.value : Int) = some id := LocalId.ofNat?_value id
      simp only [localId, hid]
    | text hs => simp only [localId, LocalId.ofText?_eq_some_iff.mpr hs]
  rcases h with rfl | ⟨id, hv, hw⟩
  · exact .same _
  · rw [hread hv, hread hw]
    exact .ok rfl

theorem sequence_agree (h : Each R v w) (hitem : ∀ x y, R x y → Agree Eq (item x) (item y)) :
    Agree Eq (sequence item v) (sequence item w) := by
  cases h with
  | same => exact .same _
  | array h =>
    exact (Agree.mapM h hitem).mono fun _ _ hs => by rwa [List.forall₂_eq_eq_eq] at hs

theorem map_agree (hR : ∀ x, R x x) (hitem : ∀ x y, R x y → Agree Q (item x) (item y))
    (h : Objects (fun _ => R) v w) :
    Agree (List.Forall₂ fun p q => p.1 = q.1 ∧ Q p.2 q.2) (Decode.map item v)
      (Decode.map item w) := by
  have hobject {m m' : Members} (hm : SameKeys (fun _ => R) m m') :
      Agree (List.Forall₂ fun p q => p.1 = q.1 ∧ Q p.2 q.2) (Decode.map item (.object m))
        (Decode.map item (.object m')) :=
    .mapM hm fun p q hpq => (hitem p.2 q.2 hpq.2).map fun _ _ hab => ⟨hpq.1, hab⟩
  cases h with
  | object h => exact hobject h
  | same =>
    cases v with
    | object m => exact hobject (.refl (fun _ => hR) m)
    | _ => exact .error _ _

/-- The item that stands next, and what is left. -/
theorem next_agree (h : Slots (R :: rels) xs ys) (hR : ∀ x, R x x)
    (hitem : ∀ x y, R x y → Agree Q (item x) (item y)) (taken : Nat) (shape : Shape) :
    Agree (fun p q => Q p.1 q.1 ∧ Slots rels p.2 q.2) (next taken shape item xs)
      (next taken shape item ys) := by
  cases h with
  | cons hxy hrest => exact (hitem _ _ hxy).map fun _ _ hab => ⟨hab, hrest⟩
  | same =>
    cases xs with
    | nil => exact .error _ _
    | cons x xs => exact (hitem x x (hR x)).map fun _ _ hab => ⟨hab, .same rels xs⟩

theorem nextOr_agree {default : α} (h : Slots (R :: rels) xs ys) (hdefault : Q default default)
    (hR : ∀ x, R x x) (hitem : ∀ x y, R x y → Agree Q (item x) (item y)) :
    Agree (fun p q => Q p.1 q.1 ∧ Slots rels p.2 q.2) (nextOr default item xs)
      (nextOr default item ys) := by
  cases h with
  | cons hxy hrest => exact (hitem _ _ hxy).map fun _ _ hab => ⟨hab, hrest⟩
  | same =>
    cases xs with
    | nil => exact .ok ⟨hdefault, .same rels []⟩
    | cons x xs => exact (hitem x x (hR x)).map fun _ _ hab => ⟨hab, .same rels xs⟩

/-- Objects are read member by member. -/
theorem fields_agree {σ : Type} {start : σ} {step : σ → String → Value → Decoded σ}
    {P : σ → σ → Prop} {rel : String → Similarity} {m m' : Members} (h : SameKeys rel m m')
    (hstart : P start start)
    (hstep : ∀ s t key v w, P s t → rel key v w → Agree P (step s key v) (step t key w)) :
    Agree P (fields start step m) (fields start step m') :=
  .foldlM h hstart fun s t p q hst hpq => by
    rw [← hpq.1]
    exact hstep s t p.1 p.2 q.2 hst hpq.2

theorem required_agree {field : String} {x y : Option α} (h : Option.Rel Q x y) :
    Agree Q (required field x) (required field y) := by
  cases h with
  | none => exact .error _ _
  | some h => exact .ok h

end Readers

/-! ## Calls -/

section Parts

variable {v w : Value}

theorem call_agree (h : Call v w) : Agree Eq (call v) (call w) := by
  cases h with
  | same => exact .same _
  | array h =>
    refine (next_agree h .refl (fun _ _ => localId_agree) 0 .pair).bind ?_
    rintro ⟨source, left⟩ ⟨_, left'⟩ ⟨rfl, hleft⟩
    refine (next_agree hleft .refl (fun _ _ => localId_agree) 1 .pair).bind ?_
    rintro ⟨target, rest⟩ ⟨_, rest'⟩ ⟨rfl, hrest⟩
    obtain rfl := hrest.eq_of_nil
    rw [h.length_eq]
    exact .same _

theorem externalCall_agree (h : OutCall v w) : Agree Eq (externalCall v) (externalCall w) := by
  cases h with
  | same => exact .same _
  | array h =>
    refine (next_agree h .refl (fun _ _ => localId_agree) 0 .externalCall).bind ?_
    rintro ⟨source, left⟩ ⟨_, left'⟩ ⟨rfl, hleft⟩
    obtain rfl := hleft.eq_of_nil
    rw [h.length_eq]
    exact .same _

theorem callsField_agree (c : Decode.Calls) {key : String}
    (h : part [("internalCalls", Each Call), ("externalCalls", Each OutCall)] key v w) :
    Agree Eq (callsField c key v) (callsField c key w) := by
  unfold callsField
  unfold part part part at h
  split_ifs at h ⊢
  · refine (sequence_agree h fun _ _ => call_agree).bind ?_
    rintro calls _ rfl
    exact .ok rfl
  · refine (sequence_agree h fun _ _ => externalCall_agree).bind ?_
    rintro calls _ rfl
    exact .ok rfl
  · exact .ok rfl

theorem calls_agree (h : Calls v w) : Agree Eq (calls v) (calls w) := by
  rcases h with h | h
  · cases h with
    | same => exact .same _
    | object h =>
      refine fields_agree h rfl ?_
      rintro c _ key v w rfl hvw
      exact callsField_agree c hvw
  · cases h with
    | same => exact .same _
    | @array xs ys h =>
      refine (nextOr_agree h rfl .same fun _ _ hxy =>
        sequence_agree hxy fun _ _ => call_agree).bind ?_
      rintro ⟨internal, left⟩ ⟨_, left'⟩ ⟨rfl, hleft⟩
      refine (nextOr_agree hleft rfl .same fun _ _ hxy =>
        sequence_agree hxy fun _ _ => externalCall_agree).bind ?_
      rintro ⟨external, rest⟩ ⟨_, rest'⟩ ⟨rfl, hrest⟩
      obtain rfl := hrest.eq_of_nil
      rw [h.length_eq]
      exact .same _

/-! ## Types -/

theorem methods_agree (h : Methods v w) :
    Agree (fun ms ms' => (ms.map methodOutline).Perm (ms'.map methodOutline))
      (Decode.map text v) (Decode.map text w) := by
  cases h with
  | same => exact .refl (fun _ => .refl _) _
  | @object m q m' h hperm =>
    have hkeys : Agree (List.Forall₂ fun a b => methodOutline a = methodOutline b)
        (Decode.map text (.object m)) (Decode.map text (.object q)) :=
      .mapM h fun p p' hp => by
        rw [hp.2]
        refine (Agree.same (text p'.2)).map ?_
        rintro address _ rfl
        exact congrArg (·, address) hp.1.ofText?_eq
    have horder : Agree List.Perm (Decode.map text (.object q)) (Decode.map text (.object m')) :=
      .mapM_perm hperm
    refine hkeys.trans horder fun ms qs ms' hms hqs => ?_
    have heq : ms.map methodOutline = qs.map methodOutline := by
      rwa [← List.forall₂_eq_eq_eq, List.forall₂_map_left_iff, List.forall₂_map_right_iff]
    rw [heq]
    exact hqs.map methodOutline

theorem classTypeField_agree {t t' : ClassType} (ht : t.Alike t') {key : String}
    (h : part [("methods", Methods)] key v w) :
    Agree ClassType.Alike (classTypeField t key v) (classTypeField t' key w) := by
  unfold classTypeField
  unfold part part at h
  split_ifs at h ⊢
  · exact (methods_agree h).bind fun _ _ hms => .ok { ht with methods := hms }
  · rw [h]
    exact .bind_same fun _ => .ok { ht with superClasses_eq := rfl }
  · rw [h]
    exact .bind_same fun _ => .ok { ht with superInterfaces_eq := rfl }
  · rw [h]
    exact .bind_same fun _ => .ok { ht with sourceFile_eq := rfl }
  · exact .ok ht

theorem classType_agree (h : Entry v w) : Agree ClassType.Alike (classType v) (classType w) := by
  rcases h with h | h
  · cases h with
    | same => exact .refl ClassType.Alike.refl _
    | object h =>
      exact fields_agree h (.refl noClassType) fun _ _ _ _ _ ht hvw => classTypeField_agree ht hvw
  · cases h with
    | same => exact .refl ClassType.Alike.refl _
    | @array xs ys h =>
      refine (nextOr_agree h (.refl _) .same fun _ _ => methods_agree).bind ?_
      rintro ⟨methods, left⟩ ⟨methods', left'⟩ ⟨hmethods, hleft⟩
      obtain rfl := hleft.eq_of_nil
      rw [h.length_eq]
      exact .bind_same fun _ => .bind_same fun _ => .bind_same fun _ => .bind_same fun _ =>
        .ok ⟨hmethods, rfl, rfl, rfl⟩

/-! ## Records -/

/-- What has been read of two records is alike. -/
structure PartialAlike (r r' : PartialRecord) : Prop where
  product_eq : r.product = r'.product
  forge_eq : r.forge = r'.forge
  generator_eq : r.generator = r'.generator
  version_eq : r.version = r'.version
  timestamp_eq : r.timestamp = r'.timestamp
  dependencySets_eq : r.dependencySets = r'.dependencySets
  types : Option.Rel TypesAlike r.types r'.types
  calls_eq : r.calls = r'.calls

theorem recordField_agree {r r' : PartialRecord} (hr : PartialAlike r r') {key : String}
    (h : part [("cha", Objects fun _ => Entry), ("graph", Calls)] key v w) :
    Agree PartialAlike (recordField r key v) (recordField r' key w) := by
  by_cases hcha : key = "cha"
  · subst hcha
    exact (map_agree (Struct.refl _) (fun _ _ => classType_agree) h).bind fun _ _ hts =>
      .ok { hr with types := .some hts }
  · by_cases hgraph : key = "graph"
    · subst hgraph
      refine (calls_agree h).bind ?_
      rintro calls _ rfl
      exact .ok { hr with calls_eq := rfl }
    · rw [part, part, part, if_neg hcha, if_neg hgraph] at h
      subst h
      unfold recordField
      rw [if_neg hcha, if_neg hgraph]
      split_ifs
      · exact .bind_same fun _ => .ok { hr with product_eq := rfl }
      · exact .bind_same fun _ => .ok { hr with forge_eq := rfl }
      · exact .bind_same fun _ => .ok { hr with generator_eq := rfl }
      · exact .bind_same fun _ => .ok { hr with version_eq := rfl }
      · exact .bind_same fun _ => .ok { hr with timestamp_eq := rfl }
      · exact .bind_same fun _ => .ok { hr with dependencySets_eq := rfl }
      · exact .ok hr

theorem record_agree {m m' : Members}
    (h : SameKeys (part [("cha", Objects fun _ => Entry), ("graph", Calls)]) m m') :
    Agree CallGraph.Alike (record m) (record m') := by
  have hfields : Agree PartialAlike (fields {} recordField m) (fields {} recordField m') :=
    fields_agree h ⟨rfl, rfl, rfl, rfl, rfl, rfl, .none, rfl⟩
      fun _ _ _ _ _ hr hvw => recordField_agree hr hvw
  refine hfields.bind fun r r' hr => ?_
  rw [hr.product_eq, hr.forge_eq, hr.generator_eq, hr.version_eq, hr.timestamp_eq,
    hr.dependencySets_eq, hr.calls_eq]
  refine .bind_same fun _ => .bind_same fun _ => .bind_same fun _ => .bind_same fun _ =>
    .bind_same fun _ => ?_
  exact (required_agree hr.types).bind fun ts ts' hts => .bind_same fun _ =>
    .ok ⟨rfl, rfl, rfl, rfl, rfl, rfl, hts, rfl, rfl⟩

end Parts

theorem openEnvelope_respelled {v w : Value} (h : Respelled v w) :
    Record (openEnvelope v) (openEnvelope w) := by
  cases h with
  | enveloped hv hw h =>
    rw [openEnvelope, hv, openEnvelope, hw]
    exact h
  | bare h =>
    cases h with
    | same => exact .same _
    | @object m m' h =>
      have hpayload : (Value.object m).get? "payload" = (Value.object m').get? "payload" :=
        h.find?_eq rfl
      unfold openEnvelope
      rw [hpayload]
      split
      · exact .same _
      · exact .object h

/-- The fields that identify a record are looked up in its members. -/
theorem isPresent_eq {m m' : Members}
    (h : SameKeys (part [("cha", Objects fun _ => Entry), ("graph", Calls)]) m m') {field : String}
    (hfield : field ∈ identifying) : isPresent m field = isPresent m' field := by
  have hother : field ≠ "cha" ∧ field ≠ "graph" := by
    revert field
    decide
  have hrel : part [("cha", Objects fun _ => Entry), ("graph", Calls)] field = Eq := by
    rw [part, part, part, if_neg hother.1, if_neg hother.2]
  rw [isPresent, h.find?_eq hrel, isPresent]

end Respelling

open Decode Respelling in
/-- Of two records that differ in the spelling of local ids both are read, as records that differ
in the keys of methods, or neither is. -/
theorem CallGraph.ofValue_respelled {v w : Value} (h : Respelled v w) :
    Agree CallGraph.Alike (ofValue v) (ofValue w) := by
  have hopen := openEnvelope_respelled h
  unfold ofValue
  generalize openEnvelope v = a at hopen ⊢
  generalize openEnvelope w = b at hopen ⊢
  cases hopen with
  | same => exact .refl CallGraph.Alike.refl _
  | @object m m' hm =>
    have hfind : (identifying.find? fun field => !isPresent m field)
        = identifying.find? fun field => !isPresent m' field :=
      List.find?_congr fun field hfield => congrArg not (isPresent_eq hm hfield)
    dsimp only
    rw [hfind]
    split
    · exact .error _ _
    · exact (record_agree hm).mapError _

end CallArchive
