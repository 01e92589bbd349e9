import CallArchive.Proofs.Record.Ascending
import CallArchive.Proofs.Record.Drafts

/-!
# Drafts are read as they were built

The record that `Draft.build` writes is read as a call graph that tells what was put into the draft,
unless the text of a version range is refused (`ofValue_build`).
-/

namespace CallArchive

open Json (Members Value)

/-! ## Reading the parts -/

namespace Decode

open Draft

theorem map_text {m : Members} (h : ∀ p ∈ m, ∃ s, p.2 = .text s) :
    Decode.map text (.object m) = .ok m.texts := by
  induction m with
  | nil => rfl
  | cons p m ih =>
    obtain ⟨⟨s, hs⟩, hm⟩ := List.forall_mem_cons.mp h
    obtain ⟨k, v⟩ := p
    obtain rfl : v = .text s := hs
    exact mapM_cons_ok_iff.mpr ⟨(k, s), rfl, _, ih hm, rfl⟩

/-- The type of a namespace with the given methods. -/
def builtType (ns : String) (methods : List (LocalId × String)) : ClassType :=
  ⟨(methodMembers methods).texts, [rootClass], [], some (lastSegment ns ++ ".java")⟩

theorem classType_typeValue (ns : String) (methods : List (LocalId × String)) :
    classType (typeValue ns methods) = .ok (builtType ns methods) := by
  have hmethods : Decode.map text (.object (methodMembers methods))
      = .ok (methodMembers methods).texts := map_text fun p hp => by
    obtain ⟨id, address, -, hv, -⟩ := mem_methodMembers.mp hp
    exact ⟨address, hv⟩
  have hclasses : sequence text (.ofTexts [rootClass]) = .ok [rootClass] := rfl
  have hinterfaces : sequence text (.array []) = .ok [] := rfl
  have hsorted : typeValue ns methods = .object [("methods", .object (methodMembers methods)),
      ("sourceFile", .text (lastSegment ns ++ ".java")), ("superClasses", .ofTexts [rootClass]),
      ("superInterfaces", .array [])] := by
    simp only [typeValue, Members.ofList, Members.merge, Members.insert, List.foldl_cons,
      List.foldl_nil, String.reduceEq, String.reduceLT, if_true, if_false]
  rw [hsorted]
  simp only [classType, fields, List.foldlM_cons, classTypeField, String.reduceEq, if_true,
    if_false, hmethods, hclasses, hinterfaces]
  rfl

/-- Each namespace is read with its last methods. -/
theorem map_typeMembers (types : List (String × List (LocalId × String))) :
    ∃ read, Decode.map classType (.object (typeMembers types)) = .ok read ∧
      (read.map (·.1)).Pairwise (· < ·) ∧
      ∀ ns t, (ns, t) ∈ read ↔
        ∃ methods, lastFor ns types = some methods ∧ t = builtType ns methods := by
  have hmem {ns : String} {v : Value} : (ns, v) ∈ typeMembers types ↔
      ∃ methods, lastFor ns types = some methods ∧ v = typeValue ns methods := by
    unfold typeMembers
    rw [Members.mem_ofList, lastFor_map typeValue ns types, Option.map_eq_some_iff]
    simp only [eq_comm]
  cases hread : Decode.map classType (.object (typeMembers types)) with
  | error e =>
    obtain ⟨⟨ns, v⟩, hp, herror⟩ := mapM_error hread
    obtain ⟨methods, -, rfl⟩ := hmem.mp hp
    rw [classType_typeValue] at herror
    cases herror
  | ok read =>
    refine ⟨read, rfl, ?_, fun ns t => ?_⟩
    · rw [keys_of_mapM hread]
      exact Members.sorted_ofList _
    · rw [mem_of_mapM_ok hread]
      constructor
      · rintro ⟨⟨ns', v⟩, hp, hone⟩
        obtain ⟨methods, hlast, rfl⟩ := hmem.mp hp
        obtain ⟨t', ht', heq⟩ := map_ok_iff.mp hone
        obtain ⟨rfl, rfl⟩ := Prod.mk.inj heq
        rw [classType_typeValue] at ht'
        exact ⟨methods, hlast, (Except.ok.inj ht').symm⟩
      · rintro ⟨methods, hlast, rfl⟩
        refine ⟨(ns, typeValue ns methods), hmem.mpr ⟨methods, hlast, rfl⟩, ?_⟩
        rw [classType_typeValue]
        rfl

/-! ## Reading the dependencies -/

def refused (s : String) : Bool := (VersionRange.ofText? s).isNone

/-- The first text that is refused decides the error. -/
def unlessRefused {α : Type} (texts : List String) (x : α) : Decoded α :=
  match texts.find? refused with
  | some s => .error (.badVersionRange s)
  | none => .ok x

theorem unlessRefused_append {α β γ : Type} (texts more : List String) (x : α) (y : β)
    (f : α → β → γ) :
    (do return f (← unlessRefused texts x) (← unlessRefused more y))
      = unlessRefused (texts ++ more) (f x y) := by
  unfold unlessRefused
  rw [List.find?_append]
  cases texts.find? refused with
  | some s => rfl
  | none => cases more.find? refused <;> rfl

theorem mapM_unlessRefused {α β γ : Type} {item : β → Decoded γ} {v : α → β}
    {texts : α → List String} {f : α → γ} (h : ∀ x, item (v x) = unlessRefused (texts x) (f x))
    (xs : List α) : (xs.map v).mapM item = unlessRefused (xs.flatMap texts) (xs.map f) := by
  induction xs with
  | nil => rfl
  | cons x xs ih =>
    rw [List.map_cons, List.mapM_cons, h, ih, List.flatMap_cons, List.map_cons]
    exact unlessRefused_append _ _ _ _ (· :: ·)

/-- The range of a text that is not refused. -/
def rangeOf (s : String) : VersionRange := (VersionRange.ofText? s).getD ⟨none, none⟩

theorem versionRange_text (s : String) : versionRange (.text s) = unlessRefused [s] (rangeOf s) := by
  unfold versionRange unlessRefused refused rangeOf
  simp only [text, bind, Except.bind, List.find?_singleton]
  cases VersionRange.ofText? s <;> rfl

theorem ranges_ofTexts (texts : List String) :
    sequence versionRange (.ofTexts texts) = unlessRefused texts (texts.map rangeOf) := by
  refine (mapM_unlessRefused versionRange_text texts).trans ?_
  rw [List.flatMap_singleton']

theorem sequence_dependencyValue (d : String × List String) :
    sequence dependency (dependencyValue d)
      = unlessRefused d.2 [⟨d.1, defaultForge, d.2.map rangeOf⟩] := by
  have hsorted : dependencyValue d = .array [.object [("constraints", .ofTexts d.2),
      ("forge", .text defaultForge), ("product", .text d.1)]] := by
    simp only [dependencyValue, Members.ofList, Members.merge, Members.insert, List.foldl_cons,
      List.foldl_nil, String.reduceEq, String.reduceLT, if_true, if_false]
  have hread : dependency (.object [("constraints", .ofTexts d.2), ("forge", .text defaultForge),
      ("product", .text d.1)]) = unlessRefused d.2 ⟨d.1, defaultForge, d.2.map rangeOf⟩ := by
    simp only [dependency, fields, List.foldlM_cons, dependencyField, String.reduceEq, if_true,
      if_false, ranges_ofTexts]
    unfold unlessRefused
    cases d.2.find? refused <;> rfl
  rw [hsorted]
  simp only [sequence, List.mapM_cons, hread]
  unfold unlessRefused
  cases d.2.find? refused <;> rfl

/-! ## Reading the calls -/

theorem localId_ofNat (id : LocalId) : localId (.ofNat id.value) = .ok id := by
  have h : LocalId.ofInt? (id.value : Int) = some id := LocalId.ofNat?_value id
  simp [Value.ofNat, localId, h]

theorem localId_text (id : LocalId) : localId (.text id.text) = .ok id := by
  simp [localId, LocalId.ofText?_text]

theorem call_callValue (c : LocalId × LocalId) : call (callValue c) = .ok c := by
  simp only [callValue, call, next, localId_ofNat, Except.map, bind, Except.bind]
  rfl

theorem externalCall_externalCallValue (c : LocalId × String × Members) :
    externalCall (externalCallValue c) = .ok ⟨c.1, c.2.1, c.2.2⟩ := by
  simp only [externalCallValue, externalCall, next, localId_text, text, members, Except.map, bind,
    Except.bind]
  rfl

theorem sequence_map {α β : Type} {item : Value → Decoded β} {f : α → Value} {g : α → β}
    (h : ∀ x, item (f x) = .ok (g x)) (xs : List α) :
    sequence item (.array (xs.map f)) = .ok (xs.map g) := by
  show (xs.map f).mapM item = _
  rw [List.mapM_map]
  exact mapM_ok_of_forall fun x _ => h x

/-- The graph of a draft. -/
def graphValue (d : Draft) : Value :=
  .object [("externalCalls", .array (d.externalCalls.map externalCallValue)),
    ("internalCalls", .array (d.internalCalls.map callValue))]

theorem calls_graphValue (d : Draft) :
    calls (graphValue d)
      = .ok ⟨d.internalCalls, d.externalCalls.map fun c => ⟨c.1, c.2.1, c.2.2⟩⟩ := by
  simp only [graphValue, calls, fields, List.foldlM_cons, callsField, String.reduceEq, if_true,
    if_false, sequence_map externalCall_externalCallValue, sequence_map call_callValue, List.map_id']
  rfl

/-! ## Reading the record -/

theorem build_eq (d : Draft) : d.build = .object [("cha", .object d.types),
    ("depset", .array d.dependencies), ("forge", .text d.forge), ("generator", .text d.generator),
    ("graph", graphValue d), ("product", .text d.product),
    ("timestamp", .ofInt (d.timestamp.getD (-1))), ("version", .text d.version)] := by
  simp only [build, graphValue, Members.ofList, Members.merge, Members.insert, List.foldl_cons,
    List.foldl_nil, String.reduceEq, String.reduceLT, if_true, if_false]

theorem signed_ofInt {z : Int} (h : z ≤ CallGraph.maxTimestamp) : signed (.ofInt z) = .ok z := by
  unfold CallGraph.maxTimestamp at h
  exact if_pos (by omega)

/-- If the types of a draft are read, then the draft is, unless a text of a version range is
refused. -/
theorem ofValue_ofEntries {product version : String} {entries : List Entry}
    (hproduct : Text.isBlankText product = false) (hversion : Text.isBlankText version = false)
    (hgenerator : Text.isBlankText (generatorOf entries) = false)
    (htime : timeOf entries ≤ CallGraph.maxTimestamp) {types : List (String × ClassType)}
    (htypes : Decode.map classType (.object (typeMembers (typesOf entries))) = .ok types) :
    CallGraph.ofValue (ofEntries product version entries).build =
      match (rangeTexts entries).find? refused with
      | some s => .error (.mismatch (.badVersionRange s))
      | none => .ok {
          product, version, forge := defaultForge, generator := generatorOf entries,
          timestamp := some (timeOf entries),
          dependencySets := (dependenciesOf entries).map fun d =>
            [⟨d.1, defaultForge, d.2.map rangeOf⟩],
          types, internalCalls := entries.filterMap Entry.call?,
          externalCalls := (entries.filterMap Entry.externalCall?).map fun c =>
            ⟨c.1, c.2.1, c.2.2⟩ } := by
  have hdependencies : sequence (sequence dependency)
      (.array ((dependenciesOf entries).map dependencyValue))
        = unlessRefused (rangeTexts entries) ((dependenciesOf entries).map fun d =>
            [⟨d.1, defaultForge, d.2.map rangeOf⟩]) :=
    mapM_unlessRefused sequence_dependencyValue _
  have htimestamp : optional signed (.ofInt (timeOf entries)) = .ok (some (timeOf entries)) :=
    map_ok_iff.mpr ⟨_, signed_ofInt htime, rfl⟩
  have hopen : openEnvelope (ofEntries product version entries).build
      = (ofEntries product version entries).build := by
    rw [build_eq]
    simp [openEnvelope, Value.get?, Value.members?, Members.find?]
  have hforge : Text.isBlankText defaultForge = false := by decide
  unfold CallGraph.ofValue
  rw [hopen, build_eq, ofEntries_eq, ← timeOf]
  simp only [identifying, isPresent, Members.find?, String.reduceEq, if_true, if_false, hproduct,
    hversion, hgenerator, hforge, List.find?_cons, List.find?_nil, Bool.not_false, Bool.not_true]
  simp only [record, fields, List.foldlM_cons, recordField, String.reduceEq, if_true, if_false,
    htypes, hdependencies, calls_graphValue, htimestamp]
  unfold unlessRefused
  cases (rangeTexts entries).find? refused <;> rfl

end Decode

/-! ## What is read -/

/-- The type has the methods, under the texts of their local ids, each with its last address. -/
structure ClassType.Tells (t : ClassType) (ns : String) (methods : List (LocalId × String)) : Prop where
  keys : (t.methods.map (·.1)).Pairwise (· < ·)
  methods : ∀ {key address}, (key, address) ∈ t.methods ↔ ∃ id, key = id.text ∧
    LocalId.ofText? key = some id ∧ Draft.lastFor id methods = some address
  superClasses : t.superClasses = [Draft.rootClass]
  superInterfaces : t.superInterfaces = []
  sourceFile : t.sourceFile = some (Draft.lastSegment ns ++ ".java")

/-- The call graph says what the entries say. -/
structure CallGraph.Tells (g : CallGraph) (product version : String) (entries : List Draft.Entry) :
    Prop where
  product : g.product = product
  version : g.version = version
  forge : g.forge = Draft.defaultForge
  generator : g.generator = Draft.generatorOf entries
  timestamp : g.timestamp = some (Draft.timeOf entries)
  unknown : entries.filterMap Draft.Entry.time? = [] → CallGraph.millis g.timestamp = none
  dependencySets : g.dependencySets = (Draft.dependenciesOf entries).map fun d =>
    [⟨d.1, Draft.defaultForge, d.2.filterMap VersionRange.ofText?⟩]
  namespaces : (g.types.map (·.1)).Pairwise (· < ·)
  types : ∀ {ns}, ns ∈ g.types.map (·.1) ↔ (Draft.lastFor ns (Draft.typesOf entries)).isSome
  type : ∀ {ns t}, (ns, t) ∈ g.types →
    ∃ methods, Draft.lastFor ns (Draft.typesOf entries) = some methods ∧ t.Tells ns methods
  internalCalls : g.internalCalls = entries.filterMap Draft.Entry.call?
  externalCalls : g.externalCalls = (entries.filterMap Draft.Entry.externalCall?).map fun c =>
    ⟨c.1, c.2.1, c.2.2⟩

theorem Decode.builtType_tells (ns : String) (methods : List (LocalId × String)) :
    (builtType ns methods).Tells ns methods where
  keys := by
    have hkeys := keys_of_mapM (map_text (m := Draft.methodMembers methods) fun p hp => by
      obtain ⟨id, address, -, hv, -⟩ := Draft.mem_methodMembers.mp hp
      exact ⟨address, hv⟩)
    unfold builtType
    rw [hkeys]
    exact Members.sorted_ofList _
  methods := by
    intro key address
    unfold builtType
    rw [Members.mem_texts, Draft.mem_methodMembers]
    constructor
    · rintro ⟨id, address', rfl, hv, hlast⟩
      obtain rfl := Value.text.inj hv
      exact ⟨id, rfl, LocalId.ofText?_text id, hlast⟩
    · rintro ⟨id, hkey, -, hlast⟩
      exact ⟨id, address, hkey, rfl, hlast⟩
  superClasses := rfl
  superInterfaces := rfl
  sourceFile := rfl

theorem Draft.timeOf_le {entries : List Entry}
    (h : ∀ time ∈ entries.filterMap Entry.time?, time ≤ CallGraph.maxTimestamp) :
    timeOf entries ≤ CallGraph.maxTimestamp := by
  unfold timeOf
  cases hlast : (entries.filterMap Entry.time?).getLast? with
  | none => decide
  | some time => exact h time (List.mem_of_getLast? hlast)

theorem Decode.map_rangeOf {texts : List String}
    (h : ∀ s ∈ texts, (VersionRange.ofText? s).isSome) :
    texts.map rangeOf = texts.filterMap VersionRange.ofText? := by
  induction texts with
  | nil => rfl
  | cons s texts ih =>
    obtain ⟨hs, htexts⟩ := List.forall_mem_cons.mp h
    obtain ⟨range, hrange⟩ := Option.isSome_iff_exists.mp hs
    rw [List.map_cons, List.filterMap_cons, hrange, ih htexts, rangeOf, hrange]
    rfl

/-- A draft is read as it was built if all texts of version ranges are accepted; otherwise the first
text that is refused is the error. -/
theorem ofValue_build {product version : String} {entries : List Draft.Entry}
    (hproduct : Text.isBlankText product = false) (hversion : Text.isBlankText version = false)
    (hgenerator : Text.isBlankText (Draft.generatorOf entries) = false)
    (htimes : ∀ time ∈ entries.filterMap Draft.Entry.time?, time ≤ CallGraph.maxTimestamp) :
    ((∀ s ∈ Draft.rangeTexts entries, (VersionRange.ofText? s).isSome) →
      ∃ g, CallGraph.ofValue (Draft.ofEntries product version entries).build = .ok g ∧
        g.Tells product version entries) ∧
    ((∃ s ∈ Draft.rangeTexts entries, VersionRange.ofText? s = none) →
      ∃ s, (Draft.rangeTexts entries).find? (fun s => (VersionRange.ofText? s).isNone) = some s ∧
        CallGraph.ofValue (Draft.ofEntries product version entries).build
          = .error (.mismatch (.badVersionRange s))) := by
  obtain ⟨types, hread, hnamespaces, htypes⟩ := Decode.map_typeMembers (Draft.typesOf entries)
  have hvalue := Decode.ofValue_ofEntries hproduct hversion hgenerator (Draft.timeOf_le htimes) hread
  constructor
  · intro haccepted
    have hnone : (Draft.rangeTexts entries).find? Decode.refused = none := by
      rw [List.find?_eq_none]
      intro s hs
      simp [Decode.refused, Option.isSome_iff_ne_none.mp (haccepted s hs)]
    rw [hnone] at hvalue
    refine ⟨_, hvalue, ?_⟩
    exact {
      product := rfl
      version := rfl
      forge := rfl
      generator := rfl
      timestamp := rfl
      unknown := by
        intro h
        simp [Draft.timeOf, h, CallGraph.millis]
      dependencySets := by
        refine List.map_congr_left fun d hd => ?_
        rw [Decode.map_rangeOf fun s hs => haccepted s (List.mem_flatMap.mpr ⟨d, hd, hs⟩)]
      namespaces := hnamespaces
      types := by
        intro ns
        rw [List.mem_map, Option.isSome_iff_exists]
        constructor
        · rintro ⟨⟨ns', t⟩, hmem, rfl⟩
          obtain ⟨methods, hlast, -⟩ := (htypes _ _).mp hmem
          exact ⟨methods, hlast⟩
        · rintro ⟨methods, hlast⟩
          exact ⟨(ns, _), (htypes _ _).mpr ⟨methods, hlast, rfl⟩, rfl⟩
      type := by
        intro ns t hmem
        obtain ⟨methods, hlast, rfl⟩ := (htypes _ _).mp hmem
        exact ⟨methods, hlast, Decode.builtType_tells ns methods⟩
      internalCalls := rfl
      externalCalls := rfl }
  · rintro ⟨s, hs, hrefused⟩
    cases hfind : (Draft.rangeTexts entries).find? Decode.refused with
    | none =>
      have hs := List.find?_eq_none.mp hfind s hs
      rw [Decode.refused, hrefused] at hs
      exact absurd rfl hs
    | some first =>
      rw [hfind] at hvalue
      exact ⟨first, hfind, hvalue⟩

/-- A row that gives a generator, a time, a type and a method twice. -/
def Draft.repeating : List Draft.Entry :=
  [.generator "WALA", .generator "OPAL", .timestamp 5, .timestamp 7,
    .dependency "g:a" ["[1..2]", "[3]"], .dependency "g:b" [],
    .type "/n/C" [(⟨5, by decide⟩, "/n/C.a()V")],
    .type "/n/C" [(⟨6, by decide⟩, "/n/C.b()V"), (⟨6, by decide⟩, "/n/C.c()V")],
    .call ⟨6, by decide⟩ ⟨6, by decide⟩, .externalCall ⟨6, by decide⟩ "//o/C.d()V" .null]

theorem ofValue_build_repeating :
    (∃ g, CallGraph.ofValue (Draft.ofEntries "p" "1" Draft.repeating).build = .ok g ∧
      g.Tells "p" "1" Draft.repeating ∧ g.timestamp = some 7 ∧
      ("6", "/n/C.c()V") ∈ g.methods) ∧
    CallGraph.ofValue (Draft.ofEntries "p" "1" [.dependency "g:a" ["[1]", "2"]]).build
      = .error (.mismatch (.badVersionRange "2")) := by
  constructor
  · obtain ⟨g, hread, htells⟩ := (@ofValue_build "p" "1" Draft.repeating (by decide) (by decide)
      (by decide) (by decide)).1 (by decide +kernel)
    refine ⟨g, hread, htells, htells.timestamp, ?_⟩
    have hclass : "/n/C" ∈ g.types.map (·.1) := htells.types.mpr (by decide)
    obtain ⟨⟨ns, t⟩, hmem, hns⟩ := List.mem_map.mp hclass
    obtain rfl : ns = "/n/C" := hns
    obtain ⟨methods, hlast, ht⟩ := htells.type hmem
    obtain rfl := Option.some.inj hlast
    refine List.mem_flatMap.mpr ⟨_, hmem, ht.methods.mpr ⟨⟨6, by decide⟩, ?_⟩⟩
    decide +kernel
  · obtain ⟨s, hfind, hread⟩ := (@ofValue_build "p" "1" [.dependency "g:a" ["[1]", "2"]]
      (by decide) (by decide) (by decide) (by decide)).2 ⟨"2", by decide, by decide +kernel⟩
    have htwo : (Draft.rangeTexts [.dependency "g:a" ["[1]", "2"]]).find?
        (fun s => (VersionRange.ofText? s).isNone) = some "2" := by decide +kernel
    obtain rfl := Option.some.inj (htwo.symm.trans hfind)
    exact hread

end CallArchive
