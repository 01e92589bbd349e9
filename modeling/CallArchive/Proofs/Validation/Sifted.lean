import CallArchive.Proofs.Validation.Checked
import Mathlib.Algebra.BigOperators.Group.List.Basic

/-!
# Which calls validation keeps, and what its report counts

A call is judged by the addresses of the methods under its local ids. It is kept if both ends pass
the rules (`Address.Keeps`), and otherwise dropped for one reason: an id without a method, or the
first rule that is broken, at the source before the target (`Address.Drops`). `Sifted` says what a
validated record has of the calls of its record in these terms.
-/

namespace CallArchive

/-! ## Judging a call -/

namespace Address

def Passes (product : String) (position : Position) (address : String) : Prop :=
  (checkNode product.toList position address.toList).isOk = true

def Fails (product : String) (position : Position) (address : String) (r : Rejection) : Prop :=
  checkNode product.toList position address.toList = .error r

/-- There are addresses for both ends, and both pass. -/
def Keeps (product : String) (sources targets : List String) : Prop :=
  ∃ s ∈ sources, ∃ t ∈ targets, Passes product .source s ∧ Passes product .target t

/-- There is no address for an end, or `r` is why the source fails, or the target after it. -/
def Drops (product : String) (sources targets : List String) (r : Rejection) : Prop :=
  r = .unknownLocalId ∧ (sources = [] ∨ targets = []) ∨
    ∃ s ∈ sources, ∃ t ∈ targets,
      Fails product .source s r ∨ Passes product .source s ∧ Fails product .target t r

variable {product : String} {position : Position} {sources targets : List String} {r : Rejection}

instance : DecidablePred (Passes product position) := fun _ => inferInstanceAs (Decidable (_ = _))

instance {address : String} : Decidable (Fails product position address r) :=
  inferInstanceAs (Decidable (_ = _))

instance : Decidable (Keeps product sources targets) :=
  inferInstanceAs (Decidable (∃ s ∈ sources, ∃ t ∈ targets, _))

instance : Decidable (Drops product sources targets r) :=
  inferInstanceAs (Decidable (_ ∨ ∃ s ∈ sources, ∃ t ∈ targets, _))

theorem passes_iff {address : String} : Passes product position address ↔
    ∃ a, checkNode product.toList position address.toList = .ok a := by
  unfold Passes
  cases checkNode product.toList position address.toList <;> simp [Except.isOk, Except.toBool]

theorem checkArc_error_iff {product source target : List Char} {r : Rejection} :
    checkArc product source target = .error r ↔ checkNode product .source source = .error r ∨
      (∃ a, checkNode product .source source = .ok a) ∧
        checkNode product .target target = .error r := by
  unfold checkArc
  cases checkNode product .source source with
  | error e => simp [bind, Except.bind]
  | ok a =>
    cases checkNode product .target target with
    | error e => simp [bind, Except.bind]
    | ok b => simp [bind, Except.bind, pure, Except.pure]

/-- One address at most for each end: what is kept is what `checkArc` lets pass. -/
theorem keeps_toList {source target : Option String} :
    Keeps product source.toList target.toList ↔ ∃ s t ends, source = some s ∧ target = some t ∧
      checkArc product.toList s.toList t.toList = .ok ends := by
  simp only [Keeps, Option.mem_toList, passes_iff, checkArc_ok_iff]
  constructor
  · rintro ⟨s, hs, t, ht, ⟨a, ha⟩, b, hb⟩
    exact ⟨s, t, (a, b), hs, ht, ha, hb⟩
  · rintro ⟨s, t, ends, hs, ht, ha, hb⟩
    exact ⟨s, hs, t, ht, ⟨_, ha⟩, _, hb⟩

theorem drops_toList {source target : Option String} :
    Drops product source.toList target.toList r ↔
      r = .unknownLocalId ∧ (source = none ∨ target = none) ∨ ∃ s t, source = some s ∧
        target = some t ∧ checkArc product.toList s.toList t.toList = .error r := by
  simp only [Drops, Option.mem_toList, Option.toList_eq_nil_iff, passes_iff, Fails,
    checkArc_error_iff]
  constructor
  · rintro (h | ⟨s, hs, t, ht, h⟩)
    · exact .inl h
    · exact .inr ⟨s, t, hs, ht, h⟩
  · rintro (h | ⟨s, t, hs, ht, h⟩)
    · exact .inl h
    · exact .inr ⟨s, hs, t, ht, h⟩

end Address

/-! ## Reports -/

namespace ArcReport

theorem rejectedCount_eq (r : ArcReport) :
    r.rejectedCount = (Rejection.all.map r.rejected.count).sum :=
  Tally.total_eq_sum _ _

/-- Every arc is counted as accepted or under a reason. -/
def Balanced (r : ArcReport) : Prop := r.total = r.accepted + r.rejectedCount

theorem balanced_empty : Balanced empty := rfl

theorem Balanced.accept {r : ArcReport} (h : r.Balanced) : r.accept.Balanced := by
  have hcount : r.accept.rejectedCount = r.rejectedCount := rfl
  unfold Balanced at h ⊢
  rw [hcount]
  show r.total + 1 = r.accepted + 1 + r.rejectedCount
  omega

theorem rejectedCount_reject (r : ArcReport) (reason : Rejection) :
    (r.reject reason).rejectedCount = r.rejectedCount + 1 := by
  rw [rejectedCount_eq, rejectedCount_eq]
  cases reason <;> simp [Rejection.all, reject, Tally.add] <;> omega

theorem Balanced.reject {r : ArcReport} (h : r.Balanced) (reason : Rejection) :
    (r.reject reason).Balanced := by
  unfold Balanced at h ⊢
  rw [rejectedCount_reject]
  show r.total + 1 = r.accepted + (r.rejectedCount + 1)
  omega

end ArcReport

namespace CallGraph

/-! ## Sifting -/

section Sift

variable {α β : Type} {check : α → Except Rejection β}

theorem balanced_sift {report : ArcReport} (h : report.Balanced) (cs : List α) :
    (sift check report cs).2.Balanced := by
  induction cs generalizing report with
  | nil => exact h
  | cons c cs ih =>
    cases hc : check c with
    | error reason =>
      simp only [sift, hc]
      exact ih (h.reject reason)
    | ok arc =>
      simp only [sift, hc]
      exact ih h.accept

theorem total_sift (report : ArcReport) (cs : List α) :
    (sift check report cs).2.total = report.total + cs.length := by
  induction cs generalizing report with
  | nil => rfl
  | cons c cs ih =>
    cases hc : check c with
    | error reason =>
      simp only [sift, hc, ih, List.length_cons, ArcReport.reject]
      omega
    | ok arc =>
      simp only [sift, hc, ih, List.length_cons, ArcReport.accept]
      omega

/-- Under a reason the report counts the calls that are dropped for it. -/
theorem rejected_sift {r : Rejection} {drops : α → Prop} [DecidablePred drops]
    (h : ∀ c, check c = .error r ↔ drops c) (report : ArcReport) (cs : List α) :
    (sift check report cs).2.rejected.count r = report.rejected.count r + cs.countP (drops ·) := by
  induction cs generalizing report with
  | nil => rfl
  | cons c cs ih =>
    have hdrop : drops c ↔ check c = .error r := (h c).symm
    cases hc : check c with
    | error reason =>
      rw [hc, Except.error.injEq, eq_comm] at hdrop
      simp only [sift, hc, ih, ArcReport.reject, Tally.add, List.countP_cons, hdrop,
        decide_eq_true_eq]
      split <;> omega
    | ok arc =>
      have hkept : ¬ drops c := by simp [hdrop, hc]
      simp only [sift, hc, ih, ArcReport.accept, List.countP_cons, hkept]
      rfl

theorem arcs_sift {keeps : α → Prop} [DecidablePred keeps] {arc : α → β}
    (h : ∀ c b, check c = .ok b ↔ keeps c ∧ b = arc c) (report : ArcReport) (cs : List α) :
    (sift check report cs).1 = (cs.filter (keeps ·)).map arc := by
  induction cs generalizing report with
  | nil => rfl
  | cons c cs ih =>
    cases hc : check c with
    | error reason =>
      have hdrop : ¬ keeps c := by
        intro hk
        cases ((h c (arc c)).mpr ⟨hk, rfl⟩).symm.trans hc
      simp only [sift, hc, ih, List.filter_cons, hdrop, decide_false]
      rfl
    | ok b =>
      obtain ⟨hk, rfl⟩ := (h c b).mp hc
      simp only [sift, hc, ih, List.filter_cons, hk, decide_true, if_true, List.map_cons]

end Sift

/-! ## Calls and methods -/

/-- The addresses of the methods whose spelled local id is this one. -/
def addresses (g : CallGraph) (id : LocalId) : List String :=
  (g.methods.filter fun m => LocalId.ofText? m.1 = some id).map Prod.snd

/-- What validation has of the calls: the arcs are those that are kept, in order and with all that
repeat, and the report counts each call once. -/
structure Sifted (g : CallGraph) (v : Validated) : Prop where
  internalArcs : v.internalArcs =
    (g.internalCalls.filter fun c => Address.Keeps g.product (g.addresses c.1) (g.addresses c.2)).map
      fun c => ⟨c.1, c.2⟩
  externalArcs : v.externalArcs =
    (g.externalCalls.filter fun c => Address.Keeps g.product (g.addresses c.source) [c.target]).map
      fun c => ⟨c.source, c.target, c.metadata⟩
  total : v.report.total = g.internalCalls.length + g.externalCalls.length
  accepted : v.report.accepted = v.internalArcs.length + v.externalArcs.length
  rejected : ∀ r, v.report.rejected.count r =
    (g.internalCalls.countP fun c =>
      Address.Drops g.product (g.addresses c.1) (g.addresses c.2) r) +
    (g.externalCalls.countP fun c => Address.Drops g.product (g.addresses c.source) [c.target] r)
  balanced : v.report.total = v.report.accepted + v.report.rejectedCount

theorem filter_eq_find? {table : MethodTable} (h : (table.map (·.id)).Nodup) (id : LocalId) :
    table.filter (fun m => m.id = id) = (table.find? id).toList := by
  induction table with
  | nil => rfl
  | cons m table ih =>
    obtain ⟨hm, hrest⟩ := List.nodup_cons.mp h
    unfold MethodTable.find? at ih ⊢
    by_cases hid : m.id = id
    · have hnone : table.filter (fun m => m.id = id) = [] := by
        rw [List.filter_eq_nil_iff]
        intro n hn heq
        exact hm (List.mem_map.mpr ⟨n, hn, (of_decide_eq_true heq).trans hid.symm⟩)
      simp [hid, hnone]
    · simp [hid, ih hrest]

namespace Validates

variable {g : CallGraph} {v : Validated}

/-- Under a local id of the record stands one method at most. -/
theorem addresses_eq (h : Validates g v) (id : LocalId) :
    g.addresses id = (MethodTable.address? v.methods id).toList := by
  have houtlines := congrArg (fun ms => (ms.filter fun m => m.1 = some id).map Prod.snd) h.methods_eq
  simp only [List.filter_map, List.map_map, methodOutline, Method.outline, Function.comp_def,
    Option.some.injEq] at houtlines
  have hmethods : g.addresses id = (v.methods.filter fun m => m.id = id).map (·.address) :=
    houtlines.symm
  rw [hmethods, filter_eq_find? h.ids_nodup, MethodTable.address?]
  cases MethodTable.find? v.methods id <;> rfl

/-- Why a call inside the record is dropped, or that it is kept. -/
theorem checkInternal_iff (h : Validates g v) (c : LocalId × LocalId) :
    (∀ arc, checkInternal g.product v.methods c = .ok arc ↔
      Address.Keeps g.product (g.addresses c.1) (g.addresses c.2) ∧ arc = ⟨c.1, c.2⟩) ∧
    ∀ r, checkInternal g.product v.methods c = .error r ↔
      Address.Drops g.product (g.addresses c.1) (g.addresses c.2) r := by
  simp only [h.addresses_eq, Address.keeps_toList, Address.drops_toList]
  unfold checkInternal
  cases MethodTable.address? v.methods c.1 with
  | none => simp [eq_comm]
  | some s =>
    cases MethodTable.address? v.methods c.2 with
    | none => simp [eq_comm]
    | some t =>
      cases hends : Address.checkArc g.product.toList s.toList t.toList with
      | error r => simp [hends]
      | ok ends => simp [hends, eq_comm, Prod.ext_iff]

theorem checkExternal_iff (h : Validates g v) (c : ExternalCall) :
    (∀ arc, checkExternal g.product v.methods c = .ok arc ↔
      Address.Keeps g.product (g.addresses c.source) [c.target] ∧
        arc = ⟨c.source, c.target, c.metadata⟩) ∧
    ∀ r, checkExternal g.product v.methods c = .error r ↔
      Address.Drops g.product (g.addresses c.source) [c.target] r := by
  have htarget : [c.target] = (some c.target).toList := rfl
  simp only [h.addresses_eq, htarget, Address.keeps_toList, Address.drops_toList]
  unfold checkExternal
  cases MethodTable.address? v.methods c.source with
  | none => simp [eq_comm]
  | some s =>
    cases hends : Address.checkArc g.product.toList s.toList c.target.toList with
    | error r => simp [hends]
    | ok ends =>
      have htext : ends.2.text = c.target :=
        (Address.endsArc_of_checkNode (Address.checkArc_ok_iff.mp hends).2).1
      simp [hends, htext, eq_comm, Prod.ext_iff]

end Validates

/-! ## Validation -/

theorem report_eq {g : CallGraph} {v : Validated} (h : g.validate = .ok v) :
    v.report = (sift (checkExternal g.product v.methods)
      (sift (checkInternal g.product v.methods) .empty g.internalCalls).2 g.externalCalls).2 := by
  simp only [validate, bind_ok_iff, Prod.exists] at h
  obtain ⟨dependencies, -, modules, table, htypes, h⟩ := h
  obtain rfl := Except.ok.inj h
  have htable := (validateTypes_ok htypes).2.1
  rw [List.nil_append] at htable
  subst htable
  rfl

/-- Validation keeps the calls that pass, and its report adds up. -/
theorem validate_sifted {g : CallGraph} {v : Validated} (h : g.validate = .ok v) : Sifted g v := by
  have hv := validate_ok h
  have hinternal := hv.internalArcs_eq
  have hexternal := hv.externalArcs_eq
  rw [← sift_arcs _ .empty] at hinternal
  rw [← sift_arcs _ (sift (checkInternal g.product v.methods) .empty g.internalCalls).2] at hexternal
  have hreport := report_eq h
  refine ⟨?_, ?_, ?_, accepted_validate h, fun r => ?_, ?_⟩
  · rw [hinternal]
    exact arcs_sift (fun c => (hv.checkInternal_iff c).1) _ _
  · rw [hexternal]
    exact arcs_sift (fun c => (hv.checkExternal_iff c).1) _ _
  · rw [hreport, total_sift, total_sift]
    exact congrArg (· + _) (Nat.zero_add _)
  · rw [hreport, rejected_sift fun c => (hv.checkExternal_iff c).2 r,
      rejected_sift fun c => (hv.checkInternal_iff c).2 r]
    exact congrArg (· + _) (Nat.zero_add _)
  · rw [hreport]
    exact balanced_sift (balanced_sift ArcReport.balanced_empty _) _

def digitId (n : Fin 10) : LocalId := ⟨n, Nat.lt_trans n.isLt (by decide)⟩

/-- Calls that repeat, that name an id without a method, from a type, and to the package itself. -/
def mixedCalls : CallGraph where
  product := "p"
  forge := "mvn"
  generator := "g"
  version := "1"
  timestamp := none
  dependencySets := []
  types := [("/n", ⟨[("0", "/n/C.m()V"), (" +01", "/n/C.k()V"), ("2", "/n/C")], [], [], none⟩)]
  internalCalls := [(digitId 0, digitId 1), (digitId 2, digitId 1), (digitId 0, digitId 1),
    (digitId 0, digitId 7)]
  externalCalls := [⟨digitId 1, "//q/n/D.f()V", []⟩, ⟨digitId 1, "//p/n/D.f()V", []⟩]

theorem validate_sifted_mixedCalls :
    ∃ v, mixedCalls.validate = .ok v ∧ Sifted mixedCalls v ∧ v.internalArcs.length = 2 ∧
      v.externalArcs.length = 1 ∧ v.report.rejected.count .notCallable = 1 ∧
      v.report.rejected.count .unknownLocalId = 1 ∧ v.report.rejected.count .selfProduct = 1 := by
  obtain ⟨v, hv⟩ := ok_of_isSome (x := mixedCalls.validate) (by decide +kernel)
  have h := validate_sifted hv
  refine ⟨v, hv, h, ?_⟩
  rw [h.internalArcs, h.externalArcs, h.rejected, h.rejected, h.rejected]
  decide +kernel

end CallGraph

end CallArchive
