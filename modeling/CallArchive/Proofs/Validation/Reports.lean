import CallArchive.Proofs.Validation.Sifted
import Mathlib.Data.List.Induction
import Mathlib.Logic.Function.Basic

/-!
# Reports that are filled and merged

Verdicts on arcs are noted in reports, and reports are merged into others, in any order
(`Reporting.run`). Kinds of reports that agree on each operation (`Reporting.Follows`) agree on every
run. A list of verdicts is a report too, so an `ArcReport` is that of all verdicts that have come to
it, whatever the way (`ArcReport.follows_ofVerdicts`). A `CountedReport` has its counts in a list and
adds to them one by one; that list is the one an `ArcReport` shows (`ArcReport.follows_counted`).
-/

namespace CallArchive

/-- What is found out about an arc. -/
inductive Verdict where
  | accepted
  | rejected (reason : Rejection)
  deriving DecidableEq, Repr

/-! ## Kinds of reports -/

/-- What can be done with reports of one kind. -/
structure Reporting (ρ : Type) where
  empty : ρ
  accept : ρ → ρ
  reject : ρ → Rejection → ρ
  merge : ρ → ρ → ρ

/-- A verdict is noted in report `i`, or report `j` is merged into it. -/
inductive ReportStep (ι : Type) where
  | note (i : ι) (v : Verdict)
  | merge (i j : ι)
  deriving DecidableEq, Repr

/-- Parts of some verdicts, in the order and the nesting in which the reports of them are merged. -/
inductive Merging where
  | part (vs : List Verdict)
  | join (m n : Merging)
  deriving DecidableEq, Repr

def Merging.verdicts : Merging → List Verdict
  | .part vs => vs
  | .join m n => m.verdicts ++ n.verdicts

namespace Reporting

variable {ρ σ ι : Type}

def note (R : Reporting ρ) (r : ρ) : Verdict → ρ
  | .accepted => R.accept r
  | .rejected reason => R.reject r reason

def report (R : Reporting ρ) (vs : List Verdict) : ρ := vs.foldl R.note R.empty

def merged (R : Reporting ρ) : Merging → ρ
  | .part vs => R.report vs
  | .join m n => R.merge (R.merged m) (R.merged n)

def perform [DecidableEq ι] (R : Reporting ρ) (rs : ι → ρ) : ReportStep ι → ι → ρ
  | .note i v => Function.update rs i (R.note (rs i) v)
  | .merge i j => Function.update rs i (R.merge (rs i) (rs j))

/-- All reports after some steps. They are empty at first. -/
def run [DecidableEq ι] (R : Reporting ρ) (steps : List (ReportStep ι)) : ι → ρ :=
  steps.foldl R.perform fun _ => R.empty

/-- Where a report of the first kind is `r`, that of the second is `f r`. -/
structure Follows (R : Reporting ρ) (S : Reporting σ) (f : ρ → σ) : Prop where
  empty : f R.empty = S.empty
  accept : ∀ r, f (R.accept r) = S.accept (f r)
  reject : ∀ r reason, f (R.reject r reason) = S.reject (f r) reason
  merge : ∀ r s, f (R.merge r s) = S.merge (f r) (f s)

namespace Follows

variable {R : Reporting ρ} {S : Reporting σ} {f : ρ → σ}

theorem note (h : Follows R S f) (r : ρ) (v : Verdict) : f (R.note r v) = S.note (f r) v := by
  cases v with
  | accepted => exact h.accept r
  | rejected reason => exact h.reject r reason

theorem report (h : Follows R S f) (vs : List Verdict) : f (R.report vs) = S.report vs := by
  unfold Reporting.report
  rw [← h.empty]
  exact (List.foldl_hom f fun r v => (h.note r v).symm).symm

theorem merged (h : Follows R S f) (m : Merging) : f (R.merged m) = S.merged m := by
  induction m with
  | part vs => exact h.report vs
  | join m n ihm ihn => rw [Reporting.merged, h.merge, ihm, ihn, Reporting.merged]

variable [DecidableEq ι]

theorem perform (h : Follows R S f) (rs : ι → ρ) (step : ReportStep ι) :
    f ∘ R.perform rs step = S.perform (f ∘ rs) step := by
  cases step with
  | note i v =>
    rw [Reporting.perform, Function.comp_update, h.note]
    rfl
  | merge i j =>
    rw [Reporting.perform, Function.comp_update, h.merge]
    rfl

theorem run (h : Follows R S f) (steps : List (ReportStep ι)) : f ∘ R.run steps = S.run steps := by
  have hempty : f ∘ (fun _ : ι => R.empty) = fun _ => S.empty := funext fun _ => h.empty
  unfold Reporting.run
  rw [← hempty]
  exact (List.foldl_hom (fun rs : ι → ρ => f ∘ rs) fun rs step => (h.perform rs step).symm).symm

end Follows

/-! ## Lists of verdicts -/

/-- The verdicts themselves, in the order in which they come. -/
def log : Reporting (List Verdict) where
  empty := []
  accept vs := vs ++ [.accepted]
  reject vs reason := vs ++ [.rejected reason]
  merge := (· ++ ·)

theorem note_log (vs : List Verdict) (v : Verdict) : log.note vs v = vs ++ [v] := by
  cases v <;> rfl

theorem report_log (vs : List Verdict) : log.report vs = vs := by
  have hfrom : ∀ before, vs.foldl log.note before = before ++ vs := by
    induction vs with
    | nil => exact fun before => (List.append_nil before).symm
    | cons v vs ih =>
      intro before
      rw [List.foldl_cons, ih, note_log, List.append_assoc, List.singleton_append]
  exact hfrom []

theorem merged_log (m : Merging) : log.merged m = m.verdicts := by
  induction m with
  | part vs => exact report_log vs
  | join m n ihm ihn =>
    rw [merged, ihm, ihn]
    rfl

end Reporting

namespace ArcReport

def reporting : Reporting ArcReport := ⟨empty, accept, reject, merge⟩

/-- What is to be reported of some verdicts. -/
def ofVerdicts (vs : List Verdict) : ArcReport :=
  ⟨vs.length, vs.count .accepted, ⟨fun reason => vs.count (.rejected reason)⟩⟩

theorem follows_ofVerdicts : Reporting.log.Follows reporting ofVerdicts where
  empty := rfl
  accept vs := by
    simp [Reporting.log, ofVerdicts, reporting, accept, List.count_append]
  reject vs reason := by
    have hcount (x : Rejection) : (vs ++ [Verdict.rejected reason]).count (.rejected x)
        = if x = reason then vs.count (.rejected x) + 1 else vs.count (.rejected x) := by
      rw [List.count_append, List.count_singleton]
      by_cases hx : x = reason
      · simp [hx]
      · simp [hx, Ne.symm hx]
    simp [Reporting.log, ofVerdicts, reporting, reject, Tally.add, hcount]
  merge vs ws := by
    simp [Reporting.log, ofVerdicts, reporting, merge, Tally.merge, List.count_append]

theorem report_eq (vs : List Verdict) : reporting.report vs = ofVerdicts vs := by
  rw [← follows_ofVerdicts.report, Reporting.report_log]

/-- The order of the verdicts does not matter. -/
theorem ofVerdicts_perm {vs ws : List Verdict} (h : vs.Perm ws) : ofVerdicts vs = ofVerdicts ws := by
  unfold ofVerdicts
  simp only [h.length_eq, h.count_eq]

theorem balanced_ofVerdicts (vs : List Verdict) : (ofVerdicts vs).Balanced := by
  induction vs using List.reverseRecOn with
  | nil => exact balanced_empty
  | append_singleton vs v ih =>
    rw [← Reporting.note_log, follows_ofVerdicts.note]
    cases v with
    | accepted => exact ih.accept
    | rejected reason => exact ih.reject reason

end ArcReport

/-! ## Tallies and their entries -/

namespace Tally

variable {κ : Type} {kinds : List κ} {k : κ} (t : Tally κ)

theorem entries_cons_of_zero (h : t.count k = 0) : t.entries (k :: kinds) = t.entries kinds := by
  simp [entries, h]

theorem entries_cons_of_ne (h : t.count k ≠ 0) :
    t.entries (k :: kinds) = (k, t.count k) :: t.entries kinds := by
  simp [entries, h]

theorem mem_of_mem_entries {p : κ × Nat} (h : p ∈ t.entries kinds) : p.1 ∈ kinds := by
  obtain ⟨k, hk, rfl⟩ := List.mem_map.mp h
  exact List.mem_of_mem_filter hk

theorem entries_congr {u : Tally κ} (h : ∀ k ∈ kinds, t.count k = u.count k) :
    t.entries kinds = u.entries kinds := by
  unfold entries
  rw [List.filter_congr fun k hk => congrArg (· != 0) (h k hk)]
  exact List.map_congr_left fun k hk => congrArg (Prod.mk k) (h k (List.mem_of_mem_filter hk))

variable [DecidableEq κ]

/-- A number of things of one kind. -/
def times (k : κ) (n : Nat) : Tally κ := ⟨fun x => if x = k then n else 0⟩

def ofEntries : List (κ × Nat) → Tally κ
  | [] => empty
  | (k, n) :: rest => (times k n).merge (ofEntries rest)

theorem count_merge_times (k x : κ) (n : Nat) :
    (t.merge (times k n)).count x = t.count x + if x = k then n else 0 := rfl

theorem add_eq_merge (k : κ) : t.add k = t.merge (times k 1) :=
  ext fun x => by
    rw [count_merge_times]
    change (if x = k then t.count x + 1 else t.count x) = _
    split <;> rfl

theorem count_ofEntries_entries (h : kinds.Nodup) (x : κ) :
    (ofEntries (t.entries kinds)).count x = if x ∈ kinds then t.count x else 0 := by
  induction kinds with
  | nil => rfl
  | cons k ks ih =>
    obtain ⟨hk, hks⟩ := List.nodup_cons.mp h
    by_cases hzero : t.count k = 0
    · rw [entries_cons_of_zero _ hzero, ih hks]
      by_cases hx : x = k
      · rw [hx, if_neg hk, if_pos List.mem_cons_self, hzero]
      · simp [hx]
    · rw [entries_cons_of_ne _ hzero]
      change (if x = k then t.count k else 0) + (ofEntries (t.entries ks)).count x = _
      rw [ih hks]
      by_cases hx : x = k
      · simp [hx, hk]
      · simp [hx]

end Tally

/-! ## Counts in a list -/

/-- Where a reason stands among all. -/
def Rejection.place (r : Rejection) : Nat := all.idxOf r

/-- A report with its counts in a list, in the order of the reasons. -/
structure CountedReport where
  total : Nat
  accepted : Nat
  rejected : List (Rejection × Nat)
  deriving DecidableEq, Repr

namespace CountedReport

/-- Adds to the count of a reason, which comes to its place when it is first counted. -/
def addCount (r : Rejection) (n : Nat) : List (Rejection × Nat) → List (Rejection × Nat)
  | [] => [(r, n)]
  | (q, m) :: rest =>
    if r = q then (q, m + n) :: rest
    else if r.place < q.place then (r, n) :: (q, m) :: rest
    else (q, m) :: addCount r n rest

def addCounts (counts more : List (Rejection × Nat)) : List (Rejection × Nat) :=
  more.foldl (fun counts p => addCount p.1 p.2 counts) counts

def reporting : Reporting CountedReport where
  empty := ⟨0, 0, []⟩
  accept r := ⟨r.total + 1, r.accepted + 1, r.rejected⟩
  reject r reason := ⟨r.total + 1, r.accepted, addCount reason 1 r.rejected⟩
  merge r s := ⟨r.total + s.total, r.accepted + s.accepted, addCounts r.rejected s.rejected⟩

variable {r : Rejection} {n : Nat}

theorem addCount_of_place {counts : List (Rejection × Nat)}
    (h : ∀ p ∈ counts, r.place < p.1.place) : addCount r n counts = (r, n) :: counts := by
  cases counts with
  | nil => rfl
  | cons p counts =>
    have hp := h p List.mem_cons_self
    rw [addCount, if_neg, if_pos hp]
    exact fun heq => Nat.lt_irrefl _ (heq ▸ hp)

/-- An entry is found or made where the tally has it. -/
theorem addCount_entries {kinds : List Rejection}
    (hkinds : kinds.Pairwise fun q r => q.place < r.place) (hr : r ∈ kinds) (hn : n ≠ 0)
    (t : Tally Rejection) :
    addCount r n (t.entries kinds) = (t.merge (.times r n)).entries kinds := by
  induction kinds with
  | nil => cases hr
  | cons k ks ih =>
    obtain ⟨hk, hks⟩ := List.pairwise_cons.mp hkinds
    -- a reason that is not counted yet has no entry to compare places with, so it is asked first
    -- whether this is its place, and then whether there is an entry
    by_cases hkr : k = r
    · subst hkr
      have hrest : ∀ x ∈ ks, t.count x = (t.merge (.times k n)).count x := fun x hx => by
        rw [t.count_merge_times, if_neg fun heq => Nat.lt_irrefl _ (heq ▸ hk x hx), Nat.add_zero]
      have hcount : (t.merge (.times k n)).count k = t.count k + n := by
        rw [t.count_merge_times, if_pos rfl]
      have hne : (t.merge (.times k n)).count k ≠ 0 := by omega
      rw [Tally.entries_cons_of_ne _ hne, hcount, ← t.entries_congr hrest]
      by_cases hzero : t.count k = 0
      · rw [Tally.entries_cons_of_zero _ hzero, hzero, Nat.zero_add]
        exact addCount_of_place fun p hp => hk p.1 (t.mem_of_mem_entries hp)
      · rw [Tally.entries_cons_of_ne _ hzero, addCount, if_pos rfl]
    · have hmem : r ∈ ks := (List.mem_cons.mp hr).resolve_left (Ne.symm hkr)
      have hcount : (t.merge (.times r n)).count k = t.count k := by
        rw [t.count_merge_times, if_neg hkr, Nat.add_zero]
      by_cases hzero : t.count k = 0
      · rw [Tally.entries_cons_of_zero _ hzero, Tally.entries_cons_of_zero _ (hcount.trans hzero),
          ih hks hmem]
      · rw [Tally.entries_cons_of_ne _ hzero, Tally.entries_cons_of_ne _ (hcount ▸ hzero), addCount,
          if_neg (Ne.symm hkr), if_neg (Nat.lt_asymm (hk r hmem)), ih hks hmem, hcount]

/-- The reasons are listed in the order of the checks. -/
theorem addCount_rejections (hn : n ≠ 0) (t : Tally Rejection) :
    addCount r n (t.entries Rejection.all) = (t.merge (.times r n)).entries Rejection.all :=
  addCount_entries (by decide) (Rejection.mem_all r) hn t

theorem addCounts_rejections (t : Tally Rejection) {more : List (Rejection × Nat)}
    (h : ∀ p ∈ more, p.2 ≠ 0) : addCounts (t.entries Rejection.all) more
      = (t.merge (.ofEntries more)).entries Rejection.all := by
  induction more generalizing t with
  | nil => rfl
  | cons p more ih =>
    obtain ⟨hp, hmore⟩ := List.forall_mem_cons.mp h
    have hrest := ih (t.merge (.times p.1 p.2)) hmore
    rw [Tally.merge_assoc, ← addCount_rejections hp] at hrest
    exact hrest

end CountedReport

namespace ArcReport

/-- The report with the counts that it shows. -/
def counted (r : ArcReport) : CountedReport := ⟨r.total, r.accepted, r.rejections⟩

theorem rejections_reject (r : ArcReport) (reason : Rejection) :
    (r.reject reason).rejections = CountedReport.addCount reason 1 r.rejections := by
  refine Eq.trans ?_ (CountedReport.addCount_rejections Nat.one_ne_zero r.rejected).symm
  rw [← Tally.add_eq_merge]
  rfl

theorem rejections_merge (r s : ArcReport) :
    (r.merge s).rejections = CountedReport.addCounts r.rejections s.rejections := by
  have hentries : Tally.ofEntries s.rejections = s.rejected := Tally.ext fun x => by
    have hnodup : Rejection.all.Nodup := by decide
    rw [rejections, Tally.count_ofEntries_entries s.rejected hnodup, if_pos (Rejection.mem_all x)]
  have hne : ∀ p ∈ s.rejections, p.2 ≠ 0 := fun _ => Tally.entries_ne_zero
  have hmore := CountedReport.addCounts_rejections r.rejected hne
  rw [hentries] at hmore
  exact hmore.symm

theorem follows_counted : reporting.Follows CountedReport.reporting counted where
  empty := rfl
  accept _ := rfl
  reject r reason := congrArg (CountedReport.mk _ _) (rejections_reject r reason)
  merge r s := congrArg (CountedReport.mk _ _) (rejections_merge r s)

/-! ## Every run and every split -/

/-- A report that comes about in any way is that of some verdicts, accounts for all of them, and is
shown without a count of zero. If verdicts are reported in parts, it does not matter how they are
distributed and in which order and nesting the reports of the parts are merged. -/
theorem reports_add_up (ι : Type) [DecidableEq ι] :
    (∀ (steps : List (ReportStep ι)) (i : ι), let r := reporting.run steps i
      let c := CountedReport.reporting.run steps i
      r = ofVerdicts (Reporting.log.run steps i) ∧ r.total = r.accepted + r.rejectedCount ∧
        c = r.counted ∧ ∀ p ∈ c.rejected, p.2 ≠ 0) ∧
    ∀ (vs : List Verdict) (m : Merging), m.verdicts.Perm vs →
      reporting.merged m = reporting.report vs ∧
        CountedReport.reporting.merged m = CountedReport.reporting.report vs := by
  refine ⟨fun steps i => ?_, fun vs m h => ?_⟩
  · have hverdicts : ofVerdicts (Reporting.log.run steps i) = reporting.run steps i :=
      congrFun (follows_ofVerdicts.run steps) i
    have hcounted : (reporting.run steps i).counted = CountedReport.reporting.run steps i :=
      congrFun (follows_counted.run steps) i
    refine ⟨hverdicts.symm, hverdicts ▸ balanced_ofVerdicts _, hcounted.symm, ?_⟩
    rw [← hcounted]
    exact fun p => Tally.entries_ne_zero
  · have hreport : reporting.merged m = reporting.report vs := by
      rw [← follows_ofVerdicts.merged, Reporting.merged_log, report_eq, ofVerdicts_perm h]
    exact ⟨hreport, by rw [← follows_counted.merged, hreport, follows_counted.report]⟩

/-- Two workers fill their reports, and a third report takes them up while they go on. -/
theorem reports_add_up_twoWorkers :
    let steps : List (ReportStep (Fin 3)) := [.note 0 .accepted, .note 1 (.rejected .notCallable),
      .merge 2 1, .note 0 (.rejected .malformed), .merge 2 0, .note 1 .accepted]
    let parts : Merging := .join (.part [.rejected .notCallable])
      (.join (.part []) (.part [.accepted, .rejected .malformed]))
    let whole : List Verdict := [.accepted, .rejected .notCallable, .rejected .malformed]
    CountedReport.reporting.run steps 2 = ⟨3, 1, [(.malformed, 1), (.notCallable, 1)]⟩ ∧
      reporting.run steps 2 = ofVerdicts (Reporting.log.run steps 2) ∧
      (reporting.run steps 1).total
        = (reporting.run steps 1).accepted + (reporting.run steps 1).rejectedCount ∧
      parts.verdicts.Perm whole ∧ reporting.merged parts = reporting.report whole ∧
      CountedReport.reporting.merged parts = CountedReport.reporting.run steps 2 := by
  intro steps parts whole
  obtain ⟨hruns, hsplits⟩ := reports_add_up (Fin 3)
  have hperm : parts.verdicts.Perm whole := by decide
  refine ⟨by decide, (hruns steps 2).1, (hruns steps 1).2.1, hperm, (hsplits whole parts hperm).1, ?_⟩
  rw [(hsplits whole parts hperm).2]
  decide

end ArcReport

end CallArchive
