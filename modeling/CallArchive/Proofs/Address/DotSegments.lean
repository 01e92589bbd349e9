import CallArchive.Address.DotSegments
import CallArchive.Proofs.Address.Escape

/-!
# What remains of a path without its dot segments

The segments that `removeDotSegments` leaves are segments of the path or empty, and none is a dot
segment (`exists_removeDotSegments`). So it changes exactly the paths with dot segments
(`removeDotSegments_eq_self_iff`), and keeps escapes well formed and in normal form.
-/

namespace CallArchive.Address

open Text

/-- The segments `.` and `..`. -/
def IsDotSegment (p : List Char) : Prop := p = dot ∨ p = dotDot

theorem not_isDotSegment_nil : ¬ IsDotSegment [] := by
  rintro (h | h) <;> cases h

theorem keepSegments_of_plain {segs : List (List Char)} (h : ∀ p ∈ segs, ¬ IsDotSegment p)
    (kept : List (List Char)) : keepSegments kept segs = (segs.reverse ++ kept, false) := by
  induction segs generalizing kept with
  | nil => rfl
  | cons p segs ih =>
    obtain ⟨hp, hsegs⟩ := List.forall_mem_cons.mp h
    obtain ⟨hdot, hdotDot⟩ := not_or.mp hp
    rw [keepSegments, if_neg hdot, if_neg hdotDot, ih hsegs, List.reverse_cons, List.append_assoc]
    rfl

theorem mem_keepSegments {segs kept : List (List Char)} {p : List Char}
    (h : p ∈ (keepSegments kept segs).1) : p ∈ kept ∨ p ∈ segs ∧ ¬ IsDotSegment p := by
  induction segs generalizing kept with
  | nil => exact .inl h
  | cons q segs ih =>
    rw [keepSegments] at h
    have hlater : p ∈ segs ∧ ¬ IsDotSegment p → p ∈ q :: segs ∧ ¬ IsDotSegment p :=
      And.imp_left (List.mem_cons_of_mem q)
    split at h
    · split at h
      · exact .inl h
      · exact (ih h).imp_right hlater
    split at h
    · split at h
      · exact .inl (List.mem_of_mem_tail h)
      · exact (ih h).imp List.mem_of_mem_tail hlater
    · next hdot hdotDot =>
      rcases ih h with hkept | hsegs
      · rcases List.mem_cons.mp hkept with rfl | hkept
        · exact .inr ⟨List.mem_cons_self, not_or.mpr ⟨hdot, hdotDot⟩⟩
        · exact .inl hkept
      · exact .inr (hlater hsegs)

theorem join_append_mark {mark : Char} {pieces : List (List Char)} (h : pieces ≠ []) :
    join mark pieces ++ [mark] = join mark (pieces ++ [[]]) := by
  induction pieces with
  | nil => exact absurd rfl h
  | cons p pieces ih =>
    cases pieces with
    | nil => simp [join]
    | cons q pieces =>
      have hrest := ih (List.cons_ne_nil q pieces)
      simp only [join, List.cons_append, List.append_assoc] at hrest ⊢
      rw [hrest]

/-- The segments that are left. After a final dot segment an empty one makes the final slash. -/
def remaining (r : List (List Char) × Bool) : List (List Char) :=
  r.1.reverse ++ if r.2 then [[]] else []

/-- The last segment of a path is kept or makes a slash. -/
theorem remaining_ne_nil {segs kept : List (List Char)} (h : segs = [] → kept ≠ []) :
    remaining (keepSegments kept segs) ≠ [] := by
  have hends (kept : List (List Char)) : remaining (kept, true) ≠ [] :=
    List.append_ne_nil_of_right_ne_nil _ (List.cons_ne_nil _ _)
  induction segs generalizing kept with
  | nil => simpa [keepSegments, remaining] using h rfl
  | cons p segs ih =>
    have hmore : ¬ segs.isEmpty = true → ∀ {kept : List (List Char)}, segs = [] → kept ≠ [] :=
      fun hne _ hnil => absurd (List.isEmpty_iff.mpr hnil) hne
    rw [keepSegments]
    split
    · split
      · exact hends _
      · next hne => exact ih (hmore hne)
    split
    · split
      · exact hends _
      · next hne => exact ih (hmore hne)
    · exact ih fun _ => List.cons_ne_nil p kept

theorem remaining_segments_ne_nil (body : List Char) :
    remaining (keepSegments [] (segments '/' body)) ≠ [] :=
  remaining_ne_nil fun hnil => absurd hnil (segments_ne_nil '/' body)

theorem removeDotSegments_eq_join (body : List Char) :
    removeDotSegments ('/' :: body)
      = '/' :: join '/' (remaining (keepSegments [] (segments '/' body))) := by
  have hne := remaining_segments_ne_nil body
  simp only [removeDotSegments]
  generalize keepSegments [] (segments '/' body) = result at hne ⊢
  obtain ⟨kept, ends⟩ := result
  cases ends with
  | false => simp [remaining]
  | true =>
    cases kept with
    | nil => rfl
    | cons p kept =>
      have hkept : (p :: kept).reverse ≠ [] := by simp
      rw [remaining, if_pos rfl, ← join_append_mark hkept]
      rfl

theorem exists_removeDotSegments (body : List Char) :
    ∃ pieces, removeDotSegments ('/' :: body) = '/' :: join '/' pieces ∧ pieces ≠ [] ∧
      ∀ p ∈ pieces, p = [] ∨ p ∈ segments '/' body ∧ ¬ IsDotSegment p := by
  refine ⟨_, removeDotSegments_eq_join body, remaining_segments_ne_nil body, fun p hp => ?_⟩
  rcases List.mem_append.mp hp with hp | hp
  · exact .inr ((mem_keepSegments (List.mem_reverse.mp hp)).resolve_left List.not_mem_nil)
  · split at hp
    · exact .inl (List.mem_singleton.mp hp)
    · cases hp

/-- None of the segments that are left is a dot segment. -/
theorem not_isDotSegment_removeDotSegments (body : List Char) :
    ∀ p ∈ segments '/' (removeDotSegments ('/' :: body)), ¬ IsDotSegment p := by
  obtain ⟨pieces, heq, hne, hpieces⟩ := exists_removeDotSegments body
  have hslash : ∀ q ∈ pieces, '/' ∉ q := fun q hq => by
    rcases hpieces q hq with rfl | ⟨hmem, -⟩
    · exact List.not_mem_nil
    · exact not_mem_of_mem_segments hmem
  rw [heq, segments, if_pos rfl, segments_join hslash hne]
  refine List.forall_mem_cons.mpr ⟨not_isDotSegment_nil, fun p hp => ?_⟩
  rcases hpieces p hp with rfl | ⟨-, hplain⟩
  · exact not_isDotSegment_nil
  · exact hplain

/-- A path stays as it is if it has no dot segments. -/
theorem removeDotSegments_eq_self_iff (body : List Char) :
    removeDotSegments ('/' :: body) = '/' :: body ↔ ∀ p ∈ segments '/' body, ¬ IsDotSegment p := by
  constructor
  · intro h p hp
    have hplain := not_isDotSegment_removeDotSegments body
    rw [h, segments, if_pos rfl] at hplain
    exact hplain p (List.mem_cons_of_mem _ hp)
  · intro h
    have hjoin := join_segments '/' body
    simp only [removeDotSegments, keepSegments_of_plain h]
    simpa using hjoin

theorem removeDotSegments_cases (path : List Char) :
    (∃ body, path = '/' :: body) ∨ removeDotSegments path = path := by
  unfold removeDotSegments
  split
  · exact .inl ⟨_, rfl⟩
  · exact .inr rfl

theorem wellFormed_removeDotSegments {path : List Char} (h : WellFormed path) :
    WellFormed (removeDotSegments path) := by
  rcases removeDotSegments_cases path with ⟨body, rfl⟩ | hself
  · have hbody : WellFormed body := (wellFormed_char (by decide)).mp h
    obtain ⟨pieces, heq, -, hpieces⟩ := exists_removeDotSegments body
    rw [heq]
    refine (wellFormed_char (by decide)).mpr ((wellFormed_join delimits_slash).mpr fun p hp => ?_)
    rcases hpieces p hp with rfl | ⟨hmem, -⟩
    · trivial
    · exact wellFormed_of_mem_segments delimits_slash hbody p hmem
  · rwa [hself]

/-- The segments of a text in normal form are in normal form. -/
theorem normalize_of_mem_segments {s : List Char} (hs : NormalEscapes s) {p : List Char}
    (hp : p ∈ segments '/' s) : normalize p = p := by
  have hmap := segments_normalize delimits_slash hs.wellFormed
  rw [hs.normalize_eq] at hmap
  have hself : (segments '/' s).map normalize = (segments '/' s).map id := by
    rw [List.map_id, ← hmap]
  exact List.map_inj_left.mp hself p hp

theorem normalEscapes_removeDotSegments {path : List Char} (h : NormalEscapes path) :
    NormalEscapes (removeDotSegments path) := by
  rcases removeDotSegments_cases path with ⟨body, rfl⟩ | hself
  · have hbody : NormalEscapes body := h.of_suffix (List.suffix_cons '/' body)
    obtain ⟨pieces, heq, -, hpieces⟩ := exists_removeDotSegments body
    have hparts : ∀ p ∈ pieces, WellFormed p ∧ normalize p = p := fun p hp => by
      rcases hpieces p hp with rfl | ⟨hmem, -⟩
      · exact ⟨trivial, rfl⟩
      · exact ⟨wellFormed_of_mem_segments delimits_slash hbody.wellFormed p hmem,
          normalize_of_mem_segments hbody hmem⟩
    refine (normalize_eq_self_iff (wellFormed_removeDotSegments h.wellFormed)).mp ?_
    rw [heq, normalize_char (by decide), normalize_join delimits_slash fun p hp => (hparts p hp).1,
      List.map_congr_left fun p hp => (hparts p hp).2, List.map_id']
  · rwa [hself]

end CallArchive.Address
