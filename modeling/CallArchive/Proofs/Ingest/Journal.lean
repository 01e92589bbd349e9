import CallArchive.Proofs.Ingest.Changes
import CallArchive.Proofs.Store.Requests
import Mathlib.Logic.Function.Basic

/-!
# The journal of a shared file

A `Journal` writes down what the connections of a file were answered: the operations that are
committed, in the order of their commits, and for each connection those of its open transaction.
`Agrees` says that the file holds what the operations make of its first content, and each way in
which a connection can change the file keeps it so.
-/

namespace CallArchive.Ingest

open Store (ConnectionName Database Change File Request run_change_bind_some)

/-! ## Operations -/

/-- What is written at once: a request, a record, or what a new connection prepares. -/
inductive Operation where
  | request (r : Request)
  | record (batchSize : Nat) (v : Validated)
  | prepare

def Operation.change : Operation → Change Unit
  | .request r => r.change
  | .record batchSize v => discard (storeRecord batchSize v)
  | .prepare => Store.change Database.prepare

/-- Operations one after the other. -/
def replay (ops : List Operation) : Change Unit := forM ops Operation.change

theorem replay_append {ops later : List Operation} {db between : Database}
    (h : (replay ops).run db = some ((), between)) :
    (replay (ops ++ later)).run db = (replay later).run between := by
  rw [replay, List.forM_append]
  exact run_change_bind_some h

theorem replay_concat {ops : List Operation} {op : Operation} {db between after : Database}
    (h : (replay ops).run db = some ((), between))
    (hop : op.change.run between = some ((), after)) :
    (replay (ops ++ [op])).run db = some ((), after) := by
  rw [replay_append h, replay, List.forM_cons, run_change_bind_some hop]
  rfl

/-! ## The journal -/

/-- The committed operations, and those of the transactions that are open. -/
structure Journal where
  done : List Operation
  «open» : ConnectionName → Option (List Operation)

namespace Journal

def empty : Journal := ⟨[], fun _ => none⟩

/-- The connection has no transaction any more. -/
def drop (l : Journal) (name : ConnectionName) : Journal :=
  { l with «open» := Function.update l.open name none }

def begin (l : Journal) (name : ConnectionName) : Journal :=
  { l with «open» := Function.update l.open name (some []) }

def commit (l : Journal) (name : ConnectionName) : Journal :=
  ⟨l.done ++ (l.open name).getD [], Function.update l.open name none⟩

/-- An operation belongs to the open transaction, or is committed at once. -/
def note (l : Journal) (name : ConnectionName) (op : Operation) : Journal :=
  match l.open name with
  | some ops => { l with «open» := Function.update l.open name (some (ops ++ [op])) }
  | none => { l with done := l.done ++ [op] }

def noteRequest (l : Journal) (name : ConnectionName) : Request → Journal
  | .begin => l.begin name
  | .commit => l.commit name
  | .rollback | .close => l.drop name
  | r => l.note name (.request r)

end Journal

/-- The file holds what the journal says, and only its writer has a transaction open. -/
structure Agrees (start : Database) (l : Journal) (f : File) : Prop where
  committed : (replay l.done).run start = some ((), f.committed)
  writer : ∀ w, f.writer = some w → ∃ ops, l.open w.owner = some ops ∧
    (replay ops).run f.committed = some ((), w.working)
  others : ∀ name, (∀ w, f.writer = some w → w.owner ≠ name) → l.open name = none

namespace Agrees

variable {start : Database} {l : Journal} {f : File} {name : ConnectionName}

theorem empty (hf : f.writer = none) : Agrees f.committed .empty f :=
  ⟨rfl, fun w hw => absurd (hf.symm.trans hw) (Option.some_ne_none w).symm, fun _ _ => rfl⟩

theorem open_eq_none (h : Agrees start l f) (hw : f.isWriter name = false) : l.open name = none :=
  h.others name fun w hwriter howner => by
    rw [File.isWriter_iff.mpr ⟨w, hwriter, howner⟩] at hw
    cases hw

theorem disconnect (h : Agrees start l f) (name : ConnectionName) :
    Agrees start (l.drop name) (f.disconnect name) := by
  cases hw : f.isWriter name with
  | false =>
    have hdrop : l.drop name = l := by
      rw [Journal.drop, ← h.open_eq_none hw, Function.update_eq_self]
    rwa [File.disconnect_of_not_isWriter hw, hdrop]
  | true =>
    obtain ⟨w, hwriter, howner⟩ := File.isWriter_iff.mp hw
    rw [File.disconnect, if_pos hw]
    refine ⟨h.committed, fun w' hw' => absurd hw' (Option.some_ne_none w').symm, fun other _ => ?_⟩
    by_cases heq : other = name
    · subst heq
      exact Function.update_self _ _ _
    · refine (Function.update_of_ne heq _ _).trans (h.others other fun w' hw' howner' => ?_)
      obtain rfl := Option.some.inj (hwriter.symm.trans hw')
      exact heq (howner'.symm.trans howner)

theorem begin (h : Agrees start l f) (hw : f.writer = none) (name : ConnectionName) :
    Agrees start (l.begin name) { f with writer := some ⟨name, f.committed⟩ } := by
  refine ⟨h.committed, fun w hwriter => ?_, fun other hother => ?_⟩
  · obtain rfl := Option.some.inj hwriter
    exact ⟨[], Function.update_self _ _ _, rfl⟩
  · refine (Function.update_of_ne (hother _ rfl).symm _ _).trans ?_
    exact h.others other fun w hwriter => absurd (hw.symm.trans hwriter) (Option.some_ne_none w).symm

theorem commit (h : Agrees start l f) {w : Store.Writer} (hw : f.writer = some w) :
    Agrees start (l.commit w.owner) ⟨w.working, none⟩ := by
  obtain ⟨ops, hopen, hops⟩ := h.writer w hw
  refine ⟨?_, fun w' hw' => absurd hw' (Option.some_ne_none w').symm, fun other _ => ?_⟩
  · rw [Journal.commit, hopen, Option.getD_some, replay_append h.committed]
    exact hops
  · by_cases heq : other = w.owner
    · rw [heq]
      exact Function.update_self _ _ _
    · refine (Function.update_of_ne heq _ _).trans (h.others other fun w' hw' => ?_)
      obtain rfl := Option.some.inj (hw.symm.trans hw')
      exact Ne.symm heq

/-- An operation of the writer, or of any connection where there is none. -/
theorem note (h : Agrees start l f) (hm : f.MayWrite name) {op : Operation} {db : Database}
    (hop : op.change.run (f.view name) = some ((), db)) :
    Agrees start (l.note name op) (f.replace db) := by
  cases hw : f.writer with
  | none =>
    have hnone : ∀ w, f.writer ≠ some w := fun w hwriter =>
      Option.some_ne_none w (hwriter.symm.trans hw)
    have hopen := h.others name fun w hwriter => absurd hwriter (hnone w)
    simp only [File.view, hw] at hop
    simp only [Journal.note, hopen, File.replace, hw]
    exact ⟨replay_concat h.committed hop, fun w hw' => absurd hw' (Option.some_ne_none w).symm,
      fun other _ => h.others other fun w hwriter => absurd hwriter (hnone w)⟩
  | some w =>
    obtain rfl := hm w hw
    obtain ⟨ops, hopen, hops⟩ := h.writer w hw
    simp only [File.view, hw, if_true] at hop
    simp only [Journal.note, hopen, File.replace, hw]
    refine ⟨h.committed, fun w' hw' => ?_, fun other hother => ?_⟩
    · obtain rfl := Option.some.inj hw'
      exact ⟨_, Function.update_self _ _ _, replay_concat hops hop⟩
    · have hne : w.owner ≠ other := hother ⟨w.owner, db⟩ rfl
      refine (Function.update_of_ne hne.symm _ _).trans (h.others other fun w' hw' => ?_)
      obtain rfl := Option.some.inj (hw.symm.trans hw')
      exact hne

/-- An operation that changes nothing leaves the file alone, whoever may write to it. -/
theorem note_nothing (h : Agrees start l f) (op : Operation)
    (hop : ∀ db, op.change.run db = some ((), db)) (name : ConnectionName) :
    Agrees start (l.note name op) f := by
  cases hopen : l.open name with
  | none =>
    simp only [Journal.note, hopen]
    exact ⟨replay_concat h.committed (hop _), h.writer, h.others⟩
  | some ops =>
    simp only [Journal.note, hopen]
    refine ⟨h.committed, fun w hw => ?_, fun other hother => ?_⟩
    · obtain ⟨ops', hopen', hops'⟩ := h.writer w hw
      by_cases heq : w.owner = name
      · obtain rfl := heq
        obtain rfl := Option.some.inj (hopen.symm.trans hopen')
        exact ⟨_, Function.update_self _ _ _, replay_concat hops' (hop _)⟩
      · exact ⟨ops', (Function.update_of_ne heq _ _).trans hopen', hops'⟩
    · have hnone := h.others other hother
      have hne : other ≠ name := fun heq => by
        rw [heq, hopen] at hnone
        cases hnone
      exact (Function.update_of_ne hne _ _).trans hnone

/-- Only the owner of the file's transaction has one. -/
theorem isWriter (h : Agrees start l f) (hopen : (l.open name).isSome = true) :
    f.isWriter name = true := by
  cases hw : f.isWriter name with
  | true => rfl
  | false =>
    rw [h.open_eq_none hw] at hopen
    cases hopen

end Agrees

end CallArchive.Ingest
