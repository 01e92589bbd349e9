import CallArchive.Proofs.Ingest.Shared

/-!
# Isolation

After any steps of any number of connections the content of the file is that of a serial execution:
what is committed is what the committed operations make of the first content one after the other. A
connection in a transaction sees its own operations after these; until the transaction ends nobody
else sees them, and nobody else can begin or write.
-/

namespace CallArchive.Ingest

open Store (ConnectionName Connections Database File Request Event Ready)

/-- The answer is a failure for now, and nothing has been done to the file. -/
structure Refused (c : Connections) (out : Except Error Unit × Connections) : Prop where
  transient : ∃ e, out.1 = .error e ∧ e.isTransient = true
  file_eq : out.2.file = c.file

/-- What a connection has not committed is gone, and all else is as it was. -/
structure Discards (name : ConnectionName) (before after : File) : Prop where
  committed : after.committed = before.committed
  view : after.view name = before.committed
  ended : after.isWriter name = false
  others : ∀ other, other ≠ name →
    after.view other = before.view other ∧ after.isWriter other = before.isWriter other

/-- A begin, or a write that has something to write. -/
def Exclusive (r : Request) : Prop := r = .begin ∨ r.Writes ∧ ¬ r.IsEmpty

/-- What connections see of each other, and what is committed in the end. -/
structure Isolated (start : Database) (x : Shared) : Prop where
  serial : (replay x.journal.done).run start = some ((), x.connections.file.committed)
  one : ∀ a b, (x.journal.open a).isSome = true → (x.journal.open b).isSome = true → a = b
  own : ∀ a ops, x.journal.open a = some ops →
    (replay ops).run x.connections.file.committed = some ((), x.connections.file.view a)
  others : ∀ a, x.journal.open a = none →
    x.connections.file.view a = x.connections.file.committed
  reads : ∀ a s, x.connections.store? a = some s → s.isOpen = true →
    ∀ {α : Type} (query : Database → Except StoreError α),
      (x.connections.run a (Store.readRows query)).1
        = (query (x.connections.file.view a)).mapError .store
  requests : ∀ a b, (x.journal.open a).isSome = true → b ≠ a → ∀ r, Exclusive r →
    Refused x.connections (answer x.connections (.event (.ask b r)))
  connects : ∀ a b, (x.journal.open a).isSome = true → b ≠ a → ∀ faults,
    Refused x.connections (answer x.connections (.event (.connect b faults)))
  records : ∀ a b, (x.journal.open a).isSome = true → b ≠ a →
    ∀ {ν : Type} (settings : Settings) (notifier : Notifier ν) (text : String) (channel : ν) v,
      check text = .ok v →
        Refused x.connections (answer x.connections (.ingest b settings notifier text channel))
  leave : ∀ a, Discards a x.connections.file (answer x.connections (.event (.leave a))).2.file
  close : ∀ a, Discards a x.connections.file
    (answer x.connections (.event (.ask a .close))).2.file
  rollback : ∀ a, (x.journal.open a).isSome = true →
    (answer x.connections (.event (.ask a .rollback))).1 = .ok () ∧
      Discards a x.connections.file (answer x.connections (.event (.ask a .rollback))).2.file
  commit : ∀ a, (x.journal.open a).isSome = true →
    (answer x.connections (.event (.ask a .commit))).1 = .ok () ∧
      (answer x.connections (.event (.ask a .commit))).2.file
        = ⟨x.connections.file.view a, none⟩

section

variable {start : Database} {c : Connections} {l : Journal} {a b name : ConnectionName}

theorem discards_disconnect (f : File) (name : ConnectionName) :
    Discards name f (f.disconnect name) := by
  cases hw : f.isWriter name with
  | false =>
    rw [File.disconnect_of_not_isWriter hw]
    exact ⟨rfl, File.view_of_not_isWriter hw, hw, fun _ _ => ⟨rfl, rfl⟩⟩
  | true =>
    rw [File.disconnect_of_isWriter hw]
    refine ⟨rfl, rfl, rfl, fun other hne => ?_⟩
    have hother : f.isWriter other = false := Bool.eq_false_iff.mpr fun hw' =>
      hne (File.isWriter_unique hw' hw)
    exact ⟨(File.view_of_not_isWriter hother).symm, hother.symm⟩

namespace Orderly

variable (h : Orderly start ⟨c, l⟩)

include h

theorem view_of_open {ops : List Operation} (ha : l.open a = some ops) :
    (replay ops).run c.file.committed = some ((), c.file.view a) := by
  have hopen : (l.open a).isSome = true := by rw [ha]; rfl
  obtain ⟨w, hw, rfl⟩ := File.isWriter_iff.mp (h.agrees.isWriter hopen)
  obtain ⟨ops', hops', hrun⟩ := h.agrees.writer w hw
  obtain rfl := Option.some.inj (ha.symm.trans hops')
  rw [File.view_of_isWriter hw rfl]
  exact hrun

theorem view_of_not_open (ha : l.open a = none) : c.file.view a = c.file.committed := by
  refine File.view_of_not_isWriter (Bool.eq_false_iff.mpr fun hw => ?_)
  obtain ⟨w, hwriter, rfl⟩ := File.isWriter_iff.mp hw
  obtain ⟨ops, hops, -⟩ := h.agrees.writer w hwriter
  exact absurd (ha.symm.trans hops) nofun

theorem run_readRows {s : Store} (hs : c.store? a = some s) (ho : s.isOpen = true) {α : Type}
    (query : Database → Except StoreError α) :
    (c.run a (Store.readRows query)).1 = (query (c.file.view a)).mapError .store := by
  obtain ⟨hfile, hname, -⟩ := h.store?_eq_some hs
  rw [Connections.run_of_store? hs, Store.run_readRows ho, Store.view, hfile, hname]

/-- While another connection is writing a store is not ready. -/
theorem not_ready (ha : (l.open a).isSome = true) (hb : b ≠ a) {s : Store}
    (hs : c.store? b = some s) : ¬ s.Ready := by
  intro hr
  obtain ⟨hfile, hname, -⟩ := h.store?_eq_some hs
  obtain ⟨w, hw, howner⟩ := File.isWriter_iff.mp (h.agrees.isWriter ha)
  exact hb (hname.symm.trans ((hr.mayWrite w (hfile ▸ hw)).symm.trans howner))

theorem refused_request (ha : (l.open a).isSome = true) (hb : b ≠ a) {r : Request}
    (hr : Exclusive r) : Refused c (answer c (.event (.ask b r))) := by
  rw [answer]
  cases hs : c.store? b with
  | none =>
    rw [Connections.run, hs]
    exact ⟨⟨_, rfl, rfl⟩, rfl⟩
  | some s =>
    have hbusy := h.not_ready ha hb hs
    obtain ⟨hfile, -, hm, -⟩ := h.store?_eq_some hs
    rw [Connections.run_of_store? hs]
    rcases hr with rfl | ⟨hwrites, hfull⟩
    · obtain ⟨cause, hbegin, htransient⟩ := run_beginTransaction_error (mt Idle.ready hbusy)
      rw [Request.action, hbegin]
      exact ⟨⟨_, rfl, htransient hbusy⟩, hfile⟩
    · have hwrote := r.wrote_action hwrites s
      generalize (r.action.run s : Except Error Unit × Store) = out at hwrote ⊢
      cases hwrote with
      | done hready hf => exact absurd hready hbusy
      | skipped hn hf => exact absurd hn hfull
      | refused why => exact ⟨⟨_, rfl, why hm hbusy⟩, hfile⟩

theorem refused_connect (ha : (l.open a).isSome = true) (hb : b ≠ a) (faults : Store.FaultPlan) :
    Refused c (answer c (.event (.connect b faults))) := by
  obtain ⟨w, hw, rfl⟩ := File.isWriter_iff.mp (h.agrees.isWriter ha)
  have hwriter : c.file.writer = some w := hw
  have hother : c.file.isWriter b = false := Bool.eq_false_iff.mpr fun hb' =>
    hb (File.isWriter_unique hb' (File.isWriter_iff.mpr ⟨w, hwriter, rfl⟩))
  have hfile : (c.remove b).file = c.file := File.disconnect_of_not_isWriter hother
  have hmay : ¬ c.file.MayWrite b := fun hmay => hb (hmay w hwriter).symm
  have hconnect : Store.connect? c.file b faults = .error .locked := by
    rw [Store.connect?, File.connect, File.write_locked hmay]
  simp only [answer, Connections.connect, hfile, hconnect]
  exact ⟨⟨_, rfl, rfl⟩, hfile⟩

theorem refused_record (ha : (l.open a).isSome = true) (hb : b ≠ a) {ν : Type}
    (settings : Settings) (notifier : Notifier ν) {text : String} (channel : ν) {v : Validated}
    (hv : check text = .ok v) :
    Refused c (answer c (.ingest b settings notifier text channel)) := by
  rw [answer, ingestAt]
  cases hs : c.store? b with
  | none => exact ⟨⟨_, rfl, rfl⟩, rfl⟩
  | some s =>
    obtain ⟨hfile, -⟩ := h.store?_eq_some hs
    obtain ⟨e, pauses, t, hrun, he⟩ := runFrom_busy settings.retry
      (writeRecord settings.batchSize v) (h.not_ready ha hb hs) (settings.retry.limit - 1) 1
    have hresult : Ingest.ingest settings notifier text s channel
        = ⟨.error e, pauses, false, { s with history := t }, channel⟩ := by
      rw [Ingest.ingest, hv]
      simp only [ingestValidated, runTransaction_eq, hrun]
    simp only [hresult]
    exact ⟨⟨e, rfl, he⟩, hfile⟩

/-- The store of the connection that is writing. -/
theorem exists_store? (ha : (l.open a).isSome = true) :
    ∃ s, c.store? a = some s ∧ s.isOpen = true ∧ s.file = c.file ∧ s.connection = a := by
  obtain ⟨w, hw, rfl⟩ := File.isWriter_iff.mp (h.agrees.isWriter ha)
  obtain ⟨s, hs, ho⟩ := h.live w hw
  exact ⟨{ s with file := c.file }, congrArg (Option.map _) hs, ho, rfl, (h.stores _ s hs).1⟩

theorem rollback_ok (ha : (l.open a).isSome = true) :
    (answer c (.event (.ask a .rollback))).1 = .ok () ∧
      Discards a c.file (answer c (.event (.ask a .rollback))).2.file := by
  obtain ⟨s, hs, ho, hfile, hname⟩ := h.exists_store? ha
  have hrollback : c.file.rollback a = (.ok (), c.file.disconnect a) := by
    have hw : c.file.isWriter a = true := h.agrees.isWriter ha
    rw [File.rollback, if_pos hw]
  rw [answer, Connections.run_of_store? hs, Request.action, Store.rollbackTransaction,
    Store.run_onFile ho, hfile, hname, hrollback]
  exact ⟨rfl, discards_disconnect c.file a⟩

theorem commit_ok (ha : (l.open a).isSome = true) :
    (answer c (.event (.ask a .commit))).1 = .ok () ∧
      (answer c (.event (.ask a .commit))).2.file = ⟨c.file.view a, none⟩ := by
  obtain ⟨s, hs, ho, hfile, hname⟩ := h.exists_store? ha
  obtain ⟨w, hw, rfl⟩ := File.isWriter_iff.mp (h.agrees.isWriter ha)
  have hwriter : c.file.writer = some w := hw
  have hcommit : c.file.commit w.owner = (.ok (), ⟨c.file.view w.owner, none⟩) := by
    rw [File.view_of_isWriter hwriter rfl]
    simp only [File.commit, hwriter, if_true]
  rw [answer, Connections.run_of_store? hs, Request.action, Store.commitTransaction,
    Store.run_onFile ho, hfile, hname, hcommit]
  exact ⟨rfl, rfl⟩

theorem discards_close (a : ConnectionName) :
    Discards a c.file (answer c (.event (.ask a .close))).2.file := by
  have hclosed : (answer c (.event (.ask a .close))).2.file = c.file.disconnect a := by
    rw [answer]
    cases hs : c.store? a with
    | some s =>
      rw [Connections.run_of_store? hs]
      exact congrArg Store.file (h.close_eq hs)
    | none =>
      have hw : c.file.isWriter a = false := Bool.eq_false_iff.mpr fun hw => by
        obtain ⟨w, hwriter, rfl⟩ := File.isWriter_iff.mp hw
        obtain ⟨s, hs', -⟩ := h.live w hwriter
        have hsome : c.store? w.owner = some { s with file := c.file } := congrArg (Option.map _) hs'
        rw [hs] at hsome
        cases hsome
      rw [Connections.run, hs, File.disconnect_of_not_isWriter hw]
  rw [hclosed]
  exact discards_disconnect c.file a

theorem isolated : Isolated start ⟨c, l⟩ where
  serial := h.agrees.committed
  one := fun _ _ ha hb => File.isWriter_unique (h.agrees.isWriter ha) (h.agrees.isWriter hb)
  own := fun _ _ => h.view_of_open
  others := fun _ => h.view_of_not_open
  reads := fun _ _ hs ho _ => h.run_readRows hs ho
  requests := fun _ _ ha hb _ => h.refused_request ha hb
  connects := fun _ _ => h.refused_connect
  records := fun _ _ ha hb _ settings notifier _ channel _ =>
    h.refused_record ha hb settings notifier channel
  leave := discards_disconnect c.file
  close := h.discards_close
  rollback := fun _ => h.rollback_ok
  commit := fun _ => h.commit_ok

end Orderly

end

/-- Two connections, of which the second writes while the first has a transaction open, then stores
a record, and leaves in the middle of a transaction of its own. -/
def crossing : List Step :=
  [.event (.connect "a" .never), .event (.connect "b" .never), .event (.ask "a" .begin),
    .event (.ask "a" (.package (.named "p" "m"))), .event (.ask "b" (.package (.named "q" "m"))),
    .event (.ask "a" .commit), .ingest "b" ⟨1, .new 1 0⟩ Notifier.silent smallRecord (),
    .event (.ask "b" .begin), .event (.ask "b" (.package (.named "r" "m"))), .event (.leave "b")]

end CallArchive.Ingest
