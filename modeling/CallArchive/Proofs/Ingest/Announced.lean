import CallArchive.Proofs.Ingest.AllOrNothing
import CallArchive.Proofs.Validation.Validated
import Mathlib.Data.List.Forall2

/-!
# Who listens to ingestion

Records are ingested one after the other, and their notifications go into a channel. In between the
receiver takes what is there, or goes away, or the sender is closed (`Feed.Event`). What the calls
answer and what is stored is the same as with nobody to notify, and as long as both ends are there
the receiver gets one notification for each record that is stored, in the order of the calls
(`feed_mirrors`).
-/

namespace CallArchive.Ingest

/-! ## One call -/

section

variable {ν ν' : Type} (settings : Settings) (notifier : Notifier ν) (notifier' : Notifier ν')
  (text : String) (store : Store) (channel : ν) (channel' : ν')

/-- Nothing comes back from a notifier. -/
theorem ingest_unheard :
    (ingest settings notifier text store channel).result
        = (ingest settings notifier' text store channel').result ∧
      (ingest settings notifier text store channel).store
        = (ingest settings notifier' text store channel').store := by
  unfold ingest
  cases check text with
  | error cause => exact ⟨rfl, rfl⟩
  | ok v =>
    simp only [ingestValidated]
    cases (settings.retry.runTransaction (fun _ => writeRecord settings.batchSize v) store).result with
    | error e => exact ⟨rfl, rfl⟩
    | ok p => exact ⟨rfl, rfl⟩

end

/-- The notification says which record was stored, and under which ids. -/
def Announces (call : String × Report) (n : Notification) : Prop :=
  ∃ g, CallGraph.ofText call.1 = .ok g ∧ n = ⟨g.product, g.forge, g.version, g.generator,
    call.2.written.packageId, call.2.written.versionId⟩

section

variable {ν : Type} {settings : Settings} {notifier : Notifier ν} {text : String} {store : Store}
  {channel : ν}

/-- A record that is not stored is not announced. -/
theorem channel_ingest_error {e : Error}
    (h : (ingest settings notifier text store channel).result = .error e) :
    (ingest settings notifier text store channel).channel = channel ∧
      (ingest settings notifier text store channel).crashed = false := by
  unfold ingest at h ⊢
  cases hc : check text with
  | error cause => exact ⟨rfl, rfl⟩
  | ok v =>
    rw [hc] at h
    obtain ⟨-, hchannel, hcrashed, -⟩ := ingestValidated_error h
    exact ⟨hchannel, hcrashed⟩

/-- A record that is stored is announced once, however many attempts it took. -/
theorem channel_ingest_ok {report : Report}
    (h : (ingest settings notifier text store channel).result = .ok report) :
    ∃ n, Announces (text, report) n ∧
      (ingest settings notifier text store channel).channel = (notifier.notify n channel).2 ∧
      (ingest settings notifier text store channel).crashed
        = ((notifier.notify n channel).1 == .crashed) := by
  unfold ingest at h ⊢
  cases hc : check text with
  | error cause =>
    rw [hc] at h
    cases h
  | ok v =>
    rw [hc] at h
    obtain ⟨g, hg, hvalid⟩ := bind_ok_iff.mp hc
    have hv := CallGraph.validate_ok hvalid
    refine ⟨notification v report.written, ⟨g, hg, ?_⟩, ?_⟩
    · rw [notification, hv.product_eq, hv.forge_eq, hv.version_eq, hv.generator_eq]
    · exact (ingestValidated_heard h).symm

end

/-! ## A feed -/

/-- A store whose records are announced in a channel, the calls with their answers, and what the
receiver has got. -/
structure Feed where
  store : Store
  channel : Channel
  calls : List (String × Except Error Report)
  received : List Notification

namespace Feed

/-- What can happen to a feed. -/
inductive Event where
  | ingest (text : String)
  | receive
  | dropReceiver
  | closeSender

/-- The text that is ingested, if one is. -/
def Event.text? : Event → Option String
  | .ingest text => some text
  | _ => none

def start (store : Store) (channel : Channel) : Feed := ⟨store, channel, [], []⟩

def ingestNext (settings : Settings) (text : String) (f : Feed) : Feed :=
  let run := ingest settings Channel.notifier text f.store f.channel
  { f with store := run.store, channel := run.channel, calls := f.calls ++ [(text, run.result)] }

def receiveNext (f : Feed) : Feed :=
  match f.channel.receive with
  | (.item n, channel) => { f with channel, received := f.received ++ [n] }
  | (_, channel) => { f with channel }

def after (settings : Settings) (f : Feed) : Event → Feed
  | .ingest text => f.ingestNext settings text
  | .receive => f.receiveNext
  | .dropReceiver => { f with channel := f.channel.dropReceiver }
  | .closeSender => { f with channel := f.channel.closeSender }

def run (settings : Settings) (f : Feed) (events : List Event) : Feed :=
  events.foldl (after settings) f

/-- The calls that stored a record. -/
def stored (f : Feed) : List (String × Report) :=
  f.calls.filterMap fun call => call.2.toOption.map fun report => (call.1, report)

end Feed

namespace Channel

/-- Both ends are there. -/
def IsOpen (c : Channel) : Prop := c.senderOpen = true ∧ c.receiverOpen = true

/-- Nobody who sends has to wait. -/
def HasRoom (c : Channel) : Prop := c.IsOpen → c.queue.length < c.capacity

end Channel

/-- Each call finds room in the channel. -/
def Feed.NeverWaits (settings : Settings) (f : Feed) : List Feed.Event → Prop
  | [] => True
  | e :: events => (e.text?.isSome = true → f.channel.HasRoom) ∧
      (f.after settings e).NeverWaits settings events

/-- The calls one after the other with nobody to notify, and the store after them. -/
def ingestAll (settings : Settings) (texts : List String) (store : Store) :
    List (String × Except Error Report) × Store :=
  texts.foldl (fun p text =>
    let run := ingest settings Notifier.silent text p.2 ()
    (p.1 ++ [(text, run.result)], run.store)) ([], store)

/-! ## The channel -/

namespace Channel

variable {n : Notification} {c : Channel}

instance : Decidable c.IsOpen := inferInstanceAs (Decidable (_ ∧ _))

instance : Decidable c.HasRoom := inferInstanceAs (Decidable (_ → _))

theorem isOpen_send : (c.send n).2.IsOpen ↔ c.IsOpen := by
  unfold send
  split
  · rfl
  split
  · rfl
  split <;> rfl

theorem queue_send_of_hasRoom (hopen : c.IsOpen) (hroom : c.HasRoom) :
    (c.send n).2.queue = c.queue ++ [n] := by
  have hlt := hroom hopen
  apply queue_send
  simp [send, hopen.1, hopen.2, Nat.not_le.mpr hlt]

theorem send_not_crashed : ((c.send n).1 == .crashed) = false := by
  unfold send
  split
  · rfl
  split
  · rfl
  split <;> rfl

end Channel

theorem not_crashed_ingest (settings : Settings) (text : String) (store : Store) (c : Channel) :
    (ingest settings Channel.notifier text store c).crashed = false := by
  cases h : (ingest settings Channel.notifier text store c).result with
  | error e => exact (channel_ingest_error h).2
  | ok report =>
    obtain ⟨n, -, -, hcrashed⟩ := channel_ingest_ok h
    exact hcrashed.trans Channel.send_not_crashed

/-! ## What a feed keeps -/

/-- The receiver finds nothing, or the first notification in the queue. -/
theorem Feed.receiveNext_cases (f : Feed) : f.receiveNext = f ∨
    ∃ n rest, f.channel.queue = n :: rest ∧ f.receiveNext =
      { f with channel := { f.channel with queue := rest }, received := f.received ++ [n] } := by
  obtain ⟨store, ⟨capacity, queue, senderOpen, receiverOpen⟩, calls, received⟩ := f
  cases receiverOpen with
  | false => exact .inl rfl
  | true =>
    cases queue with
    | nil =>
      left
      cases senderOpen <;> rfl
    | cons n rest => exact .inr ⟨n, rest, rfl, rfl⟩

theorem ingestAll_concat (settings : Settings) (texts : List String) (text : String)
    (store : Store) :
    ingestAll settings (texts ++ [text]) store =
      ((ingestAll settings texts store).1 ++ [(text,
          (ingest settings Notifier.silent text (ingestAll settings texts store).2 ()).result)],
        (ingest settings Notifier.silent text (ingestAll settings texts store).2 ()).store) := by
  rw [ingestAll, List.foldl_append]
  rfl

/-- After the texts have been ingested, with these notifications in the channel at the start. -/
structure Mirrors (settings : Settings) (store : Store) (before : List Notification)
    (texts : List String) (f : Feed) : Prop where
  unheard : (f.calls, f.store) = ingestAll settings texts store
  announced : f.channel.IsOpen → ∃ sent, List.Forall₂ Announces f.stored sent ∧
    f.received ++ f.channel.queue = before ++ sent

namespace Mirrors

variable {settings : Settings} {store : Store} {before : List Notification} {texts : List String}
  {f : Feed}

theorem start (settings : Settings) (store : Store) (channel : Channel) :
    Mirrors settings store channel.queue [] (.start store channel) where
  unheard := rfl
  announced _ := ⟨[], .nil, (List.append_nil _).symm⟩

theorem ingestNext (h : Mirrors settings store before texts f) (text : String)
    (hroom : f.channel.HasRoom) :
    Mirrors settings store before (texts ++ [text]) (f.ingestNext settings text) where
  unheard := by
    obtain ⟨hresult, hstore⟩ :=
      ingest_unheard settings Channel.notifier Notifier.silent text f.store f.channel ()
    rw [ingestAll_concat, ← h.unheard, ← hresult, ← hstore]
    rfl
  announced := by
    intro hopen
    have hstored : (f.ingestNext settings text).stored = f.stored ++ [(text,
        (ingest settings Channel.notifier text f.store f.channel).result)].filterMap fun call =>
          call.2.toOption.map fun report => (call.1, report) := List.filterMap_append
    change (ingest settings Channel.notifier text f.store f.channel).channel.IsOpen at hopen
    change ∃ sent, _ ∧ f.received ++
      (ingest settings Channel.notifier text f.store f.channel).channel.queue = _
    rw [hstored]
    cases hr : (ingest settings Channel.notifier text f.store f.channel).result with
    | error e =>
      rw [(channel_ingest_error hr).1] at hopen ⊢
      obtain ⟨sent, hsent, hqueue⟩ := h.announced hopen
      exact ⟨sent, (List.append_nil f.stored).symm ▸ hsent, hqueue⟩
    | ok report =>
      obtain ⟨n, hn, hchannel, -⟩ := channel_ingest_ok hr
      rw [hchannel] at hopen ⊢
      have hbefore := Channel.isOpen_send.mp hopen
      obtain ⟨sent, hsent, hqueue⟩ := h.announced hbefore
      refine ⟨sent ++ [n], List.rel_append hsent (.cons hn .nil), ?_⟩
      calc f.received ++ (f.channel.send n).2.queue
          = f.received ++ (f.channel.queue ++ [n]) := by
            rw [Channel.queue_send_of_hasRoom hbefore hroom]
        _ = before ++ (sent ++ [n]) := by
            rw [← List.append_assoc, hqueue, List.append_assoc]

theorem receiveNext (h : Mirrors settings store before texts f) :
    Mirrors settings store before texts f.receiveNext := by
  rcases f.receiveNext_cases with hsame | ⟨n, rest, hqueue, hnext⟩
  · rwa [hsame]
  · rw [hnext]
    refine ⟨h.unheard, fun hopen => ?_⟩
    obtain ⟨sent, hsent, hall⟩ := h.announced hopen
    rw [hqueue] at hall
    exact ⟨sent, hsent, (List.append_assoc _ _ _).trans hall⟩

theorem after (h : Mirrors settings store before texts f) (e : Feed.Event)
    (hroom : e.text?.isSome = true → f.channel.HasRoom) :
    Mirrors settings store before (texts ++ e.text?.toList) (f.after settings e) := by
  cases e with
  | ingest text => exact h.ingestNext text (hroom rfl)
  | receive => exact (List.append_nil texts).symm ▸ h.receiveNext
  | dropReceiver =>
    change Mirrors settings store before (texts ++ []) _
    rw [List.append_nil]
    exact ⟨h.unheard, fun hopen => absurd hopen.2 Bool.false_ne_true⟩
  | closeSender =>
    change Mirrors settings store before (texts ++ []) _
    rw [List.append_nil]
    exact ⟨h.unheard, fun hopen => absurd hopen.1 Bool.false_ne_true⟩

theorem run (h : Mirrors settings store before texts f) {events : List Feed.Event}
    (hroom : f.NeverWaits settings events) :
    Mirrors settings store before (texts ++ events.filterMap Feed.Event.text?)
      (f.run settings events) := by
  induction events generalizing texts f with
  | nil => exact (List.append_nil texts).symm ▸ h
  | cons e events ih =>
    have hnext := ih (h.after e hroom.1) hroom.2
    rw [List.append_assoc] at hnext
    cases e <;> exact hnext

end Mirrors

/-- Whatever becomes of the channel, the calls answer and store the same as with nobody to notify.
While both ends are there, what has been received and what is left to receive are, after what was in
the channel before, one notification for each record that is stored, in order. -/
theorem feed_mirrors {settings : Settings} {store : Store} {channel : Channel}
    {events : List Feed.Event}
    (hroom : (Feed.start store channel).NeverWaits settings events) :
    let f := (Feed.start store channel).run settings events
    (f.calls, f.store) = ingestAll settings (events.filterMap Feed.Event.text?) store ∧
      (f.channel.IsOpen → ∃ sent, List.Forall₂ Announces f.stored sent ∧
        f.received ++ f.channel.queue = channel.queue ++ sent) ∧
      ∀ text, (ingest settings Channel.notifier text f.store f.channel).crashed = false := by
  intro f
  have hmirrors := (Mirrors.start settings store channel).run hroom
  exact ⟨hmirrors.unheard, hmirrors.announced, fun text => not_crashed_ingest _ _ _ _⟩

instance decidableNeverWaits (settings : Settings) :
    (f : Feed) → (events : List Feed.Event) → Decidable (f.NeverWaits settings events)
  | _, [] => isTrue trivial
  | f, e :: events =>
    have := decidableNeverWaits settings (f.after settings e) events
    inferInstanceAs (Decidable ((_ → _) ∧ _))

/-- A store that fails to write edges once. -/
def hesitantStore : Store := .inMemory (.striking .edges (some 1))

/-- A text that is no record, a record that takes two attempts, and the same again after the first
notification has made room. -/
def narrowEvents : List Feed.Event :=
  [.ingest "", .ingest smallRecord, .receive, .ingest smallRecord]

/-- The channel has room for one notification. -/
theorem feed_mirrors_narrow :
    let f := (Feed.start hesitantStore (.new 1)).run ⟨1, .new 2 0⟩ narrowEvents
    (Feed.start hesitantStore (.new 1)).NeverWaits ⟨1, .new 2 0⟩ narrowEvents ∧
      f.store.history.injected = 1 ∧ f.stored.length = 2 ∧ f.received.length = 1 ∧
      (f.calls, f.store) = ingestAll ⟨1, .new 2 0⟩ ["", smallRecord, smallRecord] hesitantStore ∧
      List.Forall₂ Announces f.stored (f.received ++ f.channel.queue) := by
  intro f
  obtain ⟨hroom, hinjected, hstored, hreceived, hopen⟩ :
      (Feed.start hesitantStore (.new 1)).NeverWaits ⟨1, .new 2 0⟩ narrowEvents ∧
        f.store.history.injected = 1 ∧ f.stored.length = 2 ∧ f.received.length = 1 ∧
        f.channel.IsOpen := by decide +kernel
  obtain ⟨hcalls, hannounced, -⟩ := feed_mirrors hroom
  obtain ⟨sent, hsent, hqueue⟩ := hannounced hopen
  have hall : f.received ++ f.channel.queue = sent := hqueue
  rw [hall]
  exact ⟨hroom, hinjected, hstored, hreceived, hcalls, hsent⟩

end CallArchive.Ingest
