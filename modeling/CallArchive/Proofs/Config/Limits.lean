import CallArchive.Config.Basic
import CallArchive.Proofs.Store.Parameters

/-!
# Limits of a configuration

Of the numbers that a run computes with, `Config.check` bounds only the size of batches. So every
statement keeps to the limit of the engine, and `Config.check_limits` tells when all pauses between
attempts can be held. Pauses that cannot be held are accepted all the same, and so are times to wait
for a lock that the engine cannot be told (`Config.check_overlong`).
-/

namespace CallArchive

open Ingest (RetryPolicy RetryRun)

/-- The milliseconds whose whole seconds have 64 bits. -/
def IsDuration (ms : Nat) : Prop := ms / 1000 < 2 ^ 64

instance : DecidablePred IsDuration := fun ms => inferInstanceAs (Decidable (ms / 1000 < 2 ^ 64))

theorem IsDuration.mono {ms ms' : Nat} (h : IsDuration ms) (hle : ms' ≤ ms) : IsDuration ms' := by
  unfold IsDuration at *
  omega

namespace Ingest.RetryPolicy

variable {σ α : Type} {p : RetryPolicy}

/-- Attempt `n` is followed by a pause of `n` times the backoff, if another one follows. -/
theorem exists_of_mem_pauses {attempt : Nat → σ → Except Error α × σ} {left n : Nat} {s : σ}
    {pause : Nat} (h : pause ∈ (p.runFrom attempt left n s).pauses) :
    ∃ k, n ≤ k ∧ k < n + left ∧ pause = p.backoff * k := by
  induction left generalizing n s with
  | zero =>
    unfold runFrom at h
    split at h
    · cases h
    · split at h <;> cases h
  | succ left ih =>
    unfold runFrom at h
    split at h
    · cases h
    · split at h
      · rcases List.mem_cons.mp h with rfl | h
        · exact ⟨n, Nat.le_refl n, by omega, rfl⟩
        · obtain ⟨k, hn, hk, rfl⟩ := ih h
          exact ⟨k, by omega, by omega, rfl⟩
      · cases h

/-- An attempt that finds the store locked. -/
def lockedOut (_ : Nat) (s : Unit) : Except Error Unit × Unit := (.error (.store .locked), s)

theorem mem_pauses_lockedOut {left n k : Nat} (hn : n ≤ k) (hk : k < n + left) :
    p.backoff * k ∈ (p.runFrom lockedOut left n ()).pauses := by
  induction left generalizing n with
  | zero => omega
  | succ left ih =>
    have hstep : (p.runFrom lockedOut (left + 1) n ()).pauses
        = p.backoff * n :: (p.runFrom lockedOut left (n + 1) ()).pauses := rfl
    rw [hstep]
    by_cases heq : k = n
    · rw [heq]
      exact List.mem_cons_self
    · exact List.mem_cons_of_mem _ (ih (by omega) (by omega))

/-- The longest pause is the one before the last attempt. -/
theorem pauses_areDurations_iff (hlimit : 1 ≤ p.limit) :
    (∀ {σ α : Type} (attempt : Nat → σ → Except Error α × σ) (s : σ),
      ∀ pause ∈ (p.run attempt s).pauses, IsDuration pause) ↔
      IsDuration (p.backoff * (p.limit - 1)) := by
  constructor
  · intro h
    by_cases hone : p.limit = 1
    · rw [hone, Nat.sub_self, Nat.mul_zero]
      decide
    · exact h lockedOut () _ (mem_pauses_lockedOut (by omega) (by omega))
  · intro h σ α attempt s pause hpause
    obtain ⟨k, -, hk, rfl⟩ := exists_of_mem_pauses hpause
    exact h.mono (Nat.mul_le_mul_left _ (by omega))

end Ingest.RetryPolicy

namespace Config

variable {c : Config}

theorem check_ok_iff : c.check = .ok () ↔
    (1 ≤ c.batchSize ∧ c.batchSize ≤ Ingest.maxBatchSize) ∧ c.retryLimit ≠ 0 ∧ c.workers ≠ 0 ∧
      c.path ≠ "" := by
  have hthrow (e : ConfigError) (next : Unit → Except ConfigError Unit) :
      (throw e >>= next) ≠ .ok () := nofun
  unfold check
  by_cases hbatch : 1 ≤ c.batchSize ∧ c.batchSize ≤ Ingest.maxBatchSize
  · by_cases hlimit : c.retryLimit = 0
    · simp [hbatch, hlimit, hthrow]
    · by_cases hworkers : c.workers = 0
      · simp [hbatch, hlimit, hworkers, hthrow]
      · by_cases hpath : c.path = ""
        · simp [hbatch, hlimit, hworkers, hpath, throw, throwThe, MonadExceptOf.throw]
        · simp [hbatch, hlimit, hworkers, hpath, pure, Except.pure]
  · simp [hbatch, hthrow]

theorem batchSize_settings (h : c.check = .ok ()) : c.settings.batchSize = c.batchSize := by
  obtain ⟨⟨hone, hmax⟩, -⟩ := check_ok_iff.mp h
  unfold settings Ingest.clampBatchSize
  dsimp only
  omega

theorem retry_settings (h : c.check = .ok ()) : c.settings.retry = ⟨c.retryLimit, c.retryBackoff⟩ := by
  obtain ⟨-, hlimit, -⟩ := check_ok_iff.mp h
  unfold settings Ingest.RetryPolicy.new
  rw [Nat.max_eq_left (by omega)]

/-- An accepted configuration keeps every statement that writes to the limit of the engine. Its
pauses are durations just if the last one is. Its backoff and its time to wait for a lock may be
anything. -/
theorem check_limits (h : c.check = .ok ()) :
    (∀ pending, Store.Binds Store.parameterLimit
      (Ingest.writeCallables c.settings.batchSize pending)) ∧
    (∀ ids pending, Store.Binds Store.parameterLimit
      (Ingest.writeEdges c.settings.batchSize ids pending)) ∧
    (∀ v, Store.Binds Store.parameterLimit (Ingest.writeRecord c.settings.batchSize v)) ∧
    ((∀ {σ α : Type} (attempt : Nat → σ → Except Error α × σ) (s : σ),
      ∀ pause ∈ (c.settings.retry.run attempt s).pauses, IsDuration pause) ↔
      IsDuration (c.retryBackoff * (c.retryLimit - 1))) ∧
    (∀ busyTimeout retryBackoff, { c with busyTimeout, retryBackoff }.check = .ok ()) := by
  obtain ⟨hbatch, hlimit, -⟩ := check_ok_iff.mp h
  have hrows : 5 * c.settings.batchSize ≤ Store.parameterLimit := by
    rw [batchSize_settings h]
    unfold Ingest.maxBatchSize at hbatch
    unfold Store.parameterLimit
    omega
  have hone : 5 ≤ Store.parameterLimit := by decide
  refine ⟨fun pending => ?_, fun ids pending => ?_, fun v => ?_, ?_, fun _ _ => h⟩
  · exact Ingest.binds_writeCallables hrows pending
  · exact Ingest.binds_writeEdges hrows ids pending
  · exact Ingest.binds_writeRecord hone hrows v
  · rw [retry_settings h]
    exact Ingest.RetryPolicy.pauses_areDurations_iff (Nat.one_le_iff_ne_zero.mpr hlimit)

theorem check_limits_default : default.check = .ok () ∧
    Store.Binds Store.parameterLimit (Ingest.writeCallables default.settings.batchSize
      (List.replicate 10000 ⟨⟨1, by decide⟩, .external "/n/C.m()V"⟩)) ∧
    ∀ pause ∈ (default.settings.retry.run Ingest.RetryPolicy.lockedOut ()).pauses,
      IsDuration pause := by
  obtain ⟨hcallables, -, -, hpauses, -⟩ := check_limits check_default
  exact ⟨check_default, hcallables _, hpauses.mpr (by decide) Ingest.RetryPolicy.lockedOut ()⟩

/-- A time to wait that the engine cannot be told, and pauses of which one cannot be held. -/
theorem check_overlong :
    ({ default with busyTimeout := 2147483648 } : Config).check = .ok () ∧
      maxBusyTimeout < 2147483648 ∧
    ({ default with retryLimit := 2000, retryBackoff := 2 ^ 64 - 1 } : Config).check = .ok () ∧
      ∃ pause ∈ (({ default with retryLimit := 2000, retryBackoff := 2 ^ 64 - 1 }
        : Config).settings.retry.run Ingest.RetryPolicy.lockedOut ()).pauses,
        ¬ IsDuration pause := by
  refine ⟨rfl, by decide, rfl, (2 ^ 64 - 1) * 1999, ?_, by decide⟩
  exact Ingest.RetryPolicy.mem_pauses_lockedOut (by decide) (by decide)

end Config

end CallArchive
