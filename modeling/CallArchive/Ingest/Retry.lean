import CallArchive.Store.Basic

/-!
# Trying again

An attempt that fails transiently is made again until it succeeds, fails for good, or the limit is
reached; before attempt `n + 1` comes a pause of `n` times the backoff. `RetryPolicy.run` does this
for attempts on any kind of state. An attempt is work between the begin and the commit of a
transaction, taken back if any of it fails; whoever has `Transactions` can make it, and `transaction`
is that of a store.
-/

namespace CallArchive.Ingest

open Store (Action)

/-- How often to try, which is at least once, and the backoff in milliseconds. -/
structure RetryPolicy where
  limit : Nat
  backoff : Nat
  deriving DecidableEq, Repr

/-- What came of it: the value with the number of attempts, how long the pauses lasted in order, the
last state. Without a backoff there is nothing to wait for, and the pauses last no time. -/
structure RetryRun (σ α : Type) where
  result : Except Error (α × Nat)
  pauses : List Nat
  state : σ

namespace RetryPolicy

def defaultLimit : Nat := 3

def defaultBackoff : Nat := 50

def new (limit backoff : Nat) : RetryPolicy := ⟨max limit 1, backoff⟩

/-- Makes attempt `n` and, as long as it fails transiently, up to `left` more. -/
def runFrom (p : RetryPolicy) (attempt : Nat → σ → Except Error α × σ) :
    (left n : Nat) → σ → RetryRun σ α
  | left, n, s =>
    match attempt n s with
    | (.ok a, s) => ⟨.ok (a, n), [], s⟩
    | (.error e, s) =>
      if e.isTransient then
        match left with
        | 0 => ⟨.error (.retriesExhausted n e), [], s⟩
        | left + 1 =>
          let r := runFrom p attempt left (n + 1) s
          { r with pauses := p.backoff * n :: r.pauses }
      else ⟨.error e, [], s⟩

def run (p : RetryPolicy) (attempt : Nat → σ → Except Error α × σ) (s : σ) : RetryRun σ α :=
  p.runFrom attempt (p.limit - 1) 1 s

end RetryPolicy

/-- An action on any kind of state. -/
abbrev ActionOn (σ α : Type) := ExceptT Error (StateM σ) α

/-- The steps by which transactions begin and end. -/
structure Transactions (σ : Type) where
  begin : ActionOn σ Unit
  commit : ActionOn σ Unit
  rollback : ActionOn σ Unit

namespace Transactions

/-- Takes back an open transaction; a failure to do so is not reported. -/
def rollbackQuietly (t : Transactions σ) : ActionOn σ Unit := tryCatch t.rollback fun _ => return ()

/-- Work inside a transaction. If the transaction does not begin nothing is taken back. -/
def within (t : Transactions σ) (work : ActionOn σ α) : ActionOn σ α := do
  t.begin
  tryCatch
    (do
      let a ← work
      t.commit
      return a)
    fun e => do
      t.rollbackQuietly
      throw e

end Transactions

/-- Tries work in transactions. -/
def RetryPolicy.runIn (p : RetryPolicy) (t : Transactions σ) (work : Nat → ActionOn σ α) (s : σ) :
    RetryRun σ α :=
  p.run (fun n s => (t.within (work n)).run s) s

def storeTransactions : Transactions Store :=
  ⟨Store.beginTransaction, Store.commitTransaction, Store.rollbackTransaction⟩

def rollbackQuietly : Action Unit := storeTransactions.rollbackQuietly

def transaction (work : Action α) : Action α := storeTransactions.within work

/-- Tries work in transactions of a store. -/
def RetryPolicy.runTransaction (p : RetryPolicy) (work : Nat → Action α) (s : Store) :
    RetryRun Store α :=
  p.runIn storeTransactions work s

end CallArchive.Ingest
