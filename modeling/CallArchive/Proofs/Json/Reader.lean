import CallArchive.Proofs.Json.Literal
import Mathlib.Tactic.SplitIfs

/-!
# What holds of every value that is read

A property of values below so many open arrays and objects is `Hereditary` if it holds of what has
no parts and passes from the parts to the whole. Then it holds of every value that is read
(`Hereditary.of_parse`). It is an invariant of the machine: what has been read of the containers
that are open, and the value at hand, have it at their depth.
-/

namespace CallArchive.Json

open CallArchive.Json.Parser (maxDepth)

/-- The property passes from the parts of a value to the value that the reader puts together. -/
structure Hereditary (P : Nat → Value → Prop) : Prop where
  null : ∀ level, P level .null
  bool : ∀ level b, P level (.bool b)
  number : ∀ level {n : Number}, n.Valid → P level (.number n)
  text : ∀ level s, P level (.text s)
  array : ∀ {level xs}, level < maxDepth → (∀ x ∈ xs, P (level + 1) x) → P level (.array xs)
  empty : ∀ {level}, level < maxDepth → P level (.object [])
  insert : ∀ {level v} {m : Members} key, P level (.object m) → P (level + 1) v →
    P level (.object (m.insert key v))

namespace Parser

section Invariant

variable (P : Nat → Value → Prop)

def Frame.Holds (level : Nat) : Frame → Prop
  | .items done => level < maxDepth ∧ ∀ v ∈ done, P (level + 1) v
  | .members done _ => P level (.object done)

/-- Each container has it at its own depth, the outermost at depth 0. -/
def StackHolds : List Frame → Prop
  | [] => True
  | frame :: rest => frame.Holds P rest.length ∧ StackHolds rest

def Role.Holds (level : Nat) : Role → Prop
  | .value => True
  | .key done => P level (.object done)

def Scan.Holds (level : Nat) : Scan → Prop
  | .firstItem | .firstKey => level < maxDepth
  | .key done | .colon done _ => P level (.object done)
  | .after v | .word _ v => P level v
  | .text role _ _ => role.Holds P level
  | .value | .number _ _ => True

structure State.Holds (st : State) : Prop where
  stack : StackHolds P st.stack
  scan : st.scan.Holds P st.stack.length

/-- The state after a step has it, if there is one. -/
def Keeps (x : Option State) : Prop := ∀ next ∈ x, next.Holds P

end Invariant

/-! ## One character -/

variable {P : Nat → Value → Prop}

namespace Keeps

theorem none : Keeps P none := nofun

theorem some {st : State} (h : st.Holds P) : Keeps P (some st) := by
  rintro _ ⟨⟩
  exact h

theorem ite {p : Prop} [Decidable p] {x y : Option State} (hx : Keeps P x) (hy : Keeps P y) :
    Keeps P (if p then x else y) := by
  split
  · exact hx
  · exact hy

theorem guarded {p : Prop} [Decidable p] {x : Option State} (hx : p → Keeps P x) :
    Keeps P (if p then x else .none) := by
  split
  · next hp => exact hx hp
  · exact none

theorem map {α : Type} {x : Option α} {f : α → State} (h : ∀ a, (f a).Holds P) :
    Keeps P (x.map f) := by
  intro next hnext
  obtain ⟨a, -, rfl⟩ := Option.map_eq_some_iff.mp hnext
  exact h a

theorem bind {α : Type} {x : Option α} {f : α → Option State} (h : ∀ a ∈ x, Keeps P (f a)) :
    Keeps P (x.bind f) := by
  intro next hnext
  obtain ⟨a, ha, hnext⟩ := Option.bind_eq_some_iff.mp hnext
  exact h a ha next hnext

end Keeps

section Text

variable {stack : List Frame} {role : Role} (hstack : StackHolds P stack)
  (hrole : role.Holds P stack.length)

include hstack hrole

/-- Inside a text nothing is added to what has been read. -/
theorem holds_text (done : List Char) (scan : TextScan) :
    State.Holds P ⟨stack, .text role done scan⟩ :=
  ⟨hstack, hrole⟩

theorem keeps_takeUnit (done : List Char) (high : Option Nat) (n : Nat) :
    Keeps P (takeUnit stack role done high n) := by
  have htext := holds_text hstack hrole
  cases high with
  | some h => exact .ite (.some (htext _ _)) .none
  | none => exact .ite .none (.ite (.some (htext _ _)) (.some (htext _ _)))

end Text

section Step

variable (hP : Hereditary P) {stack : List Frame} {role : Role} (hstack : StackHolds P stack)
  (hrole : role.Holds P stack.length)

include hP hstack

theorem keeps_pushValue (c : Char) : Keeps P (pushValue stack c) := by
  have hnumber (done : List Char) (scan : NumberScan) :
      Keeps P (some ⟨stack, .number done scan⟩) := .some ⟨hstack, trivial⟩
  have hword (left : List Char) {v : Value} (hv : P stack.length v) :
      Keeps P (some ⟨stack, .word left v⟩) := .some ⟨hstack, hv⟩
  exact .ite (.some ⟨hstack, trivial⟩) <| .ite (.some ⟨hstack, trivial⟩) <|
    .ite (.guarded fun hroom => .some ⟨hstack, hroom⟩) <|
    .ite (.guarded fun hroom => .some ⟨hstack, hroom⟩) <|
    .ite (hword _ (hP.null _)) <| .ite (hword _ (hP.bool _ true)) <|
    .ite (hword _ (hP.bool _ false)) <|
    .ite (hnumber _ _) <| .ite (hnumber _ _) <| .guarded fun _ => hnumber _ _

/-- A value that is complete goes into the container around it. -/
theorem keeps_pushAfter {v : Value} (hv : P stack.length v) (c : Char) :
    Keeps P (pushAfter stack v c) := by
  refine .ite (.some ⟨hstack, hv⟩) ?_
  cases stack with
  | nil => exact .none
  | cons frame rest =>
    obtain ⟨hframe, hrest⟩ := hstack
    cases frame with
    | items done =>
      have hitems : ∀ x ∈ v :: done, P (rest.length + 1) x :=
        List.forall_mem_cons.mpr ⟨hv, hframe.2⟩
      have harray : P rest.length (.array (v :: done).reverse) :=
        hP.array hframe.1 fun x hx => hitems x (List.mem_reverse.mp hx)
      exact .ite (.some ⟨⟨⟨hframe.1, hitems⟩, hrest⟩, trivial⟩) <| .ite (.some ⟨hrest, harray⟩) .none
    | members done key =>
      have hmembers : P rest.length (.object (done.insert key v)) := hP.insert key hframe hv
      exact .ite (.some ⟨hrest, hmembers⟩) (.ite (.some ⟨hrest, hmembers⟩) .none)

include hrole

theorem holds_endText (done : List Char) : (endText stack done role).Holds P := by
  cases role with
  | value => exact ⟨hstack, hP.text _ _⟩
  | key members => exact ⟨hstack, hrole⟩

theorem keeps_pushText (done : List Char) (c : Char) (scan : TextScan) :
    Keeps P (pushText stack role done c scan) := by
  have htext := holds_text hstack hrole
  cases scan with
  | plain =>
    exact .ite (.some (holds_endText hP hstack hrole done)) <| .ite (.some (htext _ _)) <|
      .ite .none (.some (htext _ _))
  | escape => exact .ite (.some (htext _ _)) (.map fun _ => htext _ _)
  | hex high window =>
    exact .ite (.some (htext _ _)) (.bind fun _ _ => keeps_takeUnit hstack hrole _ _ _)
  | pairMark high => exact .ite (.some (htext _ _)) .none
  | pairLetter high => exact .ite (.some (htext _ _)) .none

end Step

variable (hP : Hereditary P)

include hP

theorem State.Holds.push {st : State} (hst : st.Holds P) (c : Char) : Keeps P (st.push c) := by
  obtain ⟨stack, scan⟩ := st
  obtain ⟨hstack, hscan⟩ := hst
  cases scan with
  | value => exact keeps_pushValue hP hstack c
  | firstItem =>
    have hframe : (Frame.items []).Holds P stack.length := ⟨hscan, List.forall_mem_nil _⟩
    have hopened : StackHolds P (.items [] :: stack) := ⟨hframe, hstack⟩
    exact .ite (.some ⟨hstack, hscan⟩) <| .ite (.some ⟨hstack, hP.array hscan nofun⟩) <|
      keeps_pushValue hP hopened c
  | firstKey =>
    have hempty : P stack.length (.object []) := hP.empty hscan
    exact .ite (.some ⟨hstack, hscan⟩) <| .ite (.some ⟨hstack, hempty⟩) <|
      .ite (.some ⟨hstack, hempty⟩) .none
  | key done => exact .ite (.some ⟨hstack, hscan⟩) (.ite (.some ⟨hstack, hscan⟩) .none)
  | colon done key =>
    exact .ite (.some ⟨hstack, hscan⟩) (.ite (.some ⟨⟨hscan, hstack⟩, trivial⟩) .none)
  | after v => exact keeps_pushAfter hP hstack hscan c
  | word left v =>
    match left with
    | [] => exact keeps_pushAfter hP hstack hscan c
    | [_] | _ :: _ :: _ => exact .ite (.some ⟨hstack, hscan⟩) .none
  | text role done scan => exact keeps_pushText hP hstack hscan done c scan
  | number done scan =>
    simp only [State.push]
    cases scan.next? c with
    | some next => exact .some ⟨hstack, trivial⟩
    | none =>
      exact .ite (.bind fun n hn =>
        keeps_pushAfter hP hstack (hP.number _ (Number.valid_ofLiteral hn)) c) .none

/-! ## The whole text -/

theorem State.Holds.finish {st : State} {v : Value} (hst : st.Holds P)
    (h : st.finish = .ok v) : P 0 v := by
  obtain ⟨stack, scan⟩ := st
  cases scan with
  | after w =>
    simp only [State.finish] at h
    split_ifs at h with hclosed
    cases h
    obtain rfl := List.isEmpty_iff.mp hclosed
    exact hst.scan
  | number done scan =>
    cases hn : Number.ofLiteral done.reverse with
    | none =>
      simp only [State.finish, hn] at h
      split_ifs at h
    | some n =>
      simp only [State.finish, hn] at h
      split_ifs at h
      cases h
      exact hP.number 0 (Number.valid_ofLiteral hn)
  | _ => cases h

theorem State.Holds.run {line column : Nat} {st : State} {cs : List Char} {v : Value}
    (hst : st.Holds P) (h : run line column st cs = .ok v) : P 0 v := by
  induction cs generalizing line column st with
  | nil =>
    unfold Parser.run at h
    split at h
    · next w hw =>
      obtain rfl := Except.ok.inj h
      exact hst.finish hP hw
    · cases h
  | cons c cs ih =>
    simp only [Parser.run] at h
    split at h
    · next next hnext => exact ih (hst.push hP c next hnext) h
    · cases h

end Parser

theorem Hereditary.of_parse {P : Nat → Value → Prop} (hP : Hereditary P) {text : String}
    {v : Value} (h : parse text = .ok v) : P 0 v := by
  have hstart : Parser.start.Holds P := ⟨trivial, trivial⟩
  exact hstart.run hP h

end CallArchive.Json
