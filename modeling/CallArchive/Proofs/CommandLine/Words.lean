import CallArchive.CommandLine.Failure
import CallArchive.Proofs.Text.Cut
import CallArchive.Proofs.Text.Digits

/-!
# Words in the text of a failure

The text of a failure is put together from fixed texts, numbers, names and the texts of causes. What
stands beside a name is no letter, so that the text has one of the words that decide the exit code
exactly if one of its parts has (`mentions_message`). Hence the exit code of a failure is that of its
concern, unless a name or a cause has such a word (`exitCode_eq`).
-/

namespace CallArchive.CommandLine

/-! ## What no occurrence goes across -/

section

variable {α : Type} {w a b : List α} {c : α}

theorem infix_append_cons_iff (hc : c ∉ w) : w <:+: a ++ c :: b ↔ w <:+: a ∨ w <:+: b := by
  constructor
  · rintro ⟨before, after, heq⟩
    rcases List.append_eq_append_iff.mp heq with ⟨rest, rfl, -⟩ | ⟨rest, hleft, hright⟩
    · exact .inl (List.infix_append before w rest)
    · rcases rest with _ | ⟨x, rest⟩
      · rw [List.append_nil] at hleft
        exact .inl (hleft ▸ (List.suffix_append before w).isInfix)
      · obtain ⟨rfl, rfl⟩ := List.cons.inj hright
        rcases List.append_eq_append_iff.mp hleft with ⟨lead, rfl, hw⟩ | ⟨lead, rfl, hw⟩
        · exact absurd (hw ▸ List.mem_append_right lead List.mem_cons_self) hc
        · rcases lead with _ | ⟨y, lead⟩
          · rw [List.nil_append] at hw
            exact absurd (hw ▸ List.mem_cons_self) hc
          · obtain ⟨rfl, rfl⟩ := List.cons.inj hw
            exact .inr (List.infix_append lead w after)
  · rintro (h | h)
    · exact h.trans (List.prefix_append a (c :: b)).isInfix
    · exact (h.trans (List.suffix_cons c b).isInfix).trans (List.suffix_append a (c :: b)).isInfix

variable (hne : w ≠ []) (hc : c ∉ w)
include hne hc

theorem infix_append_of_start : w <:+: a ++ c :: b ↔ w <:+: a ∨ w <:+: c :: b := by
  have hstart : w <:+: c :: b ↔ w <:+: [] ∨ w <:+: b := infix_append_cons_iff (a := []) hc
  rw [infix_append_cons_iff hc, hstart, List.infix_nil, or_iff_right hne]

theorem infix_append_of_end : w <:+: a ++ [c] ++ b ↔ w <:+: a ++ [c] ∨ w <:+: b := by
  rw [List.append_assoc, List.singleton_append, infix_append_cons_iff hc, infix_append_cons_iff hc,
    List.infix_nil, or_iff_left hne]

end

namespace CommandError

/-! ## Words -/

/-- The words that decide an exit code. -/
def words : List String := ["config", "database", "sqlite"]

/-- The characters that stand beside names. -/
def separators : List Char := [' ', '.', ':', '(']

def isApart (c : Char) : Bool := separators.contains c

def startsApart (text : String) : Bool := text.toList.head?.any isApart

def endsApart (text : String) : Bool := text.toList.getLast?.any isApart

variable {w a b : String}

theorem mentions_iff : mentions w a = true ↔ w.toList <:+: a.toList.map Char.toLower :=
  Text.contains_iff

theorem ne_nil_of_mem_words (hw : w ∈ words) : w.toList ≠ [] := by
  revert w
  decide

theorem not_mem_of_isApart (hw : w ∈ words) {c : Char} (hc : isApart c = true) :
    c.toLower ∉ w.toList := by
  have hnone : ∀ w ∈ words, separators.all (fun c => !w.toList.contains c.toLower) = true := by
    decide +kernel
  have hword := List.all_eq_true.mp (hnone w hw) c (List.contains_iff_mem.mp hc)
  simpa using hword

theorem startsApart_iff :
    startsApart a = true ↔ ∃ c s, a.toList = c :: s ∧ isApart c = true := by
  unfold startsApart
  cases a.toList <;> simp

theorem endsApart_iff : endsApart a = true ↔ ∃ s c, a.toList = s ++ [c] ∧ isApart c = true := by
  unfold endsApart
  cases a.toList using List.reverseRecOn with
  | nil => simp
  | append_singleton s c => simp

theorem startsApart_append (ha : startsApart a = true) : startsApart (a ++ b) = true := by
  obtain ⟨c, s, heq, hc⟩ := startsApart_iff.mp ha
  exact startsApart_iff.mpr ⟨c, s ++ b.toList, by rw [String.toList_append, heq]; rfl, hc⟩

theorem mentions_append_of_start (hw : w ∈ words) (hb : startsApart b = true) :
    mentions w (a ++ b) = (mentions w a || mentions w b) := by
  obtain ⟨c, s, heq, hc⟩ := startsApart_iff.mp hb
  rw [Bool.eq_iff_iff, Bool.or_eq_true, mentions_iff, mentions_iff, mentions_iff,
    String.toList_append, List.map_append, heq, List.map_cons]
  exact infix_append_of_start (ne_nil_of_mem_words hw) (not_mem_of_isApart hw hc)

theorem mentions_append_of_end (hw : w ∈ words) (ha : endsApart a = true) :
    mentions w (a ++ b) = (mentions w a || mentions w b) := by
  obtain ⟨s, c, heq, hc⟩ := endsApart_iff.mp ha
  rw [Bool.eq_iff_iff, Bool.or_eq_true, mentions_iff, mentions_iff, mentions_iff,
    String.toList_append, List.map_append, heq, List.map_append]
  exact infix_append_of_end (ne_nil_of_mem_words hw) (not_mem_of_isApart hw hc)

theorem mentions_told (hw : w ∈ words) (trace : List String) :
    mentions w (told trace) = trace.any (mentions w) := by
  have hnil : mentions w "" = false := by
    revert w
    decide +kernel
  have hcolon : mentions w ": " = false := by
    revert w
    decide +kernel
  induction trace with
  | nil => exact hnil
  | cons t rest ih =>
    cases rest with
    | nil => simp [told]
    | cons u rest =>
      have hmore : told (t :: u :: rest) = t ++ (": " ++ told (u :: rest)) := by
        rw [told, String.intercalate_cons_cons, String.append_assoc, told]
      rw [hmore, mentions_append_of_start hw (startsApart_append (by decide)),
        mentions_append_of_end hw (by decide), hcolon, Bool.false_or, ih, List.any_cons (a := t)]

/-! ## Numbers -/

theorem toLower_of_isDigit {c : Char} (h : c.isDigit = true) : c.toLower = c := by
  have hbounds := Text.toNat_of_isDigit h
  have hnot : ¬ (c.val ≥ 'A'.val ∧ c.val ≤ 'Z'.val) := by
    rw [ge_iff_le, UInt32.le_iff_toNat_le]
    have hA : 'A'.val.toNat = 65 := rfl
    have hc : c.toNat = c.val.toNat := rfl
    omega
  exact dif_neg hnot

theorem exists_letter (hw : w ∈ words) : ∃ c ∈ w.toList, c.isDigit = false := by
  have hletter : ∀ w ∈ words, w.toList.any (fun c => !c.isDigit) = true := by decide +kernel
  simpa using List.any_eq_true.mp (hletter w hw)

theorem mentions_repr (hw : w ∈ words) (n : Nat) : mentions w n.repr = false := by
  rw [Bool.eq_false_iff, ne_eq, mentions_iff, Nat.toList_repr]
  intro hfound
  obtain ⟨c, hc, hletter⟩ := exists_letter hw
  obtain ⟨d, hd, rfl⟩ := List.mem_map.mp (hfound.subset hc)
  have hdigit : d.isDigit = true := Text.allDigits_digits n d hd
  rw [toLower_of_isDigit hdigit, hdigit] at hletter
  cases hletter

theorem mentions_outOf (hw : w ∈ words) (m n : Nat) :
    mentions w (m.repr ++ " of " ++ n.repr) = mentions w " of " := by
  rw [String.append_assoc, mentions_append_of_start hw (startsApart_append (by decide)),
    mentions_append_of_end hw (by decide), mentions_repr hw, mentions_repr hw, Bool.false_or,
    Bool.or_false]

/-! ## What a failure is about -/

/-- What has gone wrong: something with the configuration, something with the database or the place
of it, that some records but not all have been stored, that the program has panicked, or anything
else. -/
inductive Concern where
  | configuration
  | database
  | partialSuccess
  | panic
  | other
  deriving DecidableEq

def concern : CommandError → Concern
  | .configExists _ | .configNotWritable _ | .configNotWritten _ _ | .configNotLoaded _ _
  | .configOverridden _ _ => .configuration
  | .directoryNotMade _ _ | .databaseNotFound _ | .databaseNotOpened _ _
  | .ingestionNotStarted _ _ => .database
  | .someFailed _ _ => .partialSuccess
  | .timeoutTooLong => .panic
  | .inputs _ | .recordNotRead _ _ | .allFailed _ | .someInvalid _ _ => .other

/-- The names in the text of a failure, and the texts of its causes. -/
def parts : CommandError → List String
  | .configExists p | .databaseNotFound p | .inputs (.noMatch p) => [p]
  | .configNotWritable cause => [cause.message]
  | .configNotWritten p cause | .recordNotRead p cause | .directoryNotMade p cause =>
    [p, cause.message]
  | .configNotLoaded p cause | .configOverridden p cause => [p, cause.message]
  | .inputs (.badPattern p cause) => [p, cause.message]
  | .databaseNotOpened p cause => p :: (Error.store cause).trace
  | .ingestionNotStarted p cause => p :: cause.trace
  | .someFailed _ _ | .allFailed _ | .someInvalid _ _ | .timeoutTooLong => []

/-- The fixed texts in it. -/
def frame : CommandError → List String
  | .configExists _ => ["Config file already exists: ", ". Use --force to overwrite."]
  | .configNotWritable _ => ["Cannot serialize default config"]
  | .configNotWritten _ _ => ["Cannot write config: "]
  | .configNotLoaded _ _ => ["Cannot load config: "]
  | .configOverridden _ _ => ["Invalid config after overrides: "]
  | .inputs (.badPattern _ _) => ["Invalid file pattern: "]
  | .inputs (.noMatch _) => ["No input files match: "]
  | .recordNotRead _ _ => ["Cannot read record file: "]
  | .directoryNotMade _ _ => ["Cannot create database directory: "]
  | .databaseNotFound _ => ["Database not found: ", ". Run `metadb init` first."]
  | .databaseNotOpened _ _ => ["Cannot open database: "]
  | .ingestionNotStarted _ _ => ["Cannot start ingestion into database: "]
  | .someFailed _ _ => [" of ", " records failed"]
  | .allFailed _ => ["No records were ingested (", " failed)"]
  | .someInvalid _ _ => [" of ", " records failed validation"]
  | .timeoutTooLong => ["too big"]

theorem mentions_message (hw : w ∈ words) (e : CommandError) :
    mentions w e.message = (e.frame.any (mentions w) || e.parts.any (mentions w)) := by
  rw [message, mentions_told hw]
  -- Beside every name stands a fixed text, and its character next to the name is no letter.
  cases e with
  | inputs cause =>
    cases cause <;>
      simp (disch := decide +kernel) only [trace, frame, parts, toString, List.any_cons,
        List.any_nil, mentions_append_of_end hw, Bool.or_assoc, Bool.or_false]
  | _ =>
    simp (disch := decide +kernel) only [trace, frame, parts, toString, List.any_cons,
      List.any_nil, mentions_append_of_start hw, mentions_append_of_end hw, mentions_repr hw,
      mentions_outOf hw, Bool.or_assoc, Bool.or_comm, Bool.or_left_comm, Bool.false_or]

/-- The fixed texts of a failure of the configuration and of one of the database say so; otherwise
they have no word that decides. -/
theorem frame_mentions (e : CommandError) :
    e.frame.any (mentions "config") = (e.concern == .configuration) ∧
    (e.concern ≠ .configuration →
      (e.frame.any (mentions "database") || e.frame.any (mentions "sqlite"))
        = (e.concern == .database)) := by
  cases e with
  | inputs cause =>
    cases cause <;>
    · simp only [frame, concern]
      decide +kernel
  | _ =>
    simp only [frame, concern]
    decide +kernel

/-! ## Exit codes -/

/-- Whether a name or a cause has the word of the configuration in it. -/
def namesConfig (e : CommandError) : Bool := e.parts.any (mentions "config")

/-- Whether one has a word of the database in it. -/
def namesDatabase (e : CommandError) : Bool :=
  e.parts.any (mentions "database") || e.parts.any (mentions "sqlite")

/-- The exit code of a failure whose names and causes have these words in them. -/
def codeWith (about : Concern) (config database : Bool) : Nat :=
  match about with
  | .partialSuccess => partialCode
  | .panic => panicCode
  | .configuration => configCode
  | .database => if config then configCode else databaseCode
  | .other => if config then configCode else if database then databaseCode else generalCode

section

variable {about : Concern} {config database : Bool}

theorem codeWith_ne_zero : codeWith about config database ≠ 0 := by
  cases about <;> revert config database <;> decide

theorem codeWith_eq_two_iff :
    codeWith about config database = 2 ↔
      about = .configuration ∨ about ≠ .partialSuccess ∧ about ≠ .panic ∧ config = true := by
  cases about <;> revert config database <;> decide

theorem codeWith_eq_four_iff :
    codeWith about config database = 4 ↔
      config = false ∧ (about = .database ∨ about = .other ∧ database = true) := by
  cases about <;> revert config database <;> decide

theorem codeWith_eq_ten_iff : codeWith about config database = 10 ↔ about = .partialSuccess := by
  cases about <;> revert config database <;> decide

end

theorem exitCode_of_ne {e : CommandError} (h : e.concern ≠ .partialSuccess)
    (hpanic : e.concern ≠ .panic) : e.exitCode = codeOf e.message := by
  cases e with
  | someFailed failed total => exact absurd rfl h
  | timeoutTooLong => exact absurd rfl hpanic
  | _ => rfl

/-- A panic names nothing. -/
theorem concern_ne_panic {e : CommandError} (h : e.namesConfig = true) : e.concern ≠ .panic := by
  cases e with
  | timeoutTooLong => cases h
  | _ => nofun

theorem codeOf_message (e : CommandError) :
    codeOf e.message =
      if e.frame.any (mentions "config") || e.namesConfig then configCode
      else if e.frame.any (mentions "database") || e.frame.any (mentions "sqlite") ||
        e.namesDatabase then databaseCode
      else generalCode := by
  rw [codeOf, mentions_message (by decide), mentions_message (by decide),
    mentions_message (by decide), namesConfig, namesDatabase]
  simp only [Bool.or_assoc, Bool.or_left_comm]

/-- A failure has the code of what it is about, unless a name or a cause has a word that stands for
another code. -/
theorem exitCode_eq (e : CommandError) :
    e.exitCode = codeWith e.concern e.namesConfig e.namesDatabase := by
  obtain ⟨hconfig, hdatabase⟩ := e.frame_mentions
  have hcode := e.codeOf_message
  rw [hconfig] at hcode
  cases hconcern : e.concern with
  | partialSuccess =>
    cases e with
    | someFailed failed total => rfl
    | _ => cases hconcern
  | panic =>
    cases e with
    | timeoutTooLong => rfl
    | _ => cases hconcern
  | configuration =>
    rw [exitCode_of_ne (by rw [hconcern]; nofun) (by rw [hconcern]; nofun), hcode, hconcern]
    rfl
  | database =>
    rw [exitCode_of_ne (by rw [hconcern]; nofun) (by rw [hconcern]; nofun), hcode,
      hdatabase (by rw [hconcern]; nofun), hconcern]
    rfl
  | other =>
    rw [exitCode_of_ne (by rw [hconcern]; nofun) (by rw [hconcern]; nofun), hcode,
      hdatabase (by rw [hconcern]; nofun), hconcern]
    rfl

end CommandError

end CallArchive.CommandLine
