import CallArchive.Json.Merge

/-!
# What the reader makes of a printed value

`reread level v` is the value that the reader finds in the text of `v` below `level` open arrays and
objects, if it finds one: `v` with its numbers read again and its members put in order, unless it
nests too deep. `toOption_parse_print` says so for whole texts. The proof goes by the structure of
the value; since a number ends only with the character behind it, what is shown of a text is how the
machine goes on after it (`Leaves`).
-/

namespace CallArchive.Json

namespace Parser

/-- Runs the machine over some characters. -/
def pushAll (st : State) (cs : List Char) : Option State := cs.foldlM State.push st

@[simp] theorem pushAll_nil (st : State) : pushAll st [] = some st := rfl

@[simp] theorem pushAll_cons (st : State) (c : Char) (cs : List Char) :
    pushAll st (c :: cs) = (st.push c).bind fun st => pushAll st cs := rfl

@[simp] theorem pushAll_append (st : State) (cs ds : List Char) :
    pushAll st (cs ++ ds) = (pushAll st cs).bind fun st => pushAll st ds := by
  simp only [pushAll, List.foldlM_append]
  rfl

theorem toOption_run (line column : Nat) (st : State) (cs : List Char) :
    (run line column st cs).toOption = (pushAll st cs).bind fun st => st.finish.toOption := by
  induction cs generalizing line column st with
  | nil =>
    simp only [run, pushAll_nil, Option.bind_some]
    cases st.finish <;> rfl
  | cons c cs ih =>
    simp only [run, pushAll_cons]
    cases st.push c with
    | none => rfl
    | some next => exact ih ..

theorem hexNumber?_hexDigit : ∀ n < 0x20,
    hexNumber? ['0', '0', Text.hexDigit (n / 16), Text.hexDigit (n % 16)] = some n := by decide

theorem utf8Size_hexDigit : ∀ n < 16, (Text.hexDigit n).utf8Size = 1 := by decide

/-- The escape of a control character by its number. -/
theorem pushAll_control (stack : List Frame) (role : Role) (done : List Char) {n : Nat}
    (h : n < 0x20) :
    pushAll ⟨stack, .text role done .plain⟩
        ['\\', 'u', '0', '0', Text.hexDigit (n / 16), Text.hexDigit (n % 16)]
      = some ⟨stack, .text role (Char.ofNat n :: done) .plain⟩ := by
  have h1 := utf8Size_hexDigit (n / 16) (by omega)
  have h2 := utf8Size_hexDigit (n % 16) (by omega)
  have hz : ('0' : Char).utf8Size = 1 := rfl
  have hlow : isLowHalf n = false := by simp [isLowHalf]; omega
  have hhigh : isHighHalf n = false := by simp [isHighHalf]; omega
  simp [State.push, pushText, h1, h2, hz, hexNumber?_hexDigit n h, takeUnit, hlow, hhigh]

theorem pushAll_escaped (stack : List Frame) (role : Role) (done : List Char) (c : Char) :
    pushAll ⟨stack, .text role done .plain⟩ (escaped c)
      = some ⟨stack, .text role (c :: done) .plain⟩ := by
  unfold escaped
  split
  · next h => subst h; rfl
  split
  · next h => subst h; rfl
  split
  · next h => subst h; rfl
  split
  · next h => subst h; rfl
  split
  · next h => subst h; rfl
  split
  · next h => subst h; rfl
  split
  · next h => subst h; rfl
  split
  · next h => rw [pushAll_control stack role done h, Char.ofNat_toNat]
  · simp_all [State.push, pushText]

theorem pushAll_quoted (stack : List Frame) (role : Role) (done s : List Char) :
    pushAll ⟨stack, .text role done .plain⟩ (s.flatMap escaped ++ ['"'])
      = some (endText stack (s.reverse ++ done) role) := by
  induction s generalizing done with
  | nil => rfl
  | cons c s ih =>
    rw [List.flatMap_cons, List.append_assoc, pushAll_append, pushAll_escaped]
    simpa using ih (c :: done)

/-! ## Numbers -/

/-- The characters of numbers. -/
def isNumeral (c : Char) : Bool := c.isDigit || c ∈ ['-', '+', '.', 'e']

/-- What may stand behind a value inside an array or an object. -/
def isDelimiter (c : Char) : Bool := c ∈ [',', ']', '\x7d']

theorem ne_of_isNumeral {c : Char} (h : isNumeral c = true) {xs : List Char}
    (hxs : xs.any isNumeral = false) : ∀ x ∈ xs, c ≠ x := by
  rintro x hx rfl
  exact List.any_eq_false.mp hxs c hx h

/-- The scan after the first character of a number. -/
def NumberScan.first? (c : Char) : Option NumberScan :=
  if c = '-' then some .sign
  else if c = '0' then some .zero
  else if c.isDigit then some .whole
  else none

/-- The scan after some more characters. -/
def NumberScan.nextAll? (scan : NumberScan) (cs : List Char) : Option NumberScan :=
  cs.foldlM (fun scan c => scan.next? c) scan

theorem pushValue_numeral {c : Char} (h : isNumeral c = true) (stack : List Frame) :
    pushValue stack c = (NumberScan.first? c).map fun scan => ⟨stack, .number [c] scan⟩ := by
  have hne : ∀ x ∈ [' ', '\n', '\t', '\r', '"', '[', '\x7b', 'n', 't', 'f'], c ≠ x :=
    ne_of_isNumeral h rfl
  simp only [List.forall_mem_cons] at hne
  simp only [pushValue, isSpace, NumberScan.first?]
  simp only [hne, Bool.or_false, Bool.false_eq_true, ↓reduceIte, beq_eq_false_iff_ne.mpr, ne_eq,
    not_false_eq_true]
  split
  · rfl
  split
  · rfl
  split <;> rfl

theorem pushAfter_numeral {c : Char} (h : isNumeral c = true) (stack : List Frame) (v : Value) :
    pushAfter stack v c = none := by
  have hne : ∀ x ∈ [' ', '\n', '\t', '\r', ',', ']', '\x7d'], c ≠ x := ne_of_isNumeral h rfl
  simp only [List.forall_mem_cons] at hne
  rcases stack with _ | ⟨_ | _, _⟩ <;> simp [pushAfter, isSpace, hne]

/-- Inside a number the machine scans on or fails. -/
theorem pushAll_number {stack : List Frame} {cs : List Char} (h : ∀ c ∈ cs, isNumeral c = true)
    (done : List Char) (scan : NumberScan) :
    pushAll ⟨stack, .number done scan⟩ cs
      = (scan.nextAll? cs).map fun scan => ⟨stack, .number (cs.reverse ++ done) scan⟩ := by
  induction cs generalizing done scan with
  | nil => rfl
  | cons c cs ih =>
    have hc := h c List.mem_cons_self
    rw [pushAll_cons, NumberScan.nextAll?, List.foldlM_cons]
    cases hn : scan.next? c with
    | none =>
      have : State.push ⟨stack, .number done scan⟩ c = none := by
        simp only [State.push, hn, pushAfter_numeral hc]
        split <;> simp
      simp [this]
    | some next =>
      have : State.push ⟨stack, .number done scan⟩ c = some ⟨stack, .number (c :: done) next⟩ := by
        simp only [State.push, hn]
      rw [this, Option.bind_some, ih (fun x hx => h x (List.mem_cons_of_mem _ hx))]
      simp [NumberScan.nextAll?]

theorem next?_delimiter {c : Char} (h : isDelimiter c = true) (scan : NumberScan) :
    scan.next? c = none ∧ c.isDigit = false := by
  have hc : c ∈ [',', ']', '\x7d'] := of_decide_eq_true h
  simp only [List.mem_cons, List.not_mem_nil, or_false] at hc
  rcases hc with rfl | rfl | rfl <;> cases scan <;> exact ⟨rfl, rfl⟩

/-! ## Printed numbers -/

def AllNumeral (cs : List Char) : Prop := ∀ c ∈ cs, isNumeral c = true

@[simp] theorem allNumeral_nil : AllNumeral [] := fun _ h => nomatch h

@[simp] theorem allNumeral_cons {c : Char} {cs : List Char} :
    AllNumeral (c :: cs) ↔ isNumeral c = true ∧ AllNumeral cs := List.forall_mem_cons

@[simp] theorem allNumeral_append {cs ds : List Char} :
    AllNumeral (cs ++ ds) ↔ AllNumeral cs ∧ AllNumeral ds := List.forall_mem_append

@[simp] theorem allNumeral_zeros (n : Nat) : AllNumeral (List.replicate n '0') := fun _ hc => by
  rw [List.eq_of_mem_replicate hc]; rfl

@[simp] theorem allNumeral_digits (n : Nat) : AllNumeral (Text.digits n) := fun c hc => by
  have : c.isDigit = true := Nat.isDigit_of_mem_toDigits (by decide) (by decide) hc
  simp [isNumeral, this]

theorem allNumeral_scientificChars {ds : List Char} (h : AllNumeral ds) (leading : Int) :
    AllNumeral (Number.scientificChars ds leading) := by
  have hs : isNumeral (if leading < 0 then '-' else '+') = true := by split <;> rfl
  have he : isNumeral 'e' = true := rfl
  have hp : isNumeral '.' = true := rfl
  rcases ds with _ | ⟨d, _ | ⟨d', ds⟩⟩ <;>
    simp_all [Number.scientificChars]

theorem allNumeral_positionalChars {ds : List Char} (h : AllNumeral ds) (power : Int) :
    AllNumeral (Number.positionalChars ds power) := by
  have hz : isNumeral '0' = true := rfl
  have hp : isNumeral '.' = true := rfl
  have ht (n : Nat) : AllNumeral (ds.take n) := fun c hc => h c (List.mem_of_mem_take hc)
  have hd (n : Nat) : AllNumeral (ds.drop n) := fun c hc => h c (List.mem_of_mem_drop hc)
  unfold Number.positionalChars
  split
  · simp [h, hz, hp]
  · dsimp only
    split <;> simp [h, ht, hd, hz, hp]

theorem allNumeral_chars (n : Number) : AllNumeral n.chars := by
  cases n with
  | integer z =>
    have hm : isNumeral '-' = true := rfl
    simp only [Number.chars, Number.integerChars]
    split <;> simp [hm]
  | float x =>
    have hsign : ∀ body, AllNumeral body → AllNumeral (if x.negative then '-' :: body else body) :=
      fun body h => by split <;> simp [h, show isNumeral '-' = true from rfl]
    refine hsign _ ?_
    split
    · simp [show isNumeral '0' = true from rfl, show isNumeral '.' = true from rfl]
    split
    · exact allNumeral_scientificChars (allNumeral_digits _) _
    · exact allNumeral_positionalChars (allNumeral_digits _) _

end Parser

open CallArchive.Json.Parser

/-- The number that is read in the text of a number, if that is the text of one. -/
def Number.reread? (n : Number) : Option Number :=
  match n.chars with
  | [] => none
  | c :: cs => do
    let scan ← NumberScan.first? c
    let scan ← scan.nextAll? cs
    if scan.isComplete then Number.ofLiteral n.chars else none

namespace Parser

/-- How the machine goes on after a text that left it in `o`: as after the value `r` on `stack`. -/
structure Leaves (o : Option State) (stack : List Frame) (r : Option Value) : Prop where
  push : ∀ c, isDelimiter c = true →
    (o.bind fun st => st.push c) = r.bind fun v => pushAfter stack v c
  finish : (o.bind fun st => st.finish.toOption) = if stack.isEmpty then r else none

theorem Leaves.after (stack : List Frame) (r : Option Value) :
    Leaves (r.map fun v => ⟨stack, .after v⟩) stack r := by
  refine ⟨fun c _ => ?_, ?_⟩
  · cases r <;> rfl
  · cases r with
    | none => simp
    | some v => simp only [Option.map_some, Option.bind_some, State.finish]; split <;> rfl

theorem pushValue_delimiter {c : Char} (h : isDelimiter c = true) (stack : List Frame) :
    pushValue stack c = none := by
  have hc : c ∈ [',', ']', '\x7d'] := of_decide_eq_true h
  simp only [List.mem_cons, List.not_mem_nil, or_false] at hc
  rcases hc with rfl | rfl | rfl <;> rfl

theorem leaves_scanned (stack : List Frame) (done : List Char) (scan : NumberScan) :
    Leaves (some ⟨stack, .number done scan⟩) stack
      (if scan.isComplete then (Number.ofLiteral done.reverse).map .number else none) := by
  refine ⟨fun c hc => ?_, ?_⟩
  · obtain ⟨hn, hd⟩ := next?_delimiter hc scan
    by_cases hs : scan.isComplete
    · cases hl : Number.ofLiteral done.reverse <;> simp [State.push, hn, hs, hd, hl]
    · simp [State.push, hn, hs]
  · by_cases hs : scan.isComplete
    · cases hl : Number.ofLiteral done.reverse with
      | none => simp [State.finish, hs, hl, Except.toOption]
      | some n =>
        simp only [Option.bind_some, State.finish, hs, hl, ↓reduceIte, Option.map_some]
        split <;> rfl
    · simp [State.finish, hs, Except.toOption]

theorem Leaves.none (stack : List Frame) : Leaves none stack none :=
  ⟨fun _ _ => rfl, by simp⟩

theorem reread?_of_chars {n : Number} {c : Char} {cs : List Char} (h : n.chars = c :: cs) :
    n.reread? = (NumberScan.first? c).bind fun scan => (scan.nextAll? cs).bind fun scan =>
      if scan.isComplete then Number.ofLiteral (c :: cs) else Option.none := by
  unfold Number.reread?
  rw [h]
  rfl

theorem leaves_number (stack : List Frame) (n : Number) :
    Leaves (pushAll ⟨stack, .value⟩ n.chars) stack (n.reread?.map .number) := by
  have hall := allNumeral_chars n
  cases hcs : n.chars with
  | nil =>
    have hr : n.reread? = Option.none := by unfold Number.reread?; rw [hcs]
    refine ⟨fun c hc => ?_, ?_⟩
    · simp [hr, State.push, pushValue_delimiter hc]
    · simp [hr, State.finish, Except.toOption]
  | cons c cs =>
    rw [hcs, allNumeral_cons] at hall
    have hpush : State.push ⟨stack, .value⟩ c = pushValue stack c := rfl
    rw [pushAll_cons, hpush, pushValue_numeral hall.1, reread?_of_chars hcs]
    cases NumberScan.first? c with
    | none => exact .none stack
    | some scan =>
      rw [Option.map_some, Option.bind_some, Option.bind_some, pushAll_number hall.2]
      cases scan.nextAll? cs with
      | none => exact .none stack
      | some scan' =>
        have h := leaves_scanned stack (cs.reverse ++ [c]) scan'
        rw [Option.map_some, Option.bind_some, apply_ite (Option.map Value.number)]
        simpa using h

end Parser

/-! ## Values -/

mutual

def Value.reread? (level : Nat) : Value → Option Value
  | .null => some .null
  | .bool b => some (.bool b)
  | .number n => n.reread?.map .number
  | .text s => some (.text s)
  | .array xs => if level < maxDepth then (rereadItems? (level + 1) xs).map .array else none
  | .object ms =>
    if level < maxDepth then (rereadMembers? (level + 1) [] ms).map .object else none
termination_by structural v => v

def rereadItems? (level : Nat) : List Value → Option (List Value)
  | [] => some []
  | x :: xs => do
    let y ← Value.reread? level x
    let ys ← rereadItems? level xs
    return y :: ys
termination_by structural xs => xs

/-- The members are read one after the other into those that are there. -/
def rereadMembers? (level : Nat) (done : Members) : List (String × Value) → Option Members
  | [] => some done
  | (k, v) :: ms => do
    let w ← Value.reread? level v
    rereadMembers? level (done.insert k w) ms
termination_by structural ms => ms

end

theorem rereadItems?_cons (level : Nat) (x : Value) (xs : List Value) :
    rereadItems? level (x :: xs)
      = (x.reread? level).bind fun y => (rereadItems? level xs).map fun ys => y :: ys := by
  rw [rereadItems?]
  cases x.reread? level with
  | none => rfl
  | some y => cases rereadItems? level xs <;> rfl

theorem rereadMembers?_cons (level : Nat) (done : Members) (k : String) (v : Value)
    (ms : List (String × Value)) :
    rereadMembers? level done ((k, v) :: ms)
      = (v.reread? level).bind fun w => rereadMembers? level (done.insert k w) ms := rfl

namespace Parser

theorem chars_number_ne_nil (n : Number) : n.chars ≠ [] := by
  have hd (n : Nat) : Text.digits n ≠ [] := Nat.toDigits_ne_nil
  cases n with
  | integer z =>
    simp only [Number.chars, Number.integerChars]
    split
    · exact List.cons_ne_nil _ _
    · exact hd _
  | float x =>
    have hsign : ∀ body : List Char, body ≠ [] → (if x.negative then '-' :: body else body) ≠ [] :=
      fun body h => by split <;> simp [h]
    refine hsign _ ?_
    split
    · exact List.cons_ne_nil _ _
    split
    · simp [Number.scientificChars]
    · unfold Number.positionalChars
      split
      · simp
      · dsimp only
        split <;> simp

/-- The first character of a value is neither blank nor a closing bracket. -/
theorem exists_head (v : Value) :
    ∃ c cs, v.chars = c :: cs ∧ isSpace c = false ∧ c ≠ ']' := by
  rcases v with _ | (_ | _) | n | s | (_ | ⟨x, xs⟩) | (_ | ⟨⟨k, v⟩, ms⟩)
  case number =>
    cases hcs : n.chars with
    | nil => exact absurd hcs (chars_number_ne_nil n)
    | cons c cs =>
      have hall := allNumeral_chars n
      rw [hcs, allNumeral_cons] at hall
      have hne : ∀ x ∈ [' ', '\n', '\t', '\r', ']'], c ≠ x := ne_of_isNumeral hall.1 rfl
      simp only [List.forall_mem_cons] at hne
      exact ⟨c, cs, hcs, by simp [isSpace, hne], hne.2.2.2.2.1⟩
  all_goals exact ⟨_, _, rfl, rfl, by decide⟩

/-- An item is read in the same way after an opening bracket and after a comma. -/
theorem pushAll_firstItem (stack : List Frame) (v : Value) :
    pushAll ⟨stack, .firstItem⟩ v.chars = pushAll ⟨.items [] :: stack, .value⟩ v.chars := by
  obtain ⟨c, cs, hcs, hsp, hne⟩ := exists_head v
  have : State.push ⟨stack, .firstItem⟩ c = State.push ⟨.items [] :: stack, .value⟩ c := by
    simp [State.push, hsp, hne]
  rw [hcs, pushAll_cons, pushAll_cons, this]

theorem pushAll_text (stack : List Frame) (s : String) :
    pushAll ⟨stack, .value⟩ (quoted s) = some ⟨stack, .after (.text s)⟩ := by
  have h := pushAll_quoted stack .value [] s.toList
  rw [endText, List.append_nil, List.reverse_reverse, String.ofList_toList] at h
  exact h

/-- A key with the colon behind it. -/
theorem pushAll_key (stack : List Frame) (done : Members) (k : String) (cs : List Char) :
    pushAll ⟨stack, .key done⟩ (quoted k ++ ':' :: cs)
      = pushAll ⟨.members done k :: stack, .value⟩ cs := by
  have h := pushAll_quoted stack (.key done) [] k.toList
  rw [endText, List.append_nil, List.reverse_reverse, String.ofList_toList] at h
  have hq : pushAll ⟨stack, .key done⟩ (quoted k) = some ⟨stack, .colon done k⟩ := h
  rw [pushAll_append, hq]
  rfl

theorem pushAll_firstKey (stack : List Frame) (k : String) (cs : List Char) :
    pushAll ⟨stack, .firstKey⟩ (quoted k ++ cs) = pushAll ⟨stack, .key []⟩ (quoted k ++ cs) := rfl

theorem pushAll_openArray (stack : List Frame) (cs : List Char) :
    pushAll ⟨stack, .value⟩ ('[' :: cs)
      = if stack.length < maxDepth then pushAll ⟨stack, .firstItem⟩ cs else none := by
  have h : State.push ⟨stack, .value⟩ '['
      = if stack.length < maxDepth then some ⟨stack, .firstItem⟩ else none := rfl
  rw [pushAll_cons, h]
  split <;> rfl

theorem pushAll_openObject (stack : List Frame) (cs : List Char) :
    pushAll ⟨stack, .value⟩ ('\x7b' :: cs)
      = if stack.length < maxDepth then pushAll ⟨stack, .firstKey⟩ cs else none := by
  have h : State.push ⟨stack, .value⟩ '\x7b'
      = if stack.length < maxDepth then some ⟨stack, .firstKey⟩ else none := rfl
  rw [pushAll_cons, h]
  split <;> rfl

mutual

/-- The machine goes on after the text of a value as after the value that is read in it. -/
theorem leaves_chars (stack : List Frame) :
    (v : Value) → Leaves (pushAll ⟨stack, .value⟩ v.chars) stack (v.reread? stack.length)
  | .null => .after stack (some .null)
  | .bool true => .after stack (some (.bool true))
  | .bool false => .after stack (some (.bool false))
  | .number n => leaves_number stack n
  | .text s => by
    rw [Value.chars, pushAll_text]
    exact .after stack (some (.text s))
  | .array [] => by
    rw [Value.chars, pushAll_openArray, Value.reread?]
    split
    · exact .after stack (some (.array []))
    · exact .none stack
  | .array (x :: xs) => by
    have h := pushAll_items stack [] (leaves_chars (.items [] :: stack) x) xs
    rw [Value.chars, pushAll_openArray, Value.reread?]
    split
    · have hafter := Leaves.after stack
        ((rereadItems? (stack.length + 1) (x :: xs)).map Value.array)
      rw [pushAll_append, pushAll_firstItem, h]
      simpa [rereadItems?_cons, Option.map_bind, Function.comp_def] using hafter
    · exact .none stack
  | .object [] => by
    rw [Value.chars, pushAll_openObject, Value.reread?]
    split
    · exact .after stack (some (.object []))
    · exact .none stack
  | .object ((k, v) :: ms) => by
    have h := pushAll_members stack [] k (leaves_chars (.members [] k :: stack) v) ms
    rw [Value.chars, pushAll_openObject, Value.reread?]
    split
    · have hafter := Leaves.after stack
        ((rereadMembers? (stack.length + 1) [] ((k, v) :: ms)).map Value.object)
      rw [pushAll_firstKey, pushAll_key, pushAll_append, h]
      simpa [rereadMembers?_cons, Option.map_bind, Function.comp_def] using hafter
    · exact .none stack
termination_by structural v => v

theorem pushAll_items (stack : List Frame) (done : List Value) {o : Option State}
    {r : Option Value} (h : Leaves o (.items done :: stack) r) :
    (xs : List Value) → (o.bind fun st => pushAll st (Value.itemsChars xs))
      = r.bind fun y => (rereadItems? (stack.length + 1) xs).map fun ys =>
          ⟨stack, .after (.array (done.reverse ++ y :: ys))⟩
  | [] => by
    have hp := h.push ']' (by decide)
    have hafter (y : Value) : pushAfter (.items done :: stack) y ']'
        = some ⟨stack, .after (.array (done.reverse ++ [y]))⟩ := by
      simp [pushAfter, isSpace]
    simp only [hafter] at hp
    simpa [Value.itemsChars, rereadItems?] using hp
  | x :: xs => by
    have hp := h.push ',' (by decide)
    have hafter (y : Value) : pushAfter (.items done :: stack) y ','
        = some ⟨.items (y :: done) :: stack, .value⟩ := rfl
    have hrest (y : Value) :=
      pushAll_items stack (y :: done) (leaves_chars (.items (y :: done) :: stack) x) xs
    simp only [hafter] at hp
    rw [Value.itemsChars]
    simp only [pushAll_cons, pushAll_append, ← Option.bind_assoc, hp]
    cases r with
    | none => rfl
    | some y =>
      rw [Option.bind_some, Option.bind_some, hrest, rereadItems?_cons]
      simp [Option.map_bind, Function.comp_def]
termination_by structural xs => xs

theorem pushAll_members (stack : List Frame) (done : Members) (key : String) {o : Option State}
    {r : Option Value} (h : Leaves o (.members done key :: stack) r) :
    (ms : List (String × Value)) → (o.bind fun st => pushAll st (Value.membersChars ms))
      = r.bind fun w => (rereadMembers? (stack.length + 1) (done.insert key w) ms).map fun m =>
          ⟨stack, .after (.object m)⟩
  | [] => by
    have hp := h.push '\x7d' (by decide)
    have hafter (w : Value) : pushAfter (.members done key :: stack) w '\x7d'
        = some ⟨stack, .after (.object (done.insert key w))⟩ := rfl
    simp only [hafter] at hp
    simpa [Value.membersChars, rereadMembers?] using hp
  | (k, v) :: ms => by
    have hp := h.push ',' (by decide)
    have hafter (w : Value) : pushAfter (.members done key :: stack) w ','
        = some ⟨stack, .key (done.insert key w)⟩ := rfl
    have hrest (m : Members) :=
      pushAll_members stack m k (leaves_chars (.members m k :: stack) v) ms
    simp only [hafter] at hp
    rw [Value.membersChars]
    simp only [pushAll_cons, ← Option.bind_assoc, hp]
    cases r with
    | none => rfl
    | some w =>
      rw [Option.bind_some, Option.bind_some, Option.bind_some, pushAll_key, pushAll_append, hrest,
        rereadMembers?_cons, Option.map_bind]
      rfl
termination_by structural ms => ms

end

end Parser

/-- The value that is read in the text of a value. -/
theorem toOption_parse_print (v : Value) : (parse v.print).toOption = v.reread? 0 := by
  rw [parse, toOption_run, Value.print, String.toList_ofList]
  exact (leaves_chars [] v).finish

end CallArchive.Json
