import CallArchive.Json.Number

/-!
# JSON values

The members of an object are kept in the order of their keys, each key once: `Members.insert` puts a
member in its place and replaces the one with its key. `Members.merge` is the union of two objects
in which the second wins.
-/

namespace CallArchive.Json

inductive Value where
  | null
  | bool (value : Bool)
  | number (value : Number)
  | text (value : String)
  | array (items : List Value)
  | object (members : List (String × Value))
  deriving Repr, Inhabited

abbrev Members := List (String × Value)

namespace Members

def insert (key : String) (value : Value) : Members → Members
  | [] => [(key, value)]
  | (k, v) :: rest =>
    if key = k then (key, value) :: rest
    else if key < k then (key, value) :: (k, v) :: rest
    else (k, v) :: insert key value rest

def find? (key : String) : Members → Option Value
  | [] => none
  | (k, v) :: rest => if k = key then some v else find? key rest

def keys (m : Members) : List String := m.map Prod.fst

/-- Each key of either object, with the value of `new` where it has one. -/
def merge (old new : Members) : Members := new.foldl (fun m p => insert p.1 p.2 m) old

/-- The object with the given members, of which the last with a key counts. -/
def ofList (members : List (String × Value)) : Members := merge [] members

/-- The keys ascend, so no key stands twice. -/
def Sorted (m : Members) : Prop := (keys m).Pairwise (· < ·)

theorem find?_insert (key other : String) (value : Value) (m : Members) :
    find? other (insert key value m) = if key = other then some value else find? other m := by
  induction m with
  | nil => rfl
  | cons p rest ih =>
    obtain ⟨k, v⟩ := p
    unfold insert
    split
    · next h => subst h; by_cases ho : key = other <;> simp [find?, ho]
    · split
      · simp only [find?]
      · next hne _ =>
        simp only [find?, ih]
        by_cases hk : k = other
        · subst hk; simp [hne]
        · simp [hk]

end Members

namespace Value

def ofNat (n : Nat) : Value := .number (.integer n)

def ofInt (z : Int) : Value := .number (.integer z)

def ofTexts (ts : List String) : Value := .array (ts.map .text)

def members? : Value → Option Members
  | .object m => some m
  | _ => none

def text? : Value → Option String
  | .text s => some s
  | _ => none

def items? : Value → Option (List Value)
  | .array xs => some xs
  | _ => none

def bool? : Value → Option Bool
  | .bool b => some b
  | _ => none

def int? : Value → Option Int
  | .number (.integer z) => some z
  | _ => none

/-- The value under `key` of an object. -/
def get? (key : String) (v : Value) : Option Value := v.members?.bind (Members.find? key)

end Value

end CallArchive.Json
