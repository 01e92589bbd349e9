import CallArchive.Arithmetic
import CallArchive.Text.Blank
import CallArchive.Text.Digits

/-!
# Local ids

A record numbers its methods with ids that mean something only inside the record. A local id is an
unsigned number of 64 bits; its text may have blanks around it, a plus sign and leading zeros.
-/

namespace CallArchive

structure LocalId where
  value : Nat
  value_lt : value < 2 ^ 64 := by decide
  deriving DecidableEq, Repr

namespace LocalId

def ofNat? (n : Nat) : Option LocalId :=
  if h : n < 2 ^ 64 then some ⟨n, h⟩ else none

def ofInt? : Int → Option LocalId
  | .ofNat n => ofNat? n
  | .negSucc _ => none

def ofChars? (s : List Char) : Option LocalId := (Text.readUnsigned (Text.trim s)).bind ofNat?

def ofText? (s : String) : Option LocalId := ofChars? s.toList

def text (id : LocalId) : String := toString id.value

theorem ofNat?_value (id : LocalId) : ofNat? id.value = some id := dif_pos id.value_lt

example : (ofText? " +01 ").map (·.value) = some 1 := by decide +kernel

end LocalId

end CallArchive
