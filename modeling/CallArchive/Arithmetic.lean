/-!
# Powers and sums of whole numbers

A power of a number and the sum of a list are those of the core library in all modules, whichever
other instances for them a module can see.
-/

namespace CallArchive

@[default_instance 20000]
scoped instance (priority := 2000) corePow {α : Type} [NatPow α] : Pow α Nat := instPowNat

scoped instance (priority := 2000) coreZero : Zero Nat := Zero.ofOfNat0

end CallArchive
