import CallArchive.Address.Basic

/-!
# Which addresses may be ends of an arc

`checkNode` admits an address at one end of an arc of a package's call graph, or names the first
rule that it breaks: it must be an address without scheme in canonical form, without forge and
version; it may name a product only at the target, and not the package itself; and it must have a
namespace and denote something callable. `checkArc` checks the source before the target.
-/

namespace CallArchive

inductive Position where
  | source
  | target
  deriving DecidableEq, Repr

/-- Why an arc is dropped, in the order of the checks. -/
inductive Rejection where
  | malformed
  | hasScheme
  | notCanonical
  | hasForgeOrVersion
  | selfProduct
  | externalSource
  | missingNamespace
  | notCallable
  | unknownLocalId
  deriving DecidableEq, Repr

namespace Rejection

def name : Rejection → String
  | .malformed => "malformed"
  | .hasScheme => "has_scheme"
  | .notCanonical => "not_canonical"
  | .hasForgeOrVersion => "has_forge_or_version"
  | .selfProduct => "self_product"
  | .externalSource => "external_source"
  | .missingNamespace => "missing_namespace"
  | .notCallable => "not_callable"
  | .unknownLocalId => "unknown_local_id"

def all : List Rejection :=
  [.malformed, .hasScheme, .notCanonical, .hasForgeOrVersion, .selfProduct, .externalSource,
    .missingNamespace, .notCallable, .unknownLocalId]

theorem mem_all (r : Rejection) : r ∈ all := by cases r <;> decide

def ofName? (s : String) : Option Rejection := all.find? fun r => r.name == s

end Rejection

namespace Address

/-- Whether an address may stand at `position` as far as its product goes. -/
def checkProduct (product : List Char) (position : Position) (a : Address) :
    Except Rejection Unit :=
  match a.product with
  | none => .ok ()
  | some p =>
    if p = product then .error .selfProduct
    else if position = .source then .error .externalSource
    else .ok ()

/-- The rules for an address that has been read, in order. -/
def checkRules (product : List Char) (position : Position) (a : Address) :
    Except Rejection Unit := do
  if a.scheme.isSome then throw .hasScheme
  if !a.isCanonical then throw .notCanonical
  if a.forge.isSome || a.version.isSome then throw .hasForgeOrVersion
  checkProduct product position a
  if a.namespace.isNone then throw .missingNamespace
  if !(a.kind?.any EntityKind.isCallable) then throw .notCallable

def checkNode (product : List Char) (position : Position) (raw : List Char) :
    Except Rejection Address :=
  match parse raw with
  | .error _ => .error .malformed
  | .ok a => do
    checkRules product position a
    return a

def checkArc (product source target : List Char) : Except Rejection (Address × Address) := do
  let s ← checkNode product .source source
  let t ← checkNode product .target target
  return (s, t)

end Address

end CallArchive
