import CallArchive.Address.DotSegments
import CallArchive.Address.Escape
import CallArchive.Text.Cut

/-!
# Addresses

An address names a package, a module or a callable:
`[fasten:][//[forge!]product[$version]][/namespace/entity]`. `parse` splits it into its parts and
keeps the text itself, so that whether an address is canonical can be told by comparing that text
with `canonicalForm`.
-/

namespace CallArchive

/-- An address and its parts. An authority may be present and empty. -/
structure Address where
  raw : List Char
  scheme : Option (List Char)
  authority : Option (List Char)
  forge : Option (List Char)
  product : Option (List Char)
  version : Option (List Char)
  path : List Char
  «namespace» : Option (List Char)
  entity : Option (List Char)
  deriving DecidableEq, Repr

/-- Why a text is not an address. -/
inductive AddressError where
  | unsupportedScheme (scheme : List Char)
  | multipleForgeSeparators (authority : List Char)
  | invalidEscape (offset : Nat)
  | relativePath (path : List Char)
  deriving DecidableEq, Repr

/-- A type, a function or method, or a field: what an entity denotes shows in its spelling. -/
inductive EntityKind where
  | type
  | function
  | attribute
  deriving DecidableEq, Repr

namespace EntityKind

/-- Functions have a parameter list, attributes a dot. -/
def of (entity : List Char) : EntityKind :=
  if '(' ∈ entity then .function else if '.' ∈ entity then .attribute else .type

/-- Whether calls may start or end at such an entity. -/
def isCallable : EntityKind → Bool
  | .type => false
  | .function | .attribute => true

end EntityKind

namespace Address

/-- The only scheme. -/
def schemeName : String := "fasten"

end Address

namespace AddressError

def message : AddressError → String
  | .unsupportedScheme s =>
    s!"unsupported scheme '{String.ofList s}' (only '{Address.schemeName}' is allowed)"
  | .multipleForgeSeparators a =>
    s!"forge-product-version '{String.ofList a}' contains more than one '!'"
  | .invalidEscape offset => s!"invalid percent escape at byte {offset}"
  | .relativePath p => s!"path '{String.ofList p}' must start with '/'"

end AddressError

namespace Address

def isSchemeChar (c : Char) : Bool := c.isAlphanum || c == '+' || c == '-' || c == '.'

/-- A letter followed by letters, digits, plus signs, hyphens and dots. -/
def isSchemeShaped : List Char → Bool
  | [] => false
  | c :: rest => c.isAlpha && rest.all isSchemeChar

def toLower (s : List Char) : List Char := s.map Char.toLower

/-- The text before the first colon, if it is shaped like a scheme, and the rest. -/
def splitScheme (s : List Char) : Option (List Char) × List Char :=
  match Text.cutAt ':' s with
  | some (candidate, rest) => if isSchemeShaped candidate then (some candidate, rest) else (none, s)
  | none => (none, s)

/-- The authority runs from two leading slashes to the next one. -/
def splitAuthority : List Char → Option (List Char) × List Char
  | '/' :: '/' :: after => (some (after.takeWhile (· != '/')), after.dropWhile (· != '/'))
  | s => (none, s)

/-- The forge, the product and the version of an authority. -/
structure Coordinates where
  forge : Option (List Char)
  product : Option (List Char)
  version : Option (List Char)
  deriving DecidableEq, Repr

/-- The product and the version on both sides of the first dollar sign. -/
def splitProduct (forge : Option (List Char)) (s : List Char) : Coordinates :=
  match Text.cutAt '$' s with
  | some (product, version) => ⟨forge, Text.nonEmpty? product, Text.nonEmpty? version⟩
  | none => ⟨forge, Text.nonEmpty? s, none⟩

/-- The forge stands before an exclamation mark, of which there may be one. -/
def splitCoordinates (authority : List Char) : Except AddressError Coordinates :=
  match Text.cutAt '!' authority with
  | some (forge, rest) =>
    if '!' ∈ rest then .error (.multipleForgeSeparators authority)
    else .ok (splitProduct (Text.nonEmpty? forge) rest)
  | none => .ok (splitProduct none authority)

/-- The namespace and the entity of a path. -/
def splitPath : List Char → Option (List Char) × Option (List Char)
  | '/' :: body =>
    match Text.cutAt '/' body with
    | some (ns, entity) => (Text.nonEmpty? ns, Text.nonEmpty? entity)
    | none => (none, Text.nonEmpty? body)
  | _ => (none, none)

def isPath : List Char → Bool
  | [] => true
  | c :: _ => c == '/'

/-- Escapes are checked first, then the scheme, the path and the authority. -/
def parse (s : List Char) : Except AddressError Address := do
  if let some offset := firstBadEscape s then throw (.invalidEscape offset)
  let (scheme, rest) := splitScheme s
  if let some name := scheme then
    if toLower name ≠ schemeName.toList then throw (.unsupportedScheme name)
  let (authority, path) := splitAuthority rest
  if !isPath path then throw (.relativePath path)
  let c ← match authority with
    | some a => splitCoordinates a
    | none => pure ⟨none, none, none⟩
  let (ns, entity) := splitPath path
  return { raw := s, scheme, authority, forge := c.forge, product := c.product,
           version := c.version, path, «namespace» := ns, entity }

def ofString (s : String) : Except AddressError Address := parse s.toList

def text (a : Address) : String := String.ofList a.raw

def kind? (a : Address) : Option EntityKind := a.entity.map EntityKind.of

/-- An address that names a product denotes something outside the package it is used in. -/
def isExternal (a : Address) : Bool := a.product.isSome

/-- The scheme in lower case, escapes in normal form and no dot segments. -/
def canonicalForm (a : Address) : List Char :=
  let scheme := match a.scheme with
    | some s => toLower s ++ [':']
    | none => []
  let authority := match a.authority with
    | some s => '/' :: '/' :: normalize s
    | none => []
  scheme ++ authority ++ removeDotSegments (normalize a.path)

def canonicalize (a : Address) : Except AddressError Address := parse a.canonicalForm

def isCanonical (a : Address) : Bool := a.raw == a.canonicalForm

example : ((ofString "FASTEN://mvn!p$1/n/C.m()%56").map fun a =>
    String.ofList a.canonicalForm).toOption
    = some "fasten://mvn!p$1/n/C.m()V" := by
  decide +kernel

end Address

end CallArchive
