import Express.Definition

/-!
# Why a model cannot be built
-/

namespace Express

inductive ModelError where
  | invalidTypeRef (base : Name) (isCollection : Bool) (rank : Nat)
  | collectionWithoutRank (entity attr : Name)
  | optionalInverse (entity attr : Name)
  | unsupportedShape (name : Name) (shape : String)
  | duplicateDeclaration (name : Name)
  | kindMismatch (name : Name) (expected found : Kind)
  | inheritanceCycle (entity : Name)
  | unresolvedInverse (link : ReverseLink)
  | undeclared (name referrer : Name)
  deriving DecidableEq, Repr

def ModelError.message : ModelError → String
  | .invalidTypeRef base isCollection rank =>
    s!"invalid type reference `{base}`: collection={isCollection} with rank {rank}"
  | .collectionWithoutRank entity attr => s!"{entity}.{attr}: collection-typed attribute has rank 0"
  | .optionalInverse entity attr => s!"{entity}.{attr}: inverse attributes cannot be OPTIONAL"
  | .unsupportedShape name shape => s!"`{name}`: unsupported declaration shape ({shape})"
  | .duplicateDeclaration name => s!"`{name}` is declared more than once"
  | .kindMismatch name expected found => s!"`{name}` is used as {expected.phrase} but declared as {found.phrase}"
  | .inheritanceCycle entity => s!"inheritance cycle through `{entity}`"
  | .unresolvedInverse link =>
    s!"{link.owner}.{link.ownerAttr}: inverse of `{link.target}.{link.targetAttr}` does not resolve"
  | .undeclared name referrer => s!"`{name}` is referenced by `{referrer}` but never declared"

end Express
