import Express.Schema
import Express.Json

/-!
# Type references

A resolved type: a base name below some levels of collection. It is a collection exactly if it has at least one level.
-/

namespace Express

structure TypeRef where
  base : Name
  isCollection : Bool
  rank : Nat
  isGeneric : Bool
  deriving DecidableEq, Repr

namespace TypeRef

/-- A type is a collection exactly if its rank is positive. -/
def WellFormed (type : TypeRef) : Prop :=
  type.isCollection = true ↔ 1 ≤ type.rank

def named (base : Name) : TypeRef :=
  { base, isCollection := false, rank := 0, isGeneric := false }

def generic (base : Name) : TypeRef :=
  { base, isCollection := false, rank := 0, isGeneric := true }

def ofSimple (type : SimpleType) : TypeRef :=
  named type.keyword

/-- The type below `depth` more levels of collection. -/
def nested (type : TypeRef) (depth : Nat) : TypeRef :=
  { type with isCollection := 1 ≤ type.rank + depth, rank := type.rank + depth }

/-- The type below all levels of collection. -/
def element (type : TypeRef) : TypeRef :=
  { type with isCollection := false, rank := 0 }

/-- The simple type that the base names. A generic name never does. -/
def simple? (type : TypeRef) : Option SimpleType :=
  if type.isGeneric then none else SimpleType.ofKeyword? type.base

def text (type : TypeRef) : String :=
  String.join (List.replicate type.rank "LIST OF ") ++ (if type.isGeneric then "GENERIC:" else "") ++ type.base

def toJson (type : TypeRef) : Json :=
  .obj [("base", .str type.base), ("is_collection", .bool type.isCollection), ("rank", .nat type.rank),
    ("is_generic", .bool type.isGeneric)]

end TypeRef

/-- A description of a type that nobody has checked yet. -/
structure TypeSpec where
  base : Name
  isCollection : Bool := false
  rank : Nat := 0
  isGeneric : Bool := false
  deriving DecidableEq, Repr

namespace TypeSpec

/-- The type described, if the description is consistent. -/
def typeRef? (spec : TypeSpec) : Option TypeRef :=
  if spec.isCollection = decide (1 ≤ spec.rank) then
    some { base := spec.base, isCollection := spec.isCollection, rank := spec.rank, isGeneric := spec.isGeneric }
  else none

/-- Whether the base is the name of a definition and neither a simple type nor a type parameter. -/
def namesDefinition (spec : TypeSpec) : Bool :=
  !spec.isGeneric && (SimpleType.ofKeyword? spec.base).isNone

end TypeSpec

end Express
