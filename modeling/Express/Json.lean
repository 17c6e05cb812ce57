/-!
# JSON values

Objects keep the order of their members and may repeat a key; `sortKeys` gives the canonical order. Numbers other
than naturals are kept as written, since no document of this library holds one.
-/

namespace Express

inductive Json where
  | null
  | bool (value : Bool)
  | nat (value : Nat)
  | number (literal : String)
  | str (text : String)
  | arr (items : List Json)
  | obj (members : List (String × Json))
  /-- A literal with an unpaired surrogate escape: its grammar is right, but it denotes no value. -/
  | illFormed

namespace Json

instance : Inhabited Json := ⟨.null⟩

def strs (texts : List String) : Json :=
  .arr (texts.map .str)

/-- `null` for `none`. -/
def ofOption (encode : α → Json) : Option α → Json
  | none => .null
  | some a => encode a

/-- A member that is left out for `none`. -/
def member? (key : String) (encode : α → Json) : Option α → List (String × Json)
  | none => []
  | some a => [(key, encode a)]

/-- Inserts behind all members with a smaller key. -/
def insertByKey (member : String × Json) : List (String × Json) → List (String × Json)
  | [] => [member]
  | other :: rest => if other.1 < member.1 then other :: insertByKey member rest else member :: other :: rest

/-- The value of the last member with the given key. -/
def get? (key : String) : Json → Option Json
  | .obj members => (members.reverse.find? (·.1 == key)).map (·.2)
  | _ => none

mutual

/-- The same value with the members of every object ordered by key. -/
def sortKeys : Json → Json
  | .arr items => .arr (sortItems items)
  | .obj members => .obj (sortMembers members)
  | other => other

def sortItems : List Json → List Json
  | [] => []
  | item :: items => sortKeys item :: sortItems items

def sortMembers : List (String × Json) → List (String × Json)
  | [] => []
  | (key, value) :: members => insertByKey (key, sortKeys value) (sortMembers members)

end

end Json

end Express
