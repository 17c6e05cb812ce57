import Express.Json

/-!
# Records and variants in JSON

How structured data is found in a JSON value. A record is an object whose declared keys occur at most once, others
being ignored, or an array of the fields in declared order, of which trailing ones may be missing. A variant is an
object with a tag among its members, or an array with the tag in front; what is left is the record of its fields.
Parts are strictly smaller than the whole, so decoders of nested data may recurse on them.
-/

namespace Express.Json

/-- A value inside another one. -/
abbrev Part (whole : Json) :=
  { part : Json // sizeOf part < sizeOf whole }

/-- The first member with the given key. -/
def lookup (key : String) : (members : List (String × Json)) → Option { value : Json // sizeOf value < sizeOf members }
  | [] => none
  | (k, value) :: members =>
    if k = key then some ⟨value, by simp only [List.cons.sizeOf_spec, Prod.mk.sizeOf_spec]; omega⟩
    else (lookup key members).map fun found => ⟨found.1, by have := found.2; simp only [List.cons.sizeOf_spec]; omega⟩

/-- The item at the given position. -/
def nth (index : Nat) : (items : List Json) → Option { item : Json // sizeOf item < sizeOf items }
  | [] => none
  | item :: items =>
    match index with
    | 0 => some ⟨item, by simp only [List.cons.sizeOf_spec]; omega⟩
    | index + 1 => (nth index items).map fun found => ⟨found.1, by have := found.2; simp only [List.cons.sizeOf_spec]; omega⟩

/-- The fields that a value gives. -/
structure Record (whole : Json) where
  get? : String → Option (Part whole)

/-- Reads a value as a record with the given fields. -/
def record? (fields : List String) : (whole : Json) → Option (Record whole)
  | .obj members =>
    if fields.all fun field => (members.filter (·.1 == field)).length ≤ 1 then
      some ⟨fun field => (lookup field members).map fun found =>
        ⟨found.1, by have := found.2; simp only [Json.obj.sizeOf_spec]; omega⟩⟩
    else none
  | .arr items =>
    if items.length ≤ fields.length then
      some ⟨fun field => (nth (fields.idxOf field) items).map fun found =>
        ⟨found.1, by have := found.2; simp only [Json.arr.sizeOf_spec]; omega⟩⟩
    else none
  | _ => none

namespace Record

variable {whole : Json}

def required (record : Record whole) (field : String) (decode : Json → Option α) : Option α :=
  (record.get? field).bind fun part => decode part.1

/-- A field that may be missing but, if given, must decode. -/
def defaulted (record : Record whole) (field : String) (default : α) (decode : Json → Option α) : Option α :=
  match record.get? field with
  | none => some default
  | some part => decode part.1

/-- A field that may be missing or `null`. -/
def optional (record : Record whole) (field : String) (decode : Json → Option α) : Option (Option α) :=
  match record.get? field with
  | none => some none
  | some ⟨.null, _⟩ => some none
  | some part => (decode part.1).map some

end Record

/-- A tag and the value that holds the fields of the tagged variant. -/
structure Variant (whole : Json) where
  tag : Json
  content : Part whole

theorem sizeOf_filter_le (keep : String × Json → Bool) (members : List (String × Json)) :
    sizeOf (members.filter keep) ≤ sizeOf members := by
  induction members with
  | nil => simp
  | cons member members ih =>
    simp only [List.filter_cons]
    split <;> simp only [List.cons.sizeOf_spec] <;> omega

theorem sizeOf_filter_lt (keep : String × Json → Bool) {members : List (String × Json)} {member : String × Json}
    (present : member ∈ members) (dropped : keep member = false) :
    sizeOf (members.filter keep) < sizeOf members := by
  induction members with
  | nil => cases present
  | cons first members ih =>
    have shorter := sizeOf_filter_le keep members
    rcases List.mem_cons.mp present with rfl | later
    · simp only [List.filter_cons, dropped, List.cons.sizeOf_spec]
      simp only [Bool.false_eq_true, if_false]
      omega
    · have := ih later
      simp only [List.filter_cons]
      split <;> simp only [List.cons.sizeOf_spec] <;> omega

/-- Reads a value as a variant whose tag is the member `key`. -/
def variant? (key : String) : (whole : Json) → Option (Variant whole)
  | .obj members =>
    match found : members.filter (·.1 == key) with
    | [member] => some
      { tag := member.2
        content := ⟨.obj (members.filter (·.1 != key)), by
          have tagged : member ∈ members.filter (·.1 == key) := by rw [found]; exact List.mem_singleton.mpr rfl
          have split := List.mem_filter.mp tagged
          have := sizeOf_filter_lt (·.1 != key) split.1 (by simpa [bne] using split.2)
          simp only [Json.obj.sizeOf_spec]
          omega⟩ }
    | _ => none
  | .arr (tag :: items) => some
      { tag
        content := ⟨.arr items, by simp only [Json.arr.sizeOf_spec, List.cons.sizeOf_spec]; omega⟩ }
  | _ => none

/-- A tag by name, or by its position where `byPosition` allows it. -/
def tagName? (names : List String) (byPosition : Bool) : Json → Option String
  | .str name => if name ∈ names then some name else none
  | .nat position => if byPosition then names[position]? else none
  | _ => none

/-- A constant by its keyword: a string, or the only key of an object that gives it no content. -/
def keyword? (constants : List α) (keyword : α → String) : Json → Option α
  | .str name => constants.find? (keyword · == name)
  | .obj [(name, .null)] => constants.find? (keyword · == name)
  | .obj [(name, .obj [])] => constants.find? (keyword · == name)
  | _ => none

def str? : Json → Option String
  | .str text => some text
  | _ => none

def bool? : Json → Option Bool
  | .bool value => some value
  | _ => none

def nat? : Json → Option Nat
  | .nat value => some value
  | _ => none

def list? (decode : Json → Option α) : Json → Option (List α)
  | .arr items => items.mapM decode
  | _ => none

end Express.Json
