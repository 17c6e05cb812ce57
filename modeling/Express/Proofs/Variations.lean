import Express.Json.Record
import Mathlib.Data.List.Forall2
import Mathlib.Data.List.Perm.Lattice

/-!
# Variations of a document

A document that says the same to a reader which finds the fields of an object by their keys: the members of objects may
stand in any order, members that no field is declared for may be added, and a field that holds its default may be left
out, at any depth. `Form` is a document together with what this depends on, the declared fields of each object.

What readers find in an object is the same in all variations (`Form.Varies.exists_record`, `Form.Varies.exists_variant`).
-/

namespace Express.Json

/-! ### Forms -/

mutual

/-- A document together with the declared fields of its objects. -/
inductive Form where
  | atom (value : Json)
  | list (items : List Form)
  | record (fields : List Field)

/-- A declared field of an object: one that is written, one that is written with its default, or one without a value. -/
inductive Field where
  | given (key : String) (value : Form)
  | implied (key : String) (value : Form)
  | absent (key : String)

end

namespace Field

def key : Field → String
  | .given key _ => key
  | .implied key _ => key
  | .absent key => key

/-- A field that is always written and may be left out where it holds its default. -/
def withDefault (key : String) (isDefault : Bool) (value : Form) : Field :=
  if isDefault then .implied key value else .given key value

/-- A field that is written if it has a value. -/
def option {α : Type} (key : String) (encode : α → Form) : Option α → Field
  | none => .absent key
  | some a => .given key (encode a)

def flag (key : String) (value : Bool) : Field :=
  withDefault key (!value) (.atom (.bool value))

def items (key : String) (items : List Form) : Field :=
  withDefault key items.isEmpty (.list items)

@[simp]
theorem key_given (key : String) (value : Form) : (Field.given key value).key = key := rfl

@[simp]
theorem key_withDefault (key : String) (isDefault : Bool) (value : Form) :
    (withDefault key isDefault value).key = key := by
  cases isDefault <;> rfl

@[simp]
theorem key_option {α : Type} (key : String) (encode : α → Form) (found : Option α) :
    (option key encode found).key = key := by
  cases found <;> rfl

@[simp]
theorem key_flag (key : String) (value : Bool) : (flag key value).key = key :=
  key_withDefault ..

@[simp]
theorem key_items (key : String) (forms : List Form) : (items key forms).key = key :=
  key_withDefault ..

end Field

namespace Form

def text (text : String) : Form :=
  .atom (.str text)

def texts (texts : List String) : Form :=
  .list (texts.map text)

/-- A variant's fields behind a tag with its name. -/
def variant (key name : String) (fields : List Field) : Form :=
  .record (.given key (text name) :: fields)

end Form

mutual

/-- The document itself: all fields are written in declared order, and nothing else. -/
def Form.json : Form → Json
  | .atom value => value
  | .list items => .arr (Form.jsons items)
  | .record fields => .obj (Field.groups fields).flatten

def Form.jsons : List Form → List Json
  | [] => []
  | item :: items => item.json :: Form.jsons items

def Field.members : Field → List (String × Json)
  | .given key value => [(key, value.json)]
  | .implied key value => [(key, value.json)]
  | .absent _ => []

def Field.groups : List Field → List (List (String × Json))
  | [] => []
  | field :: fields => field.members :: Field.groups fields

end

section

variable {α : Type} (key : String)

@[simp]
theorem Field.members_given (value : Form) : (Field.given key value).members = [(key, value.json)] := rfl

theorem Field.members_withDefault (isDefault : Bool) (value : Form) :
    (withDefault key isDefault value).members = [(key, value.json)] := by
  cases isDefault <;> rfl

@[simp]
theorem Field.members_option (encode : α → Form) (found : Option α) :
    (option key encode found).members = member? key (fun a => (encode a).json) found := by
  cases found <;> rfl

@[simp]
theorem Field.members_flag (value : Bool) : (flag key value).members = [(key, .bool value)] :=
  members_withDefault ..

@[simp]
theorem Form.json_text (text : String) : (Form.text text).json = .str text := rfl

@[simp]
theorem Form.json_list (encode : α → Form) (items : List α) :
    (Form.list (items.map encode)).json = .arr (items.map fun a => (encode a).json) := by
  have each : Form.jsons (items.map encode) = items.map fun a => (encode a).json := by
    induction items with
    | nil => rfl
    | cons a items ih => exact congrArg ((encode a).json :: ·) ih
  rw [Form.json, each]

@[simp]
theorem Form.json_texts (texts : List String) : (Form.texts texts).json = .strs texts :=
  json_list ..

@[simp]
theorem Field.members_items (encode : α → Form) (items : List α) :
    (Field.items key (items.map encode)).members = [(key, .arr (items.map fun a => (encode a).json))] := by
  rw [Field.items, members_withDefault, Form.json_list]

@[simp]
theorem Form.json_record (fields : List Field) : (Form.record fields).json = .obj (fields.flatMap Field.members) := by
  have each : Field.groups fields = fields.map Field.members := by
    induction fields with
    | nil => rfl
    | cons field fields ih => exact congrArg (field.members :: ·) ih
  rw [Form.json, each, List.flatMap_def]

@[simp]
theorem Form.json_variant (name : String) (fields : List Field) :
    (Form.variant key name fields).json = .obj ((key, .str name) :: fields.flatMap Field.members) :=
  Form.json_record _

end

/-! ### Variations -/

mutual

/-- The variations of a document. An object has members for its declared fields and others, in any order. -/
inductive Form.Varies : Form → Json → Prop
  | atom {value : Json} : Form.Varies (.atom value) value
  | list {items : List Form} {values : List Json} (each : List.Forall₂ Form.Varies items values) :
      Form.Varies (.list items) (.arr values)
  | record {fields : List Field} {groups : List (List (String × Json))} {extras members : List (String × Json)}
      (each : List.Forall₂ Field.Varies fields groups) (undeclared : ∀ extra ∈ extras, extra.1 ∉ fields.map Field.key)
      (order : members.Perm (groups.flatten ++ extras)) : Form.Varies (.record fields) (.obj members)

/-- The members of a varied object that stand for a field. -/
inductive Field.Varies : Field → List (String × Json) → Prop
  | given {key : String} {value : Form} {json : Json} (varied : Form.Varies value json) :
      Field.Varies (.given key value) [(key, json)]
  | implied {key : String} {value : Form} {json : Json} (varied : Form.Varies value json) :
      Field.Varies (.implied key value) [(key, json)]
  | dropped {key : String} {value : Form} : Field.Varies (.implied key value) []
  | absent {key : String} : Field.Varies (.absent key) []

end

mutual

theorem Form.varies_json : (form : Form) → form.Varies form.json
  | .atom _ => .atom
  | .list items => .list (Form.varies_jsons items)
  | .record fields => .record (Field.varies_groups fields) (List.forall_mem_nil _) (by rw [List.append_nil])

theorem Form.varies_jsons : (items : List Form) → List.Forall₂ Form.Varies items (Form.jsons items)
  | [] => .nil
  | item :: items => .cons (Form.varies_json item) (Form.varies_jsons items)

theorem Field.varies_members : (field : Field) → field.Varies field.members
  | .given _ value => .given (Form.varies_json value)
  | .implied _ value => .implied (Form.varies_json value)
  | .absent _ => .absent

theorem Field.varies_groups : (fields : List Field) → List.Forall₂ Field.Varies fields (Field.groups fields)
  | [] => .nil
  | field :: fields => .cons (Field.varies_members field) (Field.varies_groups fields)

end

/-! ### Members by key -/

theorem Field.Varies.key_eq {field : Field} {group : List (String × Json)} (varied : field.Varies group) :
    ∀ member ∈ group, member.1 = field.key := by
  cases varied with
  | given | implied => exact fun member present => by rw [List.mem_singleton.mp present]; rfl
  | dropped | absent => exact nofun

theorem Field.Varies.given_inv {key : String} {value : Form} {group : List (String × Json)}
    (varied : (Field.given key value).Varies group) : ∃ json, group = [(key, json)] ∧ value.Varies json := by
  cases varied with
  | given varied => exact ⟨_, rfl, varied⟩

theorem Field.Varies.length_le {field : Field} {group : List (String × Json)} (varied : field.Varies group) :
    group.length ≤ 1 := by
  cases varied with
  | given | implied => exact Nat.le_refl 1
  | dropped | absent => exact Nat.zero_le 1

section

variable {fields : List Field} {groups : List (List (String × Json))} {extras members : List (String × Json)}
  {field : Field} {key : String}

theorem declared_of_mem (each : List.Forall₂ Field.Varies fields groups) :
    ∀ member ∈ groups.flatten, member.1 ∈ fields.map Field.key := by
  induction each with
  | nil => exact nofun
  | cons first others ih =>
    intro member present
    rw [List.flatten_cons, List.mem_append] at present
    rw [List.map_cons, List.mem_cons]
    rcases present with present | present
    · exact .inl (first.key_eq member present)
    · exact .inr (ih member present)

theorem filter_key_eq_self {group : List (String × Json)} (same : ∀ member ∈ group, member.1 = key) :
    group.filter (·.1 == key) = group :=
  List.filter_eq_self.mpr fun member present => beq_iff_eq.mpr (same member present)

theorem filter_key_eq_nil {group : List (String × Json)} (other : ∀ member ∈ group, member.1 ≠ key) :
    group.filter (·.1 == key) = [] :=
  List.filter_eq_nil_iff.mpr fun member present same => other member present (beq_iff_eq.mp same)

/-- The members with the key of a field are those that stand for it. -/
theorem varies_filter_flatten (each : List.Forall₂ Field.Varies fields groups)
    (distinct : (fields.map Field.key).Nodup) (member : field ∈ fields) :
    field.Varies (groups.flatten.filter (·.1 == field.key)) := by
  induction each with
  | nil => cases member
  | @cons first group fields groups varied others ih =>
    rw [List.map_cons, List.nodup_cons] at distinct
    rw [List.flatten_cons, List.filter_append]
    rcases List.mem_cons.mp member with rfl | member
    · have later : ∀ other ∈ groups.flatten, other.1 ≠ field.key :=
        fun other present same => distinct.1 (same ▸ declared_of_mem others other present)
      rw [filter_key_eq_self varied.key_eq, filter_key_eq_nil later, List.append_nil]
      exact varied
    · have earlier : ∀ other ∈ group, other.1 ≠ field.key := by
        intro other present same
        rw [varied.key_eq other present] at same
        exact distinct.1 (same ▸ List.mem_map_of_mem member)
      rw [filter_key_eq_nil earlier, List.nil_append]
      exact ih distinct.2 member

theorem varies_filter (each : List.Forall₂ Field.Varies fields groups) (distinct : (fields.map Field.key).Nodup)
    (undeclared : ∀ extra ∈ extras, extra.1 ∉ fields.map Field.key) (order : members.Perm (groups.flatten ++ extras))
    (member : field ∈ fields) : field.Varies (members.filter (·.1 == field.key)) := by
  have varied := varies_filter_flatten each distinct member
  have others : extras.filter (·.1 == field.key) = [] :=
    filter_key_eq_nil fun extra present same => undeclared extra present (same ▸ List.mem_map_of_mem member)
  have moved := order.filter (·.1 == field.key)
  rw [List.filter_append, others, List.append_nil] at moved
  generalize groups.flatten.filter (·.1 == field.key) = group at varied moved
  -- At most one member stands for a field, so there is nothing to reorder.
  cases group with
  | nil => rwa [moved.eq_nil]
  | cons first others =>
    cases others with
    | nil => rwa [List.perm_singleton.mp moved]
    | cons second others => exact absurd varied.length_le (by simp)

end

/-! ### Objects -/

theorem lookup_cons (key : String) (member : String × Json) (members : List (String × Json)) :
    (lookup key (member :: members)).map Subtype.val =
      if member.1 = key then some member.2 else (lookup key members).map Subtype.val := by
  change Option.map _ (if member.1 = key then _ else Option.map _ (lookup key members)) = _
  by_cases same : member.1 = key
  · rw [if_pos same, if_pos same]
    rfl
  · rw [if_neg same, if_neg same, Option.map_map]
    rfl

theorem lookup_eq (key : String) (members : List (String × Json)) :
    (lookup key members).map Subtype.val = ((members.filter (·.1 == key)).head?).map Prod.snd := by
  induction members with
  | nil => rfl
  | cons member members ih =>
    rw [lookup_cons, List.filter_cons, ih]
    by_cases same : member.1 = key
    · rw [if_pos same, if_pos (beq_iff_eq.mpr same)]
      rfl
    · rw [if_neg same, if_neg (mt beq_iff_eq.mp same)]

/-- A record gives a field as one of its variations does. -/
def Field.Held {whole : Json} (record : Record whole) (field : Field) : Prop :=
  ∃ group, field.Varies group ∧ (record.get? field.key).map Subtype.val = group.head?.map Prod.snd

theorem Form.Varies.exists_record {fields : List Field} {json : Json} (varied : (Form.record fields).Varies json)
    (declared : List String) (keys : fields.map Field.key = declared) (distinct : declared.Nodup) :
    ∃ record, record? declared json = some record ∧ ∀ field ∈ fields, field.Held record := by
  subst keys
  cases varied with
  | @record _ groups extras members each undeclared order =>
    have held := fun field => @varies_filter fields groups extras members field each distinct undeclared order
    have single : ((fields.map Field.key).all fun key => (members.filter (·.1 == key)).length ≤ 1) = true := by
      rw [List.all_map, List.all_eq_true]
      exact fun field member => decide_eq_true (held field member).length_le
    rw [record?, if_pos single]
    refine ⟨_, rfl, fun field member => ⟨_, held field member, ?_⟩⟩
    rw [← lookup_eq, Option.map_map]
    rfl

theorem variant?_obj {key : String} {member : String × Json} {members : List (String × Json)}
    (tagged : members.filter (·.1 == key) = [member]) :
    ∃ variant, variant? key (.obj members) = some variant ∧ variant.tag = member.2 ∧
      variant.content.1 = .obj (members.filter (·.1 != key)) := by
  rw [variant?]
  split
  · rename_i found
    rw [tagged] at found
    cases found
    exact ⟨_, rfl, rfl, rfl⟩
  · rename_i other
    exact absurd tagged (other member)

/-- The tag and the other members of a variant. Its tag is known by its name, whether or not also by its position. -/
theorem Form.Varies.exists_variant {key name : String} {fields : List Field} {json : Json}
    (varied : (Form.variant key name fields).Varies json) {names : List String} (listed : name ∈ names)
    (distinct : (key :: fields.map Field.key).Nodup) :
    ∃ variant, variant? key json = some variant ∧ (∀ byPosition, tagName? names byPosition variant.tag = some name) ∧
      (Form.record fields).Varies variant.content.1 := by
  cases varied with
  | @record _ groups extras members each undeclared order =>
    obtain ⟨tag, single, ⟨⟩⟩ := (varies_filter each distinct undeclared order List.mem_cons_self).given_inv
    obtain ⟨variant, found, named, content⟩ := variant?_obj single
    refine ⟨variant, found, fun byPosition => ?_, ?_⟩
    · rw [named, tagName?, if_pos listed]
    obtain ⟨group, rest, first, others, rfl⟩ := List.forall₂_cons_left_iff.mp each
    obtain ⟨tag, rfl, -⟩ := first.given_inv
    have untagged : ∀ member ∈ rest.flatten ++ extras, (member.1 != key) = true := by
      intro member present
      rw [bne_iff_ne]
      rintro rfl
      rcases List.mem_append.mp present with present | present
      · exact (List.nodup_cons.mp distinct).1 (declared_of_mem others member present)
      · exact undeclared member present List.mem_cons_self
    have moved := order.filter (·.1 != key)
    rw [List.flatten_cons, List.singleton_append, List.cons_append, List.filter_cons, if_neg (by simp),
      List.filter_eq_self.mpr untagged] at moved
    rw [content]
    exact .record others (fun extra present declared => undeclared extra present (List.mem_cons_of_mem _ declared)) moved

/-- The fields of a variant. -/
theorem Form.Varies.exists_variant_record {key name : String} {fields : List Field} {json : Json}
    (varied : (Form.variant key name fields).Varies json) {names : List String} (listed : name ∈ names)
    (declared : List String) (keys : fields.map Field.key = declared) (distinct : (key :: declared).Nodup) :
    ∃ variant, variant? key json = some variant ∧ (∀ byPosition, tagName? names byPosition variant.tag = some name) ∧
      ∃ record, record? declared variant.content.1 = some record ∧ ∀ field ∈ fields, field.Held record := by
  obtain ⟨variant, found, named, content⟩ := varied.exists_variant listed (keys ▸ distinct)
  exact ⟨variant, found, named, content.exists_record declared keys (List.nodup_cons.mp distinct).2⟩

/-! ### Readers -/

/-- `decode` finds `a` in all variations. -/
def Form.ReadsAs {α : Type} (form : Form) (decode : Json → Option α) (a : α) : Prop :=
  ∀ json, form.Varies json → decode json = some a

theorem Form.reads_text (text : String) : (Form.text text).ReadsAs str? text := by
  intro json varied
  cases varied
  rfl

theorem Form.reads_bool (value : Bool) : (Form.atom (.bool value)).ReadsAs bool? value := by
  intro json varied
  cases varied
  rfl

theorem Form.reads_list {α : Type} {encode : α → Form} {decode : Json → Option α} {items : List α}
    (each : ∀ a ∈ items, (encode a).ReadsAs decode a) :
    (Form.list (items.map encode)).ReadsAs (list? decode) items := by
  intro json varied
  cases varied with
  | @list _ values forms =>
    rw [list?]
    induction items generalizing values with
    | nil =>
      cases forms
      rfl
    | cons a items ih =>
      obtain ⟨value, values, first, others, rfl⟩ := List.forall₂_cons_left_iff.mp forms
      rw [List.forall_mem_cons] at each
      rw [List.mapM_cons, each.1 value first]
      exact congrArg (Option.bind · fun others => some (a :: others)) (ih each.2 others)

theorem Form.reads_texts (texts : List String) : (Form.texts texts).ReadsAs (list? str?) texts :=
  reads_list fun text _ => reads_text text

section

variable {α : Type} {whole : Json} {record : Record whole} {key : String} {decode : Json → Option α}

theorem Field.Held.given_inv {value : Form} (held : (Field.given key value).Held record) :
    ∃ part, record.get? key = some part ∧ value.Varies part.1 := by
  obtain ⟨group, varied, found⟩ := held
  obtain ⟨json, rfl, inner⟩ := varied.given_inv
  obtain ⟨part, present, rfl⟩ := Option.map_eq_some_iff.mp found
  exact ⟨part, present, inner⟩

theorem Field.Held.absent_inv (held : (Field.absent key).Held record) : record.get? key = none := by
  obtain ⟨group, ⟨⟩, found⟩ := held
  exact Option.map_eq_none_iff.mp found

theorem Field.Held.implied_inv {value : Form} (held : (Field.implied key value).Held record) :
    record.get? key = none ∨ ∃ part, record.get? key = some part ∧ value.Varies part.1 := by
  obtain ⟨group, varied, found⟩ := held
  cases varied with
  | dropped => exact .inl (Option.map_eq_none_iff.mp found)
  | implied inner =>
    obtain ⟨part, present, rfl⟩ := Option.map_eq_some_iff.mp found
    exact .inr ⟨part, present, inner⟩

theorem Field.Held.required {value : Form} {a : α} (held : (Field.given key value).Held record)
    (reads : value.ReadsAs decode a) : record.required key decode = some a := by
  obtain ⟨part, present, varied⟩ := held.given_inv
  rw [Record.required, present]
  exact reads part.1 varied

theorem Field.Held.defaulted {isDefault : Bool} {value : Form} {a default : α}
    (held : (Field.withDefault key isDefault value).Held record) (reads : value.ReadsAs decode a)
    (same : isDefault = true → a = default) : record.defaulted key default decode = some a := by
  rw [Record.defaulted]
  cases isDefault with
  | false =>
    obtain ⟨part, present, varied⟩ := Field.Held.given_inv held
    rw [present]
    exact reads part.1 varied
  | true =>
    rcases Field.Held.implied_inv held with missing | ⟨part, present, varied⟩
    · rw [missing, same rfl]
    · rw [present]
      exact reads part.1 varied

theorem Field.Held.flag {value : Bool} (held : (Field.flag key value).Held record) :
    record.defaulted key false bool? = some value :=
  Field.Held.defaulted held (Form.reads_bool value) fun unset => by simpa using unset

theorem Field.Held.items {encode : α → Form} {items : List α} (held : (Field.items key (items.map encode)).Held record)
    (reads : ∀ a ∈ items, (encode a).ReadsAs decode a) : record.defaulted key [] (list? decode) = some items :=
  Field.Held.defaulted held (Form.reads_list reads) fun empty => by simpa using empty

theorem Field.Held.optional {encode : α → Form} {found : Option α} (held : (Field.option key encode found).Held record)
    (reads : ∀ a, (encode a).ReadsAs decode a) (null : decode .null = none) :
    record.optional key decode = some found := by
  cases found with
  | none => rw [Record.optional, Field.Held.absent_inv held]
  | some a =>
    obtain ⟨part, present, varied⟩ := Field.Held.given_inv held
    have read := reads a part.1 varied
    obtain ⟨json, smaller⟩ := part
    rw [Record.optional, present]
    cases json with
    | null =>
      rw [null] at read
      cases read
    | _ => exact congrArg (Option.map some) read

end

/-! ### Variants with one field -/

section

variable {α : Type} {key name field : String} {json : Json} {names : List String} {decode : Json → Option α}

theorem Form.Varies.exists_given {value : Form} {a : α}
    (varied : (Form.variant key name [.given field value]).Varies json) (listed : name ∈ names) (other : key ≠ field)
    (reads : value.ReadsAs decode a) :
    ∃ variant, variant? key json = some variant ∧ (∀ byPosition, tagName? names byPosition variant.tag = some name) ∧
      ∃ record, record? [field] variant.content.1 = some record ∧ record.required field decode = some a := by
  obtain ⟨variant, found, named, record, read, held⟩ := varied.exists_variant_record listed [field] rfl (by simp [other])
  exact ⟨variant, found, named, record, read, (List.forall_mem_singleton.mp held).required reads⟩

theorem Form.Varies.exists_option {encode : α → Form} {value : Option α}
    (varied : (Form.variant key name [.option field encode value]).Varies json) (listed : name ∈ names)
    (other : key ≠ field) (reads : ∀ a, (encode a).ReadsAs decode a) (null : decode .null = none) :
    ∃ variant, variant? key json = some variant ∧ (∀ byPosition, tagName? names byPosition variant.tag = some name) ∧
      ∃ record, record? [field] variant.content.1 = some record ∧ record.optional field decode = some value := by
  obtain ⟨variant, found, named, record, read, held⟩ := varied.exists_variant_record listed [field] (by simp) (by simp [other])
  exact ⟨variant, found, named, record, read, (List.forall_mem_singleton.mp held).optional reads null⟩

end

end Express.Json
