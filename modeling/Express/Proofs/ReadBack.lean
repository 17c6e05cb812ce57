import Express.Proofs.QuietDeclarations
import Express.Reader

/-!
# Reading canonical texts

A schema is read back from its canonical text.
-/

namespace Express

open Reader

namespace Reader

open Reader.Parser

/-! ### Blocks -/

theorem endWords_spelled : ∀ word ∈ endWords, Name.isIdentifier word = true ∧ Text.upper word.toList = word.toList := by
  decide

theorem endKeyword_mem (kind : BlockKind) : kind.endKeyword ∈ endWords := by
  cases kind <;> decide

/-- A block is cut off in front of its `END_…`, if no other one comes first. -/
theorem cut?_takes {kind : BlockKind} {body next : List Char} (avoiding : avoids endWords body = true) :
    cut? kind (body ++ ' ' :: (kind.endKeyword.toList ++ ';' :: next)) = some ⟨body ++ [' '], [], next⟩ := by
  obtain ⟨identifier, upper⟩ := endWords_spelled _ (endKeyword_mem kind)
  have others : ∀ other ∈ identifiersFrom false body, Text.upper other ≠ kind.endKeyword.toList := by
    intro other member same
    have outside := of_decide_eq_true (List.all_eq_true.mp avoiding other member)
    rw [same, String.ofList_toList] at outside
    exact outside (endKeyword_mem kind)
  rw [cut?, splitWord_takes identifier upper rfl others]
  rfl

theorem blockKeyword_known (kind : BlockKind) : kind.keyword ≠ "END_SCHEMA" ∧
    ¬(kind.keyword = "USE" ∨ kind.keyword = "REFERENCE") ∧ BlockKind.ofKeyword? kind.keyword = some kind := by
  cases kind <;> decide

theorem span_space {c : Char} (start : Text.isBlank c = false) (cs : List Char) :
    (' ' :: c :: cs).takeWhile Text.isBlank = [' '] ∧ (' ' :: c :: cs).dropWhile Text.isBlank = c :: cs := by
  have space : Text.isBlank ' ' = true := rfl
  simp [space, start]

/-- The first block of a text that starts with a block's keyword. -/
theorem split_block (line : Nat) {kind : BlockKind} {c : Char} {cs : List Char} {piece : Cut}
    (start : Text.isBlank c = false) (word : Text.upper (leadingWord (c :: cs)) = kind.keyword.toList)
    (found : cut? kind (c :: cs) = some piece) :
    ∃ later, split line (' ' :: c :: cs) =
      (⟨kind, line, Text.trim piece.body⟩ :: (split later piece.rest).1, (split later piece.rest).2) := by
  obtain ⟨blank, front⟩ := span_space start cs
  obtain ⟨unended, unused, ofKeyword⟩ := blockKeyword_known kind
  have keyword : String.ofList (Text.upper (leadingWord (c :: cs))) = kind.keyword := by
    rw [word, String.ofList_toList]
  refine ⟨line + Text.lineEnds piece.body + Text.lineEnds piece.gap, ?_⟩
  rw [split, blank]
  -- The match is on the text behind the blanks together with a proof about it, so `front` is used in each branch.
  dsimp only
  split
  · rename_i same _
    rw [front] at same
    cases same
  · rename_i d tail _ same _
    rw [front] at same
    cases same
    rw [keyword, if_neg unended, if_neg unused]
    split
    · rename_i unknown
      rw [ofKeyword] at unknown
      cases unknown
    · rename_i known
      rw [ofKeyword] at known
      cases known
      split
      · rename_i uncut
        rw [found] at uncut
        cases uncut
      · rename_i cut
        rw [found] at cut
        cases cut
        rfl

theorem split_end (line : Nat) : split line " END_SCHEMA;".toList = ([], .endOfSchema) := by
  rw [split]
  rfl

/-! ### The ends of a declaration's text -/

def EndsClause (text : String) : Prop :=
  text.toList.getLast? = some ';'

theorem endsClause_suffixed (text : String) : EndsClause (text ++ ";") := by
  simp [EndsClause]

theorem EndsClause.after {back : String} (ends : EndsClause back) (front : String) : EndsClause (front ++ back) := by
  rw [EndsClause, String.toList_append, List.getLast?_append, ends]
  rfl

theorem EndsClause.spaced {front : String} (ends : EndsClause front) {texts : List String}
    (each : ∀ text ∈ texts, EndsClause text) : EndsClause (front ++ spaced texts) := by
  induction texts generalizing front with
  | nil => simpa [Express.spaced] using ends
  | cons first others ih =>
    obtain ⟨head, tail⟩ := List.forall_mem_cons.mp each
    rw [spaced_cons, ← String.append_assoc]
    exact ih ((head.after " ").after front) tail

theorem EndsClause.section {front : String} (ends : EndsClause front) {word : String} {texts : List String}
    (each : ∀ text ∈ texts, EndsClause text) : EndsClause (front ++ sectionText word texts) := by
  cases texts with
  | nil => simpa [sectionText] using ends
  | cons first others =>
    obtain ⟨head, tail⟩ := List.forall_mem_cons.mp each
    have clauses : EndsClause (Express.spaced (first :: others)) := by
      rw [spaced_cons]
      exact (head.after " ").spaced tail
    exact (clauses.after (" " ++ word)).after front

theorem endsClause_body (declaration : Declaration) : EndsClause declaration.body := by
  cases declaration with
  | type decl => exact endsClause_suffixed _
  | entity decl =>
    have explicit : ∀ text ∈ decl.explicit.map (·.canonical), EndsClause text :=
      List.forall_mem_map.mpr fun clause _ => endsClause_suffixed _
    have derived : ∀ text ∈ decl.derived.map (·.canonical), EndsClause text :=
      List.forall_mem_map.mpr fun clause _ => endsClause_suffixed _
    have inverse : ∀ text ∈ decl.inverse.map (·.canonical), EndsClause text :=
      List.forall_mem_map.mpr fun clause _ => endsClause_suffixed _
    exact (((endsClause_suffixed _).spaced explicit).section derived).section inverse
  | function decl => exact endsClause_suffixed _
  | rule name => exact endsClause_suffixed _

theorem body_shape (declaration : Declaration) :
    ∃ tail, declaration.body.toList = declaration.blockKind.keyword.toList ++ ' ' :: tail := by
  cases declaration with
  | type decl => exact ⟨_, Grammar.type_shape decl⟩
  | entity decl => exact ⟨_, Grammar.entity_shape decl⟩
  | function decl => exact ⟨_, Grammar.function_shape decl⟩
  | rule name => exact ⟨_, Grammar.rule_shape name⟩

theorem blockKeyword_mem (kind : BlockKind) : kind.keyword ∈ keywords := by
  cases kind <;> decide

theorem body_starts (declaration : Declaration) : ∃ c cs, declaration.body.toList = c :: cs ∧ Text.isBlank c = false := by
  obtain ⟨tail, shape⟩ := body_shape declaration
  have identifier := (keywords_spelled _ (blockKeyword_mem declaration.blockKind)).1
  obtain ⟨c, cs, spelled, start, -⟩ := Name.exists_cons_of_isIdentifier identifier
  rw [spelled] at shape
  exact ⟨c, cs ++ ' ' :: tail, shape, Name.isBlank_eq_false (Name.isPart_of_isStart start)⟩

theorem trim_body (declaration : Declaration) : Text.trim (declaration.body.toList ++ [' ']) = declaration.body.toList := by
  obtain ⟨c, cs, shape, start⟩ := body_starts declaration
  have ends := endsClause_body declaration
  rw [EndsClause, shape] at ends
  rw [shape]
  refine Text.trim_append_space start fun d last => ?_
  rw [ends] at last
  cases last
  rfl

/-! ### Declarations -/

theorem declaration?_body {declaration : Declaration} (writable : declaration.isWritable = true) (line : Nat) :
    Block.declaration? ⟨declaration.blockKind, line, declaration.body.toList⟩ = .ok (some declaration) := by
  cases declaration with
  | type decl =>
    obtain ⟨named, typed⟩ := Bool.and_eq_true_iff.mp writable
    have parsed : parseAll Grammar.typeDecl decl.canonical.toList = some decl := by
      rw [parseAll, Grammar.typeDecl_takes named typed]
    simp [Block.declaration?, Declaration.blockKind, Declaration.body, parsed]
  | entity decl =>
    have parsed : parseAll Grammar.entityDecl decl.canonical.toList = some decl := by
      rw [parseAll, Grammar.entityDecl_takes writable]
    simp [Block.declaration?, Declaration.blockKind, Declaration.body, parsed]
  | function decl =>
    obtain ⟨head, typed⟩ := Bool.and_eq_true_iff.mp writable
    obtain ⟨named, parameters⟩ := Bool.and_eq_true_iff.mp head
    have parsed : parseFront Grammar.functionHead decl.canonical.toList = some decl := by
      rw [parseFront, Grammar.functionHead_takes named parameters typed]
      rfl
    simp [Block.declaration?, Declaration.blockKind, Declaration.body, parsed]
  | rule name =>
    have parsed := Grammar.ruleHead_takes writable
    rw [Block.declaration?, Declaration.blockKind]
    dsimp only
    rw [parsed]
    rfl

/-- The first block of a text that starts with a declaration is that declaration's. -/
theorem split_declaration {declaration : Declaration} (writable : declaration.isWritable = true) (line : Nat)
    (next : List Char) :
    ∃ later, split line (' ' :: (declaration.canonical.toList ++ next)) =
      (⟨declaration.blockKind, line, declaration.body.toList⟩ :: (split later next).1, (split later next).2) := by
  have shape : declaration.canonical.toList ++ next =
      declaration.body.toList ++ ' ' :: (declaration.blockKind.endKeyword.toList ++ ';' :: next) := by
    simp [Declaration.canonical]
  obtain ⟨-, -, avoiding⟩ := isQuiet_iff.mp (Grammar.quiet_body writable)
  have found := @cut?_takes declaration.blockKind _ next avoiding
  have word : Text.upper (leadingWord (declaration.body.toList ++ ' ' ::
      (declaration.blockKind.endKeyword.toList ++ ';' :: next))) = declaration.blockKind.keyword.toList := by
    obtain ⟨tail, start⟩ := body_shape declaration
    have listed := blockKeyword_mem declaration.blockKind
    rw [start, List.append_assoc, leadingWord_keyword listed rfl, (keywords_spelled _ listed).2]
  obtain ⟨c, cs, start, solid⟩ := body_starts declaration
  have trimmed := trim_body declaration
  rw [start] at found word trimmed
  rw [shape, start]
  have first := split_block line solid word found
  rwa [trimmed] at first

/-- The declarations in front of the end of the schema are read one by one. -/
theorem declarations_split {decls : List Declaration} (writable : ∀ d ∈ decls, d.isWritable = true) (line : Nat) :
    declarations (split line ((spaced (decls.map (·.canonical))).toList ++ " END_SCHEMA;".toList)).1
      (split line ((spaced (decls.map (·.canonical))).toList ++ " END_SCHEMA;".toList)).2 = .ok decls := by
  induction decls generalizing line with
  | nil =>
    rw [show (spaced ([].map Declaration.canonical)).toList ++ " END_SCHEMA;".toList = " END_SCHEMA;".toList from rfl,
      split_end]
    rfl
  | cons first others ih =>
    obtain ⟨head, tail⟩ := List.forall_mem_cons.mp writable
    rw [Grammar.spaced_shape]
    obtain ⟨later, step⟩ := split_declaration head line
      ((spaced (others.map (·.canonical))).toList ++ " END_SCHEMA;".toList)
    rw [step, declarations, declaration?_body head, ih tail later]
    rfl

end Reader

/-! ### Schemas -/

theorem Schema.quiet_canonical {schema : Schema} (writable : schema.isWritable = true) :
    isQuiet [] schema.canonical.toList = true := by
  obtain ⟨named, each⟩ := Bool.and_eq_true_iff.mp writable
  have head := quiet_prefixed "SCHEMA " (by decide) (by decide) (isQuiet_nil (quiet_name named))
  have declarations : Appends [] (spaced (schema.declarations.map (·.canonical))) := by
    refine appends_spaced (by decide) (List.forall_mem_map.mpr fun declaration member => ?_)
    have body := isQuiet_nil (Grammar.quiet_body (List.all_eq_true.mp each declaration member))
    have word : isQuiet [] declaration.blockKind.endKeyword.toList = true := by cases declaration.blockKind <;> decide
    exact quiet_suffixed ";" (by decide) (quiet_between " " (by decide) body word)
  exact quiet_suffixed " END_SCHEMA;" (by decide) (declarations.after (quiet_suffixed ";" (by decide) head))

theorem Schema.canonical_shape (schema : Schema) : schema.canonical.toList = ("SCHEMA " ++ schema.name).toList ++ ';' ::
    ((spaced (schema.declarations.map (·.canonical))).toList ++ " END_SCHEMA;".toList) := by
  simp [Schema.canonical]

theorem header_chars {name : Name} (named : name.isWritable = true) :
    ∀ c ∈ ("SCHEMA " ++ name).toList, c = ' ' ∨ Name.isPart c = true := by
  have parts := Name.parts_of_isIdentifier (Name.isIdentifier_of_isWritable named)
  have word : ∀ c ∈ "SCHEMA ".toList, c = ' ' ∨ Name.isPart c = true := by simp [Name.isPart]
  intro c member
  rw [String.toList_append, List.mem_append] at member
  rcases member with front | back
  · exact word c front
  · exact .inr (parts c back)

theorem trim_header {name : Name} (named : name.isWritable = true) :
    Text.trim ("SCHEMA " ++ name).toList = ("SCHEMA " ++ name).toList := by
  have identifier := Name.isIdentifier_of_isWritable named
  have edge : ("SCHEMA " ++ name).toList.getLast? = name.toList.getLast? := by
    rw [String.toList_append, List.getLast?_append_of_ne_nil _ (Name.toList_ne_nil identifier)]
  have solid : ∀ d ∈ ("SCHEMA " ++ name).toList.getLast?, Text.isBlank d = false := by
    rw [edge]
    exact fun d last => Name.isBlank_eq_false
      (Name.parts_of_isIdentifier identifier d (List.mem_of_getLast? last))
  rw [String.toList_append] at solid ⊢
  exact Text.trim_of_edges rfl solid

/-- A schema is read back from its canonical text. -/
theorem Schema.read_canonical (schema : Schema) (writable : schema.isWritable = true) :
    Schema.read schema.canonical = .ok schema := by
  obtain ⟨named, each⟩ := Bool.and_eq_true_iff.mp writable
  have chars := header_chars named
  have unquoted : '\'' ∉ ("SCHEMA " ++ schema.name).toList := fun member => absurd (chars _ member) (by decide)
  have single : ';' ∉ ("SCHEMA " ++ schema.name).toList := fun member => absurd (chars _ member) (by decide)
  have start : schema.canonical.toList.dropWhile Text.isBlank = schema.canonical.toList := by
    rw [canonical_shape, String.toList_append]
    rfl
  have name : Parser.parseAll Grammar.schemaHeader ("SCHEMA " ++ schema.name).toList = some schema.name := by
    rw [Parser.parseAll, Grammar.schemaHeader_takes named]
  rw [Schema.read, strip_quiet (quiet_canonical writable), readPlain, start]
  rw [canonical_shape, splitStatement_takes unquoted single]
  dsimp only
  rw [trim_header named, name]
  dsimp only
  rw [declarations_split (List.all_eq_true.mp each)]
  rfl

/-- A schema with every kind of declaration and clause. -/
def drawingSchema : Schema where
  name := "drawing"
  declarations := [
    .type { name := "path", body := .collection { kind := .list, bounds := some "2:?", unique := true } (.named "point") },
    .type { name := "colour", body := .enumeration ["red", "green"] },
    .type { name := "mark", body := .select ["point", "shape"] },
    .entity
      { name := "shape"
        supertype := some { isAbstract := true, choice := some ["circle"], expression := some "ONEOF (circle)" }
        explicit := [{ names := [.simple "fill", .simple "edge"], optional := true, type := .named "colour" },
          { names := [.simple "tag"], type := .generic (some "any") }]
        inverse := [{ name := .simple "uses", aggregate := some ⟨.set, some "0:?"⟩, entity := "sheet", forAttr := "shown" }] },
    .entity
      { name := "circle", subtypeOf := ["shape"]
        explicit := [{ names := [.qualified "shape" "fill"], type := .named "colour" }]
        derived := [{ name := .simple "area", type := .simple .real, expression := "scale(r[1] * (2 + r[2]))" },
          { name := .simple "shade", type := .generic none, expression := "fill" }] },
    .function
      { name := "scale", parameters := [⟨["a", "b"], .aggregate (some "any") (.generic (some "any"))⟩]
        returnType := .collection .bag none (.simple .number) },
    .rule "closed"]

example : drawingSchema.canonical =
    "SCHEMA drawing; TYPE path = LIST [2:?] OF UNIQUE point; END_TYPE; " ++
    "TYPE colour = ENUMERATION OF (red, green); END_TYPE; TYPE mark = SELECT (point, shape); END_TYPE; " ++
    "ENTITY shape ABSTRACT SUPERTYPE OF (ONEOF (circle)); fill, edge : OPTIONAL colour; tag : GENERIC : any; " ++
    "INVERSE uses : SET [0:?] OF sheet FOR shown; END_ENTITY; " ++
    "ENTITY circle SUBTYPE OF (shape); SELF\\shape.fill : colour; " ++
    "DERIVE area : REAL := scale(r[1] * (2 + r[2])); shade : GENERIC := fill; END_ENTITY; " ++
    "FUNCTION scale (a, b : AGGREGATE : any OF GENERIC : any) : BAG OF NUMBER; END_FUNCTION; " ++
    "RULE closed FOR (closed); END_RULE; END_SCHEMA;" := by
  decide +kernel

theorem Schema.read_drawing :
    drawingSchema.isWritable = true ∧ Schema.read drawingSchema.canonical = .ok drawingSchema :=
  ⟨by decide +kernel, Schema.read_canonical drawingSchema (by decide +kernel)⟩

end Express
