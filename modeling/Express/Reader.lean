import Express.Reader.Block
import Express.Reader.Grammar
import Express.Reader.Remark

/-!
# Reading a schema

Remarks are removed, the header is read, the body is split into blocks, and each block is parsed. The first fault in
text order is reported; nothing behind `END_SCHEMA` is looked at.
-/

namespace Express

open Reader

inductive ReadError where
  | missingHeader
  | missingEnd
  | unterminatedClause (line : Nat) (word : String)
  | unterminatedBlock (line : Nat) (kind : BlockKind)
  | unexpectedCharacter (line : Nat) (found : Char)
  | unrecognized (line : Nat) (word : String)
  | malformed (line : Nat) (kind : BlockKind) (declared : String)
  deriving DecidableEq, Repr

namespace ReadError

/-- The form that a declaration should have had. -/
def expectation : BlockKind → String
  | .type =>
    "TYPE expects: `TYPE <Name> = <simple | aggregate | named | ENUMERATION OF (…) | SELECT (…)>;`"
  | .entity =>
    "ENTITY expects: a head `ENTITY <Name> [ABSTRACT] [SUPERTYPE OF (…)] [SUBTYPE OF (…)];` " ++
      "followed by explicit, DERIVE, INVERSE, UNIQUE and WHERE clauses in that order"
  | .function => "FUNCTION expects: `FUNCTION <Name> (<params>) : <type>;`"
  | .rule => "RULE expects: `RULE <Name> FOR (…);`"
  | _ => ""

def onLine (line : Nat) (fault : String) : String :=
  s!"parse error on line {line}: {fault}"

def message : ReadError → String
  | .missingHeader => "missing `SCHEMA <name>;` header"
  | .missingEnd => "missing `END_SCHEMA;`"
  | .unterminatedClause line word => onLine line s!"unterminated {word} clause"
  | .unterminatedBlock line kind =>
    onLine line s!"unterminated {kind.keyword} block (expected `{kind.endKeyword};`)"
  | .unexpectedCharacter line found => onLine line s!"unexpected character `{found}`"
  | .unrecognized line word => onLine line s!"unrecognized declaration `{word}`"
  | .malformed line kind declared =>
    onLine line s!"{kind.keyword} `{declared}`: {expectation kind}"

/-- The fault in an ending, if it is one. -/
def ofEnding? : Ending → Option ReadError
  | .endOfSchema => none
  | .endOfText => some .missingEnd
  | .unterminatedClause line word => some (.unterminatedClause line word)
  | .unterminatedBlock line kind => some (.unterminatedBlock line kind)
  | .unexpectedCharacter line found => some (.unexpectedCharacter line found)
  | .unrecognized line word => some (.unrecognized line word)

end ReadError

namespace Reader

/-- The identifier that a block's second word starts with, or a question mark. -/
def Block.declared (block : Block) : String :=
  match (Text.words block.text)[1]? with
  | none => "?"
  | some word => if (leadingWord word).isEmpty then "?" else String.ofList (leadingWord word)

/-- The declaration in a block. Blocks of some kinds are dropped. -/
def Block.declaration? (block : Block) : Except ReadError (Option Declaration) :=
  let parsed := match block.kind with
    | .type => (Parser.parseAll Grammar.typeDecl block.text).map (some ∘ .type)
    | .entity => (Parser.parseAll Grammar.entityDecl block.text).map (some ∘ .entity)
    | .function => (Parser.parseFront Grammar.functionHead block.text).map (some ∘ .function)
    | .rule => (Parser.parseFront Grammar.ruleHead block.text).map (some ∘ .rule)
    | .procedure | .constant | .subtypeConstraint => some none
  match parsed with
  | some declaration => .ok declaration
  | none => .error (.malformed block.line block.kind block.declared)

/-- The declarations of a sequence of blocks, or the first fault. -/
def declarations : List Block → Ending → Except ReadError (List Declaration)
  | [], ending => match ReadError.ofEnding? ending with
    | some fault => .error fault
    | none => .ok []
  | block :: blocks, ending => do
    let first ← block.declaration?
    let others ← declarations blocks ending
    return first.toList ++ others

/-- Reads a schema from a text without remarks. -/
def readPlain (text : List Char) : Except ReadError Schema :=
  match splitStatement false (text.dropWhile Text.isBlank) with
  | none => .error .missingHeader
  | some (header, body) =>
    match Parser.parseAll Grammar.schemaHeader (Text.trim header) with
    | none => .error .missingHeader
    | some name =>
      let line := 1 + Text.lineEnds (text.takeWhile Text.isBlank) + Text.lineEnds header
      let (blocks, ending) := split line body
      (declarations blocks ending).map fun declarations => { name, declarations }

end Reader

/-- Reads the first schema of a text. -/
def Schema.read (text : String) : Except ReadError Schema :=
  readPlain (strip .plain text.toList)

end Express
