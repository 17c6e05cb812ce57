import Express.Json

/-!
# JSON text

`render` writes a value either without any blanks or with one member or item to a line and two spaces for each level.
Only quotes, backslashes and control characters below U+0020 are escaped.
-/

namespace Express.Json

inductive Layout where
  | compact
  | indented
  deriving DecidableEq, Repr

def hexDigit (n : Nat) : Char :=
  Nat.digitChar (n % 16)

def escape (c : Char) : List Char :=
  if c = '"' then ['\\', '"']
  else if c = '\\' then ['\\', '\\']
  else if c = '\x08' then ['\\', 'b']
  else if c = '\t' then ['\\', 't']
  else if c = '\n' then ['\\', 'n']
  else if c = '\x0c' then ['\\', 'f']
  else if c = '\r' then ['\\', 'r']
  else if c.toNat < 0x20 then ['\\', 'u', '0', '0', hexDigit (c.toNat / 16), hexDigit c.toNat]
  else [c]

def quote (text : String) : String :=
  String.ofList ('"' :: text.toList.flatMap escape ++ ['"'])

/-- The start of a line at the given level. -/
def newLine (level : Nat) : String :=
  String.ofList ('\n' :: List.replicate (2 * level) ' ')

/-- Brackets around the parts of an array or object at the given level. -/
def enclose (layout : Layout) (level : Nat) (opening closing : String) (parts : List String) : String :=
  if parts.isEmpty then opening ++ closing
  else match layout with
    | .compact => opening ++ ",".intercalate parts ++ closing
    | .indented =>
      opening ++ newLine (level + 1) ++ ("," ++ newLine (level + 1)).intercalate parts ++ newLine level ++ closing

/-- What stands between a key and its value. -/
def colon : Layout → String
  | .compact => ":"
  | .indented => ": "

mutual

def renderAt (layout : Layout) (level : Nat) : Json → String
  | .null | .illFormed => "null"
  | .bool true => "true"
  | .bool false => "false"
  | .nat value => toString value
  | .number literal => literal
  | .str text => quote text
  | .arr items => enclose layout level "[" "]" (renderItems layout (level + 1) items)
  | .obj members => enclose layout level "\x7b" "\x7d" (renderMembers layout (level + 1) members)

def renderItems (layout : Layout) (level : Nat) : List Json → List String
  | [] => []
  | item :: items => renderAt layout level item :: renderItems layout level items

def renderMembers (layout : Layout) (level : Nat) : List (String × Json) → List String
  | [] => []
  | (key, value) :: members =>
    (quote key ++ colon layout ++ renderAt layout level value) :: renderMembers layout level members

end

def render (layout : Layout) (value : Json) : String :=
  renderAt layout 0 value

end Express.Json
