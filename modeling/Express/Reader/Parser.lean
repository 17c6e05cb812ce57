import Express.Name
import Express.Text.Blank

/-!
# Parsers

A parser takes characters from the front of a text or fails. Choice is ordered and a failed parser takes nothing, so
every alternative starts where the choice does. Repetition stops at the first round that fails or takes nothing, which
makes it total.
-/

namespace Express.Reader

def Parser (α : Type) :=
  List Char → Option (α × List Char)

namespace Parser

instance : Monad Parser where
  pure a := fun cs => some (a, cs)
  bind p f := fun cs => match p cs with
    | some (a, rest) => f a rest
    | none => none

instance : OrElse (Parser α) where
  orElse p q := fun cs => match p cs with
    | some found => some found
    | none => q () cs

def fail : Parser α :=
  fun _ => none

/-- The first parser of the list that succeeds. -/
def firstOf : List (Parser α) → Parser α
  | [] => fail
  | p :: ps => p <|> firstOf ps

/-- Always succeeds, with `none` where `p` fails. -/
def maybe (p : Parser α) : Parser (Option α) :=
  fun cs => match p cs with
    | some (a, rest) => some (some a, rest)
    | none => some (none, cs)

/-- Whether `p` was there to be taken. -/
def given (p : Parser α) : Parser Bool := do
  let found ← maybe p
  return found.isSome

/-- As many rounds of `p` as succeed. -/
def many (p : Parser α) (cs : List Char) : Option (List α × List Char) :=
  match p cs with
  | none => some ([], cs)
  | some (a, rest) =>
    if rest.length < cs.length then
      match many p rest with
      | some (as, rest) => some (a :: as, rest)
      | none => none
    else some ([], cs)
termination_by cs.length

def many1 (p : Parser α) : Parser (List α) := do
  let first ← p
  let others ← many p
  return first :: others

/-- One or more `p` with `separator` between neighbours. A separator that no `p` follows is left alone. -/
def sepBy1 (separator : Parser β) (p : Parser α) : Parser (List α) := do
  let first ← p
  let others ← many (do let _ ← separator; p)
  return first :: others

/-- Any number of `wrap`s around one `core`. Where what follows a wrap is neither, the wrap is not taken, and `core` is
tried in its place. -/
def nested (wrap : Parser (α → α)) (core : Parser α) (cs : List Char) : Option (α × List Char) :=
  match wrap cs with
  | none => core cs
  | some (f, rest) =>
    if rest.length < cs.length then
      match nested wrap core rest with
      | some (a, rest) => some (f a, rest)
      | none => core cs
    else core cs
termination_by cs.length

/-- All characters up to the first one that is not in the class. -/
def takeWhile (inClass : Char → Bool) : Parser (List Char) :=
  fun cs => some (cs.takeWhile inClass, cs.dropWhile inClass)

/-- All characters up to the end of the text. -/
def rest : Parser (List Char) :=
  fun cs => some (cs, [])

def char (expected : Char) : Parser Unit
  | c :: cs => if c = expected then some ((), cs) else none
  | [] => none

/-- Skips blanks in front of a token. -/
def blanks : Parser Unit :=
  fun cs => some ((), cs.dropWhile Text.isLayout)

def token (p : Parser α) : Parser α := do
  blanks
  p

def symbol (c : Char) : Parser Unit :=
  token (char c)

/-- What is left of `cs` behind the upper-case word, if it starts with that word in any case. -/
def dropWord? : List Char → List Char → Option (List Char)
  | [], cs => some cs
  | w :: word, c :: cs => if c.toUpper = w then dropWord? word cs else none
  | _ :: _, [] => none

/-- No letter, digit or underscore comes next. -/
def atWordEnd : List Char → Bool
  | c :: _ => !Name.isPart c
  | [] => true

/-- An upper-case word, in any case and not as part of a longer identifier. -/
def keyword (word : String) : Parser Unit :=
  fun cs => match dropWord? word.toList cs with
    | some rest => if atWordEnd rest then some ((), rest) else none
    | none => none

def ident : Parser Name
  | c :: cs =>
    if Name.isStart c then some (String.ofList (c :: cs.takeWhile Name.isPart), cs.dropWhile Name.isPart) else none
  | [] => none

/-- The constant whose keyword comes next. -/
def constant (constants : List α) (word : α → String) : Parser α :=
  firstOf (constants.map fun a => do keyword (word a); return a)

/-- Runs `p` on the whole text. -/
def parseAll (p : Parser α) (cs : List Char) : Option α :=
  match p cs with
  | some (a, []) => some a
  | _ => none

/-- Runs `p` on the front of the text. -/
def parseFront (p : Parser α) (cs : List Char) : Option α :=
  (p cs).map (·.1)

end Parser

end Express.Reader
