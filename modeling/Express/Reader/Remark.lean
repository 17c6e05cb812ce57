/-!
# Remarks

A remark `(* … *)` may hold further remarks and becomes one blank; a tail remark runs from `--` to the end of its line.
Line ends inside remarks are kept, and neither mark counts inside a string literal.
-/

namespace Express.Reader

/-- Where a scan stands: in plain text, in a string literal, in a tail remark, or in a remark with `outer` more
remarks around it. -/
inductive Mode where
  | plain
  | quoted
  | tail
  | remark (outer : Nat)
  deriving DecidableEq, Repr

/-- The text without its remarks. -/
def strip : Mode → List Char → List Char
  | _, [] => []
  | .tail, c :: cs => if c = '\n' then '\n' :: strip .plain cs else strip .tail cs
  | .remark outer, '(' :: '*' :: cs => strip (.remark (outer + 1)) cs
  | .remark 0, '*' :: ')' :: cs => strip .plain cs
  | .remark (outer + 1), '*' :: ')' :: cs => strip (.remark outer) cs
  | .remark outer, c :: cs => if c = '\n' then '\n' :: strip (.remark outer) cs else strip (.remark outer) cs
  | .quoted, c :: cs => c :: strip (if c = '\'' then .plain else .quoted) cs
  | .plain, '(' :: '*' :: cs => ' ' :: strip (.remark 0) cs
  | .plain, '-' :: '-' :: cs => strip .tail cs
  | .plain, c :: cs => c :: strip (if c = '\'' then .quoted else .plain) cs

end Express.Reader
