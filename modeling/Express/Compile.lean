import Express.Draft.Finish
import Express.Reader

/-!
# From text to model
-/

namespace Express

inductive CompileError where
  | read (e : ReadError)
  | build (e : ModelError)
  deriving DecidableEq, Repr

def CompileError.message : CompileError → String
  | .read e => e.message
  | .build e => e.message

/-- The model of a schema text, with the notices made on the way. -/
def Model.compile (settings : Settings) (text : String) : Outcome CompileError (List Notice) Model :=
  match Schema.read text with
  | .error e => (.error (.read e), [])
  | .ok schema =>
    match Model.build settings schema with
    | (.ok model, notices) => (.ok model, notices)
    | (.error e, notices) => (.error (.build e), notices)

end Express
