import Express.Draft
import Express.Model.Choice
import Express.Model.Layout
import Express.Model.Summary

/-!
# Finishing a draft

A draft becomes a model if no step has failed and the whole of it is consistent: what is used as an entity is one, no
entity inherits from itself, in strict mode every name is declared, and every inverse attribute has a forward one.
-/

namespace Express

namespace Draft

/-- Every name that is used as an entity and has a slot is an entity. -/
def checkEntityUses (draft : Draft) : Except ModelError Unit :=
  draft.entityUses.forM fun name =>
    match draft.model.find? name with
    | some (.entity _) | none => .ok ()
    | some other => .error (.kindMismatch name .entity other.kind)

def checkCycles (draft : Draft) : Except ModelError Unit :=
  draft.model.entities.forM fun entity =>
    if draft.model.onCycle entity then .error (.inheritanceCycle entity.name) else .ok ()

/-- The entity that used a placeholder's name first. -/
def referrer (draft : Draft) (name : Name) : Name :=
  (draft.referrers.lookup name).getD ""

/-- Reports one placeholder, or refuses it in strict mode. -/
def checkPlaceholder (draft : Draft) (name : Name) : Outcome ModelError Draft Unit :=
  let referrer := draft.referrer name
  if draft.model.settings.strict then (.error (.undeclared name referrer), draft)
  else match draft.declared.find? (·.sameIgnoringCase name) with
    | some declared => (.ok (), draft.note (.caseDiffers name declared referrer))
    | none => (.ok (), draft.note (.neverDeclared name referrer))

/-- Whether all ancestors of a chain are declared, up to one without parents. -/
def completeChain : List Entity → Bool
  | [] => false
  | root :: _ => !root.isPlaceholder && root.parent?.isNone

/-- The link's target has the forward attribute. Nothing can be said about a target with undeclared ancestors. -/
def checkLink (draft : Draft) (link : ReverseLink) : Outcome ModelError Draft Unit :=
  match draft.model.ancestors link.target with
  | .error _ => (.ok (), draft)
  | .ok chain =>
    match draft.model.forwardAttribute link.target link.targetAttr with
    | .ok (some _) => (.ok (), draft)
    | _ =>
      if completeChain chain then (.error (.unresolvedInverse link), draft)
      else (.ok (), draft.note (.linkNotValidated link))

/-- All checks in order. -/
def validate (draft : Draft) : Outcome ModelError Draft Unit :=
  match draft.failure with
  | some e => (.error e, draft)
  | none =>
    match (do draft.checkEntityUses; draft.checkCycles : Except ModelError Unit) with
    | .error e => (.error e, draft)
    | .ok () =>
      match runAll checkPlaceholder draft draft.model.placeholders with
      | (.error e, draft) => (.error e, draft)
      | (.ok (), draft) => runAll checkLink draft draft.model.sortedLinks

/-- The model, with the draft's notices up to its end. -/
def finish (draft : Draft) : Outcome ModelError (List Notice) Model :=
  match draft.validate with
  | (.error e, draft) => (.error e, draft.notices)
  | (.ok (), draft) =>
    let model := { draft.model with memberships := Model.membershipsOf draft.model.selects }
    (.ok model, draft.notices ++ [.modelBuilt model.schema model.summary.text])

end Draft

/-- The model of a schema, with the notices made on the way. -/
def Model.build (settings : Settings) (schema : Schema) : Outcome ModelError (List Notice) Model :=
  match (Draft.empty settings).addSchema schema with
  | (.error e, draft) => (.error e, draft.notices)
  | (.ok (), draft) => draft.finish

end Express
