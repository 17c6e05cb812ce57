import Express.Proofs.Acceptance
import Mathlib.Data.List.Induction

/-!
# Names in the order of their first mention

A name gets its slot when it is first mentioned, whether by its own declaration or by another one before it. So the
names of a model are what the declarations mention, one after the other and each where it is mentioned first
(`names_first_mention`).
-/

namespace Express

/-- All that the declarations mention, in order. -/
def Schema.mentions (schema : Schema) : List Name :=
  schema.declarations.flatMap (·.mentions)

/-- Of two slots, the first is that of the name which is mentioned first. -/
theorem pairwise_foldl_mention (mentioned : List Name) :
    (mentioned.foldl mention []).Pairwise fun a b => mentioned.idxOf a < mentioned.idxOf b := by
  -- From the end of the list, where a mention adds its slot and leaves all earlier ones as they are.
  induction mentioned using List.reverseRecOn with
  | nil => exact .nil
  | append_singleton mentioned name ih =>
    have mentionedOf {a : Name} (slot : a ∈ mentioned.foldl mention []) : a ∈ mentioned :=
      (mem_foldl_mention.mp slot).resolve_left List.not_mem_nil
    have kept {a : Name} (slot : a ∈ mentioned.foldl mention []) :
        (mentioned ++ [name]).idxOf a = mentioned.idxOf a :=
      List.idxOf_append_of_mem (mentionedOf slot)
    have before : (mentioned.foldl mention []).Pairwise fun a b =>
        (mentioned ++ [name]).idxOf a < (mentioned ++ [name]).idxOf b := by
      apply ih.imp_of_mem
      intro a b slotA slotB earlier
      rw [kept slotA, kept slotB]
      exact earlier
    rw [List.foldl_append, List.foldl_cons, List.foldl_nil]
    by_cases old : name ∈ mentioned.foldl mention []
    · rw [mention_of_mem old]
      exact before
    · rw [mention_of_not_mem old]
      refine List.pairwise_append.mpr ⟨before, List.pairwise_singleton .., ?_⟩
      intro a slot b new
      obtain rfl := List.mem_singleton.mp new
      have unmentioned : b ∉ mentioned := fun again => old (mem_foldl_mention.mpr (.inr again))
      rw [kept slot, List.idxOf_append_of_notMem unmentioned]
      have within := List.idxOf_lt_length_of_mem (mentionedOf slot)
      omega

namespace Model

/-- The names of a model are what its schema mentions, without repetitions: types and entities under their own names and
what entities refer to. The alternatives of selects, the types that others stand for and those of functions are not
among them. -/
theorem names_first_mention {settings : Settings} {schema : Schema} {model : Model}
    (built : (build settings schema).1 = .ok model) :
    model.names = schema.mentions.eraseDups ∧
      (model.names.Pairwise fun a b => schema.mentions.idxOf a < schema.mentions.idxOf b) ∧
      ∀ name, name ∈ model.names ↔ name ∈ schema.registered ∨ ∃ decl ∈ schema.entities, name ∈ decl.references := by
  obtain ⟨_, reflects, _⟩ := consistent_of_build built
  have names : model.names = schema.mentions.foldl mention [] := reflects.names
  refine ⟨?_, ?_, fun name => reflects.mem_names_iff⟩
  · rw [names, foldl_mention_nil]
  · rw [names]
    exact pairwise_foldl_mention schema.mentions

/-- Players are declared before what they refer to, and most of that is never declared. -/
def orchestraSchema : Schema where
  name := "orchestra"
  declarations :=
    [.type { name := "voice", body := .select ["player", "organ"] },
      .entity
        { name := "player"
          supertype := some { isAbstract := true, choice := some ["soloist", "leader"] }
          subtypeOf := ["person"]
          explicit :=
            [{ names := [.simple "first", .simple "second"], type := .collection { kind := .list } (.named "part") },
              { names := [.simple "fee"], type := .named "REAL" }]
          derived := [{ name := .simple "pace", type := .named "tempo", expression := "SELF.first" }]
          inverse :=
            [{ name := .simple "seats", aggregate := some { kind := .set }, entity := "seat", forAttr := "taken" }] },
      .function { name := "loudness", returnType := .named "volume" },
      .type { name := "tempo", body := .named "beat" },
      .entity { name := "leader", subtypeOf := ["player"] },
      .entity { name := "seat", explicit := [{ names := [.simple "taken"], type := .named "player" }] }]

theorem orchestra_names :
    ∃ model, (build {} orchestraSchema).1 = .ok model ∧ model.names = orchestraSchema.mentions.eraseDups ∧
      model.names = ["voice", "player", "soloist", "leader", "person", "part", "tempo", "seat"] ∧
      (∀ name ∈ ["organ", "volume", "beat", "REAL"], name ∉ model.names) := by
  obtain ⟨model, built, _⟩ := exists_ok_of_map
    (show (build {} orchestraSchema).1.toOption.map (·.settings.strict) = some false by decide +kernel)
  obtain ⟨names, _, _⟩ := names_first_mention built
  have listed : model.names = ["voice", "player", "soloist", "leader", "person", "part", "tempo", "seat"] := by
    rw [names]
    decide +kernel
  refine ⟨model, built, names, listed, ?_⟩
  rw [listed]
  decide

end Model

end Express
