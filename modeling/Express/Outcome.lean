/-!
# Outcomes

The answer of a step together with the state that it leaves, which is kept when the step fails.
-/

namespace Express

abbrev Outcome (ε σ α : Type) :=
  Except ε α × σ

/-- Runs a step for each item in order, up to the first failure. -/
def runAll {ε σ α : Type} (step : σ → α → Outcome ε σ Unit) : σ → List α → Outcome ε σ Unit
  | state, [] => (.ok (), state)
  | state, item :: items =>
    match step state item with
    | (.ok (), state) => runAll step state items
    | (.error e, state) => (.error e, state)

/-- What every step keeps, a run keeps, failing or not. -/
theorem runAll_keeps {ε σ α : Type} {step : σ → α → Outcome ε σ Unit} {keeps : σ → Prop} {items : List α}
    (kept : ∀ state, ∀ item ∈ items, keeps state → keeps (step state item).2) {state : σ} (before : keeps state) :
    keeps (runAll step state items).2 := by
  induction items generalizing state with
  | nil => exact before
  | cons item items ih =>
    have after := kept state item List.mem_cons_self before
    rw [runAll]
    split
    · rename_i next same
      rw [same] at after
      exact ih (fun s i member => kept s i (List.mem_cons_of_mem _ member)) after
    · rename_i e next same
      rw [same] at after
      exact after

end Express
