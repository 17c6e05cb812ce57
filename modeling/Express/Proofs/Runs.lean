import Express.Outcome
import Mathlib.Data.List.Basic

/-!
# Runs

When a traversal succeeds, told from its steps: of checks, of lookups and of steps that carry a state.
-/

namespace Express

theorem forM_eq_ok_iff {ε α : Type} {check : α → Except ε Unit} {items : List α} :
    items.forM check = .ok () ↔ ∀ item ∈ items, check item = .ok () := by
  induction items with
  | nil => simp [pure, Except.pure]
  | cons item items ih =>
    rw [show (item :: items).forM check = (check item >>= fun _ => items.forM check) from rfl,
      List.forall_mem_cons, ← ih]
    cases check item <;> simp [bind, Except.bind]

/-- A run succeeds exactly if each of its steps does, if the steps keep what their success depends on. -/
theorem runAll_ok_iff {ε σ α : Type} {step : σ → α → Outcome ε σ Unit} {keeps : σ → Prop} {passes : α → Prop}
    {items : List α} (kept : ∀ state item, keeps state → keeps (step state item).2)
    (succeeds : ∀ state item, keeps state → ((step state item).1 = .ok () ↔ passes item)) {state : σ}
    (before : keeps state) : (runAll step state items).1 = .ok () ↔ ∀ item ∈ items, passes item := by
  induction items generalizing state with
  | nil => simp [runAll]
  | cons item items ih =>
    have first := succeeds state item before
    have after := kept state item before
    rw [runAll, List.forall_mem_cons, ← first]
    split
    · rename_i next same
      rw [same] at after ⊢
      rw [ih after]
      simp
    · rename_i e next same
      rw [same]
      simp

/-- A run succeeds if each step succeeds on what the steps before it keep. -/
theorem runAll_ok {ε σ α : Type} {step : σ → α → Outcome ε σ Unit} {keeps : σ → Prop} {items : List α}
    (succeeds : ∀ state, ∀ item ∈ items, keeps state → (step state item).1 = .ok () ∧ keeps (step state item).2)
    {state : σ} (before : keeps state) : (runAll step state items).1 = .ok () := by
  induction items generalizing state with
  | nil => rfl
  | cons item items ih =>
    obtain ⟨done, after⟩ := succeeds state item List.mem_cons_self before
    rw [runAll]
    split
    · rename_i next same
      rw [same] at after
      exact ih (fun state other member => succeeds state other (List.mem_cons_of_mem _ member)) after
    · rename_i e next same
      rw [same] at done
      cases done

/-- A run that fails has succeeded up to the item at which it fails. -/
theorem runAll_error {ε σ α : Type} {step : σ → α → Outcome ε σ Unit} {items : List α} {state final : σ} {e : ε}
    (failed : runAll step state items = (.error e, final)) :
    ∃ before item later middle, items = before ++ item :: later ∧ runAll step state before = (.ok (), middle) ∧
      step middle item = (.error e, final) := by
  induction items generalizing state with
  | nil => cases failed
  | cons item items ih =>
    rw [runAll] at failed
    rcases first : step state item with ⟨e' | _, next⟩
    · rw [first] at failed
      cases failed
      exact ⟨[], item, items, state, rfl, rfl, first⟩
    · rw [first] at failed
      obtain ⟨before, other, later, middle, rfl, ran, stopped⟩ := ih failed
      refine ⟨item :: before, other, later, middle, rfl, ?_, stopped⟩
      rw [runAll, first]
      exact ran

theorem bind_ok {ε α β : Type} {first : Except ε α} {next : α → Except ε β} {b : β} (h : first >>= next = .ok b) :
    ∃ a, first = .ok a ∧ next a = .ok b := by
  cases first with
  | error e => cases h
  | ok a => exact ⟨a, rfl, h⟩

theorem mapM_cons_ok {ε α β : Type} {f : α → Except ε β} {a : α} {items : List α} {results : List β}
    (mapped : (a :: items).mapM f = .ok results) :
    ∃ b others, f a = .ok b ∧ items.mapM f = .ok others ∧ results = b :: others := by
  rw [List.mapM_cons] at mapped
  obtain ⟨b, first, mapped⟩ := bind_ok mapped
  obtain ⟨others, later, mapped⟩ := bind_ok mapped
  cases mapped
  exact ⟨b, others, first, later, rfl⟩

theorem mem_of_mapM_ok {ε α β : Type} {f : α → Except ε β} {items : List α} {results : List β}
    (mapped : items.mapM f = .ok results) {b : β} (member : b ∈ results) : ∃ a ∈ items, f a = .ok b := by
  induction items generalizing results with
  | nil =>
    cases mapped
    cases member
  | cons a items ih =>
    obtain ⟨c, others, first, later, rfl⟩ := mapM_cons_ok mapped
    rcases List.mem_cons.mp member with rfl | behind
    · exact ⟨a, List.mem_cons_self, first⟩
    · obtain ⟨a', listed, same⟩ := ih later behind
      exact ⟨a', List.mem_cons_of_mem _ listed, same⟩

theorem map_of_mapM_ok {ε α β γ : Type} {f : α → Except ε β} {items : List α} {results : List β}
    (mapped : items.mapM f = .ok results) {observe : β → γ} {expected : α → γ}
    (each : ∀ a ∈ items, ∀ b, f a = .ok b → observe b = expected a) : results.map observe = items.map expected := by
  induction items generalizing results with
  | nil =>
    cases mapped
    rfl
  | cons a items ih =>
    obtain ⟨b, others, first, later, rfl⟩ := mapM_cons_ok mapped
    rw [List.map_cons, List.map_cons, each a List.mem_cons_self b first,
      ih later fun a member => each a (List.mem_cons_of_mem _ member)]

/-- An answer read from a success shows that there is one. -/
theorem exists_ok_of_map {ε α β : Type} {result : Except ε α} {read : α → β} {answer : β}
    (h : result.toOption.map read = some answer) : ∃ a, result = .ok a ∧ read a = answer := by
  cases result with
  | error e => cases h
  | ok a => exact ⟨a, rfl, Option.some.inj h⟩

end Express
