import Express.Proofs.Gathering
import Express.Proofs.Integrity

/-!
# The index of alternatives

The index is filled select by select and alternative by alternative. `selectsContaining_eq_filter` says that reading it
is as good as scanning the selects, and `index_eq_scan` that it is as good as looking up every name of the model.
-/

namespace Express.Model

/-- The selects recorded for an alternative. -/
def membersOf (index : List (Name × List Name)) (alternative : Name) : List Name :=
  (index.lookup alternative).getD []

/-- Records a select once. -/
def enlist (select : Name) (selects : List Name) : List Name :=
  if select ∈ selects then selects else selects ++ [select]

theorem enlist_enlist (select : Name) (selects : List Name) :
    enlist select (enlist select selects) = enlist select selects := by
  have listed : select ∈ enlist select selects := by
    unfold enlist
    split
    · assumption
    · exact List.mem_append_right _ (List.mem_singleton_self select)
  exact if_pos listed

theorem membersOf_noteMembership_self (select alternative : Name) (index : List (Name × List Name)) :
    membersOf (noteMembership select alternative index) alternative = enlist select (membersOf index alternative) := by
  induction index with
  | nil => simp [noteMembership, membersOf, enlist]
  | cons entry others ih =>
    obtain ⟨name, selects⟩ := entry
    unfold noteMembership
    split
    · rename_i same
      subst same
      simp [membersOf, enlist]
    · rename_i different
      have skip : (alternative == name) = false := beq_false_of_ne (Ne.symm different)
      simp only [membersOf, List.lookup_cons, skip] at ih ⊢
      exact ih

theorem membersOf_noteMembership_other {select alternative other : Name} (different : other ≠ alternative)
    (index : List (Name × List Name)) :
    membersOf (noteMembership select alternative index) other = membersOf index other := by
  induction index with
  | nil => simp [noteMembership, membersOf, List.lookup_cons, beq_false_of_ne different]
  | cons entry others ih =>
    obtain ⟨name, selects⟩ := entry
    unfold noteMembership
    split
    · rename_i same
      subst same
      simp [membersOf, List.lookup_cons, beq_false_of_ne different]
    · simp only [membersOf, List.lookup_cons] at ih ⊢
      cases other == name
      · exact ih
      · rfl

/-- One select, whichever alternatives it repeats. -/
theorem membersOf_note_alternatives (select alternative : Name) (alternatives : List Name)
    (index : List (Name × List Name)) :
    membersOf (alternatives.foldl (fun index a => noteMembership select a index) index) alternative =
      if alternative ∈ alternatives then enlist select (membersOf index alternative) else membersOf index alternative := by
  induction alternatives generalizing index with
  | nil => simp
  | cons first others ih =>
    rw [List.foldl_cons, ih]
    by_cases same : alternative = first
    · subst same
      rw [membersOf_noteMembership_self, enlist_enlist, ite_self, if_pos List.mem_cons_self]
    · rw [membersOf_noteMembership_other same]
      simp [same]

/-- All selects, if no two of them have the same name and none is recorded yet. -/
theorem membersOf_note_selects (alternative : Name) {selects : List Select} {index : List (Name × List Name)}
    (distinct : (selects.map (·.name)).Nodup) (fresh : ∀ s ∈ selects, s.name ∉ membersOf index alternative) :
    membersOf (selects.foldl (fun index select =>
        select.alternatives.foldl (fun index a => noteMembership select.name a index) index) index) alternative =
      membersOf index alternative ++ (selects.filter (alternative ∈ ·.alternatives)).map (·.name) := by
  induction selects generalizing index with
  | nil => simp
  | cons first others ih =>
    rw [List.map_cons, List.nodup_cons] at distinct
    have unlisted := fresh first List.mem_cons_self
    have noted := membersOf_note_alternatives first.name alternative first.alternatives index
    rw [enlist, if_neg unlisted] at noted
    have freshOthers : ∀ s ∈ others, s.name ∉ membersOf
        (first.alternatives.foldl (fun index a => noteMembership first.name a index) index) alternative := by
      intro s member listed
      have old := fresh s (List.mem_cons_of_mem _ member)
      rw [noted] at listed
      split at listed
      · rcases List.mem_append.mp listed with before | last
        · exact old before
        · exact distinct.1 (List.mem_singleton.mp last ▸ List.mem_map_of_mem member)
      · exact old listed
    rw [List.foldl_cons, ih distinct.2 freshOthers, noted, List.filter_cons]
    by_cases named : alternative ∈ first.alternatives <;> simp [named]

theorem nodup_selects {model : Model} (distinct : model.names.Nodup) : (model.selects.map (·.name)).Nodup := by
  have part : (model.selects.map (·.name)).Sublist model.names := by
    unfold selects names
    induction model.definitions with
    | nil => exact .slnil
    | cons d others ih =>
      cases d with
      | select s => exact ih.cons_cons s.name
      | _ => exact ih.cons _
  exact distinct.sublist part

theorem selectsContaining_eq_filter {model : Model} (distinct : model.names.Nodup)
    (noted : model.memberships = membershipsOf model.selects) (alternative : Name) :
    model.selectsContaining alternative = (model.selects.filter (alternative ∈ ·.alternatives)).map (·.name) := by
  rw [selectsContaining, noted]
  exact membersOf_note_selects alternative (nodup_selects distinct) fun _ _ listed => by cases listed

/-! ### Looking up every name -/

/-- Whether the model has a select of that name with this alternative. -/
def lists (model : Model) (alternative name : Name) : Bool :=
  (model.select name).toOption.any (alternative ∈ ·.alternatives)

theorem lists_iff {model : Model} {alternative name : Name} :
    model.lists alternative name = true ↔
      ∃ select, model.select name = .ok select ∧ alternative ∈ select.alternatives := by
  unfold lists
  cases model.select name with
  | error e => simp [Except.toOption]
  | ok select => simp [Except.toOption]

theorem lists_of_find? {model : Model} {name : Name} {d : Definition} (found : model.find? name = some d)
    (alternative : Name) : model.lists alternative name = d.asSelect?.any (alternative ∈ ·.alternatives) := by
  unfold lists Model.select get
  rw [found]
  cases d <;> rfl

theorem map_selects_filter {model : Model} (indexed : model.Indexed) (alternative : Name) :
    (model.selects.filter (alternative ∈ ·.alternatives)).map (·.name) =
      model.names.filter (model.lists alternative) := by
  have read : ∀ d ∈ model.definitions,
      model.lists alternative d.name = d.asSelect?.any (alternative ∈ ·.alternatives) :=
    fun d member => lists_of_find? (indexed.find?_of_definition_mem member) alternative
  unfold selects names
  generalize model.definitions = definitions at read
  induction definitions with
  | nil => rfl
  | cons d others ih =>
    have later := ih fun other member => read other (List.mem_cons_of_mem _ member)
    have first := read d List.mem_cons_self
    rw [List.map_cons, List.filter_cons, first, ← later]
    cases d with
    | select s =>
      by_cases listed : alternative ∈ s.alternatives <;> simp [Definition.asSelect?, Definition.name, listed]
    | _ => rfl

/-- For every name, whether it has a slot or not, the index gives the selects with that alternative: each once, in the
order of their slots. -/
theorem index_eq_scan {model : Model} (finished : model.Finished) (alternative : Name) :
    model.selectsContaining alternative = model.names.filter (model.lists alternative) ∧
      (model.selectsContaining alternative).Nodup ∧
      ∀ name, name ∈ model.selectsContaining alternative ↔
        ∃ select, model.select name = .ok select ∧ alternative ∈ select.alternatives := by
  have indexed := finished.indexed
  have noted : model.memberships = membershipsOf model.selects := by
    obtain ⟨draft, _, _, _, _, rfl⟩ := finished.exists_draft
    rfl
  rw [selectsContaining_eq_filter indexed.distinct noted, map_selects_filter indexed]
  refine ⟨rfl, indexed.distinct.filter _, fun name => ?_⟩
  rw [List.mem_filter, lists_iff, and_iff_right_of_imp]
  rintro ⟨select, read, _⟩
  exact (indexed.find?_eq_some_iff.mp (select_eq_ok_iff.mp read)).1

/-- Two of the selects repeat an alternative, which is not a name of the model. -/
def signals : List Select :=
  [{ name := "alarm", alternatives := ["siren", "lamp", "siren"] },
    { name := "lamp", alternatives := ["bulb"] },
    { name := "notice", alternatives := ["alarm", "siren", "siren"] }]

theorem signals_with_siren :
    (ofSelects signals).Finished ∧ "siren" ∉ (ofSelects signals).names ∧
      (ofSelects signals).selectsContaining "siren" =
        (ofSelects signals).names.filter ((ofSelects signals).lists "siren") ∧
      (ofSelects signals).selectsContaining "siren" = ["alarm", "notice"] ∧
      (ofSelects signals).selectsContaining "notice" = [] := by
  have finished : (ofSelects signals).Finished :=
    ⟨{}, signals.map fun s => .type { name := s.name, body := .select s.alternatives }, by decide +kernel⟩
  obtain ⟨scan, _, _⟩ := index_eq_scan finished "siren"
  obtain ⟨scanNotice, _, _⟩ := index_eq_scan finished "notice"
  refine ⟨finished, by decide +kernel, scan, ?_, ?_⟩
  · rw [scan]
    decide +kernel
  · rw [scanNotice]
    decide +kernel

end Express.Model
