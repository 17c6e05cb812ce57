import Express.Proofs.Declaring
import Express.Proofs.Reflection

/-!
# What a draft never loses

Slots, declarations, functions and links only ever grow in number, and a declared definition stays as it is, but for
attributes that an entity gets behind its own. `after_append_kept` says so of all calls and of the finished model.
-/

namespace Express

namespace Definition

/-- The same definition, or the same entity with more attributes behind its own. -/
inductive Grows : Definition → Definition → Prop where
  | same (d : Definition) : Grows d d
  | more (e : Entity) (others : List Attribute) :
      Grows (.entity e) (.entity { e with attributes := e.attributes ++ others })

theorem Grows.trans {d next last : Definition} (first : d.Grows next) (second : next.Grows last) : d.Grows last := by
  cases first with
  | same => exact second
  | more e others =>
    cases second with
    | same => exact .more e others
    | more _ later =>
      have grown := Grows.more e (others ++ later)
      rw [← List.append_assoc] at grown
      exact grown

theorem Grows.eq_of_kind {d later : Definition} (grows : d.Grows later) (other : d.kind ≠ .entity) : later = d := by
  cases grows with
  | same => rfl
  | more => exact (other rfl).elim

theorem Grows.entity {e : Entity} {later : Definition} (grows : (Definition.entity e).Grows later) :
    ∃ others, later = .entity { e with attributes := e.attributes ++ others } := by
  cases grows with
  | same => exact ⟨[], by simp⟩
  | more _ others => exact ⟨others, rfl⟩

end Definition

theorem prefix_foldl_mention (names mentioned : List Name) : names <+: mentioned.foldl mention names := by
  induction mentioned generalizing names with
  | nil => exact List.prefix_refl names
  | cons name mentioned ih =>
    refine List.IsPrefix.trans ?_ (ih (mention names name))
    unfold mention
    split
    · exact List.prefix_refl names
    · exact List.prefix_append names [name]

namespace Model

theorem slot?_of_prefix {model later : Model} (indexed : model.Indexed) (indexed' : later.Indexed)
    (longer : model.names <+: later.names) {name : Name} {slot : Nat} (slotted : model.slot? name = some slot) :
    later.slot? name = some slot := by
  rw [indexed.slot?_eq_some_iff] at slotted
  rw [indexed'.slot?_eq_some_iff]
  obtain ⟨others, same⟩ := longer
  obtain ⟨bound, _⟩ := List.getElem?_eq_some_iff.mp slotted
  rw [← same, List.getElem?_append_left bound, slotted]

/-- What a model has, another one has too: the slots, the functions, the links, and the definitions of declared names up
to more attributes. -/
structure KeptIn (declared : List Name) (model later : Model) : Prop where
  slots : ∀ name slot, model.slot? name = some slot → later.slot? name = some slot
  definitions : ∀ name ∈ declared, ∀ d, model.find? name = some d → ∃ d', later.find? name = some d' ∧ d.Grows d'
  functions : model.functions <+: later.functions
  links : ∀ target, model.linksTo target <+: later.linksTo target
  sortedLinks : model.sortedLinks.Sublist later.sortedLinks

end Model

namespace Draft

/-! ### One move -/

namespace View

structure Grows (view later : View) : Prop where
  settings : later.settings = view.settings
  names : view.names <+: later.names
  declared : view.declared <+: later.declared
  definitions : ∀ name ∈ view.declared, (view.definition name).Grows (later.definition name)
  functions : view.functions <+: later.functions
  links : ∃ added, later.links = view.links.insertAll added

theorem Grows.refl (view : View) : view.Grows view :=
  ⟨rfl, List.prefix_refl _, List.prefix_refl _, fun _ _ => .same _, List.prefix_refl _, [], rfl⟩

theorem Grows.trans {view next last : View} (first : view.Grows next) (second : next.Grows last) :
    view.Grows last where
  settings := second.settings.trans first.settings
  names := first.names.trans second.names
  declared := first.declared.trans second.declared
  definitions := by
    intro name known
    exact (first.definitions name known).trans (second.definitions name (first.declared.subset known))
  functions := first.functions.trans second.functions
  links := by
    obtain ⟨added, links⟩ := first.links
    obtain ⟨more, later⟩ := second.links
    exact ⟨added ++ more, by rw [later, links, ReverseIndex.insertAll_append]⟩

theorem Move.grows {view next : View} (move : Move view next) : view.Grows next := by
  have still := Grows.refl view
  cases move.change with
  | title name | fail e => exact ⟨rfl, still.names, still.declared, still.definitions, still.functions, still.links⟩
  | mention names =>
    exact ⟨rfl, prefix_foldl_mention _ _, still.declared, still.definitions, still.functions, still.links⟩
  | declare fresh bare =>
    refine ⟨rfl, ?_, List.prefix_append _ _, ?_, still.functions, still.links⟩
    · exact (prefix_foldl_mention view.names [_]).trans (prefix_foldl_mention _ _)
    · intro name known
      rw [declare_other]
      · exact .same _
      · rintro rfl
        exact fresh known
  | function fresh types =>
    exact ⟨rfl, still.names, still.declared, still.definitions, List.prefix_append _ _, still.links⟩
  | @attach entity e spec present declared defined sound =>
    refine ⟨rfl, prefix_foldl_mention _ _, still.declared, ?_, still.functions, _, rfl⟩
    intro name known
    by_cases same : name = entity
    · rw [same, attach_self, defined]
      exact .more e [spec.attached]
    · rw [attach_other same]
      exact .same _

end View

open View

/-! ### Any number of calls -/

theorem grows_of_moves {view next : View} (moves : Moves view next) : view.Grows next :=
  @moves_induction view.Grows (fun before move => before.trans move.grows) _ _ (.refl view) moves

theorem foldl_call_grows {draft : Draft} (indexed : draft.model.Indexed) (calls : List Call) :
    draft.view.Grows (calls.foldl call draft).view := by
  induction calls generalizing draft with
  | nil => exact .refl _
  | cons c calls ih => exact (grows_of_moves (call_moves indexed c)).trans (ih (call_indexed indexed c))

theorem after_append (settings : Settings) (calls later : List Call) :
    after settings (calls ++ later) = later.foldl call (after settings calls) :=
  List.foldl_append

/-- The model that a draft holds, or the one that it is finished as. -/
def Yields (draft : Draft) (model : Model) : Prop :=
  model = draft.model ∨ draft.finish.1 = .ok model

theorem Yields.exists_memberships {draft : Draft} {model : Model} (yields : draft.Yields model)
    (indexed : draft.model.Indexed) : ∃ memberships, model = { draft.model with memberships } := by
  rcases yields with rfl | finished
  · exact ⟨_, rfl⟩
  · obtain ⟨_, rfl⟩ := (finish_ok_iff indexed).mp finished
    exact ⟨_, rfl⟩

theorem kept_of_grows {draft later : Draft} {model : Model} (grows : draft.view.Grows later.view)
    (indexed : draft.model.Indexed) (indexed' : later.model.Indexed) (yields : later.Yields model) :
    draft.model.KeptIn draft.declared model := by
  obtain ⟨memberships, rfl⟩ := yields.exists_memberships indexed'
  obtain ⟨added, links⟩ := grows.links
  change later.model.links = draft.model.links.insertAll added at links
  refine ⟨?_, ?_, grows.functions, fun target => ?_, ?_⟩
  · intro name slot there
    exact Model.slot?_of_prefix indexed indexed' grows.names there
  · intro name known d found
    obtain ⟨present, rfl⟩ := indexed.find?_eq_some_iff.mp found
    refine ⟨later.model.definition name, ?_, grows.definitions name known⟩
    exact indexed'.find?_of_mem (grows.names.subset present)
  · rw [Model.linksTo, Model.linksTo, links, ReverseIndex.linksTo_insertAll]
    exact List.prefix_append _ _
  · rw [Model.sortedLinks, Model.sortedLinks, links]
    exact ReverseIndex.all_sublist_insertAll _ _

/-! ### The slot of a declaration -/

theorem declare_slot {draft after : Draft} {d : Definition} {slot : Nat} (h : draft.declare d = (.ok slot, after)) :
    after.model.slot? d.name = some slot := by
  by_cases known : d.name ∈ draft.declared
  · rw [declare_refused known] at h
    cases h
  · rw [declare, if_neg (by simpa using known)] at h
    dsimp only at h
    generalize ({ draft with declared := draft.declared ++ [d.name] }.note (.declaration d.name d.kind)) = noted at h
    cases found : noted.model.slot? d.name with
    | some old =>
      rw [found] at h
      cases h
      exact found
    | none =>
      rw [found] at h
      cases h
      exact Index.get?_insert_self ..

theorem of_guarded_ok {α : Type} {outcome : Outcome ModelError Draft α} {a : α} {after : Draft}
    (h : guarded outcome = (.ok a, after)) : outcome = (.ok a, after) := by
  obtain ⟨result, draft⟩ := outcome
  cases result with
  | ok b => exact h
  | error e => cases h

/-- A definition has been declared and stands in its slot. -/
structure Holds (draft : Draft) (slot : Nat) (d : Definition) : Prop where
  declared : d.name ∈ draft.declared
  slotted : draft.model.slot? d.name = some slot
  defined : draft.view.definition d.name = d

theorem addType_holds {draft after : Draft} (indexed : draft.model.Indexed) {decl : TypeDecl} {slot : Nat}
    (h : draft.addType decl = (.ok slot, after)) :
    ∃ d, decl.definition draft.model.settings = .ok d ∧ after.Holds slot d := by
  obtain ⟨d, defines⟩ := decl.definition_ok draft.model.settings
  rw [addType, defines] at h
  have declared : draft.declare d = (.ok slot, after) := of_guarded_ok h
  by_cases known : d.name ∈ draft.declared
  · rw [declare_refused known] at declared
    cases declared
  · obtain ⟨_, _, same, view⟩ := declare_view indexed known
    rw [declared] at same
    cases same
    refine ⟨d, defines, ?_, declare_slot declared, ?_⟩
    · change d.name ∈ after.view.declared
      rw [view]
      exact List.mem_append_right _ (List.mem_singleton_self _)
    · rw [view]
      exact Function.update_self ..

theorem addEntity_ok {draft after : Draft} {decl : EntityDecl} {slot : Nat}
    (h : draft.addEntity decl = (.ok slot, after)) :
    ∃ bare, (draft.noteIgnored decl).declare (.entity decl.bare) = (.ok slot, bare) ∧
      bare.complete decl = (.ok (), after) := by
  have h := of_guarded_ok h
  obtain ⟨⟨stored, bare⟩, declared⟩ : ∃ outcome, (draft.noteIgnored decl).declare (.entity decl.bare) = outcome :=
    ⟨_, rfl⟩
  rw [declared] at h
  cases stored with
  | error e => cases h
  | ok early =>
    obtain ⟨⟨ended, last⟩, completed⟩ : ∃ outcome, bare.complete decl = outcome := ⟨_, rfl⟩
    dsimp only at h
    rw [completed] at h
    cases ended with
    | error e => cases h
    | ok =>
      cases h
      exact ⟨bare, declared, completed⟩

theorem names_prefix_complete {draft : Draft} (indexed : draft.model.Indexed) (decl : EntityDecl) :
    draft.model.names <+: (draft.complete decl).2.model.names := by
  have relating := view_foldl_relate indexed decl.name (decl.children ++ decl.subtypeOf)
  have attaching := grows_of_moves (@runAll_moves _ (·.attach decl.name) (decl.attributes draft.model.settings)
    (fun indexed => attach_indexed indexed decl.name _) (fun indexed => attach_moves indexed decl.name _) _
    (foldl_relate_indexed indexed decl.name (decl.children ++ decl.subtypeOf)))
  rw [relating] at attaching
  exact (prefix_foldl_mention _ _).trans attaching.names

theorem addEntity_holds {draft after : Draft} (indexed : draft.model.Indexed) {decl : EntityDecl} {slot : Nat}
    (h : draft.addEntity decl = (.ok slot, after)) : after.Holds slot (decl.definition draft.model.settings) := by
  obtain ⟨bare, declared, completed⟩ := addEntity_ok h
  have noted : (draft.noteIgnored decl).model.Indexed := by rw [noteIgnored_model]; exact indexed
  have indexedBare := declare_indexed noted (.entity decl.bare)
  rw [declared] at indexedBare
  have longer := names_prefix_complete indexedBare decl
  have indexedAfter := complete_indexed indexedBare decl
  rw [completed] at longer indexedAfter
  have slotted : after.model.slot? decl.name = some slot :=
    Model.slot?_of_prefix indexedBare indexedAfter longer (declare_slot declared)
  by_cases known : decl.name ∈ draft.view.declared
  · obtain ⟨e, _, refused, _⟩ := addEntity_refused known
    rw [refused] at h
    cases h
  · obtain ⟨_, _, added, view⟩ := addEntity_view indexed known
    rw [added] at h
    cases h
    refine ⟨?_, slotted, ?_⟩
    · change decl.name ∈ after.view.declared
      rw [view]
      exact List.mem_append_right _ (List.mem_singleton_self _)
    · rw [view]
      exact Function.update_self ..

theorem Holds.kept {draft : Draft} {slot : Nat} {d : Definition} (holds : draft.Holds slot d) {later : Draft}
    (grows : draft.view.Grows later.view) (indexed : draft.model.Indexed) (indexed' : later.model.Indexed)
    {model : Model} (yields : later.Yields model) : ∃ d', model.definitions[slot]? = some d' ∧ d.Grows d' := by
  have kept := kept_of_grows grows indexed indexed' yields
  have present : d.name ∈ draft.model.names := indexed.contains_iff.mp (Option.isSome_of_mem holds.slotted)
  have found : draft.model.find? d.name = some d := indexed.find?_eq_some_iff.mpr ⟨present, holds.defined⟩
  obtain ⟨d', foundLater, grown⟩ := kept.definitions d.name holds.declared d found
  refine ⟨d', ?_, grown⟩
  rw [Model.find?, kept.slots d.name slot holds.slotted] at foundLater
  exact foundLater

theorem after_settings (settings : Settings) (calls : List Call) : (after settings calls).model.settings = settings :=
  (foldl_call_grows (empty_indexed settings) calls).settings

/-- Later calls take nothing away: neither slots nor declarations, functions and links. A type stays as declared for
good, and an entity but for attributes behind its own. -/
theorem after_append_kept (settings : Settings) (calls later : List Call) {model : Model}
    (yields : (after settings (calls ++ later)).Yields model) :
    (∀ name ∈ (after settings calls).declared, name ∈ (after settings (calls ++ later)).declared) ∧
    (after settings calls).model.KeptIn (after settings calls).declared model ∧
    (∀ decl others slot, later = .type decl :: others → ((after settings calls).addType decl).1 = .ok slot →
      ∃ d, decl.definition settings = .ok d ∧ model.definitions[slot]? = some d) ∧
    ∀ decl others slot, later = .entity decl :: others → ((after settings calls).addEntity decl).1 = .ok slot →
      ∃ e more, decl.definition settings = .entity e ∧
        model.definitions[slot]? = some (.entity { e with attributes := e.attributes ++ more }) := by
  have indexed := after_indexed settings calls
  have settled := after_settings settings calls
  rw [after_append] at yields ⊢
  generalize after settings calls = draft at yields indexed settled ⊢
  have grows := foldl_call_grows indexed later
  have indexed' := foldl_call_indexed indexed later
  refine ⟨fun name known => grows.declared.subset known, kept_of_grows grows indexed indexed' yields, ?_, ?_⟩
  · rintro decl others slot rfl added
    obtain ⟨d, defines, holds⟩ := addType_holds indexed (Prod.ext added rfl)
    have indexedNext := addType_indexed indexed decl
    obtain ⟨d', there, grown⟩ := holds.kept (foldl_call_grows indexedNext others) indexedNext indexed' yields
    rw [settled] at defines
    rw [grown.eq_of_kind (TypeDecl.definition_kind_ne defines)] at there
    exact ⟨d, defines, there⟩
  · rintro decl others slot rfl added
    have holds := addEntity_holds indexed (Prod.ext added rfl)
    have indexedNext := addEntity_indexed indexed decl
    obtain ⟨d', there, grown⟩ := holds.kept (foldl_call_grows indexedNext others) indexedNext indexed' yields
    obtain ⟨more, rfl⟩ := grown.entity
    rw [settled] at there
    exact ⟨_, more, rfl, there⟩

/-- An oak is declared before the tree that it inherits from. -/
def orchard : List Call :=
  [.entity { name := "oak", subtypeOf := ["tree"] }]

def treeDecl : EntityDecl where
  name := "tree"
  explicit := [{ names := [.simple "height"], type := .simple .real }]

/-- The tree is declared and gets one attribute more. -/
def orchardGrowth : List Call :=
  [.entity treeDecl, .attach "tree" { name := .simple "age", type := { base := "INTEGER" } }]

theorem orchard_tree_kept :
    ∃ model, (after {} (orchard ++ orchardGrowth)).finish.1 = .ok model ∧
      ((after {} orchard).addEntity treeDecl).1 = .ok 1 ∧ model.slot? "tree" = some 1 ∧
      ∃ e more, treeDecl.definition {} = .entity e ∧
        model.definitions[1]? = some (.entity { e with attributes := e.attributes ++ more }) := by
  obtain ⟨model, finished, _⟩ := exists_ok_of_map
    (show (after {} (orchard ++ orchardGrowth)).finish.1.toOption.map (·.schema) = some "" by decide +kernel)
  obtain ⟨_, kept, _, entities⟩ := after_append_kept {} orchard orchardGrowth (.inr finished)
  have added : ((after {} orchard).addEntity treeDecl).1 = .ok 1 := by decide +kernel
  refine ⟨model, finished, added, kept.slots "tree" 1 (by decide +kernel), ?_⟩
  exact entities treeDecl _ 1 rfl added

end Draft

end Express
