import Express.Proofs.FirstFailure
import Express.Proofs.InverseNames
import Express.Proofs.Targets
import Mathlib.Data.List.Forall2

/-!
# Links and their rules

The links of a target stand in the order in which the calls declare them (`finished_linksTo`). An instance has one
rule for each link against an entity of its chain that has the forward attribute, in that order, and no link goes
without a rule if the root of the chain is declared (`wiringRules_cover`).
-/

namespace Express

/-! ### Links in the order of their declaration -/

namespace Draft

/-- The links of the inverse attributes that a call declares. -/
def Call.links : Call → List ReverseLink
  | .schema whole => whole.declarations.flatMap (·.links)
  | .declaration single => single.links
  | .entity decl => decl.links
  | .attach owner spec => (spec.link? owner).toList
  | .type _ => []
  | .function _ => []

theorem addDeclaration_links {draft : Draft} (indexed : draft.model.Indexed) {declaration : Declaration}
    (done : errorOf (draft.addDeclaration declaration) = none) :
    (draft.addDeclaration declaration).2.model.links = draft.model.links.insertAll declaration.links := by
  by_cases admitted : draft.view.Admits declaration
  · obtain ⟨after, added, view⟩ := addDeclaration_view indexed admitted
    rw [added]
    exact congrArg View.links view
  · obtain ⟨e, after, refused, _⟩ := addDeclaration_refused indexed admitted
    rw [refused] at done
    cases done

theorem runAll_addDeclaration_links {draft : Draft} (indexed : draft.model.Indexed) {declarations : List Declaration}
    (done : errorOf (runAll addDeclaration draft declarations) = none) :
    (runAll addDeclaration draft declarations).2.model.links =
      draft.model.links.insertAll (declarations.flatMap (·.links)) := by
  induction declarations generalizing draft with
  | nil => rfl
  | cons declaration declarations ih =>
    have first := @addDeclaration_links draft indexed declaration
    have kept := addDeclaration_indexed indexed declaration
    rw [runAll] at done ⊢
    rcases added : draft.addDeclaration declaration with ⟨e | _, next⟩
    · rw [added] at done
      cases done
    · rw [added] at first kept done
      rw [List.flatMap_cons, ReverseIndex.insertAll_append, ← first rfl]
      exact ih kept done

theorem addAttribute_links {draft : Draft} (indexed : draft.model.Indexed) {entity : Name} {spec : AttributeSpec}
    (done : errorOf (draft.addAttribute entity spec) = none) :
    (draft.addAttribute entity spec).2.model.links = draft.model.links.insertAll (spec.link? entity).toList := by
  unfold addAttribute at done ⊢
  cases typed : draft.attributeType entity spec with
  | error e =>
    rw [attach, typed] at done
    cases done
  | ok type =>
    obtain ⟨slot, e, _, _, attached⟩ | ⟨e, attached⟩ := attach_of_type indexed typed
    · have resolved : (draft.withType entity spec).model.links = draft.model.links :=
        congrArg View.links (view_withType indexed entity spec)
      have linked := congrArg View.links (view_link ((draft.withType entity spec).replace slot (.entity
        { e with attributes := e.attributes ++ [spec.attach type] })) entity spec)
      rw [attached]
      refine linked.trans ?_
      rw [List.filterMap_eq_flatMap_toList, List.flatMap_singleton]
      exact congrArg (ReverseIndex.insertAll · _) resolved
    · rw [attached] at done
      cases done

theorem call_links {draft : Draft} (indexed : draft.model.Indexed) {c : Call}
    (done : errorOf (draft.answer c) = none) :
    (draft.call c).model.links = draft.model.links.insertAll c.links := by
  rw [← answer_snd]
  cases c with
  | schema schema =>
    exact @runAll_addDeclaration_links { draft with model := { draft.model with schema := schema.name } }
      ⟨indexed.definitions, indexed.functions⟩ _ done
  | declaration declaration => exact addDeclaration_links indexed done
  | type decl => exact @addDeclaration_links draft indexed (.type decl) done
  | entity decl => exact @addDeclaration_links draft indexed (.entity decl) done
  | function decl => exact @addDeclaration_links draft indexed (.function decl) done
  | attach entity spec => exact addAttribute_links indexed done

theorem foldl_call_links {draft : Draft} (indexed : draft.model.Indexed) {calls : List Call}
    (done : draft.errors calls = []) :
    (calls.foldl call draft).model.links = draft.model.links.insertAll (calls.flatMap (·.links)) := by
  induction calls generalizing draft with
  | nil => rfl
  | cons c calls ih =>
    obtain ⟨first, later⟩ := List.append_eq_nil_iff.mp done
    have added : (draft.call c).model.links = draft.model.links.insertAll c.links := by
      apply call_links indexed
      cases failed : errorOf (draft.answer c) with
      | none => rfl
      | some e =>
        rw [failed] at first
        cases first
    rw [List.foldl_cons, ih (call_indexed indexed c) later, added, List.flatMap_cons, ReverseIndex.insertAll_append]

/-- A model is finished only if no call has failed, so every link that the calls declare has been put into the index. -/
theorem finished_links {settings : Settings} {calls : List Call} {model : Model}
    (ended : (after settings calls).finish.1 = .ok model) :
    model.links = ReverseIndex.empty.insertAll (calls.flatMap (·.links)) := by
  obtain ⟨valid, rfl⟩ := (finish_ok_iff (after_indexed settings calls)).mp ended
  refine foldl_call_links (empty_indexed settings) ?_
  have unfailed := valid.unfailed
  rw [after, foldl_call_failure (empty_indexed settings)] at unfailed
  exact List.head?_eq_none_iff.mp unfailed

/-- The links of a target are those that the calls declare, in their order. -/
theorem finished_linksTo {settings : Settings} {calls : List Call} {model : Model}
    (ended : (after settings calls).finish.1 = .ok model) (target : Name) :
    model.linksTo target = (calls.flatMap (·.links)).filter (·.target == target) := by
  rw [Model.linksTo, finished_links ended, ReverseIndex.linksTo_insertAll]
  rfl

end Draft

/-! ### Traversals that keep some items -/

section Traversals

variable {ε α β : Type} {related : α → β → Prop}

/-- A traversal that skips some items answers for the others, one by one. -/
theorem exists_mapM_filterMap {f : α → Except ε (Option β)} {keeps : α → Bool} {items : List α}
    (each : ∀ a ∈ items, keeps a = false ∧ f a = .ok none ∨ keeps a = true ∧ ∃ b, f a = .ok (some b) ∧ related a b) :
    ∃ results, items.mapM f = .ok results ∧ List.Forall₂ related (items.filter keeps) (results.filterMap id) := by
  induction items with
  | nil => exact ⟨[], rfl, .nil⟩
  | cons a items ih =>
    obtain ⟨results, later, covers⟩ := ih fun a member => each a (List.mem_cons_of_mem _ member)
    obtain ⟨skipped, first⟩ | ⟨kept, b, first, relates⟩ := each a List.mem_cons_self
    · refine ⟨none :: results, by rw [List.mapM_cons, first, later]; rfl, ?_⟩
      rw [List.filter_cons_of_neg (by simp [skipped])]
      exact covers
    · refine ⟨some b :: results, by rw [List.mapM_cons, first, later]; rfl, ?_⟩
      rw [List.filter_cons_of_pos kept]
      exact .cons relates covers

theorem exists_mapM_flatten {γ : Type} {f : γ → Except ε (List β)} {expected : γ → List α} {items : List γ}
    (each : ∀ c ∈ items, ∃ part, f c = .ok part ∧ List.Forall₂ related (expected c) part) :
    ∃ parts, items.mapM f = .ok parts ∧ List.Forall₂ related (items.flatMap expected) parts.flatten := by
  induction items with
  | nil => exact ⟨[], rfl, .nil⟩
  | cons c items ih =>
    obtain ⟨part, first, covers⟩ := each c List.mem_cons_self
    obtain ⟨parts, later, coversLater⟩ := ih fun c member => each c (List.mem_cons_of_mem _ member)
    refine ⟨part :: parts, by rw [List.mapM_cons, first, later]; rfl, ?_⟩
    rw [List.flatMap_cons, List.flatten_cons]
    exact List.rel_append covers coversLater

end Traversals

/-! ### One rule for each link -/

theorem WiringAction.eq_of_kinds {action other : WiringAction} (appends : action.appends = other.appends)
    (iterates : action.iterates = other.iterates) : action = other := by
  revert appends iterates
  cases action <;> cases other <;> decide

namespace Model

variable {model : Model}

/-- The entity has or inherits a stored attribute of that name. -/
def stores (model : Model) (entity attr : Name) : Bool :=
  (model.forwardAttribute entity attr).toOption.join.isSome

theorem stores_iff {entity attr : Name} :
    model.stores entity attr = true ↔ ∃ found, model.forwardAttribute entity attr = .ok (some found) := by
  unfold stores
  cases model.forwardAttribute entity attr with
  | error e => simp [Except.toOption]
  | ok answer => simp [Except.toOption, Option.isSome_iff_exists]

/-- The rule has the names of the link. It appends if the owner's first inverse attribute of that name is a collection,
and it iterates if the target's forward attribute is. -/
structure Ruled (model : Model) (link : ReverseLink) (rule : WiringRule) : Prop where
  entity : rule.entity = link.target
  attr : rule.attr = link.targetAttr
  owner : rule.owner = link.owner
  ownerAttr : rule.ownerAttr = link.ownerAttr
  appends : ∃ owner inverse, model.entity link.owner = .ok owner ∧
    owner.attributes.find? (fun attr => attr.inverse && attr.name == link.ownerAttr) = some inverse ∧
    rule.action.appends = inverse.type.isCollection
  iterates : ∃ forward, model.forwardAttribute link.target link.targetAttr = .ok (some forward) ∧
    rule.action.iterates = forward.type.isCollection

/-- A link has one rule only. -/
theorem Ruled.unique {link : ReverseLink} {rule other : WiringRule} (ruled : model.Ruled link rule)
    (ruled' : model.Ruled link other) : rule = other := by
  have action : rule.action = other.action := by
    apply WiringAction.eq_of_kinds
    · obtain ⟨owner, inverse, known, listed, appends⟩ := ruled.appends
      obtain ⟨owner', inverse', known', listed', appends'⟩ := ruled'.appends
      rw [known] at known'
      cases known'
      rw [listed] at listed'
      cases listed'
      exact appends.trans appends'.symm
    · obtain ⟨forward, seen, iterates⟩ := ruled.iterates
      obtain ⟨forward', seen', iterates'⟩ := ruled'.iterates
      rw [seen] at seen'
      cases seen'
      exact iterates.trans iterates'.symm
  have entity := ruled.entity.trans ruled'.entity.symm
  have attr := ruled.attr.trans ruled'.attr.symm
  have owner := ruled.owner.trans ruled'.owner.symm
  have ownerAttr := ruled.ownerAttr.trans ruled'.ownerAttr.symm
  cases rule
  cases other
  cases entity
  cases attr
  cases owner
  cases ownerAttr
  cases action
  rfl

theorem Finished.mem_linksTo (finished : model.Finished) {link : ReverseLink} {target : Name}
    (listed : link ∈ model.linksTo target) : link ∈ model.sortedLinks ∧ link.target = target := by
  obtain ⟨settings, calls, ended⟩ := finished
  rw [Draft.finished_linksTo ended] at listed
  obtain ⟨declared, against⟩ := List.mem_filter.mp listed
  rw [sortedLinks, Draft.finished_links ended, ReverseIndex.mem_all_insertAll]
  exact ⟨.inr declared, beq_iff_eq.mp against⟩

theorem Finished.exists_inverse (finished : model.Finished) {link : ReverseLink} (listed : link ∈ model.sortedLinks) :
    ∃ owner inverse, model.find? link.owner = some (.entity owner) ∧
      owner.attributes.find? (fun attr => attr.inverse && attr.name == link.ownerAttr) = some inverse := by
  obtain ⟨draft, indexed, _, integrity, _, rfl⟩ := finished.exists_draft
  obtain ⟨owner, attr, found, own, inverse, named, _⟩ := Draft.exists_inverse_of_link indexed integrity listed
  have some : (owner.attributes.find? fun attr => attr.inverse && attr.name == link.ownerAttr).isSome = true :=
    List.find?_isSome.mpr ⟨attr, own, by simp [inverse, named]⟩
  obtain ⟨first, seen⟩ := Option.isSome_iff_exists.mp some
  exact ⟨owner, first, found, seen⟩

/-- The answer for one link: nothing if its target lacks the forward attribute, and its rule otherwise. -/
theorem Finished.ruleOf_cases (finished : model.Finished) {link : ReverseLink} (listed : link ∈ model.sortedLinks)
    {chain : List Entity} (read : model.ancestors link.target = .ok chain) :
    model.stores link.target link.targetAttr = false ∧ model.ruleOf link.target link = .ok none ∨
      model.stores link.target link.targetAttr = true ∧
        ∃ rule, model.ruleOf link.target link = .ok (some rule) ∧ model.Ruled link rule := by
  obtain ⟨owner, inverse, found, first⟩ := finished.exists_inverse listed
  have known := entity_eq_ok_iff.mpr found
  obtain ⟨answer, seen⟩ : ∃ answer, model.forwardAttribute link.target link.targetAttr = .ok answer := by
    rw [forwardAttribute, read]
    exact ⟨_, rfl⟩
  unfold ruleOf stores
  rw [seen]
  cases answer with
  | none => exact .inl ⟨rfl, rfl⟩
  | some forward =>
    refine .inr ⟨rfl, ?_⟩
    dsimp only [bind, Except.bind, pure, Except.pure]
    rw [known]
    dsimp only
    rw [first]
    exact ⟨_, rfl, rfl, rfl, rfl, rfl, ⟨owner, inverse, known, first, WiringAction.appends_between _ _⟩, forward, seen,
      WiringAction.iterates_between _ _⟩

/-- The links against the entities of a chain, the root's first, less those without a forward attribute. -/
def answeredLinks (model : Model) (links : List ReverseLink) (chain : List Entity) : List ReverseLink :=
  chain.flatMap fun level => links.filter fun link =>
    link.target == level.name && model.stores level.name link.targetAttr

/-- The calls' links are sorted out by the index. -/
theorem answeredLinks_eq {settings : Settings} {calls : List Draft.Call}
    (ended : (Draft.after settings calls).finish.1 = .ok model) (chain : List Entity) :
    model.answeredLinks (calls.flatMap (·.links)) chain = chain.flatMap fun level =>
      (model.linksTo level.name).filter fun link => model.stores level.name link.targetAttr := by
  refine List.flatMap_congr fun level _ => ?_
  rw [Draft.finished_linksTo ended, List.filter_filter]
  simp only [Bool.and_comm]

theorem Finished.ownWiringRules_cover (finished : model.Finished) {level : Name} {chain : List Entity}
    (read : model.ancestors level = .ok chain) :
    ∃ rules, model.ownWiringRules level = .ok rules ∧
      List.Forall₂ model.Ruled ((model.linksTo level).filter fun link => model.stores level link.targetAttr) rules := by
  obtain ⟨results, mapped, covers⟩ := @exists_mapM_filterMap _ _ _ model.Ruled (model.ruleOf level)
    (fun link => model.stores level link.targetAttr) (model.linksTo level) (by
      intro link listed
      obtain ⟨recorded, rfl⟩ := finished.mem_linksTo listed
      exact finished.ruleOf_cases recorded read)
  refine ⟨results.filterMap id, ?_, covers⟩
  rw [ownWiringRules, mapped]
  rfl

theorem Finished.wiringRules_exact (finished : model.Finished) {entity : Name} {e : Entity} {chain : List Entity}
    (placed : model.Placed entity e chain) :
    ∃ rules, model.wiringRules entity = .ok rules ∧ List.Forall₂ model.Ruled
      (chain.flatMap fun level => (model.linksTo level.name).filter fun link => model.stores level.name link.targetAttr)
      rules := by
  have levels : ∀ level ∈ chain, ∃ rules, model.ownWiringRules level.name = .ok rules ∧
      List.Forall₂ model.Ruled
        ((model.linksTo level.name).filter fun link => model.stores level.name link.targetAttr) rules := by
    intro level member
    obtain ⟨upper, above⟩ := exists_placed finished (placed.find?_of_mem member)
    exact finished.ownWiringRules_cover above.read
  obtain ⟨parts, mapped, covers⟩ := exists_mapM_flatten levels
  refine ⟨parts.flatten, ?_, covers⟩
  rw [wiringRules, placed.read]
  dsimp only [bind, Except.bind]
  rw [mapped]
  rfl

/-! ### Links that are never dropped -/

/-- Every parent is an entity, so a chain can only end at an entity that has none. -/
theorem Finished.completeChain (finished : model.Finished) {entity : Name} {e : Entity} {chain : List Entity}
    (placed : model.Placed entity e chain) {root : Entity} (head : chain.head? = some root)
    (declared : root.isPlaceholder = false) : Draft.completeChain chain = true := by
  obtain ⟨top, same, member, orphan⟩ := placed.climbed.exists_head
  rw [head] at same
  cases same
  have parentless : root.parent? = none := by
    cases first : root.parent? with
    | none => rfl
    | some parent =>
      obtain ⟨above, found⟩ := finished.exists_parent (placed.find?_of_mem member) first
      exact (orphan parent above first found).elim
  obtain ⟨others, rfl⟩ := List.head?_eq_some_iff.mp head
  simp [Draft.completeChain, declared, parentless]

theorem Finished.stores_of_complete (finished : model.Finished) {link : ReverseLink} (listed : link ∈ model.sortedLinks)
    {chain : List Entity} (read : model.ancestors link.target = .ok chain)
    (complete : Draft.completeChain chain = true) : model.stores link.target link.targetAttr = true := by
  obtain ⟨draft, _, _, _, valid, same⟩ := finished.exists_draft
  have definitions : model.definitions = draft.model.definitions := by rw [same]
  have index : model.index = draft.model.index := by rw [same]
  have recorded : link ∈ draft.model.sortedLinks := by rw [same] at listed; exact listed
  rw [ancestors_congr definitions index] at read
  obtain ⟨attr, forward⟩ := valid.links link recorded chain read complete
  exact stores_iff.mpr ⟨attr, (forwardAttribute_congr definitions index _ _).trans forward⟩

/-- Below a declared root every link is answered. -/
theorem Finished.linksTo_answered (finished : model.Finished) {entity : Name} {e : Entity} {chain : List Entity}
    (placed : model.Placed entity e chain) {root : Entity} (head : chain.head? = some root)
    (declared : root.isPlaceholder = false) {level : Entity} (member : level ∈ chain) :
    (model.linksTo level.name).filter (fun link => model.stores level.name link.targetAttr) =
      model.linksTo level.name := by
  refine List.filter_eq_self.mpr fun link listed => ?_
  obtain ⟨recorded, against⟩ := finished.mem_linksTo listed
  obtain ⟨upper, lower, climbed, rfl⟩ := placed.climbed.exists_append member
  obtain ⟨above, placedAbove⟩ := exists_placed finished (placed.find?_of_mem member)
  obtain rfl := climbed.unique placedAbove.climbed
  -- The chain of the level is the upper part of the whole, so the root is the same.
  have headAbove : upper.head? = some root := by
    rw [List.head?_append_of_ne_nil _ (List.ne_nil_of_mem climbed.mem_self)] at head
    exact head
  have complete := finished.completeChain placedAbove headAbove declared
  rw [← against]
  exact finished.stores_of_complete recorded (by rw [against]; exact placedAbove.read) complete

/-- The rules of an entity are those of the declared links against the entities of its chain: one for each link whose
target has the forward attribute, and for every link if the root of the chain is declared. -/
theorem wiringRules_cover {settings : Settings} {calls : List Draft.Call}
    (ended : (Draft.after settings calls).finish.1 = .ok model) {entity : Name} {e : Entity}
    (known : model.entity entity = .ok e) :
    ∃ chain, model.ancestors entity = .ok chain ∧
      (∃ rules, model.wiringRules entity = .ok rules) ∧
      (∀ rules, model.wiringRules entity = .ok rules ↔
        List.Forall₂ model.Ruled (model.answeredLinks (calls.flatMap (·.links)) chain) rules) ∧
      ∀ root, chain.head? = some root → root.isPlaceholder = false →
        model.answeredLinks (calls.flatMap (·.links)) chain =
          chain.flatMap fun level => (calls.flatMap (·.links)).filter (·.target == level.name) := by
  have finished : model.Finished := ⟨settings, calls, ended⟩
  obtain ⟨chain, placed⟩ := exists_placed finished (entity_eq_ok_iff.mp known)
  obtain ⟨rules, read, covers⟩ := finished.wiringRules_exact placed
  refine ⟨chain, placed.read, ⟨rules, read⟩, ?_⟩
  rw [answeredLinks_eq ended]
  refine ⟨fun others => ⟨?_, ?_⟩, ?_⟩
  · intro readOthers
    rw [read] at readOthers
    cases readOthers
    exact covers
  · intro coversOthers
    have unique : Relator.RightUnique model.Ruled := fun _ _ _ => Ruled.unique
    rw [read, unique.forall₂ covers coversOthers]
  · intro root head declared
    refine List.flatMap_congr fun level member => ?_
    rw [finished.linksTo_answered placed head declared member, Draft.finished_linksTo ended]

/-- People play roles and stand in for others. Who plays a lead is asked for by a later call, and of a cameo nobody knows
what a guest has to offer. -/
def theatreCalls : List Draft.Call :=
  [.schema
      { name := "theatre"
        declarations :=
          [.entity
              { name := "person"
                inverse :=
                  [{ name := .simple "played", aggregate := some { kind := .set }, entity := "role", forAttr := "actor" },
                    { name := .simple "visits", entity := "cameo", forAttr := "host" },
                    { name := .simple "covers", entity := "role", forAttr := "understudies" }] },
            .entity { name := "lead", subtypeOf := ["role"] },
            .entity
              { name := "role"
                explicit :=
                  [{ names := [.simple "actor"], type := .named "person" },
                    { names := [.simple "understudies"], type := .collection { kind := .list } (.named "person") }] },
            .entity { name := "cameo", subtypeOf := ["guest"] }] },
    .attach "person"
      { name := .simple "leads"
        type := { base := "lead", isCollection := true, rank := 1 }
        role := .inverse "actor" }]

def theatre : Model :=
  let model := (Draft.after {} theatreCalls).model
  { model with memberships := membershipsOf model.selects }

theorem theatre_finished : (Draft.after {} theatreCalls).finish.1 = .ok theatre :=
  Draft.finish_of_checks (by decide +kernel) (by decide +kernel) (by decide +kernel)
    (fun strict => absurd strict (by decide +kernel)) (by decide +kernel)

theorem theatre_rules_cover :
    (∃ chain rules, theatre.ancestors "lead" = .ok chain ∧ theatre.wiringRules "lead" = .ok rules ∧
      List.Forall₂ theatre.Ruled (chain.flatMap fun level => theatre.linksTo level.name) rules ∧
      rules.map (fun rule => (rule.entity, rule.ownerAttr, rule.action)) =
        [("role", "played", .append), ("role", "covers", .assignEach), ("lead", "leads", .append)]) ∧
    ∃ chain, theatre.ancestors "cameo" = .ok chain ∧ theatre.wiringRules "cameo" = .ok [] ∧
      theatre.answeredLinks (theatreCalls.flatMap (·.links)) chain = [] ∧
      (chain.flatMap fun level => theatre.linksTo level.name) = [⟨"person", "visits", "cameo", "host"⟩] := by
  obtain ⟨lead, knownLead, _⟩ := exists_ok_of_map
    (show (theatre.entity "lead").toOption.map (·.name) = some "lead" by decide +kernel)
  obtain ⟨cameo, knownCameo, _⟩ := exists_ok_of_map
    (show (theatre.entity "cameo").toOption.map (·.name) = some "cameo" by decide +kernel)
  obtain ⟨chain, read, ⟨rules, ruled⟩, covered, whole⟩ := wiringRules_cover theatre_finished knownLead
  obtain ⟨chain', read', _, covered', _⟩ := wiringRules_cover theatre_finished knownCameo
  simp only [← Draft.finished_linksTo theatre_finished] at whole
  refine ⟨⟨chain, rules, read, ruled, ?_, ?_⟩, chain', read', ?_⟩
  · obtain ⟨_, readAgain, declared⟩ := exists_ok_of_map
      (show (theatre.ancestors "lead").toOption.map (·.head?.map (·.isPlaceholder)) = some (some false) by decide +kernel)
    rw [read] at readAgain
    cases readAgain
    obtain ⟨root, head, real⟩ := Option.map_eq_some_iff.mp declared
    have covers := (covered rules).mp ruled
    rw [whole root head real] at covers
    exact covers
  · obtain ⟨_, ruledAgain, told⟩ := exists_ok_of_map
      (show (theatre.wiringRules "lead").toOption.map (·.map fun rule => (rule.entity, rule.ownerAttr, rule.action)) =
        some [("role", "played", .append), ("role", "covers", .assignEach), ("lead", "leads", .append)] by decide +kernel)
    rw [ruled] at ruledAgain
    cases ruledAgain
    exact told
  · have unruled : theatre.wiringRules "cameo" = .ok [] := by decide +kernel
    obtain ⟨_, readAgain, against⟩ := exists_ok_of_map
      (show (theatre.ancestors "cameo").toOption.map (·.flatMap fun level => theatre.linksTo level.name) =
        some [⟨"person", "visits", "cameo", "host"⟩] by decide +kernel)
    rw [read'] at readAgain
    cases readAgain
    exact ⟨unruled, List.forall₂_nil_right_iff.mp ((covered' []).mp unruled), against⟩

end Model

end Express
