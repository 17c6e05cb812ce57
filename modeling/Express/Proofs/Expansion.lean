import Express.Proofs.Gathering

/-!
# Expanding selects in place

The plain way to get at the leaves of a select is to put the expansion of every nested select in its place. It ends
exactly where no select contains itself. There `leaves_eq_expansion` says that gathering gives the same names in the same
order, each at its first occurrence: what a select that is not entered again would add has been gathered already.
-/

namespace Express

namespace Model

variable {model : Model}

/-! ### Expansion -/

/-- Every select among the names is replaced by the expansion of its alternatives. -/
inductive Expands (model : Model) : List Name → List Name → Prop where
  | nil : Expands model [] []
  | nested {name : Name} {others names rest : List Name} {select : Select}
      (found : model.find? name = some (.select select)) (inner : Expands model select.alternatives names)
      (later : Expands model others rest) : Expands model (name :: others) (names ++ rest)
  | plain {name : Name} {others rest : List Name} (plain : ¬ model.IsSelect name) (later : Expands model others rest) :
      Expands model (name :: others) (name :: rest)

theorem Expands.unique {alternatives names other : List Name} (expands : model.Expands alternatives names)
    (again : model.Expands alternatives other) : names = other := by
  induction expands generalizing other with
  | nil =>
    cases again
    rfl
  | nested found inner later ihInner ihLater =>
    cases again with
    | nested foundToo innerToo laterToo =>
      rw [found] at foundToo
      cases foundToo
      rw [ihInner innerToo, ihLater laterToo]
    | plain plain => exact (plain ⟨_, found⟩).elim
  | plain plain later ih =>
    cases again with
    | nested found => exact (plain ⟨_, found⟩).elim
    | plain _ laterToo => rw [ih laterToo]

/-- No select that can be reached from this one contains itself. -/
def Unfolds (model : Model) (name : Name) : Prop :=
  ∀ inner, Relation.ReflTransGen model.Nests name inner → ¬ Relation.TransGen model.Nests inner inner

/-- What an alternative leads to, its select contains. -/
theorem Offers.transGen {name alternative inner : Name} (offers : model.Offers name alternative)
    (nested : model.IsSelect inner) (reach : Relation.ReflTransGen model.Nests alternative inner) :
    Relation.TransGen model.Nests name inner := by
  rcases Relation.ReflTransGen.cases_head reach with rfl | ⟨next, step, _⟩
  · exact .single ⟨offers, nested⟩
  · exact .head' ⟨offers, step.1.isSelect⟩ reach

theorem Unfolds.of_offers {name alternative : Name} (unfolds : model.Unfolds name)
    (offers : model.Offers name alternative) : model.Unfolds alternative := by
  intro inner reach cycle
  obtain ⟨next, step, _⟩ := Relation.TransGen.head'_iff.mp cycle
  exact unfolds inner (offers.transGen step.1.isSelect reach).to_reflTransGen cycle

/-! ### Gathering is expanding -/

/-- All that the select would add has been gathered. -/
def Settled (model : Model) (found : Harvest) (name : Name) : Prop :=
  ∃ select names, model.find? name = some (.select select) ∧ model.Expands select.alternatives names ∧
    names ⊆ found.leaves

theorem Settled.mono {found last : Harvest} {name : Name} (settled : model.Settled found name)
    (more : found.leaves ⊆ last.leaves) : model.Settled last name := by
  obtain ⟨select, names, known, expands, gathered⟩ := settled
  exact ⟨select, names, known, expands, fun leaf member => more (gathered member)⟩

/-- A select that has been entered is settled, unless it is being gone through at the moment. Then none of the
alternatives ahead leads back to it. -/
def Passed (model : Model) (alternatives : List Name) (found : Harvest) (name : Name) : Prop :=
  model.Settled found name ∨
    model.IsSelect name ∧ ∀ alternative ∈ alternatives, ¬ Relation.ReflTransGen model.Nests alternative name

theorem Passed.of_offers {name inside : Name} {others : List Name} {select : Select} {found : Harvest}
    (passed : model.Passed (inside :: others) found name) (nested : model.find? inside = some (.select select)) :
    model.Passed select.alternatives { found with visited := inside :: found.visited } name := by
  rcases passed with settled | ⟨isSelect, apart⟩
  · exact .inl (settled.mono fun _ member => member)
  · refine .inr ⟨isSelect, fun alternative listed reach => ?_⟩
    have offers : model.Offers inside alternative := ⟨select, nested, listed⟩
    exact apart inside List.mem_cons_self (offers.transGen isSelect reach).to_reflTransGen

theorem Passed.later {name first : Name} {others : List Name} {found last : Harvest}
    (passed : model.Passed (first :: others) found name) (more : found.leaves ⊆ last.leaves) :
    model.Passed others last name := by
  rcases passed with settled | ⟨isSelect, apart⟩
  · exact .inl (settled.mono more)
  · exact .inr ⟨isSelect, (List.forall_mem_cons.mp apart).2⟩

/-- A select that does not contain itself is out of reach while it is gone through. -/
theorem passed_self {name : Name} {select : Select} (nested : model.find? name = some (.select select))
    (unfolds : model.Unfolds name) (found : Harvest) : model.Passed select.alternatives found name := by
  refine .inr ⟨⟨select, nested⟩, fun alternative listed reach => ?_⟩
  have offers : model.Offers name alternative := ⟨select, nested, listed⟩
  exact unfolds name .refl (offers.transGen ⟨select, nested⟩ reach)

theorem Gathers.expands {alternatives : List Name} {found last : Harvest}
    (gathers : model.Gathers alternatives found last) (unfolds : ∀ name ∈ alternatives, model.Unfolds name)
    (passed : ∀ name ∈ found.visited, model.Passed alternatives found name) :
    ∃ names, model.Expands alternatives names ∧ last.leaves = names.foldl mention found.leaves ∧
      ∀ name ∈ last.visited, name ∈ found.visited ∨ model.Settled last name := by
  induction gathers with
  | nil found => exact ⟨[], .nil, rfl, fun _ => .inl⟩
  | @again name others found last nested old later ih =>
    -- Nothing new: the select is settled, since it would otherwise be out of reach.
    have settled : model.Settled found name := by
      rcases passed name old with settled | ⟨_, apart⟩
      · exact settled
      · exact (apart name List.mem_cons_self .refl).elim
    obtain ⟨select, names, known, expands, gathered⟩ := settled
    obtain ⟨rest, expandsLater, leaves, entered⟩ := ih (List.forall_mem_cons.mp unfolds).2
      fun other member => (passed other member).later fun _ leaf => leaf
    refine ⟨names ++ rest, .nested known expands expandsLater, ?_, entered⟩
    rw [List.foldl_append, foldl_mention_of_subset gathered, leaves]
  | @enter name others select found middle last nested new inner later ihInner ihLater =>
    obtain ⟨unfoldsHere, unfoldsLater⟩ := List.forall_mem_cons.mp unfolds
    obtain ⟨names, expandsInner, leavesInner, enteredInner⟩ := ihInner
      (fun alternative listed => unfoldsHere.of_offers ⟨select, nested, listed⟩)
      (List.forall_mem_cons.mpr ⟨passed_self nested unfoldsHere _, fun other member => (passed other member).of_offers nested⟩)
    have settledHere : model.Settled middle name := by
      refine ⟨select, names, nested, expandsInner, fun leaf member => ?_⟩
      rw [leavesInner]
      exact mem_foldl_mention.mpr (.inr member)
    have before : ∀ other ∈ middle.visited, other ∈ found.visited ∨ model.Settled middle other := by
      intro other member
      rcases enteredInner other member with old | settled
      · rcases List.mem_cons.mp old with rfl | older
        · exact .inr settledHere
        · exact .inl older
      · exact .inr settled
    obtain ⟨rest, expandsLater, leavesLater, enteredLater⟩ := ihLater unfoldsLater fun other member =>
      (before other member).elim (fun old => (passed other old).later inner.leaves_subset) .inl
    refine ⟨names ++ rest, .nested nested expandsInner expandsLater, ?_, ?_⟩
    · rw [List.foldl_append, leavesLater, leavesInner]
    · intro other member
      rcases enteredLater other member with early | settled
      · exact (before other early).imp_right fun settled => settled.mono later.leaves_subset
      · exact .inr settled
  | @leaf name others found last plain later ih =>
    have more : found.leaves ⊆ mention found.leaves name := fun _ member => mem_mention.mpr (.inl member)
    obtain ⟨rest, expandsLater, leaves, entered⟩ := ih (List.forall_mem_cons.mp unfolds).2
      fun other member => (passed other member).later more
    exact ⟨name :: rest, .plain plain expandsLater, leaves, entered⟩

/-- The leaves of a select that unfolds are its expansion, each name at its first occurrence. The indexes agree with the
lists in every finished model (`Finished.indexed`). -/
theorem leaves_eq_expansion (indexed : model.Indexed) {name : Name} {select : Select}
    (found : model.find? name = some (.select select)) (unfolds : model.Unfolds name) :
    ∃ names, model.Expands select.alternatives names ∧ (∀ other, model.Expands select.alternatives other → other = names) ∧
      model.leaves name = .ok names.eraseDups := by
  obtain ⟨last, gathered, gathers⟩ := leaves_gathers indexed found
  obtain ⟨names, expands, leaves, _⟩ := gathers.expands
    (fun alternative listed => unfolds.of_offers ⟨select, found, listed⟩)
    (List.forall_mem_singleton.mpr (passed_self found unfolds _))
  refine ⟨names, expands, fun other again => again.unique expands, ?_⟩
  rw [gathered, leaves, foldl_mention_nil]

/-- Selects that lie the deeper the further in they are do not contain themselves. -/
theorem unfolds_of_depth {depth : Name → Nat} (deeper : ∀ outer inner, model.Nests outer inner → depth outer < depth inner)
    (name : Name) : model.Unfolds name := by
  intro inner _ cycle
  have below : ∀ last, Relation.TransGen model.Nests inner last → depth inner < depth last := by
    intro last reach
    induction reach with
    | single step => exact deeper _ _ step
    | tail _ step ih => exact Nat.lt_trans ih (deeper _ _ step)
  exact Nat.lt_irrefl _ (below inner cycle)

theorem mem_of_ofSelects {selects : List Select} (indexed : (ofSelects selects).Indexed) {name : Name}
    {select : Select} (found : (ofSelects selects).find? name = some (.select select)) :
    select ∈ selects ∧ select.name = name := by
  obtain ⟨stored, named⟩ := indexed.find?_iff_mem.mp found
  obtain ⟨other, member, same⟩ := List.mem_map.mp stored
  cases same
  exact ⟨member, named⟩

/-- A salad is served as a starter and with the main course. -/
def menu : List Select :=
  [{ name := "dish", alternatives := ["starter", "main", "bread"] },
    { name := "starter", alternatives := ["soup", "salad"] },
    { name := "main", alternatives := ["salad", "roast", "soup"] },
    { name := "salad", alternatives := ["tomato", "bread"] }]

theorem menu_finished : (ofSelects menu).Finished :=
  ⟨{}, menu.map fun s => .type { name := s.name, body := .select s.alternatives }, by decide +kernel⟩

theorem menu_unfolds (name : Name) : (ofSelects menu).Unfolds name := by
  refine @unfolds_of_depth _ (menu.map (·.name)).idxOf ?_ name
  rintro outer inner ⟨⟨select, found, listed⟩, nested, foundInner⟩
  obtain ⟨member, rfl⟩ := mem_of_ofSelects menu_finished.indexed found
  obtain ⟨memberInner, rfl⟩ := mem_of_ofSelects menu_finished.indexed foundInner
  have sorted : ∀ s ∈ menu, ∀ t ∈ menu, t.name ∈ s.alternatives →
      (menu.map (·.name)).idxOf s.name < (menu.map (·.name)).idxOf t.name := by decide
  exact sorted select member nested memberInner listed

theorem menu_dish_expands : (ofSelects menu).Expands ["starter", "main", "bread"]
    (["soup", "tomato", "bread"] ++ (["tomato", "bread", "roast", "soup"] ++ ["bread"])) := by
  have plain : ∀ name ∈ ["soup", "tomato", "bread", "roast"], ¬ (ofSelects menu).IsSelect name := by
    rintro name member ⟨select, found⟩
    obtain ⟨listed, rfl⟩ := mem_of_ofSelects menu_finished.indexed found
    have apart : ∀ s ∈ menu, s.name ∉ ["soup", "tomato", "bread", "roast"] := by decide
    exact apart select listed member
  have starter : (ofSelects menu).find? "starter" = some (.select menu[1]) := by decide +kernel
  have main : (ofSelects menu).find? "main" = some (.select menu[2]) := by decide +kernel
  have salad : (ofSelects menu).find? "salad" = some (.select menu[3]) := by decide +kernel
  have bread : (ofSelects menu).Expands ["bread"] ["bread"] := .plain (plain _ (by decide)) .nil
  have inSalad : (ofSelects menu).Expands ["tomato", "bread"] ["tomato", "bread"] := .plain (plain _ (by decide)) bread
  have soup : (ofSelects menu).Expands ["soup"] ["soup"] := .plain (plain _ (by decide)) .nil
  have inStarter : (ofSelects menu).Expands ["soup", "salad"] ["soup", "tomato", "bread"] :=
    .plain (plain _ (by decide)) (.nested salad inSalad .nil)
  have inMain : (ofSelects menu).Expands ["salad", "roast", "soup"] ["tomato", "bread", "roast", "soup"] :=
    .nested salad inSalad (.plain (plain _ (by decide)) soup)
  exact .nested starter inStarter (.nested main inMain bread)

theorem menu_dish_leaves :
    (ofSelects menu).Finished ∧ (ofSelects menu).Unfolds "dish" ∧
      (ofSelects menu).leaves "dish" = .ok ["soup", "tomato", "bread", "roast"] := by
  have dish : (ofSelects menu).find? "dish" = some (.select menu[0]) := by decide +kernel
  obtain ⟨names, _, unique, gathered⟩ := leaves_eq_expansion menu_finished.indexed dish (menu_unfolds "dish")
  refine ⟨menu_finished, menu_unfolds "dish", ?_⟩
  rw [gathered, ← unique _ menu_dish_expands]
  rfl

end Model

end Express
