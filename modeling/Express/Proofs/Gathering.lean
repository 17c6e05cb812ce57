import Express.Proofs.Moves

/-!
# The leaves of a select

Gathering leaves enters each select once. What it does is told by a relation without fuel (`Gathers`), which the bounded
search obeys because every level of depth visits one more of the model's names. `leaves_exact` says that the leaves of a
select are the names at the ends of all lines of nested selects, whatever circles the selects form.
-/

namespace Express.Model

/-! ### Nested selects -/

def IsSelect (model : Model) (name : Name) : Prop :=
  ∃ select, model.find? name = some (.select select)

/-- A select has an alternative. -/
def Offers (model : Model) (name alternative : Name) : Prop :=
  ∃ select, model.find? name = some (.select select) ∧ alternative ∈ select.alternatives

/-- A select has another one as an alternative. -/
def Nests (model : Model) (name inner : Name) : Prop :=
  model.Offers name inner ∧ model.IsSelect inner

/-- Some line of nested selects starts at a select and ends at one with this alternative, which is not a select. -/
def Leaf (model : Model) (name leaf : Name) : Prop :=
  ∃ last, Relation.ReflTransGen model.Nests name last ∧ model.Offers last leaf ∧ ¬ model.IsSelect leaf

variable {model : Model}

theorem Offers.isSelect {name alternative : Name} (offers : model.Offers name alternative) : model.IsSelect name := by
  obtain ⟨select, found, _⟩ := offers
  exact ⟨select, found⟩

theorem offers_iff {name alternative : Name} {select : Select} (found : model.find? name = some (.select select)) :
    model.Offers name alternative ↔ alternative ∈ select.alternatives := by
  constructor
  · rintro ⟨other, again, listed⟩
    rw [found] at again
    cases again
    exact listed
  · intro listed
    exact ⟨select, found, listed⟩

theorem select_eq_ok_iff {name : Name} {select : Select} :
    model.select name = .ok select ↔ model.find? name = some (.select select) := by
  unfold Model.select get
  cases model.find? name with
  | none => simp [bind, Except.bind]
  | some d => cases d <;> simp [bind, Except.bind]

/-! ### Gathering without fuel -/

/-- How the alternatives in the list are gone through, from what was found before to what is found at the end. -/
inductive Gathers (model : Model) : List Name → Harvest → Harvest → Prop where
  | nil (found : Harvest) : Gathers model [] found found
  | again {name : Name} {others : List Name} {found last : Harvest} (nested : model.IsSelect name)
      (old : name ∈ found.visited) (later : Gathers model others found last) : Gathers model (name :: others) found last
  | enter {name : Name} {others : List Name} {select : Select} {found middle last : Harvest}
      (nested : model.find? name = some (.select select)) (new : name ∉ found.visited)
      (inner : Gathers model select.alternatives { found with visited := name :: found.visited } middle)
      (later : Gathers model others middle last) : Gathers model (name :: others) found last
  | leaf {name : Name} {others : List Name} {found last : Harvest} (plain : ¬ model.IsSelect name)
      (later : Gathers model others { found with leaves := mention found.leaves name } last) :
      Gathers model (name :: others) found last

namespace Gathers

variable {alternatives : List Name} {found last : Harvest}

theorem visited_suffix (gathers : model.Gathers alternatives found last) : found.visited <:+ last.visited := by
  induction gathers with
  | nil found => exact List.suffix_rfl
  | again nested old later ih => exact ih
  | enter nested new inner later ihInner ihLater => exact ((List.suffix_cons _ _).trans ihInner).trans ihLater
  | leaf plain later ih => exact ih

theorem leaves_subset (gathers : model.Gathers alternatives found last) : found.leaves ⊆ last.leaves := by
  induction gathers with
  | nil found => exact fun _ member => member
  | again nested old later ih => exact ih
  | enter nested new inner later ihInner ihLater => exact fun _ member => ihLater (ihInner member)
  | leaf plain later ih => exact fun _ member => ih (mem_mention.mpr (.inl member))

theorem visited_distinct (gathers : model.Gathers alternatives found last) (distinct : found.visited.Nodup) :
    last.visited.Nodup := by
  induction gathers with
  | nil found => exact distinct
  | again nested old later ih => exact ih distinct
  | enter nested new inner later ihInner ihLater => exact ihLater (ihInner (List.nodup_cons.mpr ⟨new, distinct⟩))
  | leaf plain later ih => exact ih distinct

theorem visited_known (gathers : model.Gathers alternatives found last) (indexed : model.Indexed)
    (known : found.visited ⊆ model.names) : last.visited ⊆ model.names := by
  induction gathers with
  | nil found => exact known
  | again nested old later ih => exact ih known
  | enter nested new inner later ihInner ihLater =>
    exact ihLater (ihInner (List.cons_subset.mpr ⟨(indexed.find?_eq_some_iff.mp nested).1, known⟩))
  | leaf plain later ih => exact ih known

theorem leaves_distinct (gathers : model.Gathers alternatives found last) (distinct : found.leaves.Nodup) :
    last.leaves.Nodup := by
  induction gathers with
  | nil found => exact distinct
  | again nested old later ih => exact ih distinct
  | enter nested new inner later ihInner ihLater => exact ihLater (ihInner distinct)
  | leaf plain later ih => exact ih (nodup_mention distinct _)

end Gathers

/-- The search is never cut short: when the fuel is used up, all names have been visited. -/
theorem harvest_gathers (indexed : model.Indexed) {fuel : Nat} {alternatives : List Name} {found : Harvest}
    (distinct : found.visited.Nodup) (known : found.visited ⊆ model.names)
    (enough : model.definitions.length ≤ fuel + found.visited.length) :
    model.Gathers alternatives found (model.harvest fuel alternatives found) := by
  fun_induction harvest model fuel alternatives found with
  | case1 fuel found => exact .nil found
  | case2 fuel found name others select nested old ih =>
    rw [show select.name = name from indexed.find?_name nested] at old
    exact .again ⟨select, nested⟩ old (ih distinct known enough)
  | case3 found name others select nested new ih =>
    rw [show select.name = name from indexed.find?_name nested] at new
    have all := length_le_of_distinct (List.nodup_cons.mpr ⟨new, distinct⟩)
      (List.cons_subset.mpr ⟨(indexed.find?_eq_some_iff.mp nested).1, known⟩)
    rw [List.length_cons] at all
    omega
  | case4 found name others select nested new fuel ihInner ihLater =>
    rw [show select.name = name from indexed.find?_name nested] at new ihInner ihLater ⊢
    have distinctToo := List.nodup_cons.mpr ⟨new, distinct⟩
    have knownToo := List.cons_subset.mpr ⟨(indexed.find?_eq_some_iff.mp nested).1, known⟩
    have inner := ihInner distinctToo knownToo (by rw [List.length_cons]; omega)
    have longer := inner.visited_suffix.length_le
    rw [List.length_cons] at longer
    exact .enter nested new inner
      (ihLater (inner.visited_distinct distinctToo) (inner.visited_known indexed knownToo) (by omega))
  | case5 fuel found name others old plain ih =>
    refine .leaf (fun nested => nested.elim plain) ?_
    rw [mention_of_mem old]
    exact ih distinct known enough
  | case6 fuel found name others new plain ih =>
    refine .leaf (fun nested => nested.elim plain) ?_
    rw [mention_of_not_mem new]
    exact ih distinct known enough

theorem leaves_gathers (indexed : model.Indexed) {name : Name} {select : Select}
    (found : model.find? name = some (.select select)) :
    ∃ last, model.leaves name = .ok last.leaves ∧
      model.Gathers select.alternatives { visited := [name], leaves := [] } last := by
  have known : [name] ⊆ model.names := List.cons_subset.mpr ⟨(indexed.find?_eq_some_iff.mp found).1, List.nil_subset _⟩
  refine ⟨_, ?_, harvest_gathers indexed (List.nodup_singleton name) known (Nat.le_add_right _ _)⟩
  rw [leaves, select_eq_ok_iff.mpr found]
  simp only [show select.name = name from indexed.find?_name found, bind, Except.bind, pure, Except.pure]

/-! ### What is gathered -/

/-- A name has been dealt with: a select has been entered, anything else is among the leaves. -/
def Covered (model : Model) (found : Harvest) (name : Name) : Prop :=
  (model.IsSelect name → name ∈ found.visited) ∧ (¬ model.IsSelect name → name ∈ found.leaves)

namespace Gathers

variable {alternatives : List Name} {found last : Harvest}

theorem covered_mono (gathers : model.Gathers alternatives found last) {name : Name}
    (covered : model.Covered found name) : model.Covered last name :=
  ⟨fun nested => gathers.visited_suffix.subset (covered.1 nested), fun plain => gathers.leaves_subset (covered.2 plain)⟩

theorem covers (gathers : model.Gathers alternatives found last) : ∀ name ∈ alternatives, model.Covered last name := by
  induction gathers with
  | nil found => exact fun _ none => by cases none
  | again nested old later ih =>
    refine List.forall_mem_cons.mpr ⟨?_, ih⟩
    exact later.covered_mono ⟨fun _ => old, fun plain => (plain nested).elim⟩
  | enter nested new inner later ihInner ihLater =>
    refine List.forall_mem_cons.mpr ⟨?_, ihLater⟩
    have entered := inner.visited_suffix.subset List.mem_cons_self
    exact later.covered_mono ⟨fun _ => entered, fun plain => (plain ⟨_, nested⟩).elim⟩
  | leaf plain later ih =>
    refine List.forall_mem_cons.mpr ⟨?_, ih⟩
    exact later.covered_mono ⟨fun nested => (plain nested).elim, fun _ => mem_mention.mpr (.inr rfl)⟩

/-- Whatever an entered select offers is dealt with before its turn is over. -/
theorem covers_offers (gathers : model.Gathers alternatives found last) {name alternative : Name}
    (entered : name ∈ last.visited) (new : name ∉ found.visited) (offers : model.Offers name alternative) :
    model.Covered last alternative := by
  induction gathers with
  | nil found => exact (new entered).elim
  | again nested old later ih => exact ih entered new
  | @enter inside others select found middle last nested fresh inner later ihInner ihLater =>
    by_cases early : name ∈ middle.visited
    · refine later.covered_mono ?_
      by_cases same : name = inside
      · rw [same] at offers
        exact inner.covers alternative ((offers_iff nested).mp offers)
      · exact ihInner early fun old => (List.mem_cons.mp old).elim same new
    · exact ihLater entered early
  | leaf plain later ih => exact ih entered new

/-- Everything gathered lies on a line of nested selects from `root` on, if all that is still to be gone through does. -/
theorem sound (gathers : model.Gathers alternatives found last) {root : Name}
    (pending : ∀ name ∈ alternatives, ∃ outer, Relation.ReflTransGen model.Nests root outer ∧ model.Offers outer name)
    (visited : ∀ name ∈ found.visited, Relation.ReflTransGen model.Nests root name)
    (leaves : ∀ name ∈ found.leaves, model.Leaf root name) :
    (∀ name ∈ last.visited, Relation.ReflTransGen model.Nests root name) ∧
      ∀ name ∈ last.leaves, model.Leaf root name := by
  induction gathers with
  | nil found => exact ⟨visited, leaves⟩
  | again nested old later ih => exact ih (List.forall_mem_cons.mp pending).2 visited leaves
  | @enter name others select found middle last nested new inner later ihInner ihLater =>
    obtain ⟨⟨outer, reach, offers⟩, pending⟩ := List.forall_mem_cons.mp pending
    have reached : Relation.ReflTransGen model.Nests root name := reach.tail ⟨offers, select, nested⟩
    obtain ⟨visitedInner, leavesInner⟩ := ihInner
      (fun alternative listed => ⟨name, reached, select, nested, listed⟩)
      (List.forall_mem_cons.mpr ⟨reached, visited⟩) leaves
    exact ihLater pending visitedInner leavesInner
  | leaf plain later ih =>
    obtain ⟨⟨outer, reach, offers⟩, pending⟩ := List.forall_mem_cons.mp pending
    refine ih pending visited ?_
    intro name member
    rcases mem_mention.mp member with old | rfl
    · exact leaves name old
    · exact ⟨outer, reach, offers, plain⟩

end Gathers

/-- In a model whose indexes agree with its lists, as in every finished one (`Finished.indexed`), gathering goes through
all alternatives to their end, and the leaves of a select are the names at the ends of its lines of nested selects, each
of them once. -/
theorem leaves_exact (indexed : model.Indexed) {name : Name} {select : Select}
    (found : model.find? name = some (.select select)) :
    ∃ names, model.leaves name = .ok names ∧
      (∃ visited, model.Gathers select.alternatives { visited := [name], leaves := [] } { visited, leaves := names }) ∧
      names.Nodup ∧ ∀ leaf, leaf ∈ names ↔ model.Leaf name leaf := by
  obtain ⟨last, gathered, gathers⟩ := leaves_gathers indexed found
  refine ⟨last.leaves, gathered, ⟨last.visited, gathers⟩, gathers.leaves_distinct List.nodup_nil, fun leaf => ⟨?_, ?_⟩⟩
  · refine (gathers.sound ?_ ?_ ?_).2 leaf
    · exact fun alternative listed => ⟨name, .refl, select, found, listed⟩
    · exact fun other member => List.mem_singleton.mp member ▸ .refl
    · exact fun other none => by cases none
  · rintro ⟨final, reach, offers, plain⟩
    -- What was entered is closed under nesting, so every line of nested selects has been followed to its end.
    have closed : ∀ outer ∈ last.visited, ∀ alternative, model.Offers outer alternative →
        model.Covered last alternative := by
      intro outer entered alternative offered
      by_cases start : outer = name
      · rw [start] at offered
        exact gathers.covers alternative ((offers_iff found).mp offered)
      · exact gathers.covers_offers entered (fun old => start (List.mem_singleton.mp old)) offered
    have entered : final ∈ last.visited := by
      clear offers
      induction reach with
      | refl => exact gathers.visited_suffix.subset (List.mem_singleton_self name)
      | tail _ step ih => exact (closed _ ih _ step.1).1 step.2
    exact (closed final entered leaf offers).2 plain

/-- Colours are mixed from colours, and a pigment may be any pigment. -/
def palette : List Select :=
  [{ name := "colour", alternatives := ["pigment", "mixture", "white"] },
    { name := "mixture", alternatives := ["colour", "water", "white"] },
    { name := "pigment", alternatives := ["pigment", "ochre"] }]

/-- Nothing but selects. -/
def ofSelects (selects : List Select) : Model where
  definitions := selects.map .select
  index := { entries := (selects.map (·.name)).zipIdx.reverse }
  memberships := membershipsOf selects

theorem palette_leaves :
    (ofSelects palette).Finished ∧ ∃ names, (ofSelects palette).leaves "colour" = .ok names ∧ names.Nodup ∧
      (∃ visited, (ofSelects palette).Gathers ["pigment", "mixture", "white"] { visited := ["colour"], leaves := [] }
        { visited, leaves := names }) ∧ "water" ∈ names ∧ "mixture" ∉ names := by
  have finished : (ofSelects palette).Finished :=
    ⟨{}, palette.map fun s => .type { name := s.name, body := .select s.alternatives }, by decide +kernel⟩
  have colour : (ofSelects palette).find? "colour" = some (.select palette[0]) := by decide +kernel
  have mixture : (ofSelects palette).find? "mixture" = some (.select palette[1]) := by decide +kernel
  have water : (ofSelects palette).find? "water" = none := by decide +kernel
  obtain ⟨names, gathered, gathers, distinct, ends⟩ := leaves_exact finished.indexed colour
  refine ⟨finished, names, gathered, distinct, gathers, (ends "water").mpr ?_, fun listed => ?_⟩
  · refine ⟨"mixture", .single ⟨⟨_, colour, by decide⟩, _, mixture⟩, ⟨_, mixture, by decide⟩, ?_⟩
    rintro ⟨select, found⟩
    rw [water] at found
    cases found
  · obtain ⟨_, _, _, plain⟩ := (ends "mixture").mp listed
    exact plain ⟨_, mixture⟩

end Express.Model
