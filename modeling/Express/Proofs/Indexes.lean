import Express.Model.Index
import Mathlib.Data.List.Nodup
import Mathlib.Data.List.Perm.Basic

/-!
# Laws of the indexes

An index lists names if it has been filled with them and their positions, one after the other (`Index.Lists`). It then
answers as a search through the names does. An index of reverse links keeps, for each target, the links inserted for
it in their order, and all together they are the links inserted.
-/

namespace Express

namespace Index

theorem get?_insert_self (index : Index) (name : Name) (position : Nat) :
    (index.insert name position).get? name = some position :=
  List.lookup_cons_self

theorem get?_insert_other {name other : Name} (different : other ≠ name) (index : Index) (position : Nat) :
    (index.insert name position).get? other = index.get? other := by
  rw [get?, insert, List.lookup_cons, beq_false_of_ne different]
  rfl

/-- The index holds the position of each of the names, and no name occurs twice. -/
structure Lists (index : Index) (names : List Name) : Prop where
  entries : index.entries = names.zipIdx.reverse
  distinct : names.Nodup

namespace Lists

variable {index : Index} {names : List Name} {name : Name}

theorem nil : Index.Lists {} [] :=
  ⟨rfl, List.nodup_nil⟩

theorem unique {other : Index} (lists : index.Lists names) (lists' : other.Lists names) : index = other := by
  obtain ⟨entries⟩ := index
  obtain ⟨others⟩ := other
  exact congrArg Index.mk (lists.entries.trans lists'.entries.symm)

/-- A new name goes into the index with the position behind the others. -/
theorem insert (lists : index.Lists names) (fresh : name ∉ names) :
    (index.insert name names.length).Lists (names ++ [name]) where
  entries := by
    rw [List.zipIdx_append, List.reverse_append, ← lists.entries, Nat.zero_add]
    rfl
  distinct := lists.distinct.append (List.nodup_singleton name) (by simpa using fresh)

theorem get?_eq_some_iff (lists : index.Lists names) {position : Nat} :
    index.get? name = some position ↔ names[position]? = some name := by
  have listed : (name, position) ∈ index.entries ↔ names[position]? = some name := by
    rw [lists.entries, List.mem_reverse, List.mem_zipIdx_iff_getElem?]
  rw [← listed, get?, List.lookup_eq_some_iff]
  constructor
  · rintro ⟨before, behind, split, -⟩
    rw [split]
    exact List.mem_append_right _ List.mem_cons_self
  · intro member
    obtain ⟨before, behind, split⟩ := List.append_of_mem member
    refine ⟨before, behind, split, ?_⟩
    rintro ⟨other, place⟩ earlier
    -- A name stands at one place only, so nothing in front of its entry hides it.
    have keys : (index.entries.map (·.1)).Nodup := by
      rw [lists.entries, List.map_reverse, List.nodup_reverse, List.zipIdx_map_fst]
      exact lists.distinct
    rw [split, List.map_append, List.nodup_append] at keys
    rw [bne_iff_ne]
    rintro rfl
    exact keys.2.2 _ (List.mem_map_of_mem earlier) _ List.mem_cons_self rfl

theorem isSome_get?_iff (lists : index.Lists names) : (index.get? name).isSome ↔ name ∈ names := by
  rw [Option.isSome_iff_exists, List.mem_iff_getElem?]
  exact exists_congr fun position => lists.get?_eq_some_iff

theorem get?_eq_none_iff (lists : index.Lists names) : index.get? name = none ↔ name ∉ names := by
  rw [← lists.isSome_get?_iff, Option.not_isSome_iff_eq_none]

/-- Items found through the positions of their keys are those of the key. -/
theorem find_eq_some_iff {α : Type} {key : α → Name} {items : List α} (lists : index.Lists (items.map key))
    {item : α} :
    ((index.get? name).bind fun position => items[position]?) = some item ↔ item ∈ items ∧ key item = name := by
  rw [Option.bind_eq_some_iff, List.mem_iff_getElem?]
  constructor
  · rintro ⟨position, found, there⟩
    have named := lists.get?_eq_some_iff.mp found
    rw [List.getElem?_map, there] at named
    exact ⟨⟨position, there⟩, Option.some.inj named⟩
  · rintro ⟨⟨position, there⟩, rfl⟩
    refine ⟨position, lists.get?_eq_some_iff.mpr ?_, there⟩
    rw [List.getElem?_map, there]
    rfl

/-- What is found does not depend on the order of the items. -/
theorem find_perm {α : Type} {key : α → Name} {items others : List α} {other : Index} (perm : items.Perm others)
    (lists : index.Lists (items.map key)) (lists' : other.Lists (others.map key)) (name : Name) :
    ((index.get? name).bind fun position => items[position]?) =
      (other.get? name).bind fun position => others[position]? :=
  Option.ext fun item => by rw [lists.find_eq_some_iff, lists'.find_eq_some_iff, perm.mem_iff]

end Lists

end Index

/-! ### Reverse links -/

/-- The links that a list of entries has for a target. -/
def linksAt (entries : List (Name × List ReverseLink)) (target : Name) : List ReverseLink :=
  (entries.lookup target).getD []

theorem linksAt_cons (entry : Name × List ReverseLink) (others : List (Name × List ReverseLink)) (target : Name) :
    linksAt (entry :: others) target = if target = entry.1 then entry.2 else linksAt others target := by
  unfold linksAt
  split
  · rename_i same
    rw [same, List.lookup_cons_self]
    rfl
  · rename_i different
    rw [List.lookup_cons, beq_false_of_ne different]

/-- There are no links for a name in front of all targets. -/
theorem linksAt_of_lt {entries : List (Name × List ReverseLink)} {name : Name}
    (before : ∀ target ∈ entries.map (·.1), name < target) : linksAt entries name = [] := by
  induction entries with
  | nil => rfl
  | cons entry others ih =>
    obtain ⟨first, later⟩ := List.forall_mem_cons.mp before
    rw [linksAt_cons, if_neg, ih later]
    rintro rfl
    exact String.lt_irrefl _ first

namespace ReverseLink

variable (link : ReverseLink)

theorem linksAt_insertInto {entries : List (Name × List ReverseLink)}
    (sorted : (entries.map (·.1)).Pairwise (· < ·)) (target : Name) :
    linksAt (link.insertInto entries) target =
      linksAt entries target ++ [link].filter (·.target == target) := by
  have alone : [link].filter (·.target == target) = if target = link.target then [link] else [] := by
    by_cases same : target = link.target <;> simp [same, Ne.symm]
  rw [alone]
  induction entries with
  | nil => exact linksAt_cons ..
  | cons entry others ih =>
    obtain ⟨first, later⟩ := List.pairwise_cons.mp sorted
    unfold insertInto
    split
    · rename_i before
      have unlinked : linksAt (entry :: others) link.target = [] := by
        apply linksAt_of_lt
        exact List.forall_mem_cons.mpr ⟨before, fun t member => String.lt_trans before (first t member)⟩
      rw [linksAt_cons]
      split
      · rename_i same
        rw [same, unlinked]
        rfl
      · rw [List.append_nil]
    · split
      · rename_i same
        rw [linksAt_cons, linksAt_cons, ← same]
        split <;> simp
      · rename_i different
        rw [linksAt_cons, linksAt_cons, ih later]
        by_cases here : target = entry.1
        · rw [if_pos here, if_pos here, if_neg (by rw [here]; exact Ne.symm different), List.append_nil]
        · rw [if_neg here, if_neg here]

theorem insertInto_perm (entries : List (Name × List ReverseLink)) :
    ((link.insertInto entries).flatMap (·.2)).Perm (entries.flatMap (·.2) ++ [link]) := by
  induction entries with
  | nil => exact .refl _
  | cons entry others ih =>
    unfold insertInto
    split
    · exact @List.perm_append_comm _ [link] _
    · split
      · rw [List.flatMap_cons, List.flatMap_cons, List.append_assoc, List.append_assoc]
        exact List.perm_append_comm.append_left _
      · rw [List.flatMap_cons, List.flatMap_cons, List.append_assoc]
        exact ih.append_left _

theorem sublist_insertInto (entries : List (Name × List ReverseLink)) :
    (entries.flatMap (·.2)).Sublist ((link.insertInto entries).flatMap (·.2)) := by
  induction entries with
  | nil => exact List.nil_sublist _
  | cons entry others ih =>
    unfold insertInto
    split
    · exact List.sublist_append_right [link] _
    · split
      · exact (List.sublist_append_left entry.2 [link]).append (.refl _)
      · exact (List.Sublist.refl entry.2).append ih

end ReverseLink

namespace ReverseIndex

variable (index : ReverseIndex)

/-- The index after some links have been inserted in order. -/
def insertAll (links : List ReverseLink) : ReverseIndex :=
  links.foldl insert index

@[simp] theorem insertAll_nil : index.insertAll [] = index :=
  rfl

variable (links : List ReverseLink)

theorem insertAll_append (others : List ReverseLink) :
    index.insertAll (links ++ others) = (index.insertAll links).insertAll others :=
  List.foldl_append ..

/-- The links of a target are those inserted for it, in their order. -/
theorem linksTo_insertAll (target : Name) :
    (index.insertAll links).linksTo target = index.linksTo target ++ links.filter (·.target == target) := by
  induction links generalizing index with
  | nil => exact (List.append_nil _).symm
  | cons link links ih =>
    have first : (index.insert link).linksTo target = index.linksTo target ++ [link].filter (·.target == target) :=
      link.linksAt_insertInto index.sorted target
    rw [← List.singleton_append, insertAll_append, List.filter_append, ← List.append_assoc, ← first]
    exact ih (index.insert link)

theorem all_insertAll_perm : (index.insertAll links).all.Perm (index.all ++ links) := by
  induction links generalizing index with
  | nil => exact (List.append_nil _).symm ▸ .refl _
  | cons link links ih =>
    have first : (index.insert link).all.Perm (index.all ++ [link]) := link.insertInto_perm index.byTarget
    refine (ih (index.insert link)).trans ((first.append_right links).trans ?_)
    rw [List.append_assoc, List.singleton_append]

theorem all_sublist_insertAll : index.all.Sublist (index.insertAll links).all := by
  induction links generalizing index with
  | nil => exact .refl _
  | cons link links ih => exact (link.sublist_insertInto index.byTarget).trans (ih (index.insert link))

theorem mem_all_insertAll {link : ReverseLink} :
    link ∈ (index.insertAll links).all ↔ link ∈ index.all ∨ link ∈ links := by
  rw [(index.all_insertAll_perm links).mem_iff, List.mem_append]

theorem length_eq : index.length = index.all.length := by
  rw [length, all]
  induction index.byTarget with
  | nil => rfl
  | cons entry others ih => rw [List.foldr_cons, List.flatMap_cons, List.length_append, ih]

end ReverseIndex

end Express
