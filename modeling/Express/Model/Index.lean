import Express.Definition

/-!
# Indexes

A model finds its definitions and functions through their positions by name, and the links of inverse attributes
through their targets. The indexes are stores of their own beside the lists that they are about.
-/

namespace Express

/-- Positions by name. A later entry stands in front and hides the earlier ones of its name. -/
structure Index where
  entries : List (Name × Nat) := []
  deriving DecidableEq, Repr

namespace Index

def get? (index : Index) (name : Name) : Option Nat :=
  index.entries.lookup name

def insert (index : Index) (name : Name) (position : Nat) : Index where
  entries := (name, position) :: index.entries

end Index

/-! ### Reverse links by target -/

namespace ReverseLink

/-- Puts a link behind those of its target. A new target gets its place among the others. -/
def insertInto (link : ReverseLink) : List (Name × List ReverseLink) → List (Name × List ReverseLink)
  | [] => [(link.target, [link])]
  | (target, links) :: others =>
    if link.target < target then (link.target, [link]) :: (target, links) :: others
    else if link.target = target then (target, links ++ [link]) :: others
    else (target, links) :: link.insertInto others

theorem target_of_mem_insertInto {link : ReverseLink} {entries : List (Name × List ReverseLink)} {target : Name}
    (member : target ∈ (link.insertInto entries).map (·.1)) : target = link.target ∨ target ∈ entries.map (·.1) := by
  induction entries with
  | nil => exact .inl (List.mem_singleton.mp member)
  | cons entry others ih =>
    unfold insertInto at member
    split at member
    · exact List.mem_cons.mp member
    · split at member
      · exact .inr member
      · rcases List.mem_cons.mp member with first | later
        · exact .inr (first ▸ List.mem_cons_self)
        · exact (ih later).imp_right (List.mem_cons_of_mem _)

theorem sorted_insertInto (link : ReverseLink) {entries : List (Name × List ReverseLink)}
    (sorted : (entries.map (·.1)).Pairwise (· < ·)) : ((link.insertInto entries).map (·.1)).Pairwise (· < ·) := by
  induction entries with
  | nil => exact List.pairwise_singleton _ _
  | cons entry others ih =>
    obtain ⟨first, later⟩ := List.pairwise_cons.mp sorted
    unfold insertInto
    split
    · rename_i before
      refine List.pairwise_cons.mpr ⟨?_, sorted⟩
      intro target member
      rcases List.mem_cons.mp member with rfl | member
      · exact before
      · exact String.lt_trans before (first target member)
    · split
      · exact sorted
      · rename_i notBefore different
        refine List.pairwise_cons.mpr ⟨?_, ih later⟩
        intro target member
        rcases target_of_mem_insertInto member with rfl | old
        · exact Decidable.by_contra fun notAfter =>
            different (String.le_antisymm (String.not_lt.mp notAfter) (String.not_lt.mp notBefore))
        · exact first target old

end ReverseLink

/-- The reverse links of each target in the order of their insertion. The targets are in order. -/
structure ReverseIndex where
  byTarget : List (Name × List ReverseLink)
  sorted : (byTarget.map (·.1)).Pairwise (· < ·)
  deriving DecidableEq, Repr

namespace ReverseIndex

def empty : ReverseIndex where
  byTarget := []
  sorted := .nil

def insert (index : ReverseIndex) (link : ReverseLink) : ReverseIndex where
  byTarget := link.insertInto index.byTarget
  sorted := link.sorted_insertInto index.sorted

def linksTo (index : ReverseIndex) (target : Name) : List ReverseLink :=
  (index.byTarget.lookup target).getD []

def targets (index : ReverseIndex) : List Name :=
  index.byTarget.map (·.1)

/-- All links, one target after the other. -/
def all (index : ReverseIndex) : List ReverseLink :=
  index.byTarget.flatMap (·.2)

def length (index : ReverseIndex) : Nat :=
  index.byTarget.foldr (fun entry count => entry.2.length + count) 0

def isEmpty (index : ReverseIndex) : Bool :=
  index.byTarget.isEmpty

end ReverseIndex

end Express
