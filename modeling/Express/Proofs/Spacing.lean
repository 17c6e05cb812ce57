import Express.Proofs.Canonical
import Mathlib.Data.List.Basic

/-!
# Blanks around and between words

Which texts trimming leaves alone, and which texts have single spaces already.
-/

namespace Express.Text

/-! ### Trimming -/

theorem trimRight_of_getLast? {cs : List Char} (edge : ∀ c ∈ cs.getLast?, isBlank c = false) : trimRight cs = cs := by
  rw [← List.head?_reverse] at edge
  have kept : cs.reverse.dropWhile isBlank = cs.reverse := by
    cases flipped : cs.reverse with
    | nil => rfl
    | cons c rest =>
      rw [flipped] at edge
      exact List.dropWhile_cons_of_neg (by simp [edge c rfl])
  rw [trimRight, kept, List.reverse_reverse]

theorem length_trimRight_le (cs : List Char) : (trimRight cs).length ≤ cs.length := by
  have shorter : (cs.reverse.dropWhile isBlank).length ≤ cs.reverse.length := (List.dropWhile_sublist isBlank).length_le
  rw [List.length_reverse] at shorter
  rwa [trimRight, List.length_reverse]

/-- Nothing is trimmed from a text that starts and ends with other characters than blanks. -/
theorem trim_of_edges {c : Char} {cs : List Char} (start : isBlank c = false)
    (edge : ∀ d ∈ (c :: cs).getLast?, isBlank d = false) : trim (c :: cs) = c :: cs := by
  rw [trim, List.dropWhile_cons_of_neg (by simp [start]), trimRight_of_getLast? edge]

theorem trim_append_space {c : Char} {cs : List Char} (start : isBlank c = false)
    (edge : ∀ d ∈ (c :: cs).getLast?, isBlank d = false) : trim (c :: cs ++ [' ']) = c :: cs := by
  have flipped : trimRight (c :: cs ++ [' ']) = trimRight (c :: cs) := by
    rw [trimRight, List.reverse_append]
    rfl
  rw [trim, List.cons_append, List.dropWhile_cons_of_neg (by simp [start]), ← List.cons_append, flipped,
    trimRight_of_getLast? edge]

/-- A trimmed text has no blank at either end. -/
theorem of_trim_eq {cs : List Char} (trimmed : trim cs = cs) : cs.dropWhile isBlank = cs ∧ trimRight cs = cs := by
  have shorter := length_trimRight_le (cs.dropWhile isBlank)
  have sublist := List.dropWhile_sublist (l := cs) isBlank
  have kept : cs.dropWhile isBlank = cs := by
    refine sublist.eq_of_length_le ?_
    calc cs.length = (trim cs).length := by rw [trimmed]
      _ ≤ (cs.dropWhile isBlank).length := shorter
  rw [trim, kept] at trimmed
  exact ⟨kept, trimmed⟩

/-! ### Single spaces -/

theorem splitWords_append {word : List Char} (unbroken : ∀ c ∈ word, isBlank c = false) (rest : List Char) :
    splitWords (word ++ rest) = (word ++ (splitWords rest).1, (splitWords rest).2) := by
  induction word with
  | nil => rfl
  | cons c word ih =>
    obtain ⟨first, others⟩ := List.forall_mem_cons.mp unbroken
    rw [List.cons_append, splitWords, ih others, first]
    rfl

theorem words_cons {word : List Char} (filled : word ≠ []) (unbroken : ∀ c ∈ word, isBlank c = false)
    (rest : List Char) : words (word ++ ' ' :: rest) = word :: words rest := by
  have space : splitWords (' ' :: rest) = ([], words rest) := rfl
  rw [words, splitWords_append unbroken, space]
  simp [filled]

theorem words_word {word : List Char} (filled : word ≠ []) (unbroken : ∀ c ∈ word, isBlank c = false) :
    words word = [word] := by
  have split := splitWords_append unbroken []
  rw [List.append_nil] at split
  rw [words, split]
  simp [splitWords, filled]

theorem words_ne_nil {c : Char} (start : isBlank c = false) (cs : List Char) : words (c :: cs) ≠ [] := by
  simp [words, splitWords, start]

theorem singleSpaced_word {word : List Char} (filled : word ≠ []) (unbroken : ∀ c ∈ word, isBlank c = false) :
    singleSpaced word = word := by
  rw [singleSpaced, words_word filled unbroken, List.intercalate_singleton]

theorem singleSpaced_cons {word rest : List Char} (filled : word ≠ []) (unbroken : ∀ c ∈ word, isBlank c = false)
    (more : words rest ≠ []) : singleSpaced (word ++ ' ' :: rest) = word ++ ' ' :: singleSpaced rest := by
  obtain ⟨second, others, shape⟩ := List.exists_cons_of_ne_nil more
  rw [singleSpaced, words_cons filled unbroken, singleSpaced, shape, List.intercalate_cons_cons, List.append_assoc]
  rfl

end Express.Text
