import Express.Proofs.Tokens
import Express.Reader.Remark

/-!
# Quiet texts

A quiet text holds no literals, no remarks and none of some words. Texts joined at a divider are quiet exactly if both
are. Nothing is stripped from a quiet text, and no word is found in it before the one that comes behind it.
-/

namespace Express.Reader

/-! ### Identifiers of a text -/

theorem identifiers_eq (cs : List Char) : identifiers cs =
    if (splitIdentifiers cs).1.isEmpty then (splitIdentifiers cs).2 else (splitIdentifiers cs).1 :: (splitIdentifiers cs).2 :=
  rfl

theorem splitIdentifiers_part {c : Char} (part : Name.isPart c = true) (cs : List Char) :
    splitIdentifiers (c :: cs) = (c :: (splitIdentifiers cs).1, (splitIdentifiers cs).2) := by
  simp [splitIdentifiers, part]

theorem splitIdentifiers_mark {c : Char} (mark : Name.isPart c = false) (cs : List Char) :
    splitIdentifiers (c :: cs) = ([], identifiers cs) := by
  simp [splitIdentifiers, identifiers, mark]

theorem identifiers_part {c : Char} (part : Name.isPart c = true) (cs : List Char) :
    identifiers (c :: cs) = (c :: (splitIdentifiers cs).1) :: (splitIdentifiers cs).2 := by
  rw [identifiers, splitIdentifiers_part part]
  rfl

theorem identifiers_mark {c : Char} (mark : Name.isPart c = false) (cs : List Char) :
    identifiers (c :: cs) = identifiers cs := by
  rw [identifiers, splitIdentifiers_mark mark]
  rfl

theorem splitIdentifiers_fst (cs : List Char) : (splitIdentifiers cs).1 = leadingWord cs := by
  induction cs with
  | nil => rfl
  | cons c cs ih =>
    cases part : Name.isPart c with
    | true => rw [splitIdentifiers_part part, ih, leadingWord, leadingWord, List.takeWhile_cons_of_pos part]
    | false => rw [splitIdentifiers_mark part, leadingWord, List.takeWhile_cons_of_neg (by simp [part])]

theorem splitIdentifiers_join {front back : List Char} {c : Char} (mark : Name.isPart c = false) :
    splitIdentifiers (front ++ c :: back) =
      ((splitIdentifiers front).1, (splitIdentifiers front).2 ++ identifiers back) := by
  induction front with
  | nil => exact splitIdentifiers_mark mark back
  | cons d front ih =>
    rw [List.cons_append]
    cases part : Name.isPart d with
    | true => rw [splitIdentifiers_part part, splitIdentifiers_part part, ih]
    | false =>
      rw [splitIdentifiers_mark part, splitIdentifiers_mark part, identifiers_eq (front ++ c :: back), ih,
        identifiers_eq front]
      split <;> rfl

theorem identifiers_join {front back : List Char} {c : Char} (mark : Name.isPart c = false) :
    identifiers (front ++ c :: back) = identifiers front ++ identifiers back := by
  rw [identifiers_eq (front ++ c :: back), splitIdentifiers_join mark, identifiers_eq front]
  split <;> rfl

theorem identifiers_word {word : List Char} (filled : word ≠ []) (parts : ∀ c ∈ word, Name.isPart c = true) :
    identifiers word = [word] := by
  have split : splitIdentifiers word = (word, []) := by
    clear filled
    induction word with
    | nil => rfl
    | cons c word ih =>
      obtain ⟨part, others⟩ := List.forall_mem_cons.mp parts
      rw [splitIdentifiers_part part, ih others]
  simp [identifiers, split, filled]

/-- The identifiers of a text have their characters from it, and none is empty. -/
theorem mem_identifiers {cs word : List Char} (member : word ∈ identifiers cs) : word ≠ [] ∧ ∀ c ∈ word, c ∈ cs := by
  induction cs generalizing word with
  | nil => cases member
  | cons d cs ih =>
    have tail (member : word ∈ identifiers cs) : word ≠ [] ∧ ∀ c ∈ word, c ∈ d :: cs :=
      ⟨(ih member).1, fun c present => List.mem_cons_of_mem d ((ih member).2 c present)⟩
    cases part : Name.isPart d with
    | false =>
      rw [identifiers_mark part] at member
      exact tail member
    | true =>
      rw [identifiers_part part] at member
      rcases List.mem_cons.mp member with rfl | member
      · refine ⟨List.cons_ne_nil _ _, ?_⟩
        rw [splitIdentifiers_fst]
        exact List.cons_subset_cons d (List.takeWhile_sublist _).subset
      · refine tail ?_
        rw [identifiers_eq]
        split
        · exact member
        · exact List.mem_cons_of_mem _ member

/-! ### Joining texts -/

/-- A character that ends words and is part of no mark of a literal or a remark. -/
def isDivider (c : Char) : Bool :=
  !Name.isPart c && c ∉ ['\'', '(', '*', '-']

theorem isDivider_iff {c : Char} :
    isDivider c = true ↔ Name.isPart c = false ∧ c ≠ '\'' ∧ c ≠ '(' ∧ c ≠ '*' ∧ c ≠ '-' := by
  simp [isDivider]

theorem isUnremarked_divider {c : Char} (divider : isDivider c = true) (cs : List Char) :
    isUnremarked (c :: cs) = isUnremarked cs := by
  obtain ⟨-, -, unopened, -, undashed⟩ := isDivider_iff.mp divider
  cases cs <;> simp [isUnremarked, unopened, undashed]

theorem isUnremarked_join {front back : List Char} {c : Char} (divider : isDivider c = true) :
    isUnremarked (front ++ c :: back) = (isUnremarked front && isUnremarked back) := by
  obtain ⟨-, -, -, unstarred, undashed⟩ := isDivider_iff.mp divider
  induction front with
  | nil => exact isUnremarked_divider divider back
  | cons d front ih =>
    cases front with
    | nil => simp [isUnremarked, unstarred, undashed, isUnremarked_divider divider]
    | cons e front =>
      rw [List.cons_append] at ih
      rw [List.cons_append, List.cons_append, isUnremarked, ih, isUnremarked]
      simp only [Bool.and_assoc]

theorem avoids_join {words : List String} {front back : List Char} {c : Char} (mark : Name.isPart c = false) :
    avoids words (front ++ c :: back) = (avoids words front && avoids words back) := by
  rw [avoids, identifiers_join mark, List.all_append]
  rfl

theorem isQuiet_iff {words : List String} {cs : List Char} :
    isQuiet words cs = true ↔ '\'' ∉ cs ∧ isUnremarked cs = true ∧ avoids words cs = true := by
  simp only [isQuiet, Bool.and_eq_true, decide_eq_true_eq, and_assoc]

theorem isQuiet_nil {words : List String} {cs : List Char} (quiet : isQuiet words cs = true) : isQuiet [] cs = true := by
  obtain ⟨unquoted, unremarked, -⟩ := isQuiet_iff.mp quiet
  refine isQuiet_iff.mpr ⟨unquoted, unremarked, List.all_eq_true.mpr fun word _ => ?_⟩
  exact decide_eq_true List.not_mem_nil

/-- Texts joined at a divider are quiet exactly if both are. -/
theorem isQuiet_join {words : List String} {front back : List Char} {c : Char} (divider : isDivider c = true) :
    isQuiet words (front ++ c :: back) = true ↔ isQuiet words front = true ∧ isQuiet words back = true := by
  obtain ⟨mark, unquoted, -⟩ := isDivider_iff.mp divider
  have quotes : '\'' ∈ front ++ c :: back ↔ '\'' ∈ front ∨ '\'' ∈ back := by simp [Ne.symm unquoted]
  simp only [isQuiet_iff, quotes, not_or, isUnremarked_join divider, avoids_join mark, Bool.and_eq_true]
  tauto

/-- Where one of two texts has a divider next to the other, they can be put together. -/
theorem isQuiet_append {words : List String} {front back : List Char}
    (meets : front.getLast?.all isDivider = true ∨ back.head?.all isDivider = true)
    (quietFront : isQuiet words front = true) (quietBack : isQuiet words back = true) :
    isQuiet words (front ++ back) = true := by
  rcases meets with ends | starts
  · rcases List.eq_nil_or_concat front with rfl | ⟨init, c, rfl⟩
    · exact quietBack
    · rw [List.concat_eq_append] at ends quietFront ⊢
      have divider : isDivider c = true := by simpa using ends
      rw [List.append_assoc]
      exact (isQuiet_join divider).mpr ⟨((isQuiet_join divider).mp quietFront).1, quietBack⟩
  · cases back with
    | nil => rwa [List.append_nil]
    | cons c back =>
      have divider : isDivider c = true := starts
      exact (isQuiet_join divider).mpr ⟨quietFront, ((@isQuiet_join words [] back c divider).mp quietBack).2⟩

/-! ### Quiet strings -/

/-- A quiet text that can stand behind any other. -/
structure Appends (words : List String) (text : String) : Prop where
  quiet : isQuiet words text.toList = true
  starts : text.toList.head?.all isDivider = true

/-- A quiet text with dividers at both ends. -/
def isDivision (words : List String) (literal : String) : Bool :=
  isQuiet words literal.toList && literal.toList.head?.any isDivider && literal.toList.getLast?.any isDivider

section

variable {words : List String} {front back text : String}

theorem appends_empty : Appends words "" := ⟨rfl, rfl⟩

theorem Appends.after (appends : Appends words back) (quiet : isQuiet words front.toList = true) :
    isQuiet words (front ++ back).toList = true := by
  rw [String.toList_append]
  exact isQuiet_append (.inr appends.starts) quiet appends.quiet

theorem Appends.append (first : Appends words front) (second : Appends words back) : Appends words (front ++ back) := by
  refine ⟨second.after first.quiet, ?_⟩
  rw [String.toList_append, List.head?_append]
  cases start : front.toList.head? with
  | none => exact second.starts
  | some c =>
    have divider := first.starts
    rwa [start] at divider

theorem quiet_prefixed (literal : String) (lead : isQuiet words literal.toList = true)
    (ends : literal.toList.getLast?.all isDivider = true) (quiet : isQuiet words text.toList = true) :
    isQuiet words (literal ++ text).toList = true := by
  rw [String.toList_append]
  exact isQuiet_append (.inl ends) lead quiet

theorem appends_prefixed (literal : String) (division : isDivision words literal = true)
    (quiet : isQuiet words text.toList = true) : Appends words (literal ++ text) := by
  simp only [isDivision, Bool.and_eq_true] at division
  obtain ⟨⟨lead, starts⟩, ends⟩ := division
  refine ⟨quiet_prefixed literal lead ?_ quiet, ?_⟩
  · cases last : literal.toList.getLast? with
    | none => rfl
    | some d => rwa [last] at ends
  · rw [String.toList_append, List.head?_append]
    cases start : literal.toList.head? with
    | none => rw [start] at starts; cases starts
    | some c => rwa [start] at starts

theorem appends_literal (literal : String) (division : isDivision words literal = true) : Appends words literal := by
  have empty : isQuiet words "".toList = true := rfl
  have appended := appends_prefixed literal division empty
  rwa [String.append_empty] at appended

theorem quiet_between (literal : String) (division : isDivision words literal = true)
    (quietFront : isQuiet words front.toList = true) (quietBack : isQuiet words back.toList = true) :
    isQuiet words (front ++ literal ++ back).toList = true := by
  rw [String.append_assoc]
  exact (appends_prefixed literal division quietBack).after quietFront

theorem quiet_suffixed (literal : String) (division : isDivision words literal = true)
    (quiet : isQuiet words text.toList = true) : isQuiet words (text ++ literal).toList = true :=
  (appends_literal literal division).after quiet

theorem quiet_intercalate (separator : String) (division : isDivision words separator = true) {texts : List String}
    (each : ∀ text ∈ texts, isQuiet words text.toList = true) :
    isQuiet words (separator.intercalate texts).toList = true := by
  induction texts with
  | nil => rfl
  | cons first others ih =>
    obtain ⟨head, tail⟩ := List.forall_mem_cons.mp each
    cases others with
    | nil => rwa [String.intercalate_singleton]
    | cons second others =>
      rw [String.intercalate_cons_cons]
      exact quiet_between separator division head (ih tail)

theorem appends_spaced (space : isDivision words " " = true) {texts : List String}
    (each : ∀ text ∈ texts, isQuiet words text.toList = true) : Appends words (spaced texts) := by
  induction texts with
  | nil => exact appends_empty
  | cons first others ih =>
    obtain ⟨head, tail⟩ := List.forall_mem_cons.mp each
    rw [Parser.spaced_cons]
    exact (appends_prefixed " " space head).append (ih tail)

/-- A parenthesis does not start a remark in front of a name. -/
theorem quiet_parens (close : isDivision words ")" = true) (starts : ∀ c ∈ text.toList.head?, c ≠ '*')
    (quiet : isQuiet words text.toList = true) : isQuiet words (parens text).toList = true := by
  obtain ⟨unquoted, unremarked, avoiding⟩ := isQuiet_iff.mp quiet
  refine quiet_suffixed ")" close (isQuiet_iff.mpr ?_)
  have shape : ("(" ++ text).toList = '(' :: text.toList := by simp
  rw [shape]
  refine ⟨by simpa using unquoted, ?_, ?_⟩
  · cases spelled : text.toList with
    | nil => rfl
    | cons c cs =>
      rw [spelled] at starts unremarked
      simp [isUnremarked, starts c rfl, unremarked]
  · rwa [avoids, identifiers_mark rfl]

end

/-! ### Names and bounds -/

theorem isUnremarked_of_not_mem {cs : List Char} (unopened : '(' ∉ cs) (undashed : '-' ∉ cs) : isUnremarked cs = true := by
  induction cs with
  | nil => rfl
  | cons c cs ih =>
    rw [List.mem_cons, not_or] at unopened undashed
    have tail := ih unopened.2 undashed.2
    cases cs with
    | nil => rfl
    | cons d cs => simp [isUnremarked, Ne.symm unopened.1, Ne.symm undashed.1, tail]

theorem quiet_identifier {words : List String} {name : Name} (identifier : name.isIdentifier = true)
    (outside : String.ofList (Text.upper name.toList) ∉ words) : isQuiet words name.toList = true := by
  have parts := Name.parts_of_isIdentifier identifier
  have absent {c : Char} (mark : Name.isPart c = false) : c ∉ name.toList :=
    fun member => by simp [parts c member] at mark
  refine isQuiet_iff.mpr ⟨absent rfl, isUnremarked_of_not_mem (absent rfl) (absent rfl), ?_⟩
  rw [avoids, identifiers_word (Name.toList_ne_nil identifier) parts]
  simpa using outside

theorem quiet_name {name : Name} (writable : name.isWritable = true) : isQuiet endWords name.toList = true :=
  quiet_identifier (Name.isIdentifier_of_isWritable writable) fun member =>
    Name.upper_not_mem writable (List.mem_append_right _ member)

/-- No digit starts a word that is looked for. -/
theorem avoids_endWords {cs : List Char} (unstarted : ∀ c ∈ cs, Name.isStart c = false) : avoids endWords cs = true := by
  have letters : ∀ word ∈ endWords, word.toList.head?.all Name.isStart = true := by decide
  refine List.all_eq_true.mpr fun word member => decide_eq_true ?_
  obtain ⟨filled, drawn⟩ := mem_identifiers member
  obtain ⟨c, rest, rfl⟩ := List.exists_cons_of_ne_nil filled
  intro listed
  have start : Name.isStart c.toUpper = true := by simpa [Text.upper] using letters _ listed
  rw [Name.isStart_toUpper, unstarted c (drawn c List.mem_cons_self)] at start
  cases start

theorem quiet_bounds {bounds : String} (fits : areBounds bounds = true) : isQuiet endWords bounds.toList = true := by
  have drawn : ∀ c ∈ bounds.toList, (c.isDigit = true ∨ c = '?') ∨ c = ':' := by
    simpa [areBounds] using fits
  have absent {c : Char} (other : ¬((c.isDigit = true ∨ c = '?') ∨ c = ':')) : c ∉ bounds.toList :=
    fun member => other (drawn c member)
  refine isQuiet_iff.mpr ⟨absent (by decide), isUnremarked_of_not_mem (absent (by decide)) (absent (by decide)), ?_⟩
  refine avoids_endWords fun c member => ?_
  rcases drawn c member with (digit | rfl) | rfl
  · exact Name.isStart_eq_false digit
  · rfl
  · rfl

/-! ### Cutting and stripping -/

theorem strip_cons {c : Char} {cs : List Char} (unquoted : c ≠ '\'') (unremarked : isUnremarked (c :: cs) = true) :
    strip .plain (c :: cs) = c :: strip .plain cs := by
  rw [strip, if_neg unquoted]
  · rintro rest rfl rfl
    cases unremarked
  · rintro rest rfl rfl
    cases unremarked

theorem strip_quiet {words : List String} {cs : List Char} (quiet : isQuiet words cs = true) : strip .plain cs = cs := by
  obtain ⟨unquoted, unremarked, -⟩ := isQuiet_iff.mp quiet
  clear quiet
  induction cs with
  | nil => rfl
  | cons c cs ih =>
    rw [List.mem_cons, not_or] at unquoted
    have tail : isUnremarked cs = true := by
      cases cs with
      | nil => rfl
      | cons d cs => exact (Bool.and_eq_true_iff.mp unremarked).2
    rw [strip_cons (Ne.symm unquoted.1) unremarked, ih unquoted.2 tail]

theorem splitStatement_takes {front rest : List Char} (unquoted : '\'' ∉ front) (single : ';' ∉ front) :
    splitStatement false (front ++ ';' :: rest) = some (front, rest) := by
  induction front with
  | nil => rfl
  | cons c front ih =>
    rw [List.mem_cons, not_or] at unquoted single
    rw [List.cons_append, splitStatement, if_neg fun ends => single.1 ends.1.symm, if_neg (Ne.symm unquoted.1),
      ih unquoted.2 single.2]
    rfl

theorem leadingWord_join {front back : List Char} {c : Char} (mark : Name.isPart c = false) :
    leadingWord (front ++ c :: back) = leadingWord front := by
  rw [← splitIdentifiers_fst, splitIdentifiers_join mark, splitIdentifiers_fst]

section

open Reader.Parser

variable {word : String} {rest : List Char}

theorem splitWord_found {c : Char} {cs : List Char} (found : keyword word (c :: cs) = some ((), rest)) :
    splitWord word.toList false (c :: cs) = some ([], rest) := by
  unfold keyword at found
  rw [splitWord, if_neg Bool.false_ne_true]
  cases dropped : dropWord? word.toList (c :: cs) with
  | none =>
    rw [dropped] at found
    cases found
  | some after =>
    rw [dropped] at found
    dsimp only at found ⊢
    split at found
    · rename_i ends
      cases found
      rw [if_pos ends]
    · cases found

theorem splitWord_missed {inName : Bool} {c : Char} {cs : List Char}
    (missed : inName = false → keyword word (c :: cs) = none) :
    splitWord word.toList inName (c :: cs) =
      (splitWord word.toList (Name.isPart c) cs).map fun (front, rest) => (c :: front, rest) := by
  cases inName with
  | true => rfl
  | false =>
    have missed := missed rfl
    unfold keyword at missed
    rw [splitWord, if_neg Bool.false_ne_true]
    cases dropped : dropWord? word.toList (c :: cs) with
    | none => rfl
    | some after =>
      rw [dropped] at missed
      dsimp only at missed ⊢
      split at missed
      · cases missed
      · rename_i inside
        rw [if_neg inside]

/-- The identifiers that start in a text. If it starts inside a name, that one does not count. -/
def identifiersFrom (inName : Bool) (cs : List Char) : List (List Char) :=
  if inName then (splitIdentifiers cs).2 else identifiers cs

theorem identifiersFrom_cons (inName : Bool) (c : Char) (cs : List Char) : identifiersFrom inName (c :: cs) =
    (if !inName && Name.isPart c then [leadingWord (c :: cs)] else []) ++ identifiersFrom (Name.isPart c) cs := by
  cases part : Name.isPart c with
  | true =>
    cases inName with
    | true => rw [identifiersFrom, splitIdentifiers_part part]; rfl
    | false => rw [← splitIdentifiers_fst, splitIdentifiers_part part]; exact identifiers_part part cs
  | false =>
    cases inName with
    | true => rw [identifiersFrom, splitIdentifiers_mark part]; rfl
    | false => exact identifiers_mark part cs

variable (identifier : Name.isIdentifier word = true) (upper : Text.upper word.toList = word.toList)
include identifier upper

/-- A word is found behind a text none of whose identifiers is that word. -/
theorem splitWord_takes {inName : Bool} {cs : List Char} (ends : atWordEnd rest = true)
    (avoiding : ∀ other ∈ identifiersFrom inName cs, Text.upper other ≠ word.toList) :
    splitWord word.toList inName (cs ++ ' ' :: (word.toList ++ rest)) = some (cs ++ [' '], rest) := by
  have parts := Name.parts_of_isIdentifier identifier
  have filled : Text.upper [] ≠ word.toList := fun same => Name.toList_ne_nil identifier same.symm
  induction cs generalizing inName with
  | nil =>
    have missed : keyword word (' ' :: (word.toList ++ rest)) = none := by
      rw [keyword_eq parts, if_neg]
      exact filled
    have found := keyword_identifier identifier upper ends
    rw [List.nil_append, splitWord_missed fun _ => missed]
    cases shape : word.toList ++ rest with
    | nil => exact absurd (List.append_eq_nil_iff.mp shape).1 (Name.toList_ne_nil identifier)
    | cons c letters =>
      rw [shape] at found
      rw [show Name.isPart ' ' = false from rfl, splitWord_found found]
      rfl
  | cons c cs ih =>
    rw [identifiersFrom_cons, List.forall_mem_append] at avoiding
    obtain ⟨first, later⟩ := avoiding
    have missed : inName = false → keyword word (c :: (cs ++ ' ' :: (word.toList ++ rest))) = none := by
      rintro rfl
      have leads : leadingWord (c :: (cs ++ ' ' :: (word.toList ++ rest))) = leadingWord (c :: cs) :=
        @leadingWord_join (c :: cs) _ ' ' rfl
      rw [keyword_eq parts, leads, if_neg]
      cases part : Name.isPart c with
      | true => exact first _ (by simp [part])
      | false =>
        rw [leadingWord, List.takeWhile_cons_of_neg (by simp [part])]
        exact filled
    rw [List.cons_append, splitWord_missed missed, ih later]
    rfl

end

end Express.Reader
