import Express.Reader
import Express.Proofs.Fronts
import Express.Proofs.Tokens

/-!
# Texts in upper case

The marks and blanks of a text are not letters, so all that tells its parts from each other is the same in upper case:
remarks, statements, words and blocks are found at the same places.
-/

namespace Express

/-! ### Characters -/

namespace Text

theorem toUpper_cases (c : Char) :
    c.toUpper = c ∨ (97 ≤ c.toNat ∧ c.toNat ≤ 122 ∧ c.toUpper.toNat = c.toNat - 32) := by
  unfold Char.toUpper
  split
  · rename_i lower
    obtain ⟨low, high⟩ := lower
    rw [UInt32.le_iff_toNat_le] at low high
    have shift : ('A'.val - 'a'.val).toNat = 4294967264 := rfl
    have low : 97 ≤ c.val.toNat := low
    have high : c.val.toNat ≤ 122 := high
    refine .inr ⟨low, high, ?_⟩
    change (c.val + ('A'.val - 'a'.val)).toNat = c.val.toNat - 32
    rw [UInt32.toNat_add, shift]
    omega
  · exact .inl rfl

theorem isAlpha_iff {c : Char} :
    c.isAlpha = true ↔ (65 ≤ c.toNat ∧ c.toNat ≤ 90) ∨ (97 ≤ c.toNat ∧ c.toNat ≤ 122) := by
  unfold Char.isAlpha Char.isUpper Char.isLower
  simp only [Bool.or_eq_true, Bool.and_eq_true, decide_eq_true_eq, ge_iff_le, UInt32.le_iff_toNat_le, Char.toNat_val,
    Char.reduceToNat]

/-- Only a letter is the upper-case form of another character. -/
theorem toUpper_eq_iff {c mark : Char} (sign : mark.isAlpha = false) : c.toUpper = mark ↔ c = mark := by
  rcases toUpper_cases c with same | ⟨low, high, shifted⟩
  · rw [same]
  · have plain : ¬ (mark.isAlpha = true) := by rw [sign]; exact Bool.false_ne_true
    rw [isAlpha_iff] at plain
    constructor
    · rintro rfl
      omega
    · rintro rfl
      omega

theorem toUpper_toUpper (c : Char) : c.toUpper.toUpper = c.toUpper := by
  rcases toUpper_cases c with same | ⟨low, high, shifted⟩
  · rw [same, same]
  · rcases toUpper_cases c.toUpper with same | ⟨again, _⟩
    · exact same
    · omega

theorem toUpper_of_not_isPart {c : Char} (mark : Name.isPart c = false) : c.toUpper = c := by
  rcases toUpper_cases c with same | ⟨low, high, _⟩
  · exact same
  · have letter : Name.isPart c = true := by
      unfold Name.isPart Char.isAlphanum
      rw [isAlpha_iff.mpr (.inr ⟨low, high⟩)]
      rfl
    rw [letter] at mark
    cases mark

theorem isBlank_toUpper (c : Char) : isBlank c.toUpper = isBlank c := by
  rcases toUpper_cases c with same | ⟨low, high, shifted⟩
  · rw [same]
  · have letter : ∀ d : Char, 65 ≤ d.toNat → d.toNat ≤ 122 → isBlank d = false := by
      intro d low high
      simp only [isBlank, Bool.or_eq_false_iff, Bool.and_eq_false_iff, decide_eq_false_iff_not, beq_eq_false_iff_ne]
      omega
    rw [letter c (by omega) high, letter c.toUpper (by omega) (by omega)]

theorem toUpper_beq {mark : Char} (sign : mark.isAlpha = false) (c : Char) : (c.toUpper == mark) = (c == mark) := by
  rw [Bool.eq_iff_iff, beq_iff_eq, beq_iff_eq, toUpper_eq_iff sign]

theorem isLayout_toUpper (c : Char) : isLayout c.toUpper = isLayout c := by
  have space := toUpper_beq (show ' '.isAlpha = false from rfl) c
  have tab := toUpper_beq (show '\t'.isAlpha = false from rfl) c
  have feed := toUpper_beq (show '\r'.isAlpha = false from rfl) c
  have line := toUpper_beq (show '\n'.isAlpha = false from rfl) c
  rw [isLayout, isLayout, space, tab, feed, line]

/-! ### Stretches of characters -/

theorem upper_cons (c : Char) (cs : List Char) : upper (c :: cs) = c.toUpper :: upper cs :=
  rfl

theorem upper_append (front back : List Char) : upper (front ++ back) = upper front ++ upper back :=
  List.map_append

theorem length_upper (cs : List Char) : (upper cs).length = cs.length :=
  List.length_map _

theorem upper_upper (cs : List Char) : upper (upper cs) = upper cs := by
  rw [upper, upper, List.map_map]
  exact List.map_congr_left fun c _ => toUpper_toUpper c

theorem toList_toUpper (text : String) : text.toUpper.toList = upper text.toList :=
  String.toList_map

theorem ofList_upper (cs : List Char) : String.ofList (upper cs) = (String.ofList cs).toUpper := by
  rw [← String.toList_inj, String.toList_ofList, toList_toUpper, String.toList_ofList]

theorem takeWhile_upper {inClass : Char → Bool} (blind : ∀ c, inClass c.toUpper = inClass c) (cs : List Char) :
    (upper cs).takeWhile inClass = upper (cs.takeWhile inClass) := by
  rw [upper, List.takeWhile_map, show inClass ∘ Char.toUpper = inClass from funext blind, upper]

theorem dropWhile_upper {inClass : Char → Bool} (blind : ∀ c, inClass c.toUpper = inClass c) (cs : List Char) :
    (upper cs).dropWhile inClass = upper (cs.dropWhile inClass) := by
  rw [upper, List.dropWhile_map, show inClass ∘ Char.toUpper = inClass from funext blind, upper]

theorem filter_upper {inClass : Char → Bool} (blind : ∀ c, inClass c.toUpper = inClass c) (cs : List Char) :
    (upper cs).filter inClass = upper (cs.filter inClass) := by
  rw [upper, List.filter_map, show inClass ∘ Char.toUpper = inClass from funext blind, upper]

theorem lineEnds_upper (cs : List Char) : lineEnds (upper cs) = lineEnds cs := by
  rw [lineEnds, lineEnds, upper, List.count_eq_countP, List.count_eq_countP, List.countP_map]
  exact List.countP_congr fun c _ => by
    rw [Function.comp_apply, toUpper_beq (show '\n'.isAlpha = false from rfl)]

theorem upper_reverse (cs : List Char) : upper cs.reverse = (upper cs).reverse :=
  List.map_reverse

theorem trimRight_upper (cs : List Char) : trimRight (upper cs) = upper (trimRight cs) := by
  rw [trimRight, trimRight, ← upper_reverse, dropWhile_upper isBlank_toUpper, upper_reverse]

theorem trim_upper (cs : List Char) : trim (upper cs) = upper (trim cs) := by
  rw [trim, trim, dropWhile_upper isBlank_toUpper, trimRight_upper]

theorem splitWords_upper (cs : List Char) :
    splitWords (upper cs) = (upper (splitWords cs).1, (splitWords cs).2.map upper) := by
  induction cs with
  | nil => rfl
  | cons c cs ih =>
    rw [upper_cons, splitWords, splitWords, ih, isBlank_toUpper]
    cases splitWords cs with
    | mk word others =>
      cases isBlank c with
      | false => rfl
      | true => cases word <;> rfl

theorem words_upper (cs : List Char) : words (upper cs) = (words cs).map upper := by
  rw [words, words, splitWords_upper]
  cases splitWords cs with
  | mk word others => cases word <;> rfl

theorem upper_intercalate (words : List (List Char)) :
    upper ([' '].intercalate words) = [' '].intercalate (words.map upper) := by
  induction words with
  | nil => rfl
  | cons word words ih =>
    cases words with
    | nil => simp [List.intercalate_singleton]
    | cons next words =>
      rw [List.map_cons, List.map_cons, List.intercalate_cons_cons, List.intercalate_cons_cons, upper_append,
        upper_append, ih]
      rfl

theorem singleSpaced_upper (cs : List Char) : singleSpaced (upper cs) = upper (singleSpaced cs) := by
  rw [singleSpaced, singleSpaced, words_upper, upper_intercalate]

end Text

/-! ### Remarks, statements and words -/

namespace Reader

open Text

/-- A mark of two characters that a text does not start with does not come up in upper case either. -/
theorem no_mark_upper {c first second : Char} {cs : List Char} (sign : first.isAlpha = false)
    (sign' : second.isAlpha = false) (other : ∀ rest, c = first → cs = second :: rest → False) :
    ∀ rest, c.toUpper = first → upper cs = second :: rest → False := by
  intro rest head tail
  cases cs with
  | nil => cases tail
  | cons d cs =>
    rw [upper_cons, List.cons.injEq, toUpper_eq_iff sign'] at tail
    exact other cs ((toUpper_eq_iff sign).mp head) (by rw [tail.1])

theorem strip_upper (mode : Mode) (cs : List Char) : strip mode (upper cs) = upper (strip mode cs) := by
  fun_induction strip mode cs with
  | case1 mode => rw [upper, List.map_nil, strip]
  | case2 cs ih =>
    change strip .tail ('\n' :: upper cs) = '\n' :: upper _
    rw [strip, if_pos rfl, ih]
  | case3 c cs other ih =>
    rw [upper_cons, strip, if_neg fun same => other ((toUpper_eq_iff rfl).mp same), ih]
  | case4 outer cs ih =>
    change strip (.remark outer) ('(' :: '*' :: upper cs) = upper _
    rw [strip, ih]
  | case5 cs ih =>
    change strip (.remark 0) ('*' :: ')' :: upper cs) = upper _
    rw [strip, ih]
  | case6 outer cs ih =>
    change strip (.remark (outer + 1)) ('*' :: ')' :: upper cs) = upper _
    rw [strip, ih]
  | case7 outer cs opens closes leaves ih =>
    change strip (.remark outer) ('\n' :: upper cs) = '\n' :: upper _
    rw [strip, if_pos rfl, ih]
    · intro rest same
      exact absurd same (by decide)
    · intro rest outermost same
      exact absurd same (by decide)
    · intro further rest deeper same
      exact absurd same (by decide)
  | case8 outer c cs opens closes leaves other ih =>
    rw [upper_cons, strip, if_neg fun same => other ((toUpper_eq_iff rfl).mp same), ih]
    · exact no_mark_upper rfl rfl opens
    · intro rest outermost
      exact no_mark_upper rfl rfl (fun rest => closes rest outermost) rest
    · intro further rest deeper
      exact no_mark_upper rfl rfl (fun rest => leaves further rest deeper) rest
  | case9 c cs ih =>
    rw [upper_cons, strip, upper_cons, ← ih, if_congr (toUpper_eq_iff rfl) rfl rfl]
  | case10 cs ih =>
    change strip .plain ('(' :: '*' :: upper cs) = ' ' :: upper _
    rw [strip, ih]
  | case11 cs ih =>
    change strip .plain ('-' :: '-' :: upper cs) = upper _
    rw [strip, ih]
  | case12 c cs opens tails ih =>
    rw [upper_cons, strip, upper_cons, ← ih, if_congr (toUpper_eq_iff rfl) rfl rfl]
    · exact no_mark_upper rfl rfl opens
    · exact no_mark_upper rfl rfl tails

theorem quoted_toUpper (c : Char) (quoted : Bool) :
    (if c.toUpper = '\'' then !quoted else quoted) = if c = '\'' then !quoted else quoted :=
  if_congr (toUpper_eq_iff rfl) rfl rfl

theorem splitStatement_upper (quoted : Bool) (cs : List Char) :
    splitStatement quoted (upper cs) = (splitStatement quoted cs).map (Prod.map upper upper) := by
  induction cs generalizing quoted with
  | nil => rfl
  | cons c cs ih =>
    rw [upper_cons, splitStatement, splitStatement, quoted_toUpper, ih]
    by_cases ends : c = ';' ∧ !quoted
    · rw [if_pos ends, if_pos ⟨(toUpper_eq_iff rfl).mpr ends.1, ends.2⟩]
      rfl
    · rw [if_neg ends, if_neg fun same => ends ⟨(toUpper_eq_iff rfl).mp same.1, same.2⟩, Option.map_map, Option.map_map]
      rfl

theorem dropWord?_upper (word cs : List Char) :
    Parser.dropWord? word (upper cs) = (Parser.dropWord? word cs).map upper := by
  induction word generalizing cs with
  | nil => rfl
  | cons w word ih =>
    cases cs with
    | nil => rfl
    | cons c cs =>
      rw [upper_cons, Parser.dropWord?, Parser.dropWord?, toUpper_toUpper, ih]
      split <;> rfl

theorem atWordEnd_upper (cs : List Char) : Parser.atWordEnd (upper cs) = Parser.atWordEnd cs := by
  cases cs with
  | nil => rfl
  | cons c cs => rw [upper_cons, Parser.atWordEnd, Parser.atWordEnd, Name.isPart_toUpper]

theorem splitWord_upper (word : List Char) (inName : Bool) (cs : List Char) :
    splitWord word inName (upper cs) = (splitWord word inName cs).map (Prod.map upper upper) := by
  induction cs generalizing inName with
  | nil => rfl
  | cons c cs ih =>
    have later : (splitWord word (Name.isPart c) (upper cs)).map (fun found => (c.toUpper :: found.1, found.2)) =
        ((splitWord word (Name.isPart c) cs).map fun found => (c :: found.1, found.2)).map (Prod.map upper upper) := by
      rw [ih, Option.map_map, Option.map_map]
      rfl
    have dropped := dropWord?_upper word (c :: cs)
    rw [upper_cons] at dropped ⊢
    rw [splitWord, splitWord, Name.isPart_toUpper, dropped]
    cases inName with
    | true => exact later
    | false =>
      cases found : Parser.dropWord? word (c :: cs) with
      | none => exact later
      | some rest =>
        rw [if_neg Bool.false_ne_true, if_neg Bool.false_ne_true]
        dsimp only [Option.map_some]
        rw [atWordEnd_upper]
        cases Parser.atWordEnd rest with
        | true => rfl
        | false => exact later

theorem leadingWord_upper (cs : List Char) : leadingWord (upper cs) = upper (leadingWord cs) :=
  takeWhile_upper Name.isPart_toUpper cs

/-! ### Blocks -/

def Cut.upper (piece : Cut) : Cut where
  body := Text.upper piece.body
  gap := Text.upper piece.gap
  rest := Text.upper piece.rest

theorem cut?_upper (kind : BlockKind) (cs : List Char) : cut? kind (upper cs) = (cut? kind cs).map Cut.upper := by
  unfold cut?
  rw [splitWord_upper]
  cases splitWord kind.endKeyword.toList false cs with
  | none => rfl
  | some found =>
    dsimp only [Option.map_some, Prod.map]
    rw [splitStatement_upper]
    cases splitStatement false found.2 with
    | none => rfl
    | some pieces => rfl

def Block.upper (block : Block) : Block :=
  { block with text := Text.upper block.text }

def Front.upper : Front → Front
  | .ends ending => .ends ending
  | .clause line rest => .clause line (Text.upper rest)
  | .block first line rest => .block first.upper line (Text.upper rest)

theorem toUpper_of_no_word {c : Char} {tail : List Char}
    (empty : String.ofList (upper (leadingWord (c :: tail))) = "") : c.toUpper = c := by
  refine toUpper_of_not_isPart ?_
  cases inWord : Name.isPart c with
  | false => rfl
  | true =>
    rw [leadingWord, List.takeWhile_cons_of_pos inWord, upper_cons] at empty
    cases String.ofList_eq_empty_iff.mp empty

theorem frontAt_upper (line : Nat) (cs : List Char) : frontAt line (upper cs) = (frontAt line cs).upper := by
  cases cs with
  | nil => rfl
  | cons c tail =>
    have words : upper (leadingWord (c.toUpper :: upper tail)) = upper (leadingWord (c :: tail)) := by
      rw [← upper_cons, leadingWord_upper, upper_upper]
    have statement := splitStatement_upper false (c :: tail)
    have piece := fun kind => cut?_upper kind (c :: tail)
    rw [upper_cons] at statement piece ⊢
    have silent := @toUpper_of_no_word c tail
    rw [frontAt, frontAt, words, statement]
    generalize String.ofList (upper (leadingWord (c :: tail))) = word at silent ⊢
    by_cases ended : word = "END_SCHEMA"
    · rw [if_pos ended, if_pos ended]
      rfl
    rw [if_neg ended, if_neg ended]
    by_cases used : word = "USE" ∨ word = "REFERENCE"
    · rw [if_pos used, if_pos used]
      cases splitStatement false (c :: tail) with
      | none => rfl
      | some pieces =>
        dsimp only [Option.map_some, Prod.map]
        rw [lineEnds_upper]
        rfl
    rw [if_neg used, if_neg used]
    cases BlockKind.ofKeyword? word with
    | none =>
      by_cases empty : word = ""
      · rw [silent empty]
        rfl
      · dsimp only
        rw [if_neg empty, if_neg empty]
        rfl
    | some kind =>
      dsimp only
      rw [piece kind]
      cases cut? kind (c :: tail) with
      | none => rfl
      | some piece =>
        dsimp only [Option.map_some, Cut.upper]
        rw [lineEnds_upper, lineEnds_upper, trim_upper]
        rfl

theorem front_upper (line : Nat) (cs : List Char) : front line (upper cs) = (front line cs).upper := by
  rw [front, front, takeWhile_upper isBlank_toUpper, dropWhile_upper isBlank_toUpper, lineEnds_upper, frontAt_upper]

/-- In upper case the same blocks are found on the same lines. -/
theorem split_upper (line : Nat) (cs : List Char) :
    split line (upper cs) = ((split line cs).1.map Block.upper, (split line cs).2) := by
  induction line, cs using split_induction with
  | ends line cs ending seen =>
    rw [split_eq, split_eq line cs, front_upper, seen]
    rfl
  | clause line cs next rest seen ih =>
    rw [split_eq, split_eq line cs, front_upper, seen]
    exact ih
  | block line cs first next rest seen ih =>
    rw [split_eq, split_eq line cs, front_upper, seen]
    dsimp only [Front.upper]
    rw [ih]
    rfl

end Reader

end Express
