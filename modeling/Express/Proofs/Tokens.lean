import Express.Proofs.Canonical
import Mathlib.Data.List.Basic

/-!
# Reading tokens

What each parser takes from a text that starts with what it looks for, and when it fails. Words are told by the
identifier that a text starts with: a keyword is taken exactly if that identifier is the keyword in some case.
-/

namespace Express

open Reader

/-! ### Words -/

theorem Name.isPart_toUpper (c : Char) : isPart c.toUpper = isPart c := by
  unfold isPart Char.isAlphanum Char.isAlpha Char.isUpper Char.isLower Char.isDigit Char.toUpper
  split <;> grind [UInt32.toNat_add, Char.toNat_val]

theorem Name.isStart_toUpper (c : Char) : isStart c.toUpper = isStart c := by
  unfold isStart Char.isAlpha Char.isUpper Char.isLower Char.toUpper
  split <;> grind [UInt32.toNat_add, Char.toNat_val]

theorem Name.isStart_eq_false {c : Char} (digit : c.isDigit = true) : isStart c = false := by
  unfold Char.isDigit at digit
  simp only [Bool.and_eq_true, decide_eq_true_eq, ge_iff_le, UInt32.le_iff_toNat_le, Char.toNat_val,
    Char.reduceToNat] at digit
  rw [Bool.eq_false_iff]
  unfold isStart Char.isAlpha Char.isUpper Char.isLower
  simp only [Bool.or_eq_true, Bool.and_eq_true, decide_eq_true_eq, beq_iff_eq, ge_iff_le, UInt32.le_iff_toNat_le,
    Char.toNat_val, Char.reduceToNat, ne_eq]
  rintro ((upper | lower) | rfl)
  · omega
  · omega
  · exact absurd digit (by decide)

theorem Name.isBlank_eq_false {c : Char} (part : isPart c = true) : Text.isBlank c = false := by
  have range : 48 ≤ c.toNat ∧ c.toNat ≤ 122 := by
    unfold isPart Char.isAlphanum Char.isAlpha Char.isUpper Char.isLower Char.isDigit at part
    simp only [Bool.or_eq_true, Bool.and_eq_true, decide_eq_true_eq, beq_iff_eq, ge_iff_le, UInt32.le_iff_toNat_le,
      Char.toNat_val, Char.reduceToNat] at part
    rcases part with (((part | part) | part) | rfl)
    · omega
    · omega
    · omega
    · decide
  simp only [Text.isBlank, Bool.or_eq_false_iff, Bool.and_eq_false_iff, decide_eq_false_iff_not, beq_eq_false_iff_ne]
  omega

theorem Name.isPart_of_isBlank {c : Char} (blank : Text.isBlank c = true) : isPart c = false := by
  rw [Bool.eq_false_iff]
  intro part
  exact Text.ne_of_isBlank blank (isBlank_eq_false part) rfl

theorem Name.isLayout_eq_false {c : Char} (part : isPart c = true) : Text.isLayout c = false := by
  rw [Bool.eq_false_iff]
  intro layout
  exact absurd (Text.isBlank_of_isLayout layout) (by simp [isBlank_eq_false part])

namespace Reader

theorem leadingWord_append {word rest : List Char} (parts : ∀ c ∈ word, Name.isPart c = true)
    (ends : Parser.atWordEnd rest = true) : leadingWord (word ++ rest) = word := by
  rw [leadingWord, List.takeWhile_append_of_pos parts]
  cases rest with
  | nil => simp
  | cons c cs =>
    have stop : Name.isPart c = false := by simpa [Parser.atWordEnd] using ends
    simp [stop]

theorem dropWhile_isPart_append {word rest : List Char} (parts : ∀ c ∈ word, Name.isPart c = true)
    (ends : Parser.atWordEnd rest = true) : (word ++ rest).dropWhile Name.isPart = rest := by
  rw [List.dropWhile_append_of_pos parts]
  cases rest with
  | nil => rfl
  | cons c cs =>
    have stop : Name.isPart c = false := by simpa [Parser.atWordEnd] using ends
    simp [stop]

theorem keywords_spelled : ∀ word ∈ keywords, Name.isIdentifier word = true ∧ Text.upper word.toList = word.toList := by
  decide

end Reader

namespace Name

variable {name : Name}

theorem exists_cons_of_isIdentifier (identifier : name.isIdentifier = true) :
    ∃ c cs, name.toList = c :: cs ∧ isStart c = true ∧ ∀ d ∈ cs, isPart d = true := by
  unfold isIdentifier at identifier
  split at identifier
  · cases identifier
  · rename_i c cs spelled
    obtain ⟨start, parts⟩ := Bool.and_eq_true_iff.mp identifier
    exact ⟨c, cs, spelled, start, List.all_eq_true.mp parts⟩

theorem toList_ne_nil (identifier : name.isIdentifier = true) : name.toList ≠ [] := by
  obtain ⟨c, cs, spelled, -, -⟩ := exists_cons_of_isIdentifier identifier
  rw [spelled]
  exact List.cons_ne_nil c cs

theorem parts_of_isIdentifier (identifier : name.isIdentifier = true) : ∀ c ∈ name.toList, isPart c = true := by
  obtain ⟨c, cs, spelled, start, parts⟩ := exists_cons_of_isIdentifier identifier
  rw [spelled]
  exact List.forall_mem_cons.mpr ⟨isPart_of_isStart start, parts⟩

theorem isIdentifier_of_isWritable (writable : name.isWritable = true) : name.isIdentifier = true :=
  (Bool.and_eq_true_iff.mp writable).1

theorem upper_not_mem (writable : name.isWritable = true) :
    String.ofList (Text.upper name.toList) ∉ keywords ++ endWords :=
  of_decide_eq_true (Bool.and_eq_true_iff.mp writable).2

theorem isIdentifier_of_isNoneOf {words : List String} (outside : name.isNoneOf words = true) :
    name.isIdentifier = true :=
  (Bool.and_eq_true_iff.mp outside).1

theorem isNoneOf_of_isWritable (writable : name.isWritable = true) {words : List String}
    (known : ∀ word ∈ words, word ∈ keywords) : name.isNoneOf words = true := by
  refine Bool.and_eq_true_iff.mpr ⟨isIdentifier_of_isWritable writable, decide_eq_true ?_⟩
  intro member
  exact upper_not_mem writable (List.mem_append_left _ (known _ member))

theorem upper_ne_of_isNoneOf {words : List String} (outside : name.isNoneOf words = true) {word : String}
    (listed : word ∈ words) : Text.upper name.toList ≠ word.toList := by
  intro same
  refine of_decide_eq_true (Bool.and_eq_true_iff.mp outside).2 ?_
  rw [same, String.ofList_toList]
  exact listed

end Name

namespace Reader.Parser

/-! ### Sequence and choice -/

section Combinators

variable {α β : Type} {p q : Parser α} {f : α → Parser β} {cs mid rest : List Char} {a : α} {b : β}

theorem bind_takes (first : p cs = some (a, mid)) (next : f a mid = some (b, rest)) : (p >>= f) cs = some (b, rest) := by
  dsimp only [bind]
  rw [first]
  exact next

theorem bind_fails (first : p cs = none) : (p >>= f) cs = none := by
  dsimp only [bind]
  rw [first]

theorem bind_fails_next (first : p cs = some (a, mid)) (next : f a mid = none) : (p >>= f) cs = none := by
  dsimp only [bind]
  rw [first]
  exact next

theorem orElse_first (found : p cs = some (a, rest)) : (p <|> q) cs = some (a, rest) := by
  dsimp only [HOrElse.hOrElse, OrElse.orElse]
  rw [found]

theorem orElse_second (failed : p cs = none) : (p <|> q) cs = q cs := by
  dsimp only [HOrElse.hOrElse, OrElse.orElse]
  rw [failed]

theorem maybe_takes (found : p cs = some (a, rest)) : maybe p cs = some (some a, rest) := by
  rw [maybe, found]

theorem maybe_fails (failed : p cs = none) : maybe p cs = some (none, cs) := by
  rw [maybe, failed]

theorem given_takes (found : p cs = some (a, rest)) : given p cs = some (true, rest) :=
  bind_takes (maybe_takes found) rfl

theorem given_fails (failed : p cs = none) : given p cs = some (false, cs) :=
  bind_takes (maybe_fails failed) rfl

/-! ### Repetition -/

theorem many_fails (failed : p cs = none) : many p cs = some ([], cs) := by
  rw [many, failed]

/-- Rounds of `p` over the texts of some items, up to a text at which it fails. `follows` is what an item's text needs
behind it. -/
theorem many_takes {write : α → List Char} (follows : List Char → Prop) {items : List α}
    (reads : ∀ a ∈ items, ∀ next, follows next → p (write a ++ next) = some (a, next))
    (filled : ∀ a, write a ≠ []) (inner : ∀ a next, follows (write a ++ next)) (last : follows rest)
    (stops : p rest = none) : many p (items.flatMap write ++ rest) = some (items, rest) := by
  induction items with
  | nil => exact many_fails stops
  | cons a items ih =>
    have follow : follows (items.flatMap write ++ rest) := by
      cases items with
      | nil => exact last
      | cons b items =>
        rw [List.flatMap_cons, List.append_assoc]
        exact inner b _
    have first := reads a List.mem_cons_self _ follow
    have shorter : (items.flatMap write ++ rest).length < (write a ++ (items.flatMap write ++ rest)).length := by
      have := List.length_pos_iff.mpr (filled a)
      simp only [List.length_append]
      omega
    rw [List.flatMap_cons, List.append_assoc, many, first]
    dsimp only
    rw [if_pos shorter, ih fun b member => reads b (List.mem_cons_of_mem a member)]

theorem nested_core {wrap : Parser (α → α)} (unwrapped : wrap cs = none) : nested wrap p cs = p cs := by
  rw [nested, unwrapped]

theorem nested_wraps {wrap : Parser (α → α)} {g : α → α} (outer : wrap cs = some (g, mid))
    (shorter : mid.length < cs.length) (inner : nested wrap p mid = some (a, rest)) :
    nested wrap p cs = some (g a, rest) := by
  rw [nested, outer]
  dsimp only
  rw [if_pos shorter, inner]

end Combinators

/-! ### Blanks and symbols -/

section Tokens

variable {α : Type} {p : Parser α} {cs rest : List Char} {c : Char}

@[simp]
theorem token_space : token p (' ' :: cs) = token p cs := rfl

theorem token_cons (filled : Text.isLayout c = false) : token p (c :: cs) = p (c :: cs) := by
  change p ((c :: cs).dropWhile Text.isLayout) = _
  rw [List.dropWhile_cons_of_neg (by simp [filled])]

theorem dropWhile_isLayout_word (starts : leadingWord cs ≠ []) : cs.dropWhile Text.isLayout = cs := by
  cases cs with
  | nil => rfl
  | cons c cs =>
    have part : Name.isPart c = true := by
      by_contra other
      exact starts (List.takeWhile_cons_of_neg other)
    exact List.dropWhile_cons_of_neg (by simp [Name.isLayout_eq_false part])

theorem token_word (starts : leadingWord cs ≠ []) : token p cs = p cs := by
  change p (cs.dropWhile Text.isLayout) = _
  rw [dropWhile_isLayout_word starts]

theorem blanks_space (starts : leadingWord cs ≠ []) : blanks (' ' :: cs) = some ((), cs) := by
  change some ((), cs.dropWhile Text.isLayout) = _
  rw [dropWhile_isLayout_word starts]

theorem char_takes : char c (c :: cs) = some ((), cs) := by
  simp [char]

theorem symbol_takes (filled : Text.isLayout c = false) : symbol c (c :: cs) = some ((), cs) :=
  (token_cons filled).trans char_takes

/-- No symbol is read off a word. -/
theorem symbol_fails_word (starts : leadingWord cs ≠ []) (mark : Name.isPart c = false) : symbol c cs = none := by
  rw [symbol, token_word starts]
  cases cs with
  | nil => rfl
  | cons d cs =>
    rw [char, if_neg]
    rintro rfl
    exact starts (List.takeWhile_cons_of_neg (by simp [mark]))

/-! ### Identifiers -/

section

variable {name : Name} (identifier : name.isIdentifier = true)
include identifier

theorem token_identifier : token p (name.toList ++ rest) = p (name.toList ++ rest) := by
  obtain ⟨c, cs, spelled, start, -⟩ := Name.exists_cons_of_isIdentifier identifier
  rw [spelled]
  exact token_cons (Name.isLayout_eq_false (Name.isPart_of_isStart start))

variable (ends : atWordEnd rest = true)
include ends

theorem leadingWord_identifier : leadingWord (name.toList ++ rest) = name.toList :=
  leadingWord_append (Name.parts_of_isIdentifier identifier) ends

theorem ident_identifier : ident (name.toList ++ rest) = some (name, rest) := by
  obtain ⟨c, cs, spelled, start, parts⟩ := Name.exists_cons_of_isIdentifier identifier
  have name_eq : name = String.ofList (c :: cs) := by rw [← spelled, String.ofList_toList]
  have word : (cs ++ rest).takeWhile Name.isPart = cs := leadingWord_append parts ends
  rw [spelled, List.cons_append, ident, if_pos start, word, dropWhile_isPart_append parts ends, ← name_eq]

end

/-! ### Keywords -/

/-- A keyword is taken exactly if the text starts with it as a whole word. -/
theorem keyword_eq {word : String} (parts : ∀ c ∈ word.toList, Name.isPart c = true) (cs : List Char) :
    keyword word cs = if Text.upper (leadingWord cs) = word.toList then some ((), cs.dropWhile Name.isPart) else none := by
  unfold keyword
  generalize word.toList = letters at parts
  induction letters generalizing cs with
  | nil =>
    rw [dropWord?]
    dsimp only
    cases cs with
    | nil => rfl
    | cons c cs => cases part : Name.isPart c <;> simp [atWordEnd, leadingWord, Text.upper, part]
  | cons w letters ih =>
    cases cs with
    | nil => simp [dropWord?, leadingWord, Text.upper]
    | cons c cs =>
      rw [dropWord?]
      by_cases same : c.toUpper = w
      · have part : Name.isPart c = true := by
          rw [← Name.isPart_toUpper, same]
          exact parts w List.mem_cons_self
        rw [if_pos same, ih cs fun d member => parts d (List.mem_cons_of_mem w member)]
        refine if_congr ?_ ?_ rfl
        · simp [leadingWord, Text.upper, part, same]
        · rw [List.dropWhile_cons_of_pos part]
      · rw [if_neg same, if_neg]
        cases part : Name.isPart c <;> simp [leadingWord, Text.upper, part, same]

theorem keyword_identifier {word : String} (identifier : Name.isIdentifier word = true)
    (upper : Text.upper word.toList = word.toList) (ends : atWordEnd rest = true) :
    keyword word (word.toList ++ rest) = some ((), rest) := by
  have parts := Name.parts_of_isIdentifier identifier
  rw [keyword_eq parts, leadingWord_append parts ends, dropWhile_isPart_append parts ends, if_pos upper]

section

variable {word : String} (listed : word ∈ keywords) (ends : atWordEnd rest = true)
include listed ends

theorem leadingWord_keyword : leadingWord (word.toList ++ rest) = word.toList :=
  leadingWord_identifier (keywords_spelled word listed).1 ends

theorem keyword_takes : keyword word (word.toList ++ rest) = some ((), rest) :=
  keyword_identifier (keywords_spelled word listed).1 (keywords_spelled word listed).2 ends

theorem token_keyword : token (keyword word) (word.toList ++ rest) = some ((), rest) :=
  (token_identifier (keywords_spelled word listed).1).trans (keyword_takes listed ends)

end

theorem keyword_nil {word : String} (listed : word ∈ keywords) : keyword word [] = none := by
  obtain ⟨identifier, -⟩ := keywords_spelled word listed
  rw [keyword_eq (Name.parts_of_isIdentifier identifier), if_neg]
  exact fun same => Name.toList_ne_nil identifier same.symm

/-- The text starts with a word, but with another one. -/
def StartsOther (word : String) (cs : List Char) : Prop :=
  leadingWord cs ≠ [] ∧ Text.upper (leadingWord cs) ≠ word.toList

theorem startsOther_of_keyword {first word : String} (listed : first ∈ keywords)
    (leads : leadingWord cs = first.toList) (other : first ≠ word) : StartsOther word cs := by
  obtain ⟨identifier, upper⟩ := keywords_spelled first listed
  rw [StartsOther, leads, upper]
  exact ⟨Name.toList_ne_nil identifier, fun same => other (String.toList_inj.mp same)⟩

theorem startsOther_keyword {first word : String} (listed : first ∈ keywords) (ends : atWordEnd rest = true)
    (other : first ≠ word) : StartsOther word (first.toList ++ rest) :=
  startsOther_of_keyword listed (leadingWord_keyword listed ends) other

theorem startsOther_of_name {name : Name} {words : List String} (outside : name.isNoneOf words = true) {word : String}
    (listed : word ∈ words) (leads : leadingWord cs = name.toList) : StartsOther word cs := by
  rw [StartsOther, leads]
  exact ⟨Name.toList_ne_nil (Name.isIdentifier_of_isNoneOf outside), Name.upper_ne_of_isNoneOf outside listed⟩

theorem keyword_fails {word : String} (listed : word ∈ keywords) (other : StartsOther word cs) : keyword word cs = none := by
  rw [keyword_eq (Name.parts_of_isIdentifier (keywords_spelled word listed).1), if_neg other.2]

theorem token_keyword_fails {word : String} (listed : word ∈ keywords) (other : StartsOther word cs) :
    token (keyword word) cs = none :=
  (token_word other.1).trans (keyword_fails listed other)

/-! ### Constants -/

theorem constant_fails {constants : List α} {word : α → String} (listed : ∀ a ∈ constants, word a ∈ keywords)
    (others : ∀ a ∈ constants, StartsOther (word a) cs) : constant constants word cs = none := by
  induction constants with
  | nil => rfl
  | cons a constants ih =>
    have failed : (do keyword (word a); return a : Parser α) cs = none :=
      bind_fails (keyword_fails (listed a List.mem_cons_self) (others a List.mem_cons_self))
    refine (orElse_second failed).trans (ih ?_ ?_)
    · exact fun b member => listed b (List.mem_cons_of_mem a member)
    · exact fun b member => others b (List.mem_cons_of_mem a member)

theorem constant_takes {constants : List α} {word : α → String} (listed : ∀ a ∈ constants, word a ∈ keywords)
    (distinct : ∀ a ∈ constants, ∀ b ∈ constants, word a = word b → a = b) {a : α} (member : a ∈ constants)
    (ends : atWordEnd rest = true) : constant constants word ((word a).toList ++ rest) = some (a, rest) := by
  have taken : keyword (word a) ((word a).toList ++ rest) = some ((), rest) := keyword_takes (listed a member) ends
  induction constants with
  | nil => cases member
  | cons b constants ih =>
    by_cases same : word b = word a
    · cases distinct b List.mem_cons_self a member same
      exact orElse_first (bind_takes taken rfl)
    · have failed : keyword (word b) ((word a).toList ++ rest) = none :=
        keyword_fails (listed b List.mem_cons_self) (startsOther_keyword (listed a member) ends (Ne.symm same))
      rcases List.mem_cons.mp member with rfl | member
      · exact absurd rfl same
      · refine (orElse_second (bind_fails failed)).trans (ih ?_ ?_ member)
        · exact fun d present => listed d (List.mem_cons_of_mem b present)
        · exact fun d present e other => distinct d (List.mem_cons_of_mem b present) e (List.mem_cons_of_mem b other)

/-! ### Names -/

section

variable {name : Name} (writable : name.isWritable = true) (ends : atWordEnd rest = true)
include writable ends

theorem leadingWord_name : leadingWord (name.toList ++ rest) = name.toList :=
  leadingWord_identifier (Name.isIdentifier_of_isWritable writable) ends

theorem startsOther_name {word : String} (listed : word ∈ keywords) : StartsOther word (name.toList ++ rest) :=
  startsOther_of_name (Name.isNoneOf_of_isWritable writable fun _ => id) listed (leadingWord_name writable ends)

theorem ident_takes : ident (name.toList ++ rest) = some (name, rest) :=
  ident_identifier (Name.isIdentifier_of_isWritable writable) ends

theorem token_ident : token ident (name.toList ++ rest) = some (name, rest) :=
  (token_identifier (Name.isIdentifier_of_isWritable writable)).trans (ident_takes writable ends)

end

/-! ### Lists -/

theorem toList_intercalate_cons (separator first : String) (others : List String) :
    (separator.intercalate (first :: others)).toList =
      first.toList ++ others.flatMap fun text => separator.toList ++ text.toList := by
  rw [String.toList_intercalate]
  induction others generalizing first with
  | nil => simp
  | cons second others ih =>
    have tail := ih second
    simp only [List.map_cons, List.intercalate_cons_cons, List.flatMap_cons] at tail ⊢
    rw [tail, List.append_assoc, List.append_assoc]

theorem mem_toList_intercalate {separator : String} {texts : List String} {c : Char}
    (member : c ∈ (separator.intercalate texts).toList) :
    c ∈ separator.toList ∨ ∃ text ∈ texts, c ∈ text.toList := by
  cases texts with
  | nil => cases member
  | cons first others =>
    rw [toList_intercalate_cons, List.mem_append, List.mem_flatMap] at member
    rcases member with member | ⟨text, present, member⟩
    · exact .inr ⟨first, List.mem_cons_self, member⟩
    · refine (List.mem_append.mp member).imp_right fun member => ?_
      exact ⟨text, List.mem_cons_of_mem first present, member⟩

/-- Items with a symbol and a space between neighbours. `follows` is what an item's text needs behind it. -/
theorem sepBy1_takes (separator : String) (text : α → String) {follows : List Char → Prop} {items : List α}
    (written : separator.toList = [c, ' ']) (filled : Text.isLayout c = false) (nonempty : items ≠ [])
    (reads : ∀ a ∈ items, ∀ next, follows next → token p ((text a).toList ++ next) = some (a, next))
    (inner : ∀ next, follows (c :: next)) (last : follows rest) (stops : symbol c rest = none) :
    sepBy1 (symbol c) (token p) ((separator.intercalate (items.map text)).toList ++ rest) = some (items, rest) := by
  obtain ⟨first, others, rfl⟩ := List.exists_cons_of_ne_nil nonempty
  have round : ∀ a ∈ others, ∀ next, follows next →
      (do let _ ← symbol c; token p : Parser α) ((c :: ' ' :: (text a).toList) ++ next) = some (a, next) :=
    fun a member next follow => bind_takes (symbol_takes filled) (reads a (List.mem_cons_of_mem first member) next follow)
  have tail := many_takes follows round (fun _ => List.cons_ne_nil _ _) (fun a next => inner _) last (bind_fails stops)
  have follow : follows (others.flatMap (fun a => c :: ' ' :: (text a).toList) ++ rest) := by
    cases others with
    | nil => exact last
    | cons a others => exact inner _
  rw [List.map_cons, toList_intercalate_cons, written, List.append_assoc, List.flatMap_map]
  exact bind_takes (reads first List.mem_cons_self _ follow) (bind_takes tail rfl)

theorem spaced_cons (first : String) (others : List String) : spaced (first :: others) = " " ++ first ++ spaced others := by
  simp [spaced, String.join_cons]

theorem toList_spaced (texts : List String) : (spaced texts).toList = texts.flatMap fun text => ' ' :: text.toList := by
  simp [spaced, List.flatMap, Function.comp_def]

theorem many_spaced (text : α → String) {items : List α}
    (reads : ∀ a ∈ items, ∀ next, token p ((text a).toList ++ next) = some (a, next)) (stops : token p rest = none) :
    many (token p) ((spaced (items.map text)).toList ++ rest) = some (items, rest) := by
  rw [toList_spaced, List.flatMap_map]
  exact many_takes (fun _ => True) (fun a member next _ => reads a member next) (fun _ => List.cons_ne_nil _ _)
    (fun _ _ => trivial) trivial stops

theorem many1_spaced (text : α → String) {items : List α} (nonempty : items ≠ [])
    (reads : ∀ a ∈ items, ∀ next, token p ((text a).toList ++ next) = some (a, next)) (stops : token p rest = none) :
    many1 (token p) ((spaced (items.map text)).toList ++ rest) = some (items, rest) := by
  obtain ⟨first, others, rfl⟩ := List.exists_cons_of_ne_nil nonempty
  have tail := many_spaced text (fun a member => reads a (List.mem_cons_of_mem first member)) stops
  have shape : (spaced ((first :: others).map text)).toList ++ rest =
      ' ' :: ((text first).toList ++ ((spaced (others.map text)).toList ++ rest)) := by
    simp [toList_spaced]
  rw [shape]
  exact bind_takes (reads first List.mem_cons_self _) (bind_takes tail rfl)

end Tokens

end Reader.Parser

end Express
