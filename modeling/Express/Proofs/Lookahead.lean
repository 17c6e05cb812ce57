import Express.Proofs.Tokens
import Express.Reader.Grammar

/-!
# In front of a quote

How a parser fares on a text up to a quote, whatever stands behind the quote. Most parsers are decided there (`Sure`):
they take the same part of the text in front of the quote, or fail. Those that look for a closing bracket or a semicolon
may run past the quote. Such a parser is `Tame` if it takes the same part wherever it comes to rest in front of the quote,
up to places at which the next parser gets stuck.
-/

namespace Express.Reader.Parser

variable {α β : Type} {p q : Parser α} {f : α → Parser β} {x x' : List Char} {a : α} {b : β}
  {stuck stuck' : List Char → Prop}

instance : LawfulMonad Parser := by
  refine LawfulMonad.mk' Parser ?_ ?_ ?_
  · intro α p
    funext cs
    cases found : p cs with
    | none => exact bind_fails found
    | some pair => exact bind_takes found rfl
  · intro α β a f
    rfl
  · intro α β γ p f g
    funext cs
    dsimp only [bind]
    cases p cs <;> rfl

/-! ### Outcomes -/

/-- What is left over is an end of the text. -/
def Shrinks (p : Parser α) : Prop :=
  ∀ cs a rest, p cs = some (a, rest) → rest <:+ cs

/-- In front of a quote `x'` is left over of `x`, whatever stands behind the quote. -/
def Takes (p : Parser α) (x : List Char) (a : α) (x' : List Char) : Prop :=
  ∀ y, p (x ++ '\'' :: y) = some (a, x' ++ '\'' :: y)

/-- In front of a quote the parser fails on `x`, whatever stands behind the quote. -/
def Misses (p : Parser α) (x : List Char) : Prop :=
  ∀ y, p (x ++ '\'' :: y) = none

def Decided (p : Parser α) (x : List Char) : Prop :=
  Misses p x ∨ ∃ a x', Takes p x a x'

/-- The parser comes to rest in front of the quote at certain places only. -/
def Rests (stuck : List Char → Prop) (p : Parser α) (x : List Char) : Prop :=
  ∀ y a r, p (x ++ '\'' :: y) = some (a, r ++ '\'' :: y) → stuck r

theorem bind_some {cs rest : List Char} (found : (p >>= f) cs = some (b, rest)) :
    ∃ a mid, p cs = some (a, mid) ∧ f a mid = some (b, rest) := by
  cases first : p cs with
  | none =>
    rw [bind_fails first] at found
    cases found
  | some pair =>
    obtain ⟨a, mid⟩ := pair
    dsimp only [bind] at found
    rw [first] at found
    exact ⟨a, mid, rfl, found⟩

theorem Misses.bind (first : Misses p x) : Misses (p >>= f) x :=
  fun y => bind_fails (first y)

theorem Misses.bind_next (first : Takes p x a x') (next : Misses (f a) x') : Misses (p >>= f) x :=
  fun y => bind_fails_next (first y) (next y)

theorem Takes.bind {x'' : List Char} (first : Takes p x a x') (next : Takes (f a) x' b x'') : Takes (p >>= f) x b x'' :=
  fun y => bind_takes (first y) (next y)

theorem Decided.bind (first : Takes p x a x') (next : Decided (f a) x') : Decided (p >>= f) x := by
  rcases next with missed | ⟨b, x'', followed⟩
  · exact .inl (.bind_next first missed)
  · exact .inr ⟨b, x'', first.bind followed⟩

theorem Decided.map (decided : Decided p x) (g : α → β) : Decided (p >>= fun a => Pure.pure (g a)) x := by
  rcases decided with missed | ⟨a, x', taken⟩
  · exact .inl missed.bind
  · exact .bind taken (.inr ⟨g a, x', fun _ => rfl⟩)

theorem Takes.orElse (second : Takes q x a x') (first : Misses p x) : Takes (p <|> q) x a x' :=
  fun y => (orElse_second (first y)).trans (second y)

theorem Decided.orElse (first : Misses p x) (second : Decided q x) : Decided (p <|> q) x := by
  rcases second with missed | ⟨a, x', taken⟩
  · exact .inl fun y => (orElse_second (first y)).trans (missed y)
  · exact .inr ⟨a, x', taken.orElse first⟩

theorem Misses.maybe (missed : Misses p x) : Takes (maybe p) x none x :=
  fun y => maybe_fails (missed y)

theorem Takes.maybe (taken : Takes p x a x') : Takes (maybe p) x (some a) x' :=
  fun y => maybe_takes (taken y)

theorem Misses.rests (missed : Misses p x) : Rests stuck p x := by
  intro y a r found
  rw [missed y] at found
  cases found

theorem same_rest {cs rest rest' : List Char} {a' : α} (found : p cs = some (a, rest)) (found' : p cs = some (a', rest')) :
    rest = rest' :=
  (Prod.mk.inj (Option.some.inj (found.symm.trans found'))).2

theorem Takes.rests (taken : Takes p x a x') (there : stuck x') : Rests stuck p x := by
  intro y b r found
  have same := same_rest (taken y) found
  exact List.append_cancel_right same ▸ there

/-- A text that ends with the quote and what stands behind it. -/
theorem exists_front {mid r y : List Char} (ending : r ++ '\'' :: y <:+ mid) : ∃ m, mid = m ++ '\'' :: y := by
  obtain ⟨t, rfl⟩ := ending
  exact ⟨t ++ r, (List.append_assoc t r _).symm⟩

/-! ### What is left over -/

theorem Shrinks.pure : Shrinks (Pure.pure a : Parser α) := by
  intro cs b rest found
  cases found
  exact List.suffix_rfl

theorem Shrinks.bind (first : Shrinks p) (next : ∀ a, Shrinks (f a)) : Shrinks (p >>= f) := by
  intro cs b rest found
  obtain ⟨a, mid, taken, followed⟩ := bind_some found
  exact (next a mid b rest followed).trans (first cs a mid taken)

theorem Shrinks.orElse (first : Shrinks p) (second : Shrinks q) : Shrinks (p <|> q) := by
  intro cs a rest found
  cases tried : p cs with
  | none =>
    rw [orElse_second tried] at found
    exact second cs a rest found
  | some pair =>
    rw [orElse_first tried] at found
    cases found
    exact first cs _ _ tried

theorem Shrinks.maybe (part : Shrinks p) : Shrinks (maybe p) := by
  intro cs found rest taken
  cases tried : p cs with
  | none =>
    rw [maybe_fails tried] at taken
    cases taken
    exact List.suffix_rfl
  | some pair =>
    rw [maybe_takes tried] at taken
    cases taken
    exact part cs _ _ tried

theorem Shrinks.many (round : Shrinks p) : Shrinks (many p) := by
  intro cs items rest found
  fun_induction Parser.many p cs generalizing items rest with
  | case1 cs failed =>
    cases found
    exact List.suffix_rfl
  | case2 cs a mid taken shorter others rest' more ih =>
    cases found
    exact (ih others rest' more).trans (round cs a mid taken)
  | case3 cs a mid taken shorter more ih => cases found
  | case4 cs a mid taken idle =>
    cases found
    exact List.suffix_rfl

theorem Shrinks.nested {wrap : Parser (α → α)} (outer : Shrinks wrap) (core : Shrinks p) : Shrinks (nested wrap p) := by
  intro cs a rest found
  fun_induction Parser.nested wrap p cs generalizing a rest with
  | case1 cs unwrapped => exact core cs a rest found
  | case2 cs g mid taken shorter inner rest' more ih =>
    cases found
    exact (ih inner rest' more).trans (outer cs g mid taken)
  | case3 cs g mid taken shorter more ih => exact core cs a rest found
  | case4 cs g mid taken idle => exact core cs a rest found

/-! ### Characters in front of a mark -/

section

variable {inClass : Char → Bool} {mark : Char} (outside : inClass mark = false) (x y : List Char)
include outside

theorem takeWhile_front : (x ++ mark :: y).takeWhile inClass = x.takeWhile inClass := by
  induction x with
  | nil => exact List.takeWhile_cons_of_neg (by simp [outside])
  | cons c x ih => cases inside : inClass c <;> simp [inside, ih]

theorem dropWhile_front : (x ++ mark :: y).dropWhile inClass = x.dropWhile inClass ++ mark :: y := by
  induction x with
  | nil => exact List.dropWhile_cons_of_neg (by simp [outside])
  | cons c x ih => cases inside : inClass c <;> simp [inside, ih]

end

theorem keyword_front {word : String} (listed : word ∈ keywords) (x y : List Char) :
    keyword word (x ++ '\'' :: y) =
      if Text.upper (leadingWord x) = word.toList then some ((), x.dropWhile Name.isPart ++ '\'' :: y) else none := by
  rw [keyword_eq (Name.parts_of_isIdentifier (keywords_spelled word listed).1), leadingWord, takeWhile_front (by decide),
    dropWhile_front (by decide)]
  rfl

/-! ### Repetition in front of a quote -/

theorem many_cons {cs mid rest : List Char} {others : List α} (taken : p cs = some (a, mid))
    (shorter : mid.length < cs.length) (more : many p mid = some (others, rest)) :
    many p cs = some (a :: others, rest) := by
  rw [many, taken]
  dsimp only
  rw [if_pos shorter, more]

theorem many_idle {cs mid : List Char} (taken : p cs = some (a, mid)) (idle : ¬ mid.length < cs.length) :
    many p cs = some ([], cs) := by
  rw [many, taken]
  dsimp only
  rw [if_neg idle]

theorem exists_many (p : Parser α) (cs : List Char) : ∃ items rest, many p cs = some (items, rest) := by
  fun_induction Parser.many p cs with
  | case1 cs failed => exact ⟨_, _, rfl⟩
  | case2 cs a mid taken shorter others rest more ih => exact ⟨_, _, rfl⟩
  | case3 cs a mid taken shorter more ih =>
    obtain ⟨items, rest, found⟩ := ih
    rw [more] at found
    cases found
  | case4 cs a mid taken idle => exact ⟨_, _, rfl⟩

theorem shorter_front_iff {x x' y : List Char} :
    (x' ++ '\'' :: y).length < (x ++ '\'' :: y).length ↔ x'.length < x.length := by
  rw [List.length_append, List.length_append, Nat.add_lt_add_iff_right]

theorem Takes.many_cons {x'' : List Char} {others : List α} (first : Takes p x a x') (shorter : x'.length < x.length)
    (more : Takes (many p) x' others x'') : Takes (many p) x (a :: others) x'' :=
  fun y => Parser.many_cons (first y) (shorter_front_iff.mpr shorter) (more y)

theorem Takes.many_idle (first : Takes p x a x') (idle : ¬ x'.length < x.length) : Takes (many p) x [] x :=
  fun y => Parser.many_idle (first y) fun shorter => idle (shorter_front_iff.mp shorter)

theorem Misses.many (missed : Misses p x) : Takes (many p) x [] x :=
  fun y => many_fails (missed y)

/-! ### Parsers that are decided -/

/-- In front of a quote the parser takes the same or fails, whatever stands behind the quote. -/
structure Sure (p : Parser α) : Prop where
  shrinks : Shrinks p
  decided : ∀ x, Decided p x

namespace Sure

theorem pure : Sure (Pure.pure a : Parser α) :=
  ⟨.pure, fun x => .inr ⟨a, x, fun _ => rfl⟩⟩

theorem fail : Sure (Parser.fail : Parser α) := by
  refine ⟨fun cs a rest found => ?_, fun x => .inl fun _ => rfl⟩
  cases found

theorem bind (first : Sure p) (next : ∀ a, Sure (f a)) : Sure (p >>= f) := by
  refine ⟨first.shrinks.bind fun a => (next a).shrinks, fun x => ?_⟩
  rcases first.decided x with missed | ⟨a, x', taken⟩
  · exact .inl missed.bind
  · exact .bind taken ((next a).decided x')

theorem orElse (first : Sure p) (second : Sure q) : Sure (p <|> q) := by
  refine ⟨first.shrinks.orElse second.shrinks, fun x => ?_⟩
  rcases first.decided x with missed | ⟨a, x', taken⟩
  · exact .orElse missed (second.decided x)
  · exact .inr ⟨a, x', fun y => orElse_first (taken y)⟩

theorem maybe (part : Sure p) : Sure (maybe p) := by
  refine ⟨part.shrinks.maybe, fun x => .inr ?_⟩
  rcases part.decided x with missed | ⟨a, x', taken⟩
  · exact ⟨none, x, missed.maybe⟩
  · exact ⟨some a, x', taken.maybe⟩

theorem given (part : Sure p) : Sure (given p) :=
  part.maybe.bind fun _ => .pure

theorem many (round : Sure p) : Sure (many p) := by
  refine ⟨round.shrinks.many, fun x => .inr ?_⟩
  induction size : x.length using Nat.strongRecOn generalizing x with
  | _ n ih =>
    rcases round.decided x with missed | ⟨a, x', taken⟩
    · exact ⟨[], x, missed.many⟩
    · by_cases shorter : x'.length < x.length
      · obtain ⟨others, x'', more⟩ := ih x'.length (size ▸ shorter) x' rfl
        exact ⟨a :: others, x'', taken.many_cons shorter more⟩
      · exact ⟨[], x, taken.many_idle shorter⟩

theorem sepBy1 {separator : Parser β} (between : Sure separator) (round : Sure p) : Sure (sepBy1 separator p) :=
  round.bind fun _ => (between.bind fun _ => round).many.bind fun _ => .pure

theorem firstOf {parsers : List (Parser α)} (all : ∀ p ∈ parsers, Sure p) : Sure (firstOf parsers) := by
  induction parsers with
  | nil => exact .fail
  | cons p parsers ih =>
    exact (all p List.mem_cons_self).orElse (ih fun q member => all q (List.mem_cons_of_mem p member))

theorem blanks : Sure blanks := by
  refine ⟨fun cs found rest taken => ?_, fun x => .inr ⟨(), x.dropWhile Text.isLayout, fun y => ?_⟩⟩
  · cases taken
    exact List.dropWhile_suffix _
  · rw [Parser.blanks, dropWhile_front (by decide)]

theorem token (part : Sure p) : Sure (token p) :=
  blanks.bind fun _ => part

theorem char {c : Char} (other : c ≠ '\'') : Sure (char c) := by
  refine ⟨fun cs found rest taken => ?_, fun x => ?_⟩
  · cases cs with
    | nil => cases taken
    | cons d cs =>
      rw [Parser.char] at taken
      split at taken
      · cases taken
        exact List.suffix_cons d _
      · cases taken
  · cases x with
    | nil => exact .inl fun y => if_neg (Ne.symm other)
    | cons d x =>
      by_cases same : d = c
      · exact .inr ⟨(), x, fun y => if_pos same⟩
      · exact .inl fun y => if_neg same

theorem symbol {c : Char} (other : c ≠ '\'') : Sure (symbol c) :=
  (char other).token

theorem keyword {word : String} (listed : word ∈ keywords) : Sure (keyword word) := by
  have parts := Name.parts_of_isIdentifier (keywords_spelled word listed).1
  refine ⟨fun cs found rest taken => ?_, fun x => ?_⟩
  · rw [keyword_eq parts] at taken
    split at taken
    · cases taken
      exact List.dropWhile_suffix _
    · cases taken
  · by_cases leads : Text.upper (leadingWord x) = word.toList
    · exact .inr ⟨(), x.dropWhile Name.isPart, fun y => (keyword_front listed x y).trans (if_pos leads)⟩
    · exact .inl fun y => (keyword_front listed x y).trans (if_neg leads)

theorem ident : Sure ident := by
  refine ⟨fun cs found rest taken => ?_, fun x => ?_⟩
  · cases cs with
    | nil => cases taken
    | cons c cs =>
      rw [Parser.ident] at taken
      split at taken
      · cases taken
        exact (List.dropWhile_suffix _).trans (List.suffix_cons c cs)
      · cases taken
  · cases x with
    | nil => exact .inl fun y => rfl
    | cons c x =>
      by_cases start : Name.isStart c = true
      · refine .inr ⟨String.ofList (c :: x.takeWhile Name.isPart), x.dropWhile Name.isPart, fun y => ?_⟩
        rw [List.cons_append, Parser.ident, if_pos start, takeWhile_front (by decide), dropWhile_front (by decide)]
      · exact .inl fun y => if_neg start

theorem constant {constants : List β} {word : β → String} (listed : ∀ b ∈ constants, word b ∈ keywords) :
    Sure (constant constants word) := by
  refine firstOf fun p member => ?_
  obtain ⟨b, among, rfl⟩ := List.mem_map.mp member
  exact (keyword (listed b among)).bind fun _ => .pure

end Sure

/-! ### Parsers that may run past the quote -/

/-- Where the parser comes to rest in front of the quote, it does so whatever stands behind the quote, or it is stuck. -/
def Settled (stuck : List Char → Prop) (p : Parser α) (x : List Char) : Prop :=
  (∃ a x', Takes p x a x') ∨ Rests stuck p x

/-- Whether the parser fails does not depend on what stands behind the quote. -/
def Total (p : Parser α) (x : List Char) : Prop :=
  Misses p x ∨ ∀ y, ∃ a rest, p (x ++ '\'' :: y) = some (a, rest)

theorem Settled.congr (same : ∀ y, p (x ++ '\'' :: y) = q (x ++ '\'' :: y)) (settled : Settled stuck q x) :
    Settled stuck p x := by
  rcases settled with ⟨a, x', taken⟩ | rests
  · exact .inl ⟨a, x', fun y => (same y).trans (taken y)⟩
  · exact .inr fun y a r found => rests y a r ((same y).symm.trans found)

theorem Total.congr (same : ∀ y, p (x ++ '\'' :: y) = q (x ++ '\'' :: y)) (total : Total q x) : Total p x := by
  rcases total with missed | total
  · exact .inl fun y => (same y).trans (missed y)
  · refine .inr fun y => ?_
    obtain ⟨a, rest, found⟩ := total y
    exact ⟨a, rest, (same y).trans found⟩

theorem Decided.settled (decided : Decided p x) : Settled stuck p x :=
  decided.symm.imp_right Misses.rests

theorem Decided.total (decided : Decided p x) : Total p x := by
  refine decided.imp_right ?_
  rintro ⟨a, x', taken⟩ y
  exact ⟨a, x' ++ '\'' :: y, taken y⟩

structure Tame (stuck : List Char → Prop) (p : Parser α) : Prop where
  shrinks : Shrinks p
  settled : ∀ x, Settled stuck p x

structure Firm (stuck : List Char → Prop) (p : Parser α) : Prop extends Tame stuck p where
  total : ∀ x, Total p x

/-- A parser that does not get stuck. -/
abbrev Free (p : Parser α) : Prop :=
  Tame (fun _ => False) p

theorem Sure.firm (sure : Sure p) : Firm stuck p :=
  ⟨⟨sure.shrinks, fun x => (sure.decided x).settled⟩, fun x => (sure.decided x).total⟩

theorem Sure.tame (sure : Sure p) : Tame stuck p :=
  sure.firm.toTame

theorem Free.tame (free : Free p) : Tame stuck p :=
  ⟨free.shrinks, fun x => (free.settled x).imp_right fun rests y a r found => (rests y a r found).elim⟩

/-! ### Sequence and choice -/

theorem Tame.bind (first : Tame stuck p) (next : ∀ a, Tame stuck' (f a))
    (behind : ∀ a r, stuck r → Rests stuck' (f a) r) : Tame stuck' (p >>= f) := by
  refine ⟨first.shrinks.bind fun a => (next a).shrinks, fun x => ?_⟩
  rcases first.settled x with ⟨a, x', taken⟩ | rests
  · rcases (next a).settled x' with ⟨b, x'', followed⟩ | rests
    · exact .inl ⟨b, x'', taken.bind followed⟩
    · refine .inr fun y b r found => rests y b r ?_
      obtain ⟨a', mid, taken', followed⟩ := bind_some found
      rw [taken y] at taken'
      cases taken'
      exact followed
  · refine .inr fun y b r found => ?_
    obtain ⟨a, mid, taken, followed⟩ := bind_some found
    obtain ⟨m, rfl⟩ := exists_front ((next a).shrinks mid b _ followed)
    exact behind a m (rests y a m taken) y b r followed

theorem Free.bind (first : Free p) (next : ∀ a, Tame stuck (f a)) : Tame stuck (p >>= f) :=
  Tame.bind first next fun _ _ none => none.elim

theorem Sure.bindTame (first : Sure p) (next : ∀ a, Tame stuck (f a)) : Tame stuck (p >>= f) :=
  Free.bind first.tame next

theorem Tame.token (part : Tame stuck p) : Tame stuck (token p) :=
  Sure.blanks.bindTame fun _ => part

theorem orElse_total {y : List Char} (total : ∀ y, ∃ a rest, p (x ++ '\'' :: y) = some (a, rest)) :
    (p <|> q) (x ++ '\'' :: y) = p (x ++ '\'' :: y) := by
  obtain ⟨a, rest, taken⟩ := total y
  rw [orElse_first taken, taken]

/-- A choice whose first parser may go either way only where the second one gets stuck. -/
theorem Tame.orElse (first : Tame stuck p) (second : Tame stuck q) (fallback : ∀ x, Total p x ∨ Rests stuck q x) :
    Tame stuck (p <|> q) := by
  refine ⟨first.shrinks.orElse second.shrinks, fun x => ?_⟩
  rcases fallback x with (missed | total) | rests
  · exact (second.settled x).congr fun y => orElse_second (missed y)
  · exact (first.settled x).congr fun y => orElse_total total
  rcases first.settled x with ⟨a, x', taken⟩ | rests'
  · exact .inl ⟨a, x', fun y => orElse_first (taken y)⟩
  · refine .inr fun y a r found => ?_
    cases tried : p (x ++ '\'' :: y) with
    | none => exact rests y a r ((orElse_second tried).symm.trans found)
    | some pair =>
      obtain ⟨b, rest⟩ := pair
      exact rests' y a r (tried.trans ((orElse_first tried).symm.trans found))

theorem exists_maybe (p : Parser α) (cs : List Char) : ∃ found rest, maybe p cs = some (found, rest) := by
  cases tried : p cs with
  | none => exact ⟨none, cs, maybe_fails tried⟩
  | some pair => exact ⟨some pair.1, pair.2, maybe_takes tried⟩

theorem Tame.maybe (part : Tame stuck p) (opens : ∀ x, Decided p x ∨ stuck x) : Firm stuck (maybe p) := by
  refine ⟨⟨part.shrinks.maybe, fun x => ?_⟩, fun x => .inr fun y => exists_maybe p _⟩
  rcases opens x with (missed | ⟨a, x', taken⟩) | here
  · exact .inl ⟨none, x, missed.maybe⟩
  · exact .inl ⟨some a, x', taken.maybe⟩
  rcases part.settled x with ⟨a, x', taken⟩ | rests
  · exact .inl ⟨some a, x', taken.maybe⟩
  · refine .inr fun y found r taken => ?_
    cases tried : p (x ++ '\'' :: y) with
    | none =>
      have same := same_rest (maybe_fails tried) taken
      exact List.append_cancel_right same ▸ here
    | some pair =>
      have same := same_rest (maybe_takes tried) taken
      exact rests y pair.1 r (by rw [tried, ← same])

namespace Firm

theorem bind (first : Sure p) (next : ∀ a, Firm stuck (f a)) : Firm stuck (p >>= f) := by
  refine ⟨first.bindTame fun a => (next a).toTame, fun x => ?_⟩
  rcases first.decided x with missed | ⟨a, x', taken⟩
  · exact .inl missed.bind
  · rcases (next a).total x' with missed | total
    · exact .inl (.bind_next taken missed)
    · refine .inr fun y => ?_
      obtain ⟨b, rest, followed⟩ := total y
      exact ⟨b, rest, bind_takes (taken y) followed⟩

theorem token (part : Firm stuck p) : Firm stuck (token p) :=
  bind .blanks fun _ => part

theorem map (part : Firm stuck p) (g : α → β) : Firm stuck (p >>= fun a => Pure.pure (g a)) := by
  refine ⟨part.toTame.bind (fun _ => Sure.pure.tame) fun a r there => ?_, fun x => ?_⟩
  · exact Takes.rests (fun _ => rfl) there
  · refine (part.total x).imp Misses.bind fun total y => ?_
    obtain ⟨a, rest, taken⟩ := total y
    exact ⟨g a, rest, bind_takes taken rfl⟩

theorem orElse (first : Firm stuck p) (second : Firm stuck q) : Firm stuck (p <|> q) := by
  refine ⟨first.toTame.orElse second.toTame fun x => .inl (first.total x), fun x => ?_⟩
  rcases first.total x with missed | total
  · exact (second.total x).congr fun y => orElse_second (missed y)
  · exact Total.congr (fun y => orElse_total total) (.inr total)

theorem maybe (part : Firm stuck p) : Firm stuck (maybe p) := by
  refine ⟨⟨part.shrinks.maybe, fun x => ?_⟩, fun x => .inr fun y => exists_maybe p _⟩
  rcases part.total x with missed | total
  · exact .inl ⟨none, x, missed.maybe⟩
  rcases part.settled x with ⟨a, x', taken⟩ | rests
  · exact .inl ⟨some a, x', taken.maybe⟩
  · refine .inr fun y found r taken => ?_
    obtain ⟨a, rest, tried⟩ := total y
    have same := same_rest (maybe_takes tried) taken
    exact rests y a r (by rw [tried, ← same])

end Firm

/-! ### Repetition and nesting -/

/-- Repetition of a parser that fails where it gets stuck. -/
theorem Firm.many (round : Firm stuck p) (stops : ∀ r, stuck r → Misses p r) : Firm stuck (many p) := by
  refine ⟨⟨round.shrinks.many, fun x => ?_⟩, fun x => .inr fun y => exists_many p _⟩
  induction size : x.length using Nat.strongRecOn generalizing x with
  | _ n ih =>
    rcases round.total x with missed | total
    · exact .inl ⟨[], x, missed.many⟩
    rcases round.settled x with ⟨a, x', taken⟩ | rests
    · by_cases shorter : x'.length < x.length
      · refine (ih x'.length (size ▸ shorter) x' rfl).imp ?_ ?_
        · rintro ⟨others, x'', more⟩
          exact ⟨a :: others, x'', taken.many_cons shorter more⟩
        · intro rests y items r found
          obtain ⟨others, rest, more⟩ := exists_many p (x' ++ '\'' :: y)
          have same := same_rest (Parser.many_cons (taken y) (shorter_front_iff.mpr shorter) more) found
          exact rests y others r (same ▸ more)
      · exact .inl ⟨[], x, taken.many_idle shorter⟩
    · refine .inr fun y items r found => ?_
      obtain ⟨a, mid, taken⟩ := total y
      have ending := round.shrinks _ a mid taken
      by_cases shorter : mid.length < (x ++ '\'' :: y).length
      · obtain ⟨others, rest, more⟩ := exists_many p mid
        obtain rfl := same_rest (Parser.many_cons taken shorter more) found
        obtain ⟨m, rfl⟩ := exists_front (round.shrinks.many mid others _ more)
        have there := rests y a m taken
        have same := same_rest ((stops m there).many y) more
        exact List.append_cancel_right same ▸ there
      · have same := same_rest (Parser.many_idle taken shorter) found
        have whole := ending.eq_of_length_le (Nat.le_of_not_lt shorter)
        exact rests y a r (by rw [taken, whole, same])

theorem Firm.sepBy1 {separator : Parser β} (between : Sure separator) (round : Firm stuck p)
    (stops : ∀ r, stuck r → Misses separator r) : Firm stuck (sepBy1 separator p) := by
  have others := (Firm.bind between fun _ => round).many fun r there => (stops r there).bind
  refine ⟨round.toTame.bind (fun first => (others.map (first :: ·)).toTame) ?_, fun x => ?_⟩
  · intro first r there
    exact Takes.rests (Takes.bind (stops r there).bind.many fun _ => rfl) there
  · refine (round.total x).imp Misses.bind fun total y => ?_
    obtain ⟨a, mid, taken⟩ := total y
    obtain ⟨items, rest, more⟩ := exists_many (separator >>= fun _ => p) mid
    exact ⟨a :: items, rest, bind_takes taken (bind_takes more rfl)⟩

theorem nested_idle {wrap : Parser (α → α)} {g : α → α} {cs mid : List Char} (outer : wrap cs = some (g, mid))
    (fruitless : mid.length < cs.length → nested wrap p mid = none) : nested wrap p cs = p cs := by
  rw [nested, outer]
  dsimp only
  split
  · rename_i shorter
    rw [fruitless shorter]
  · rfl

/-- The parser settles, and whether it fails is settled as well. -/
def Steady (stuck : List Char → Prop) (p : Parser α) (x : List Char) : Prop :=
  Settled stuck p x ∧ Total p x

theorem Firm.steady (firm : Firm stuck p) (x : List Char) : Steady stuck p x :=
  ⟨firm.settled x, firm.total x⟩

theorem Steady.congr (same : ∀ y, p (x ++ '\'' :: y) = q (x ++ '\'' :: y)) (steady : Steady stuck q x) : Steady stuck p x :=
  ⟨steady.1.congr same, steady.2.congr same⟩

section

variable {wrap : Parser (α → α)}

/-- Behind a wrap that is taken whatever stands behind the quote, the nested parser goes on. -/
theorem Steady.wrapped {g : α → α} (core : Steady stuck p x) (taken : Takes wrap x g x')
    (inner : x'.length < x.length → Steady stuck (nested wrap p) x') : Steady stuck (nested wrap p) x := by
  by_cases shorter : x'.length < x.length
  · obtain ⟨settled, missed | total⟩ := inner shorter
    · exact core.congr fun y => nested_idle (taken y) fun _ => missed y
    · have shorter (y : List Char) := (@shorter_front_iff x x' y).mpr shorter
      refine ⟨settled.imp ?_ ?_, .inr fun y => ?_⟩
      · rintro ⟨a, x'', inside⟩
        exact ⟨g a, x'', fun y => nested_wraps (taken y) (shorter y) (inside y)⟩
      · intro rests y a r found
        obtain ⟨b, rest, inside⟩ := total y
        have same := same_rest (nested_wraps (taken y) (shorter y) inside) found
        exact rests y b r (same ▸ inside)
      · obtain ⟨b, rest, inside⟩ := total y
        exact ⟨g b, rest, nested_wraps (taken y) (shorter y) inside⟩
  · exact core.congr fun y => nested_idle (taken y) fun less => absurd (shorter_front_iff.mp less) shorter

/-- Where a wrap can only be taken past the quote, so is all that is nested in it. Where that comes to nothing, the core
takes the place of the wrap. -/
theorem nested_cases (outer : Free wrap) (core : Shrinks p) (taken : Takes p x a x')
    (past : Rests (fun _ => False) wrap x) (y : List Char) :
    nested wrap p (x ++ '\'' :: y) = some (a, x' ++ '\'' :: y) ∨
      ∃ b rest, nested wrap p (x ++ '\'' :: y) = some (b, rest) ∧ ∀ r, rest ≠ r ++ '\'' :: y := by
  cases tried : wrap (x ++ '\'' :: y) with
  | none => exact .inl ((nested_core tried).trans (taken y))
  | some pair =>
    obtain ⟨g, mid⟩ := pair
    by_cases shorter : mid.length < (x ++ '\'' :: y).length
    · cases inner : nested wrap p mid with
      | none => exact .inl ((nested_idle tried fun _ => inner).trans (taken y))
      | some pair =>
        obtain ⟨b, rest⟩ := pair
        refine .inr ⟨g b, rest, nested_wraps tried shorter inner, ?_⟩
        rintro r rfl
        obtain ⟨m, rfl⟩ := exists_front (Shrinks.nested outer.shrinks core mid b _ inner)
        exact past y g m tried
    · exact .inl ((nested_idle tried fun less => absurd less shorter).trans (taken y))

theorem Steady.past (outer : Free wrap) (core : Shrinks p) (taken : Takes p x a x') (there : stuck x')
    (past : Rests (fun _ => False) wrap x) : Steady stuck (nested wrap p) x := by
  have cases := nested_cases outer core taken past
  refine ⟨.inr fun y b r found => ?_, .inr fun y => ?_⟩
  · rcases cases y with core | ⟨b', rest, past, away⟩
    · have same := same_rest core found
      exact List.append_cancel_right same ▸ there
    · exact absurd (same_rest past found) (away r)
  · rcases cases y with core | ⟨b', rest, past, -⟩
    · exact ⟨a, _, core⟩
    · exact ⟨b', rest, past⟩

/-- Nesting whose wraps are undecided only where the core gets stuck. -/
theorem Firm.nested (outer : Free wrap) (core : Firm stuck p)
    (fallback : ∀ x, Decided wrap x ∨ ∃ a x', Takes p x a x' ∧ stuck x') : Firm stuck (nested wrap p) := by
  have steady (x : List Char) : Steady stuck (Parser.nested wrap p) x := by
    induction size : x.length using Nat.strongRecOn generalizing x with
    | _ n ih =>
      have wrapped {g : α → α} {x' : List Char} (taken : Takes wrap x g x') :=
        (core.steady x).wrapped taken fun shorter => ih x'.length (size ▸ shorter) x' rfl
      rcases fallback x with (missed | ⟨g, x', taken⟩) | ⟨a, x', taken, there⟩
      · exact (core.steady x).congr fun y => nested_core (missed y)
      · exact wrapped taken
      · rcases outer.settled x with ⟨g, x', wraps⟩ | past
        · exact wrapped wraps
        · exact .past outer core.shrinks taken there past
  exact ⟨⟨.nested outer.shrinks core.shrinks, fun x => (steady x).1⟩, fun x => (steady x).2⟩

end

/-! ### At rest -/

/-- Where a tame parser comes to rest without being stuck, it takes the same whatever stands behind the quote. -/
theorem Tame.takes (tame : Tame stuck p) {y : List Char} (found : p (x ++ '\'' :: y) = some (a, x' ++ '\'' :: y))
    (free : ¬ stuck x') : Takes p x a x' := by
  rcases tame.settled x with ⟨b, x'', taken⟩ | rests
  · have same := (taken y).symm.trans found
    obtain ⟨rfl, ends⟩ := Prod.mk.inj (Option.some.inj same)
    exact List.append_cancel_right ends ▸ taken
  · exact absurd (rests y a x' found) free

theorem Free.takes (free : Free p) {y : List Char} (found : p (x ++ '\'' :: y) = some (a, x' ++ '\'' :: y)) :
    Takes p x a x' :=
  Tame.takes free found id

theorem Sure.takes (sure : Sure p) {y : List Char} (found : p (x ++ '\'' :: y) = some (a, x' ++ '\'' :: y)) :
    Takes p x a x' :=
  Free.takes sure.tame found

theorem Sure.misses (sure : Sure p) {y : List Char} (failed : p (x ++ '\'' :: y) = none) : Misses p x := by
  refine (sure.decided x).resolve_right ?_
  rintro ⟨a, x', taken⟩
  rw [taken y] at failed
  cases failed

/-- Rounds that come to rest where the next one fails. -/
theorem Free.many_takes (round : Free p) {items : List α} {y : List Char}
    (found : many p (x ++ '\'' :: y) = some (items, x' ++ '\'' :: y)) (stops : Misses p x') :
    Takes (many p) x items x' := by
  induction size : x.length using Nat.strongRecOn generalizing x items with
  | _ n ih =>
    cases tried : p (x ++ '\'' :: y) with
    | none =>
      rw [many_fails tried] at found
      obtain ⟨rfl, same⟩ := Prod.mk.inj (Option.some.inj found)
      exact List.append_cancel_right same ▸ stops.many
    | some pair =>
      obtain ⟨a, mid⟩ := pair
      by_cases shorter : mid.length < (x ++ '\'' :: y).length
      · obtain ⟨others, rest, more⟩ := exists_many p mid
        rw [Parser.many_cons tried shorter more] at found
        obtain ⟨rfl, rfl⟩ := Prod.mk.inj (Option.some.inj found)
        obtain ⟨m, rfl⟩ := exists_front (round.shrinks.many mid others _ more)
        have shorter := shorter_front_iff.mp shorter
        exact (Free.takes round tried).many_cons shorter (ih m.length (size ▸ shorter) more rfl)
      · rw [Parser.many_idle tried shorter] at found
        obtain ⟨rfl, same⟩ := Prod.mk.inj (Option.some.inj found)
        rw [List.append_cancel_right same] at tried
        rw [stops y] at tried
        cases tried

end Express.Reader.Parser
