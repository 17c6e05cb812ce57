import Express.Proofs.Lookahead

/-!
# Heads of declarations in front of a quote

The part of a declaration that is looked at is read alike whatever stands behind a quote that it does not reach. Only a
width, bounds, an expression of subtypes and the expression of a derived attribute may run past a quote. Where one that
is not closed makes no difference to its own production, the bracket in front of it stops the next one.
-/

namespace Express.Reader.Grammar

open Reader.Parser

variable {α β : Type} {p : Parser α} {x x' : List Char}

/-! ### What a text starts with -/

theorem token_front (x y : List Char) : token p (x ++ '\'' :: y) = p (x.dropWhile Text.isLayout ++ '\'' :: y) := by
  change p ((x ++ '\'' :: y).dropWhile Text.isLayout) = _
  rw [dropWhile_front (by decide)]

theorem misses_token_iff : Misses (token p) x ↔ Misses p (x.dropWhile Text.isLayout) :=
  forall_congr' fun y => by rw [token_front]

theorem takes_token_iff {a : α} : Takes (token p) x a x' ↔ Takes p (x.dropWhile Text.isLayout) a x' :=
  forall_congr' fun y => by rw [token_front]

/-- The first token of the text starts with the character. -/
def Leads (c : Char) (x : List Char) : Prop :=
  ∃ t, x.dropWhile Text.isLayout = c :: t

theorem misses_symbol_or_leads (c : Char) (other : c ≠ '\'') (x : List Char) : Misses (symbol c) x ∨ Leads c x := by
  cases shape : x.dropWhile Text.isLayout with
  | nil =>
    refine .inl (misses_token_iff.mpr fun y => ?_)
    rw [shape]
    exact if_neg (Ne.symm other)
  | cons d t =>
    by_cases same : d = c
    · exact .inr ⟨t, same ▸ shape⟩
    · refine .inl (misses_token_iff.mpr fun y => ?_)
      rw [shape]
      exact if_neg same

namespace Leads

variable {c d : Char} {word : String}

theorem misses_symbol (leads : Leads c x) (other : c ≠ d) : Misses (symbol d) x := by
  obtain ⟨t, shape⟩ := leads
  refine misses_token_iff.mpr fun y => ?_
  rw [shape]
  exact if_neg other

section

variable (leads : Leads c x) (mark : Name.isPart c = false)
include leads mark

theorem misses_keyword (listed : word ∈ keywords) : Misses (token (keyword word)) x := by
  obtain ⟨t, shape⟩ := leads
  refine misses_token_iff.mpr fun y => ?_
  have empty : leadingWord (c :: t) = [] := List.takeWhile_cons_of_neg (by simp [mark])
  rw [shape, keyword_front listed, empty, if_neg]
  exact fun same => Name.toList_ne_nil (keywords_spelled word listed).1 same.symm

theorem misses_ident : Misses (token ident) x := by
  obtain ⟨t, shape⟩ := leads
  refine misses_token_iff.mpr fun y => ?_
  rw [shape]
  refine if_neg fun start => ?_
  rw [Name.isPart_of_isStart start] at mark
  cases mark

end

end Leads

/-! ### Words -/

section

variable {word : String} (leads : Text.upper (leadingWord x) = word.toList)
include leads

theorem misses_keyword {other : String} (known : other ∈ keywords) (different : other ≠ word) :
    Misses (keyword other) x := by
  refine fun y => (keyword_front known x y).trans (if_neg ?_)
  rw [leads]
  exact fun same => different (String.toList_inj.mp same.symm)

theorem misses_constant {constants : List β} {spelling : β → String} (known : ∀ b ∈ constants, spelling b ∈ keywords)
    (different : ∀ b ∈ constants, spelling b ≠ word) : Misses (constant constants spelling) x := by
  intro y
  induction constants with
  | nil => rfl
  | cons b constants ih =>
    have first := misses_keyword leads (known b List.mem_cons_self) (different b List.mem_cons_self)
    refine (orElse_second (bind_fails (first y))).trans ?_
    exact ih (fun b member => known b (List.mem_cons_of_mem _ member)) fun b member =>
      different b (List.mem_cons_of_mem _ member)

/-- The first character of a text that starts with a word. -/
theorem exists_first (listed : word ∈ keywords) : ∃ c t, x = c :: t ∧ Name.isStart c = true := by
  obtain ⟨w, letters, spelled, start, -⟩ := Name.exists_cons_of_isIdentifier (keywords_spelled word listed).1
  rw [spelled] at leads
  cases x with
  | nil => cases leads
  | cons c t =>
    have part : Name.isPart c = true := by
      by_contra mark
      rw [leadingWord, List.takeWhile_cons_of_neg mark] at leads
      cases leads
    rw [leadingWord, List.takeWhile_cons_of_pos part, Text.upper, List.map_cons] at leads
    refine ⟨c, t, rfl, ?_⟩
    rw [← Name.isStart_toUpper, (List.cons.inj leads).1]
    exact start

theorem misses_char (listed : word ∈ keywords) {c : Char} (mark : Name.isPart c = false) : Misses (char c) x := by
  obtain ⟨d, t, rfl, start⟩ := exists_first leads listed
  refine fun y => if_neg ?_
  rintro rfl
  rw [Name.isPart_of_isStart start] at mark
  cases mark

theorem takes_ident (listed : word ∈ keywords) :
    Takes ident x (String.ofList (leadingWord x)) (x.dropWhile Name.isPart) := by
  obtain ⟨c, t, rfl, start⟩ := exists_first leads listed
  have part := Name.isPart_of_isStart start
  intro y
  rw [List.cons_append, ident, if_pos start, takeWhile_front (by decide), dropWhile_front (by decide), leadingWord,
    List.takeWhile_cons_of_pos part, List.dropWhile_cons_of_pos part]

end

theorem leads_of_takes_keyword {word : String} (listed : word ∈ keywords) (taken : Takes (keyword word) x () x') :
    Text.upper (leadingWord x) = word.toList ∧ x' = x.dropWhile Name.isPart := by
  have found := (keyword_front listed x []).symm.trans (taken [])
  split at found
  · rename_i leads
    obtain ⟨-, same⟩ := Prod.mk.inj (Option.some.inj found)
    exact ⟨leads, (List.append_cancel_right same).symm⟩
  · cases found

theorem leads_of_takes_constant {constants : List β} {spelling : β → String} {b : β}
    (known : ∀ b ∈ constants, spelling b ∈ keywords) (taken : Takes (constant constants spelling) x b x') :
    b ∈ constants ∧ Text.upper (leadingWord x) = (spelling b).toList ∧ x' = x.dropWhile Name.isPart := by
  induction constants with
  | nil => cases taken []
  | cons first constants ih =>
    rcases (Sure.keyword (known first List.mem_cons_self)).decided x with missed | ⟨⟨⟩, rest, found⟩
    · have later : Takes (constant constants spelling) x b x' :=
        fun y => (orElse_second (bind_fails (missed y))).symm.trans (taken y)
      obtain ⟨member, leads, same⟩ := ih (fun b member => known b (List.mem_cons_of_mem _ member)) later
      exact ⟨List.mem_cons_of_mem _ member, leads, same⟩
    · have here := (orElse_first (bind_takes (found []) rfl)).symm.trans (taken [])
      obtain ⟨rfl, same⟩ := Prod.mk.inj (Option.some.inj here)
      obtain ⟨leads, rfl⟩ := leads_of_takes_keyword (known first List.mem_cons_self) found
      exact ⟨List.mem_cons_self, leads, (List.append_cancel_right same).symm⟩

/-! ### Parsers that look for a mark -/

/-- Past the quote there is no way back in front of it. -/
theorem rests_past {y rest r : List Char} (past : rest <:+ y) : rest ≠ r ++ '\'' :: y := by
  rintro rfl
  have := past.length_le
  rw [List.length_append, List.length_cons] at this
  omega

/-- A scan looks at one character after the other. It stops at a mark other than the quote, which it may keep, or goes on
in another state. -/
structure IsScan {σ : Type} (scan : σ → Parser (List Char)) : Prop where
  ends : ∀ state text rest, scan state [] = some (text, rest) → rest = []
  step : ∀ state c,
    (c ≠ '\'' ∧ ∃ keep : Bool, ∀ cs, scan state (c :: cs) = some ([], if keep then c :: cs else cs)) ∨
    ∃ state', ∀ cs, scan state (c :: cs) = (scan state' cs).map fun (text, rest) => (c :: text, rest)

namespace IsScan

variable {σ : Type} {scan : σ → Parser (List Char)} (isScan : IsScan scan) (state : σ)
include isScan

theorem shrinks : Shrinks (scan state) := by
  intro cs text rest found
  induction cs generalizing state text with
  | nil =>
    have used := isScan.ends state text rest found
    exact used ▸ List.suffix_rfl
  | cons c cs ih =>
    rcases isScan.step state c with ⟨-, keep, stops⟩ | ⟨state', goesOn⟩
    · rw [stops] at found
      cases found
      cases keep
      · exact List.suffix_cons c cs
      · exact List.suffix_rfl
    · rw [goesOn] at found
      obtain ⟨⟨inner, after⟩, inside, same⟩ := Option.map_eq_some_iff.mp found
      cases same
      exact (ih state' inner inside).trans (List.suffix_cons c cs)

theorem free : Free (scan state) := by
  refine ⟨isScan.shrinks state, fun x => ?_⟩
  induction x generalizing state with
  | nil =>
    rcases isScan.step state '\'' with ⟨other, -⟩ | ⟨state', goesOn⟩
    · exact absurd rfl other
    · refine .inr fun y text r found => ?_
      rw [List.nil_append, goesOn] at found
      obtain ⟨⟨inner, after⟩, inside, same⟩ := Option.map_eq_some_iff.mp found
      exact rests_past (isScan.shrinks state' y inner after inside) (Prod.mk.inj same).2
  | cons c x ih =>
    rcases isScan.step state c with ⟨-, keep, stops⟩ | ⟨state', goesOn⟩
    · refine .inl ⟨[], if keep then c :: x else x, fun y => ?_⟩
      rw [List.cons_append, stops]
      cases keep <;> rfl
    · refine (ih state').imp ?_ ?_
      · rintro ⟨inner, x', taken⟩
        refine ⟨c :: inner, x', fun y => ?_⟩
        rw [List.cons_append, goesOn, taken y]
        rfl
      · intro rests y text r found
        rw [List.cons_append, goesOn] at found
        obtain ⟨⟨inner, after⟩, inside, same⟩ := Option.map_eq_some_iff.mp found
        cases same
        exact rests y inner r inside

end IsScan

theorem upTo_isScan {mark : Char} (other : mark ≠ '\'') : IsScan fun _ : Unit => takeWhile (· != mark) where
  ends := by
    intro _ text rest found
    cases found
    rfl
  step := by
    intro _ c
    by_cases here : c = mark
    · refine .inl ⟨here ▸ other, true, fun cs => ?_⟩
      rw [takeWhile, List.takeWhile_cons_of_neg (by simp [here]), List.dropWhile_cons_of_neg (by simp [here])]
      rfl
    · refine .inr ⟨(), fun cs => ?_⟩
      rw [takeWhile, List.takeWhile_cons_of_pos (by simp [here]), List.dropWhile_cons_of_pos (by simp [here])]
      rfl

theorem upTo_free {mark : Char} (other : mark ≠ '\'') : Free (takeWhile (· != mark)) :=
  (upTo_isScan other).free ()

theorem closing_isScan : IsScan closing where
  ends := by
    intro depth text rest found
    rw [closing] at found
    cases found
  step := by
    intro depth c
    by_cases closes : depth = 0 ∧ c = ')'
    · obtain ⟨rfl, rfl⟩ := closes
      exact .inl ⟨by decide, false, fun cs => rfl⟩
    · refine .inr ⟨if c = '(' then depth + 1 else if c = ')' then depth - 1 else depth, fun cs => ?_⟩
      rw [closing]
      exact fun first second => closes ⟨first, second⟩

theorem expressionText_isScan : IsScan fun state : Bool × Int => expressionText state.1 state.2 where
  ends := by
    intro state text rest found
    rw [expressionText] at found
    cases found
  step := by
    intro state c
    by_cases ends : c = ';' ∧ !state.1 ∧ state.2 ≤ 0
    · refine .inl ⟨?_, true, fun cs => ?_⟩
      · rw [ends.1]
        decide
      · rw [expressionText, if_pos ends]
        rfl
    · refine .inr ⟨(if c = '\'' then !state.1 else state.1, if state.1 then state.2 else state.2 + bracketStep c),
        fun cs => ?_⟩
      rw [expressionText, if_neg ends]

theorem expressionText_free : Free (expressionText false 0) :=
  IsScan.free expressionText_isScan (false, 0)

/-! ### Types -/

theorem nameList_sure : Sure nameList := by
  refine .bind (.symbol (by decide)) fun _ => ?_
  refine .bind (.sepBy1 (.symbol (by decide)) Sure.ident.token) fun names => ?_
  exact .bind (.symbol (by decide)) fun _ => .pure

theorem width_free : Free width := by
  refine Sure.bindTame (.symbol (by decide)) fun _ => ?_
  refine Free.bind (upTo_free (by decide)) fun _ => ?_
  refine Sure.tame (.bind (.char (by decide)) fun _ => ?_)
  exact .bind (Sure.keyword (by decide)).token.given fun _ => .pure

/-- A bracket stands in front. -/
def Bracketed (x : List Char) : Prop :=
  Leads '(' x ∨ Leads '[' x

theorem Bracketed.misses_symbol {c : Char} (bracketed : Bracketed x) (other : c ∉ ['(', '[']) : Misses (symbol c) x := by
  rw [List.mem_cons, List.mem_singleton, not_or] at other
  rcases bracketed with round | square
  · exact round.misses_symbol (Ne.symm other.1)
  · exact square.misses_symbol (Ne.symm other.2)

theorem simpleType_firm : Firm Bracketed simpleType := by
  refine .bind (.constant (by decide)) fun type => ?_
  have opens : Firm Bracketed (maybe width) := by
    refine Tame.maybe (Free.tame width_free) fun x => ?_
    exact (misses_symbol_or_leads '(' (by decide) x).imp (fun missed => .inl missed.bind) .inl
  exact (opens.map Option.isSome).map fun _ => type

theorem bounds_free : Free bounds := by
  refine Sure.bindTame (.symbol (by decide)) fun _ => ?_
  refine Free.bind (upTo_free (by decide)) fun text => ?_
  exact Sure.tame (.bind (.char (by decide)) fun _ => .pure)

theorem decided_bounds (x : List Char) : Decided bounds x ∨ Leads '[' x :=
  (misses_symbol_or_leads '[' (by decide) x).imp_left fun missed => .inl missed.bind

theorem boundedOf_free {f : Option String → Parser β} (next : ∀ bounds, Sure (f bounds)) :
    Free (do let bounds ← maybe bounds; token (keyword "OF"); f bounds) := by
  have opens : Firm (Leads '[') (maybe bounds) := Tame.maybe (Free.tame bounds_free) decided_bounds
  refine opens.toTame.bind (fun bounds => ?_) fun bounds r square => ?_
  · exact Sure.tame (.bind (Sure.keyword (by decide)).token fun _ => next bounds)
  · exact Misses.rests (square.misses_keyword (by decide) (by decide)).bind

theorem decided_boundedOf {f : Option String → Parser β} (next : ∀ bounds, Sure (f bounds)) (x : List Char) :
    Decided (do let bounds ← maybe bounds; token (keyword "OF"); f bounds) x ∨ Leads '[' x := by
  refine (misses_symbol_or_leads '[' (by decide) x).imp_left fun missed => ?_
  have unbounded : Takes (maybe bounds) x none x := fun y => maybe_fails (missed.bind y)
  refine .bind unbounded ?_
  exact Sure.decided (.bind (Sure.keyword (by decide)).token fun _ => next none) x

section

variable {kinds : List AggregateKind} {f : AggregateKind → Option String → Parser β} (next : ∀ kind bounds, Sure (f kind bounds))
include next

theorem aggregate_free : Free (do
    let kind ← constant kinds AggregateKind.keyword
    let bounds ← maybe bounds
    token (keyword "OF")
    f kind bounds) :=
  Sure.bindTame (.constant fun kind _ => by cases kind <;> decide) fun kind => boundedOf_free (next kind)

/-- An aggregate is undecided only if its keyword stands in front of a bracket. -/
theorem decided_aggregate (x : List Char) : Decided (do
    let kind ← constant kinds AggregateKind.keyword
    let bounds ← maybe bounds
    token (keyword "OF")
    f kind bounds) x ∨
      ∃ kind : AggregateKind, Text.upper (leadingWord x) = kind.keyword.toList ∧ Leads '[' (x.dropWhile Name.isPart) := by
  have known : ∀ kind ∈ kinds, kind.keyword ∈ keywords := fun kind _ => by cases kind <;> decide
  rcases (Sure.constant known).decided x with missed | ⟨kind, x', taken⟩
  · exact .inl (.inl missed.bind)
  · obtain ⟨-, leads, rfl⟩ := leads_of_takes_constant known taken
    exact (decided_boundedOf (next kind) _).imp (.bind taken) fun square => ⟨kind, leads, square⟩

end

theorem collectionFlags_sure (kind : AggregateKind) (bounds : Option String) : Sure (do
    let optionalElements ← given (token (keyword "OPTIONAL"))
    let unique ← given (token (keyword "UNIQUE"))
    blanks
    return { kind, bounds, optionalElements, unique : CollectionHead }) := by
  refine .bind (Sure.keyword (by decide)).token.given fun optional => ?_
  refine .bind (Sure.keyword (by decide)).token.given fun unique => ?_
  exact .bind .blanks fun _ => .pure

theorem collectionHead_free : Free collectionHead :=
  aggregate_free collectionFlags_sure

theorem decided_collectionHead (x : List Char) : Decided collectionHead x ∨
    ∃ kind : AggregateKind, Text.upper (leadingWord x) = kind.keyword.toList ∧ Leads '[' (x.dropWhile Name.isPart) :=
  decided_aggregate collectionFlags_sure x

theorem label_sure : Sure label :=
  .bind (.symbol (by decide)) fun _ => Sure.ident.token

theorem genericType_sure : Sure genericType :=
  .bind (.keyword (by decide)) fun _ => Sure.maybe label_sure

theorem elementCore_firm : Firm Bracketed elementCore := by
  refine .orElse (Firm.map simpleType_firm ElementType.simple) (Sure.firm ?_)
  refine .orElse (.bind genericType_sure fun _ => .pure) ?_
  exact .bind .ident fun _ => .pure

theorem paramCore_firm : Firm Bracketed paramCore := by
  refine .orElse (Firm.map simpleType_firm ParamType.simple) (Sure.firm ?_)
  refine .orElse (.bind genericType_sure fun _ => .pure) ?_
  exact .bind .ident fun _ => .pure

section

variable {kind : AggregateKind} (leads : Text.upper (leadingWord x) = kind.keyword.toList)
include leads

theorem misses_simpleType : Misses simpleType x := by
  refine Misses.bind (misses_constant leads (by decide) fun type _ => ?_)
  cases kind <;> cases type <;> decide

theorem misses_genericType : Misses genericType x := by
  refine Misses.bind (misses_keyword leads (by decide) ?_)
  cases kind <;> decide

theorem takes_aggregateName : Takes ident x (String.ofList (leadingWord x)) (x.dropWhile Name.isPart) :=
  takes_ident leads (by cases kind <;> decide)

end

theorem elementType_firm : Firm Bracketed elementType := by
  refine .nested (Free.bind collectionHead_free fun _ => Sure.pure.tame) elementCore_firm fun x => ?_
  refine (decided_collectionHead x).imp (·.map _) ?_
  rintro ⟨kind, leads, square⟩
  have named : Takes elementCore x (.named (String.ofList (leadingWord x))) (x.dropWhile Name.isPart) := by
    refine Takes.orElse (Takes.orElse ?_ (misses_genericType leads).bind) (misses_simpleType leads).bind
    exact (takes_aggregateName leads).bind fun _ => rfl
  exact ⟨_, _, named, .inr square⟩

theorem aggregateWrap_sure : Sure (do
    keyword "AGGREGATE"
    let label ← maybe label
    token (keyword "OF")
    blanks
    return ParamType.aggregate label) := by
  refine .bind (.keyword (by decide)) fun _ => ?_
  refine .bind (Sure.maybe label_sure) fun label => ?_
  refine .bind (Sure.keyword (by decide)).token fun _ => ?_
  exact .bind .blanks fun _ => .pure

theorem paramWrap_free : Free paramWrap := by
  refine Tame.orElse (Sure.tame aggregateWrap_sure) ?_ fun x => .inl (Sure.decided aggregateWrap_sure x).total
  exact Free.bind collectionHead_free fun _ => Sure.pure.tame

theorem paramType_firm : Firm Bracketed paramType := by
  refine .nested paramWrap_free paramCore_firm fun x => ?_
  rcases Sure.decided aggregateWrap_sure x with missed | ⟨wrap, x', taken⟩
  · refine (decided_collectionHead x).imp ?_ ?_
    · intro decided
      exact .orElse missed (decided.map _)
    · rintro ⟨kind, leads, square⟩
      have named : Takes paramCore x (.named (String.ofList (leadingWord x))) (x.dropWhile Name.isPart) := by
        refine Takes.orElse (Takes.orElse ?_ (misses_genericType leads).bind) (misses_simpleType leads).bind
        exact (takes_aggregateName leads).bind fun _ => rfl
      exact ⟨_, _, named, .inr square⟩
  · exact .inl (.inr ⟨wrap, x', fun y => orElse_first (taken y)⟩)

theorem extensible_sure : Sure extensible :=
  .bind (.keyword (by decide)) fun _ => .blanks

theorem enumerationType_sure : Sure enumerationType := by
  refine .bind (Sure.given extensible_sure) fun _ => ?_
  refine .bind (.keyword (by decide)) fun _ => ?_
  exact .bind (Sure.keyword (by decide)).token fun _ => nameList_sure

theorem selectType_sure : Sure selectType := by
  refine .bind (Sure.given extensible_sure) fun _ => ?_
  exact .bind (.keyword (by decide)) fun _ => nameList_sure

/-- A type of an enumeration's or a collection's kind, or another one. -/
theorem typeBody_tame : Tame Bracketed typeBody := by
  have enumeration : Sure (do return TypeBody.enumeration (← enumerationType)) := Sure.bind enumerationType_sure fun _ => .pure
  have select : Sure (do return TypeBody.select (← selectType)) := Sure.bind selectType_sure fun _ => .pure
  have named : Sure (do return TypeBody.named (← ident)) := Sure.ident.bind fun _ => .pure
  have element (head : CollectionHead) : Firm Bracketed (do return TypeBody.collection head (← elementType)) :=
    Firm.map elementType_firm (TypeBody.collection head)
  refine Tame.orElse enumeration.tame ?_ fun x => .inl (enumeration.decided x).total
  refine Tame.orElse select.tame ?_ fun x => .inl (select.decided x).total
  refine Tame.orElse (Free.bind collectionHead_free fun head => (element head).toTame) ?_ fun x => ?_
  · exact (Firm.map simpleType_firm TypeBody.simple |>.orElse named.firm).toTame
  · rcases decided_collectionHead x with (missed | ⟨head, x', taken⟩) | ⟨kind, leads, square⟩
    · exact .inl (.inl missed.bind)
    · refine .inl (((element head).total x').imp (.bind_next taken) fun total y => ?_)
      obtain ⟨body, rest, found⟩ := total y
      exact ⟨body, rest, bind_takes (taken y) found⟩
    · have name : Takes (do return TypeBody.named (← ident)) x (.named (String.ofList (leadingWord x)))
          (x.dropWhile Name.isPart) := (takes_aggregateName leads).bind fun _ => rfl
      exact .inr (Takes.rests (name.orElse (misses_simpleType leads).bind) (.inr square))

/-! ### Entities -/

theorem subtypeClause_sure : Sure subtypeClause := by
  refine .bind (.keyword (by decide)) fun _ => ?_
  exact .bind (Sure.keyword (by decide)).token fun _ => nameList_sure

theorem subtypeExpression_free : Free subtypeExpression := by
  refine Sure.bindTame (Sure.keyword (by decide)).token fun _ => ?_
  refine Tame.token ?_
  exact Sure.bindTame (.char (by decide)) fun _ => IsScan.free closing_isScan 0

/-- The places at which the subtypes of an entity are told. -/
def Subtyped (x : List Char) : Prop :=
  ∃ x', Takes (token (keyword "OF")) x () x'

theorem supertypeClause_firm : Firm Subtyped supertypeClause := by
  refine .bind (Sure.keyword (by decide)).given fun isAbstract => ?_
  refine .bind (Sure.keyword (by decide)).token.given fun isSupertype => ?_
  split
  · refine Firm.map (Tame.maybe (Free.tame subtypeExpression_free) fun x => ?_) _
    rcases (@Sure.keyword "OF" (by decide)).token.decided x with missed | ⟨⟨⟩, x', taken⟩
    · exact .inl (.inl missed.bind)
    · exact .inr ⟨x', taken⟩
  · exact Sure.fail.firm

theorem attributeName_sure : Sure attributeName := by
  refine .orElse ?_ (.bind .ident fun _ => .pure)
  refine .bind (.keyword (by decide)) fun _ => ?_
  refine .bind (.symbol (by decide)) fun _ => ?_
  refine .bind Sure.ident.token fun entity => ?_
  refine .bind (.symbol (by decide)) fun _ => ?_
  exact .bind Sure.ident.token fun attr => .pure

theorem explicitClause_free : Free explicitClause := by
  refine Sure.bindTame (.sepBy1 (.symbol (by decide)) (Sure.token attributeName_sure)) fun names => ?_
  refine Sure.bindTame (.symbol (by decide)) fun _ => ?_
  refine Sure.bindTame (Sure.keyword (by decide)).token.given fun optional => ?_
  refine (Firm.token elementType_firm).toTame.bind (fun type => ?_) fun type r bracketed => ?_
  · exact Sure.tame (.bind (.symbol (by decide)) fun _ => .pure)
  · exact Misses.rests (bracketed.misses_symbol (by decide)).bind

theorem derivedClause_free : Free derivedClause := by
  refine Sure.bindTame attributeName_sure fun name => ?_
  refine Sure.bindTame (.symbol (by decide)) fun _ => ?_
  refine (Firm.token elementType_firm).toTame.bind (fun type => ?_) fun type r bracketed => ?_
  · refine Sure.bindTame (.symbol (by decide)) fun _ => ?_
    refine Sure.bindTame (.char (by decide)) fun _ => ?_
    refine Free.bind (Tame.token expressionText_free) fun text => ?_
    exact Sure.tame (.bind (.char (by decide)) fun _ => .pure)
  · exact Misses.rests (bracketed.misses_symbol (by decide)).bind

theorem owner_sure : Sure owner :=
  .bind Sure.ident.token fun _ => .symbol (by decide)

/-- What follows the aggregate of an inverse attribute. -/
theorem inverseTarget_sure (name : AttributeName) (aggregate : Option InverseAggregate) : Sure (do
    let entity ← token ident
    token (keyword "FOR")
    let _ ← given owner
    let forAttr ← token ident
    symbol ';'
    return { name, aggregate, entity, forAttr : InverseClause }) := by
  refine .bind Sure.ident.token fun entity => ?_
  refine .bind (Sure.keyword (by decide)).token fun _ => ?_
  refine .bind (Sure.given owner_sure) fun _ => ?_
  refine .bind Sure.ident.token fun forAttr => ?_
  exact .bind (.symbol (by decide)) fun _ => .pure

/-- The places at which a word stands in front of a bracket. -/
def Indexed (x : List Char) : Prop :=
  ∃ name x', Takes (token ident) x name x' ∧ Leads '[' x'

theorem inverseAggregate_free : Free inverseAggregate :=
  aggregate_free fun _ _ => .pure

theorem maybe_inverseAggregate_firm : Firm Indexed (maybe (token inverseAggregate)) := by
  refine Tame.maybe (Free.tame inverseAggregate_free).token fun x => ?_
  rcases decided_aggregate (fun _ _ => .pure) (x.dropWhile Text.isLayout) with decided | ⟨kind, leads, square⟩
  · refine .inl (decided.imp misses_token_iff.mpr ?_)
    rintro ⟨a, x', taken⟩
    exact ⟨a, x', takes_token_iff.mpr taken⟩
  · exact .inr ⟨_, _, takes_token_iff.mpr (takes_aggregateName leads), square⟩

theorem inverseClause_free : Free inverseClause := by
  refine Sure.bindTame attributeName_sure fun name => ?_
  refine Sure.bindTame (.symbol (by decide)) fun _ => ?_
  refine (Firm.toTame maybe_inverseAggregate_firm).bind (fun aggregate => (inverseTarget_sure name aggregate).tame) ?_
  rintro aggregate r ⟨entity, r', taken, square⟩
  exact Misses.rests (.bind_next taken (square.misses_keyword (by decide) (by decide)).bind)

/-! ### Functions and rules -/

theorem parameterClause_firm : Firm Bracketed parameterClause := by
  refine .bind (.sepBy1 (.symbol (by decide)) Sure.ident.token) fun names => ?_
  refine .bind (.symbol (by decide)) fun _ => ?_
  exact (Firm.token paramType_firm).map _

theorem parameterList_free : Free parameterList := by
  refine Sure.bindTame (.symbol (by decide)) fun _ => ?_
  have clauses := Firm.sepBy1 (.symbol (by decide)) (Firm.token parameterClause_firm) fun r bracketed =>
    bracketed.misses_symbol (c := ';') (by decide)
  refine clauses.toTame.bind (fun clauses => ?_) fun clauses r bracketed => ?_
  · exact Sure.tame (.bind (.symbol (by decide)) fun _ => .pure)
  · exact Misses.rests (bracketed.misses_symbol (by decide)).bind

theorem functionHead_free : Free functionHead := by
  refine Sure.bindTame (.keyword (by decide)) fun _ => ?_
  refine Sure.bindTame Sure.ident.token fun name => ?_
  have parameters : Firm Bracketed (maybe parameterList) := by
    refine Tame.maybe (Free.tame parameterList_free) fun x => ?_
    exact (misses_symbol_or_leads '(' (by decide) x).imp (fun missed => .inl missed.bind) .inl
  refine parameters.toTame.bind (fun parameters => ?_) fun parameters r bracketed => ?_
  · refine Sure.bindTame (.symbol (by decide)) fun _ => ?_
    refine (Firm.token paramType_firm).toTame.bind (fun returnType => ?_) fun returnType r bracketed => ?_
    · exact Sure.tame (.bind (.symbol (by decide)) fun _ => .pure)
    · exact Misses.rests (bracketed.misses_symbol (by decide)).bind
  · exact Misses.rests (bracketed.misses_symbol (by decide)).bind

theorem ruleHead_sure : Sure ruleHead :=
  .bind (.keyword (by decide)) fun _ => Sure.ident.token

end Express.Reader.Grammar
