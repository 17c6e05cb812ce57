import Mathlib.Data.List.DropRight
import Express.Proofs.Heads
import Express.Reader

/-!
# Parts that are not looked at

Constraints, the bodies of functions and rules, and whole declarations of some kinds are passed over. A declaration is
the same whatever stands behind a quote in such a part (`opening_declares`). A word that opens the constraints of an
entity is not followed by a colon or a comma, since it would be the name of an attribute otherwise.
-/

namespace Express.Reader.Grammar

open Reader.Parser

variable {α : Type} {p : Parser α} {x x' : List Char}

/-! ### Heads -/

/-- A type up to its constraints. -/
def typeHead : Parser TypeDecl := do
  keyword "TYPE"
  let name ← token ident
  symbol '='
  let body ← token typeBody
  symbol ';'
  blanks
  return { name, body }

/-- An entity up to the semicolon in front of its attributes: its name and what stands above and below it. -/
def entityTitle : Parser (Name × Option SupertypeClause × Option (List Name)) := do
  keyword "ENTITY"
  let name ← token ident
  let supertype ← maybe (token supertypeClause)
  let subtypeOf ← maybe (token subtypeClause)
  symbol ';'
  return (name, supertype, subtypeOf)

/-- The clauses behind a keyword, if it is there. -/
def clauses (word : String) (p : Parser α) : Parser (Option (List α)) :=
  maybe (do token (keyword word); many1 (token p))

/-- An entity up to its constraints. -/
def entityHead : Parser EntityDecl := do
  let (name, supertype, subtypeOf) ← entityTitle
  let explicit ← many (token explicitClause)
  let derived ← clauses "DERIVE" derivedClause
  let inverse ← clauses "INVERSE" inverseClause
  blanks
  return {
    name, supertype, explicit
    subtypeOf := subtypeOf.getD []
    derived := derived.getD []
    inverse := inverse.getD [] }

theorem typeDecl_eq : typeDecl = do
    let decl ← typeHead
    let _ ← given (do keyword "WHERE"; rest)
    return decl := by
  simp only [typeDecl, typeHead, bind_assoc, pure_bind]

theorem entityDecl_eq : entityDecl = do
    let decl ← entityHead
    let _ ← given (do keyword "UNIQUE" <|> keyword "WHERE"; rest)
    return decl := by
  simp only [entityDecl, entityHead, entityTitle, clauses, bind_assoc, pure_bind]
  refine bind_congr fun _ => bind_congr fun name => bind_congr fun supertype => bind_congr fun subtypeOf =>
    bind_congr fun _ => ?_
  refine Eq.trans ?_ (bind_assoc (m := Parser) (many (token explicitClause)) _ _).symm
  simp only [bind_assoc, pure_bind]

theorem typeHead_free : Free typeHead := by
  refine Sure.bindTame (.keyword (by decide)) fun _ => ?_
  refine Sure.bindTame Sure.ident.token fun name => ?_
  refine Sure.bindTame (.symbol (by decide)) fun _ => ?_
  refine (Tame.token typeBody_tame).bind (fun body => ?_) fun body r bracketed => ?_
  · exact Sure.tame (.bind (.symbol (by decide)) fun _ => .bind .blanks fun _ => .pure)
  · exact Misses.rests (bracketed.misses_symbol (by decide)).bind

/-- Subtypes that are told too late. -/
theorem misses_semicolon_of_subtyped (subtyped : Subtyped x) : Misses (symbol ';') x ∧ Misses (token subtypeClause) x := by
  obtain ⟨x', taken⟩ := subtyped
  obtain ⟨leads, -⟩ := leads_of_takes_keyword (by decide) (takes_token_iff.mp taken)
  refine ⟨?_, misses_token_iff.mpr (misses_keyword leads (by decide) (by decide)).bind⟩
  exact misses_token_iff.mpr (misses_char leads (by decide) (by decide))

theorem entityTitle_free : Free entityTitle := by
  refine Sure.bindTame (.keyword (by decide)) fun _ => ?_
  refine Sure.bindTame Sure.ident.token fun name => ?_
  refine (Firm.token supertypeClause_firm).maybe.toTame.bind (fun supertype => ?_) fun supertype r subtyped => ?_
  · refine Sure.tame (.bind (Sure.token subtypeClause_sure).maybe fun subtypeOf => ?_)
    exact .bind (.symbol (by decide)) fun _ => .pure
  · obtain ⟨open', none⟩ := misses_semicolon_of_subtyped subtyped
    have skipped : Takes (maybe (token subtypeClause)) r .none r := fun y => maybe_fails (none y)
    exact Misses.rests (.bind_next skipped open'.bind)

/-! ### Constraints -/

/-- The text starts with one of the words, and neither a colon nor a comma follows it, so that it is not the name of an
attribute. -/
def Headed (words : List String) (x : List Char) : Prop :=
  ∃ word ∈ words, ∃ x', Takes (token (keyword word)) x () x' ∧ Misses (symbol ':') x' ∧ Misses (symbol ',') x'

/-- A clause starts with the name of an attribute, and goes on with a colon or a comma. -/
structure Named (p : Parser α) : Prop where
  name : ∀ {x}, Misses (token attributeName) x → Misses (token p) x
  colon : ∀ {x name x'}, Takes (token attributeName) x name x' → Misses (symbol ':') x' → Misses (symbol ',') x' →
    Misses (token p) x

theorem token_token (p : Parser α) : token (token p) = token p := by
  funext cs
  change p ((cs.dropWhile Text.isLayout).dropWhile Text.isLayout) = p (cs.dropWhile Text.isLayout)
  rw [List.dropWhile_idempotent]

theorem explicitClause_named : Named explicitClause where
  name := by
    intro x missed
    rw [← token_token, misses_token_iff] at missed
    exact misses_token_iff.mpr missed.bind.bind
  colon := by
    intro x name x' taken colon comma
    rw [← token_token, takes_token_iff] at taken
    refine misses_token_iff.mpr (.bind_next (taken.bind (Takes.bind comma.bind.many fun _ => rfl)) colon.bind)

theorem derivedClause_named : Named derivedClause where
  name missed := misses_token_iff.mpr (misses_token_iff.mp missed).bind
  colon taken colon _ := misses_token_iff.mpr (.bind_next (takes_token_iff.mp taken) colon.bind)

theorem inverseClause_named : Named inverseClause where
  name missed := misses_token_iff.mpr (misses_token_iff.mp missed).bind
  colon taken colon _ := misses_token_iff.mpr (.bind_next (takes_token_iff.mp taken) colon.bind)

theorem Leads.misses_attributeName {c : Char} (leads : Leads c x) (mark : Name.isPart c = false) :
    Misses (token attributeName) x := by
  have self : Misses (token (keyword "SELF")) x := leads.misses_keyword mark (by decide)
  refine misses_token_iff.mpr fun y => (orElse_second ((misses_token_iff.mp self).bind y)).trans ?_
  exact (misses_token_iff.mp (leads.misses_ident mark)).bind y

section

variable {words : List String} (known : ∀ word ∈ words, word ∈ keywords ∧ word ≠ "SELF") (headed : Headed words x)
include known headed

theorem Headed.misses {p : Parser α} (named : Named p) : Misses (token p) x := by
  obtain ⟨word, member, x', taken, colon, comma⟩ := headed
  obtain ⟨listed, other⟩ := known word member
  obtain ⟨leads, rfl⟩ := leads_of_takes_keyword listed (takes_token_iff.mp taken)
  have asName : Takes attributeName _ _ _ := Takes.orElse ((takes_ident leads listed).bind fun _ => rfl)
    (Grammar.misses_keyword leads (by decide) (Ne.symm other)).bind
  exact named.colon (takes_token_iff.mpr asName) colon comma

theorem Headed.misses_keyword {other : String} (listed : other ∈ keywords) (fresh : other ∉ words) :
    Misses (token (keyword other)) x := by
  obtain ⟨word, member, x', taken, -, -⟩ := headed
  obtain ⟨leads, -⟩ := leads_of_takes_keyword (known word member).1 (takes_token_iff.mp taken)
  exact misses_token_iff.mpr (Grammar.misses_keyword leads listed fun same => fresh (same ▸ member))

end

section

variable {word : String} {words : List String} {items : Option (List α)} {y : List Char} (free : Free p) (named : Named p)
  (listed : word ∈ keywords) (fresh : word ∉ words) (known : ∀ word ∈ words, word ∈ keywords ∧ word ≠ "SELF")
  (headed : Headed words x')
include free named listed fresh known headed

/-- Clauses that come to rest in front of another word are the same whatever stands behind the quote, and what stands in
front of them is no clause either. -/
theorem clauses_takes (found : clauses word p (x ++ '\'' :: y) = some (items, x' ++ '\'' :: y)) :
    Takes (clauses word p) x items x' ∧ Headed (word :: words) x := by
  cases tried : (do token (keyword word); many1 (token p) : Parser (List α)) (x ++ '\'' :: y) with
  | none =>
    rw [clauses, maybe_fails tried] at found
    obtain ⟨rfl, same⟩ := Prod.mk.inj (Option.some.inj found)
    rw [← List.append_cancel_right same] at headed
    refine ⟨?_, ?_⟩
    · rw [← List.append_cancel_right same]
      exact fun y => maybe_fails ((headed.misses_keyword known listed fresh).bind y)
    · obtain ⟨other, member, behind⟩ := headed
      exact ⟨other, List.mem_cons_of_mem word member, behind⟩
  | some pair =>
    obtain ⟨list, rest⟩ := pair
    rw [clauses, maybe_takes tried] at found
    obtain ⟨rfl, rfl⟩ := Prod.mk.inj (Option.some.inj found)
    obtain ⟨⟨⟩, mid, opened, rounds⟩ := bind_some tried
    obtain ⟨first, behind, one, more⟩ := bind_some rounds
    obtain ⟨others, ends, repeated, done⟩ := bind_some more
    cases done
    obtain ⟨m', rfl⟩ := exists_front (free.token.shrinks.many behind others _ repeated)
    obtain ⟨m, rfl⟩ := exists_front (free.token.shrinks mid first _ one)
    have keywordTaken := (Sure.keyword listed).token.takes opened
    have firstTaken := Free.takes free.token one
    have othersTaken := Free.many_takes free.token repeated (headed.misses known named)
    have goesOn {c : Char} (mark : Name.isPart c = false) (other : c ≠ '\'') : Misses (symbol c) m := by
      refine (misses_symbol_or_leads c other m).resolve_right fun leads => ?_
      cases (firstTaken []).symm.trans (named.name (leads.misses_attributeName mark) [])
    refine ⟨fun y => maybe_takes (bind_takes (keywordTaken y) ?_), word, List.mem_cons_self, m, keywordTaken, ?_, ?_⟩
    · exact bind_takes (firstTaken y) (bind_takes (othersTaken y) rfl)
    · exact goesOn (by decide) (by decide)
    · exact goesOn (by decide) (by decide)

end

theorem clauses_shrinks {word : String} (listed : word ∈ keywords) (free : Free p) : Shrinks (clauses word p) := by
  refine Shrinks.maybe (.bind (Sure.keyword listed).token.shrinks fun _ => ?_)
  exact .bind free.token.shrinks fun first => .bind (Shrinks.many free.token.shrinks) fun others => .pure

theorem Headed.before_blanks {words : List String} (headed : Headed words (x.dropWhile Text.isLayout)) :
    Headed words x := by
  obtain ⟨word, member, x', taken, behind⟩ := headed
  rw [← takes_token_iff, token_token] at taken
  exact ⟨word, member, x', taken, behind⟩

/-- An entity up to constraints in front of a quote. -/
theorem entityHead_takes {decl : EntityDecl} {y : List Char}
    (found : entityHead (x ++ '\'' :: y) = some (decl, x' ++ '\'' :: y)) (headed : Headed ["UNIQUE", "WHERE"] x') :
    Takes entityHead x decl x' := by
  obtain ⟨title, m₁, titled, found⟩ := bind_some found
  obtain ⟨explicit, m₂, stored, found⟩ := bind_some found
  obtain ⟨derived, m₃, computed, found⟩ := bind_some found
  obtain ⟨inverse, m₄, shown, found⟩ := bind_some found
  obtain ⟨⟨⟩, m₅, skipped, done⟩ := bind_some found
  cases done
  obtain ⟨r₄, rfl⟩ := exists_front (Sure.blanks.shrinks m₄ () _ skipped)
  obtain ⟨r₃, rfl⟩ := exists_front (clauses_shrinks (by decide) inverseClause_free m₃ inverse _ shown)
  obtain ⟨r₂, rfl⟩ := exists_front (clauses_shrinks (by decide) derivedClause_free m₂ derived _ computed)
  obtain ⟨r₁, rfl⟩ := exists_front ((Tame.token explicitClause_free).shrinks.many m₁ explicit _ stored)
  have same : r₄.dropWhile Text.isLayout = x' := by
    rw [blanks, dropWhile_front (by decide)] at skipped
    exact List.append_cancel_right (Prod.mk.inj (Option.some.inj skipped)).2
  have headed₄ : Headed ["UNIQUE", "WHERE"] r₄ := Headed.before_blanks (same ▸ headed)
  -- From the last clauses to the first: each stop where the next word is none of theirs.
  obtain ⟨inverseTaken, headed₃⟩ :=
    clauses_takes inverseClause_free inverseClause_named (by decide) (by decide) (by decide) headed₄ shown
  obtain ⟨derivedTaken, headed₂⟩ :=
    clauses_takes derivedClause_free derivedClause_named (by decide) (by decide) (by decide) headed₃ computed
  have explicitTaken := Free.many_takes (Tame.token explicitClause_free) stored (headed₂.misses (by decide) explicitClause_named)
  have titleTaken := Free.takes entityTitle_free titled
  have blanksTaken := Sure.blanks.takes skipped
  intro y
  refine bind_takes (titleTaken y) (bind_takes (explicitTaken y) ?_)
  exact bind_takes (derivedTaken y) (bind_takes (inverseTaken y) (bind_takes (blanksTaken y) rfl))

/-! ### Openings -/

/-- Takes nothing, in front of neither a colon nor a comma. -/
def unnamed : Parser Unit :=
  fun cs => if ((symbol ':' <|> symbol ',' : Parser Unit) cs).isSome then none else some ((), cs)

/-- A declaration up to the part that is not looked at. -/
def opening : BlockKind → Parser Unit
  | .type => do
    let _ ← typeHead
    keyword "WHERE"
  | .entity => do
    let _ ← entityHead
    keyword "UNIQUE" <|> keyword "WHERE"
    unnamed
  | .function => do
    let _ ← functionHead
  | .rule => do
    let _ ← ruleHead
  | .procedure | .constant | .subtypeConstraint => pure ()

theorem misses_of_unnamed {cs rest : List Char} (found : unnamed cs = some ((), rest)) :
    rest = cs ∧ symbol ':' cs = none ∧ symbol ',' cs = none := by
  unfold unnamed at found
  cases colon : symbol ':' cs with
  | some pair =>
    rw [orElse_first colon] at found
    cases found
  | none =>
    rw [orElse_second colon] at found
    cases comma : symbol ',' cs with
    | some pair =>
      rw [comma] at found
      cases found
    | none =>
      rw [comma] at found
      cases found
      exact ⟨rfl, rfl, rfl⟩

theorem token_keyword_takes {word : String} (listed : word ∈ keywords) (taken : Takes (keyword word) x () x') :
    Takes (token (keyword word)) x () x' := by
  obtain ⟨leads, -⟩ := leads_of_takes_keyword listed taken
  obtain ⟨c, t, rfl, start⟩ := exists_first leads listed
  have filled : Text.isLayout c = false := Name.isLayout_eq_false (Name.isPart_of_isStart start)
  rw [takes_token_iff, List.dropWhile_cons_of_neg (by simp [filled])]
  exact taken

theorem constraints_sure : Sure (keyword "UNIQUE" <|> keyword "WHERE" : Parser Unit) :=
  .orElse (.keyword (by decide)) (.keyword (by decide))

theorem headed_of_constraints (opened : Takes (keyword "UNIQUE" <|> keyword "WHERE" : Parser Unit) x () x')
    (colon : Misses (symbol ':') x') (comma : Misses (symbol ',') x') : Headed ["UNIQUE", "WHERE"] x := by
  rcases (@Sure.keyword "UNIQUE" (by decide)).decided x with missed | ⟨⟨⟩, x'', taken⟩
  · have taken : Takes (keyword "WHERE") x () x' := fun y => (orElse_second (missed y)).symm.trans (opened y)
    exact ⟨"WHERE", by decide, x', token_keyword_takes (by decide) taken, colon, comma⟩
  · have same := (orElse_first (taken [])).symm.trans (opened [])
    obtain rfl := List.append_cancel_right (Prod.mk.inj (Option.some.inj same)).2
    exact ⟨"UNIQUE", by decide, x'', token_keyword_takes (by decide) taken, colon, comma⟩

theorem parseAll_constrained {head : Parser α} {mark : Parser Unit} {decl : α} {cs mid behind : List Char}
    (headed : head cs = some (decl, mid)) (marked : mark mid = some ((), behind)) :
    parseAll (do let decl ← head; let _ ← given (do mark; rest); return decl) cs = some decl := by
  have skipped : (do mark; rest : Parser (List Char)) mid = some (behind, []) := bind_takes marked rfl
  have whole : (do let decl ← head; let _ ← given (do mark; rest); return decl : Parser α) cs = some (decl, []) :=
    bind_takes headed (bind_takes (given_takes skipped) rfl)
  rw [parseAll, whole]

theorem parseAll_typeDecl {y : List Char} (found : opening .type (x ++ '\'' :: y) = some ((), x' ++ '\'' :: y)) :
    ∃ decl, ∀ z, parseAll typeDecl (x ++ '\'' :: z) = some decl := by
  obtain ⟨decl, mid, headed, opened⟩ := bind_some found
  have sure := @Sure.keyword "WHERE" (by decide)
  obtain ⟨r, rfl⟩ := exists_front (sure.shrinks mid () _ opened)
  have headTaken := Free.takes typeHead_free headed
  have opensAlike := sure.takes opened
  refine ⟨decl, fun z => ?_⟩
  rw [typeDecl_eq]
  exact parseAll_constrained (headTaken z) (opensAlike z)

theorem parseAll_entityDecl {y : List Char} (found : opening .entity (x ++ '\'' :: y) = some ((), x' ++ '\'' :: y)) :
    ∃ decl, ∀ z, parseAll entityDecl (x ++ '\'' :: z) = some decl := by
  obtain ⟨decl, mid, headed, found⟩ := bind_some found
  obtain ⟨⟨⟩, behind, opened, unnamed⟩ := bind_some found
  obtain ⟨rfl, colon, comma⟩ := misses_of_unnamed unnamed
  obtain ⟨r, rfl⟩ := exists_front (Sure.shrinks constraints_sure mid () _ opened)
  have opensAlike := Sure.takes constraints_sure opened
  have colonMissed := (Sure.symbol (by decide)).misses colon
  have commaMissed := (Sure.symbol (by decide)).misses comma
  have headTaken := entityHead_takes headed (headed_of_constraints opensAlike colonMissed commaMissed)
  refine ⟨decl, fun z => ?_⟩
  rw [entityDecl_eq]
  exact parseAll_constrained (headTaken z) (opensAlike z)

theorem parseFront_head {head : Parser α} (free : Free head) {y : List Char}
    (found : (do let _ ← head : Parser Unit) (x ++ '\'' :: y) = some ((), x' ++ '\'' :: y)) :
    ∃ a, ∀ z, parseFront head (x ++ '\'' :: z) = some a := by
  obtain ⟨a, mid, headed, done⟩ := bind_some found
  cases done
  have taken := Free.takes free headed
  refine ⟨a, fun z => ?_⟩
  rw [parseFront, taken z]
  rfl

/-- A declaration is the same whatever stands behind a quote in the part that is not looked at. -/
theorem opening_declares {kind : BlockKind} {y : List Char}
    (found : opening kind (x ++ '\'' :: y) = some ((), x' ++ '\'' :: y)) :
    ∃ declared, ∀ line z, Block.declaration? { kind, line, text := x ++ '\'' :: z } = .ok declared := by
  cases kind with
  | type =>
    obtain ⟨decl, alike⟩ := parseAll_typeDecl found
    refine ⟨some (.type decl), fun line z => ?_⟩
    unfold Block.declaration?
    dsimp only
    rw [alike]
    rfl
  | entity =>
    obtain ⟨decl, alike⟩ := parseAll_entityDecl found
    refine ⟨some (.entity decl), fun line z => ?_⟩
    unfold Block.declaration?
    dsimp only
    rw [alike]
    rfl
  | function =>
    obtain ⟨decl, alike⟩ := parseFront_head functionHead_free found
    refine ⟨some (.function decl), fun line z => ?_⟩
    unfold Block.declaration?
    dsimp only
    rw [alike]
    rfl
  | rule =>
    obtain ⟨name, alike⟩ := parseFront_head (Sure.tame ruleHead_sure) found
    refine ⟨some (.rule name), fun line z => ?_⟩
    unfold Block.declaration?
    dsimp only
    rw [alike]
    rfl
  | procedure => exact ⟨none, fun _ _ => rfl⟩
  | constant => exact ⟨none, fun _ _ => rfl⟩
  | subtypeConstraint => exact ⟨none, fun _ _ => rfl⟩

end Express.Reader.Grammar
