import Express.Proofs.BlockEnds
import Express.Proofs.Remarks

/-!
# The first schema of a text

A schema that is read is read up to the word `END_SCHEMA`. No search for the end of a statement or block looks behind
what it finds (`splitStatement_behind`, `cut?_behind`), so the schema is settled at that word (`readPlain_settles`). A
further text may close a remark, or turn the last character into the start of one, but it leaves the identifiers as they
are (`strip_keeps`). So it makes no difference (`read_append`).
-/

namespace Express

namespace Reader

open Text Reader.Parser

/-! ### What stands behind a statement or block -/

theorem splitStatement_behind {quoted : Bool} {cs front rest : List Char}
    (found : splitStatement quoted cs = some (front, rest)) (other : List Char) :
    splitStatement quoted (front ++ ';' :: other) = some (front, other) := by
  induction cs generalizing quoted front with
  | nil => cases found
  | cons c cs ih =>
    rw [splitStatement] at found
    split at found
    · rename_i ends
      obtain ⟨rfl, rfl⟩ := Prod.mk.inj (Option.some.inj found)
      rw [List.nil_append, splitStatement, if_pos ⟨rfl, ends.2⟩]
    · rename_i goesOn
      obtain ⟨⟨inner, after⟩, inside, same⟩ := Option.map_eq_some_iff.mp found
      obtain ⟨rfl, rfl⟩ := Prod.mk.inj same
      rw [List.cons_append, splitStatement, if_neg goesOn, ih inside]
      rfl

/-- The word that ends a block stands in front of the semicolon, and the search does not get to what is behind. -/
theorem cut?_behind {kind : BlockKind} {cs : List Char} {piece : Cut} (found : cut? kind cs = some piece) :
    ∃ passed, cs = passed ++ ';' :: piece.rest ∧
      ∀ other, cut? kind (passed ++ ';' :: other) = some { piece with rest := other } := by
  have identifier := endKeyword_isIdentifier kind
  obtain ⟨behind, word, statement⟩ := cut?_iff.mp found
  obtain ⟨spelled, rfl, -⟩ := splitWord_eq word
  obtain rfl := splitStatement_eq statement
  have shape : piece.body ++ spelled ++ (piece.gap ++ ';' :: piece.rest) =
      (piece.body ++ spelled ++ piece.gap) ++ ';' :: piece.rest := (List.append_assoc _ piece.gap _).symm
  refine ⟨piece.body ++ spelled ++ piece.gap, shape, fun other => ?_⟩
  rw [shape] at word
  have inside : splitWord kind.endKeyword.toList false (piece.body ++ spelled ++ piece.gap) =
      some (piece.body, piece.gap) := by
    cases first : splitWord kind.endKeyword.toList false (piece.body ++ spelled ++ piece.gap) with
    | some pieces =>
      rw [splitWord_mark_of_some identifier (by decide) first] at word
      obtain ⟨body, gap⟩ := Prod.mk.inj (Option.some.inj word)
      rw [← body, ← List.append_cancel_right gap]
    | none =>
      rw [splitWord_mark_of_none identifier (by decide) first] at word
      obtain ⟨⟨further, after⟩, -, same⟩ := Option.map_eq_some_iff.mp word
      have lengths := congrArg List.length (Prod.mk.inj same).1
      simp only [List.length_append, List.length_cons] at lengths
      omega
  exact cut?_iff.mpr ⟨_, splitWord_mark_of_some identifier (by decide) inside other, splitStatement_behind statement other⟩

theorem wordAt_behind (x y z : List Char) : wordAt (x ++ ';' :: y) = wordAt (x ++ ';' :: z) := by
  rw [wordAt_mark (by decide), wordAt_mark (by decide)]

theorem frontAt_clause_behind {line next : Nat} {start rest : List Char} (seen : frontAt line start = .clause next rest) :
    ∃ passed, start = passed ++ ';' :: rest ∧ ∀ other, frontAt line (passed ++ ';' :: other) = .clause next other := by
  obtain ⟨clause, passed, found, rfl⟩ := frontAt_clause_iff.mp seen
  obtain rfl := splitStatement_eq found
  refine ⟨passed, rfl, fun other => frontAt_clause_iff.mpr ⟨?_, passed, splitStatement_behind found other, rfl⟩⟩
  rwa [wordAt_behind passed other rest]

theorem frontAt_block_behind {line next : Nat} {start rest : List Char} {block : Block}
    (seen : frontAt line start = .block block next rest) :
    ∃ passed, start = passed ++ ';' :: rest ∧ ∀ other, frontAt line (passed ++ ';' :: other) = .block block next other := by
  obtain ⟨kind, piece, known, cut, same, lines, rfl⟩ := frontAt_block_iff.mp seen
  obtain ⟨passed, rfl, alike⟩ := cut?_behind cut
  refine ⟨passed, rfl, fun other => frontAt_block_iff.mpr ⟨kind, _, ?_, alike other, same, lines, rfl⟩⟩
  rwa [wordAt_behind passed other piece.rest]

/-! ### Settled texts -/

/-- Some identifier of the text settles a property: it holds whatever follows behind that identifier. -/
def Settles (P : List Char → Prop) (cs : List Char) : Prop :=
  ∃ before last behind, cs = before ++ last :: behind ∧ Name.isPart last = true ∧ atWordEnd behind = true ∧
    ∀ other, atWordEnd other = true → P (before ++ last :: other)

theorem Settles.append {P Q : List Char → Prop} {cs : List Char} (settled : Settles P cs) {passed : List Char}
    (goesOn : ∀ other, P other → Q (passed ++ other)) : Settles Q (passed ++ cs) := by
  obtain ⟨before, last, behind, rfl, part, ends, holds⟩ := settled
  refine ⟨passed ++ before, last, behind, (List.append_assoc ..).symm, part, ends, fun other apart => ?_⟩
  rw [List.append_assoc]
  exact goesOn _ (holds other apart)

theorem atWordEnd_dropWhile (cs : List Char) : atWordEnd (cs.dropWhile Name.isPart) = true := by
  induction cs with
  | nil => rfl
  | cons c cs ih =>
    cases part : Name.isPart c with
    | true => rwa [List.dropWhile_cons_of_pos part]
    | false =>
      rw [List.dropWhile_cons_of_neg (by simp [part]), atWordEnd, part]
      rfl

theorem leadingWord_ne_nil_of_endOfSchema {cs : List Char} (named : wordAt cs = "END_SCHEMA") : leadingWord cs ≠ [] := by
  intro empty
  rw [wordAt, empty] at named
  exact absurd named (by decide)

theorem frontAt_settles {line : Nat} {start : List Char} (seen : frontAt line start = .ends .endOfSchema) :
    Settles (fun start => frontAt line start = .ends .endOfSchema) start := by
  have named := frontAt_endOfSchema_iff.mp seen
  have filled := leadingWord_ne_nil_of_endOfSchema named
  have parts : ∀ c ∈ leadingWord start, Name.isPart c = true := List.all_eq_true.mp List.all_takeWhile
  have word (other : List Char) : (leadingWord start).dropLast ++ (leadingWord start).getLast filled :: other =
      leadingWord start ++ other := by
    rw [List.append_cons, List.dropLast_concat_getLast]
  refine ⟨(leadingWord start).dropLast, _, start.dropWhile Name.isPart, ?_, parts _ (List.getLast_mem filled),
    atWordEnd_dropWhile start, fun other apart => ?_⟩
  · rw [word]
    exact List.takeWhile_append_dropWhile.symm
  · rw [word]
    refine frontAt_endOfSchema_iff.mpr ?_
    rw [wordAt, leadingWord_append parts apart]
    exact named

theorem filled_of_endOfSchema {cs : List Char} (named : wordAt cs = "END_SCHEMA") :
    ∀ c ∈ cs.head?, isBlank c = false := by
  intro c found
  obtain ⟨tail, rfl⟩ := List.head?_eq_some_iff.mp found
  refine Name.isBlank_eq_false ?_
  cases part : Name.isPart c with
  | true => rfl
  | false => exact absurd (List.takeWhile_cons_of_neg (by simp [part])) (leadingWord_ne_nil_of_endOfSchema named)

theorem filled_behind {passed rest : List Char} (filled : ∀ c ∈ (passed ++ ';' :: rest).head?, isBlank c = false)
    (other : List Char) : ∀ c ∈ (passed ++ ';' :: other).head?, isBlank c = false := by
  rw [List.head?_append] at filled ⊢
  exact filled

/-- A clause or block behind blanks. -/
theorem front_behind {seen : List Char → Front} {line : Nat} {cs rest : List Char} (here : front line cs = seen rest)
    (behind : ∀ {line start}, frontAt line start = seen rest → ∃ passed, start = passed ++ ';' :: rest ∧
      ∀ other, frontAt line (passed ++ ';' :: other) = seen other) :
    ∃ passed, cs = passed ++ rest ∧ ∀ other, front line (passed ++ other) = seen other := by
  obtain ⟨blanks, start, rfl, blank, filled⟩ := exists_blanks cs
  rw [front_blanks blank filled] at here
  obtain ⟨passed, rfl, alike⟩ := behind here
  refine ⟨blanks ++ (passed ++ [';']), by simp, fun other => ?_⟩
  rw [List.append_assoc, List.append_assoc, List.singleton_append, front_blanks blank (filled_behind filled other), alike]

/-- By induction on what is passed: nothing looks behind the clause or block at the front, so what settles the rest of
the text settles the whole. -/
theorem declarationsFrom_settles {line : Nat} {cs : List Char} {declarations : List Declaration}
    (read : declarationsFrom line cs = .ok declarations) :
    Settles (fun cs => declarationsFrom line cs = .ok declarations) cs := by
  induction line, cs using split_induction generalizing declarations with
  | ends line cs ending seen =>
    rw [declarationsFrom_ends seen] at read
    cases fault : ReadError.ofEnding? ending with
    | some error => rw [fault] at read; cases read
    | none =>
      rw [fault] at read
      cases read
      cases ofEnding?_eq_none_iff.mp fault
      obtain ⟨blanks, start, rfl, blank, filled⟩ := exists_blanks cs
      rw [front_blanks blank filled] at seen
      refine (frontAt_settles seen).append fun other ends => ?_
      rw [← front_blanks blank (filled_of_endOfSchema (frontAt_endOfSchema_iff.mp ends))] at ends
      rw [declarationsFrom_ends ends]
      rfl
  | clause line cs next rest seen ih =>
    obtain ⟨passed, rfl, alike⟩ := front_behind seen frontAt_clause_behind
    rw [declarationsFrom_clause seen] at read
    refine (ih read).append fun other settled => ?_
    rw [declarationsFrom_clause (alike other)]
    exact settled
  | block line cs first next rest seen ih =>
    obtain ⟨passed, rfl, alike⟩ := front_behind seen frontAt_block_behind
    rw [declarationsFrom_block seen] at read
    cases understood : first.declaration? with
    | error other => rw [understood] at read; cases read
    | ok declared =>
      rw [understood] at read
      cases others : declarationsFrom next rest with
      | error other =>
        dsimp only [Except.bind] at read
        rw [others] at read
        cases read
      | ok later =>
        dsimp only [Except.bind] at read
        rw [others] at read
        cases read
        refine (ih others).append fun other settled => ?_
        rw [declarationsFrom_block (alike other), understood, settled]
        rfl

theorem readPlain_blanks {blanks header body : List Char} {name : Name} (blank : ∀ c ∈ blanks, isBlank c = true)
    (filled : ∀ c ∈ (header ++ ';' :: body).head?, isBlank c = false)
    (statement : splitStatement false (header ++ ';' :: body) = some (header, body))
    (named : parseAll Grammar.schemaHeader (trim header) = some name) :
    readPlain (blanks ++ (header ++ ';' :: body)) =
      (declarationsFrom (1 + lineEnds blanks + lineEnds header) body).map fun declarations => { name, declarations } := by
  obtain ⟨taken, left⟩ := blanks_append blank filled
  unfold readPlain
  rw [taken, left, statement]
  dsimp only
  rw [named]
  rfl

theorem readPlain_settles {cs : List Char} {schema : Schema} (read : readPlain cs = .ok schema) :
    Settles (fun cs => readPlain cs = .ok schema) cs := by
  obtain ⟨blanks, start, rfl, blank, filled⟩ := exists_blanks cs
  rcases readPlain_cases (blanks ++ start) with unheaded | ⟨header, body, name, statement, named, -⟩
  · rw [unheaded] at read
    cases read
  · rw [(blanks_append blank filled).2] at statement
    obtain rfl := splitStatement_eq statement
    rw [readPlain_blanks blank filled statement named] at read
    cases inside : declarationsFrom (1 + lineEnds blanks + lineEnds header) body with
    | error fault => rw [inside] at read; cases read
    | ok declarations =>
      rw [inside] at read
      cases read
      rw [List.append_cons, ← List.append_assoc]
      refine (declarationsFrom_settles inside).append fun other settled => ?_
      rw [List.append_assoc, ← List.append_cons, readPlain_blanks blank (filled_behind filled other)
        (splitStatement_behind statement other) named, settled]
      rfl

/-! ### Scans of a longer text -/

theorem atWordEnd_strip_tail (cs : List Char) : atWordEnd (strip .tail cs) = true := by
  induction cs with
  | nil =>
    rw [strip_nil]
    rfl
  | cons c cs ih =>
    rw [strip]
    split
    · rfl
    · exact ih

/-- A text that does not go on with an identifier leaves none either, unless a remark is open in front of it. -/
theorem atWordEnd_strip {mode : Mode} {cs : List Char} (outside : ∀ outer, mode ≠ .remark outer)
    (apart : atWordEnd cs = true) : atWordEnd (strip mode cs) = true := by
  cases cs with
  | nil =>
    rw [strip_nil]
    rfl
  | cons c cs =>
    rw [strip_stride]
    generalize cs.head? = second
    fun_cases stride mode c second with
    | case1 => rfl
    | case2 c second other => exact atWordEnd_strip_tail _
    | case3 outer => exact absurd rfl (outside outer)
    | case4 => exact absurd rfl (outside 0)
    | case5 outer => exact absurd rfl (outside (outer + 1))
    | case6 outer c second opens closes leaves => exact absurd rfl (outside outer)
    | case7 c => exact apart
    | case8 => rfl
    | case9 => exact atWordEnd_strip_tail _
    | case10 c second opens tails => exact apart

/-- Where a remark is open, the text that is kept so far does not end with an identifier. -/
def Fits (mode : Mode) (kept : List Char) : Prop :=
  ∀ outer, mode = .remark outer → ∀ c ∈ kept.getLast?, Name.isPart c = false

theorem Fits.stride {mode : Mode} {kept : List Char} (fits : Fits mode kept) (c : Char) (second : Option Char) :
    Fits (Reader.stride mode c second).next (kept ++ (Reader.stride mode c second).kept.toList) := by
  have added {d : Char} (outside : Name.isPart d = false) : ∀ c ∈ (kept ++ [d]).getLast?, Name.isPart c = false := by
    rw [List.getLast?_concat]
    rintro c ⟨⟩
    exact outside
  intro outer
  fun_cases Reader.stride mode c second with
  | case1 => intro next; cases next
  | case2 c second other => intro next; cases next
  | case3 outer => intro _; rw [Option.toList_none, List.append_nil]; exact fits outer rfl
  | case4 => intro next; cases next
  | case5 outer => intro _; rw [Option.toList_none, List.append_nil]; exact fits (outer + 1) rfl
  | case6 outer c second opens closes leaves =>
    intro _
    dsimp only
    by_cases line : c = '\n'
    · rw [if_pos line, line]
      exact added rfl
    · rw [if_neg line, Option.toList_none, List.append_nil]
      exact fits outer rfl
  | case7 c =>
    intro next
    dsimp only at next
    split at next <;> cases next
  | case8 => intro _; exact added rfl
  | case9 => intro next; cases next
  | case10 c second opens tails =>
    intro next
    dsimp only at next
    split at next <;> cases next

theorem Fits.atWordEnd_strip {mode : Mode} {kept cs : List Char} (fits : Fits mode kept) (apart : atWordEnd cs = true) :
    (∀ c ∈ kept.getLast?, Name.isPart c = false) ∨ atWordEnd (strip mode cs) = true := by
  cases mode with
  | remark outer => exact .inl (fits outer rfl)
  | plain => exact .inr (Reader.atWordEnd_strip (by intro outer same; cases same) apart)
  | quoted => exact .inr (Reader.atWordEnd_strip (by intro outer same; cases same) apart)
  | tail => exact .inr (Reader.atWordEnd_strip (by intro outer same; cases same) apart)

/-- The texts differ behind all identifiers of the first one, and the second one does not make the last of these longer. -/
def Keeps (short long : List Char) : Prop :=
  ∃ shared x y, short = shared ++ x ∧ long = shared ++ y ∧ (∀ c ∈ x, Name.isPart c = false) ∧
    ((∀ c ∈ shared.getLast?, Name.isPart c = false) ∨ atWordEnd y = true)

theorem Keeps.of_settles {P : List Char → Prop} {short long : List Char} (keeps : Keeps short long)
    (settled : Settles P short) : P long := by
  obtain ⟨shared, x, y, rfl, rfl, mute, joins⟩ := keeps
  obtain ⟨before, last, behind, shape, part, ends, holds⟩ := settled
  have spoken : last ∉ x := by
    intro member
    rw [mute last member] at part
    cases part
  -- The identifier that settles the property ends within what the texts share.
  rcases List.append_eq_append_iff.mp shape with ⟨middle, rfl, rest⟩ | ⟨middle, rfl, rest⟩
  · exact absurd (by rw [rest]; simp) spoken
  · cases middle with
    | nil => exact absurd (by rw [← List.nil_append x, ← rest]; simp) spoken
    | cons c middle =>
      cases rest
      rw [List.append_assoc]
      refine holds _ ?_
      cases middle with
      | cons d middle => exact ends
      | nil =>
        rcases joins with outside | apart
        · rw [outside last (by simp)] at part
          cases part
        · exact apart

theorem isPart_of_isMark {c d : Char} (mark : isMark c d = true) : Name.isPart c = false := by
  simp only [isMark, decide_eq_true_eq, List.mem_cons, Prod.mk.injEq, List.not_mem_nil, or_false] at mark
  rcases mark with ⟨rfl, -⟩ | ⟨rfl, -⟩ | ⟨rfl, -⟩ <;> rfl

theorem mem_strip_singleton {mode : Mode} {c d : Char} (member : d ∈ strip mode [c]) : d = c := by
  have nothing : (stride mode c none).rest [] = [] := by
    unfold Stride.rest
    split <;> rfl
  rw [strip_stride, List.head?_nil, nothing, strip_nil, List.append_nil] at member
  rcases stride_cases mode c none with ⟨_, _, _, found, _⟩ | ⟨kept, next, same, rfl | ⟨rfl, _⟩⟩
  · cases found
  · rw [same] at member
    exact List.mem_singleton.mp member
  · rw [same] at member
    cases member

theorem strip_keeps {mode : Mode} {kept front back : List Char} (fits : Fits mode kept) (apart : atWordEnd back = true) :
    Keeps (kept ++ strip mode front) (kept ++ strip mode (front ++ back)) := by
  fun_induction modeAfter mode front generalizing kept with
  | case1 mode =>
    rw [strip_nil, List.nil_append]
    exact ⟨kept, [], _, rfl, rfl, by simp, fits.atWordEnd_strip apart⟩
  | case2 mode c cs ih =>
    by_cases single : cs = [] → (stride mode c back.head?).isPair = false
    · obtain ⟨same, behind⟩ := stride_front single
      rw [List.cons_append, strip_stride, strip_stride mode c (cs ++ back), same, behind, ← List.append_assoc,
        ← List.append_assoc]
      exact ih (fits.stride c cs.head?)
    · -- A mark is put together from the ends of the two texts: what the first one keeps of it is no part of a name.
      obtain ⟨rfl, pair⟩ := Classical.not_imp.mp single
      obtain ⟨d, -, mark⟩ := exists_mark_of_isPair (eq_true_of_ne_false pair)
      have outside := isPart_of_isMark mark
      refine ⟨kept, strip mode [c], _, rfl, rfl, ?_, ?_⟩
      · intro e member
        rw [mem_strip_singleton member]
        exact outside
      · exact fits.atWordEnd_strip (by rw [List.cons_append, atWordEnd, outside]; rfl)

end Reader

/-- Only the first schema of a text is read. Whatever stands behind it makes no difference, unless it makes the last
identifier longer. -/
theorem Schema.read_append {text behind : String} {schema : Schema} (read : Schema.read text = .ok schema)
    (apart : Reader.Parser.atWordEnd behind.toList = true) : Schema.read (text ++ behind) = .ok schema := by
  have fits : Reader.Fits .plain [] := by
    intro outer same
    cases same
  have keeps := @Reader.strip_keeps .plain [] text.toList behind.toList fits apart
  rw [Schema.read, String.toList_append]
  exact keeps.of_settles (Reader.readPlain_settles read)

def Schema.pier : Schema where
  name := "pier"
  declarations := [.type { name := "berth", body := .simple .integer }]

/-- Behind the first schema stand a quote that is left open and another schema; then a remark that is left open, where
its mark has one character from each text. -/
theorem Schema.read_first_of_two :
    Schema.read ("SCHEMA pier; TYPE berth = INTEGER; END_TYPE; END_SCHEMA" ++ "; it's SCHEMA quay; END_SCHEMA;") =
      .ok Schema.pier ∧
    Schema.read ("SCHEMA pier; TYPE berth = INTEGER; END_TYPE; END_SCHEMA(" ++ "* SCHEMA quay; END_SCHEMA;") =
      .ok Schema.pier :=
  ⟨Schema.read_append (by decide +kernel) (by decide +kernel), Schema.read_append (by decide +kernel) (by decide +kernel)⟩

end Express
