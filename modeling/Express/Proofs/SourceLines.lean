import Express.Proofs.Passage
import Express.Proofs.Remarks

/-!
# Lines of the source

The text that is read has its remarks removed, but all line ends are still there. Each character that is kept has as many
of them in front of it as the place that it comes from, so a line that is reported is a line of the text as it was given
(`read_error_line`).
-/

namespace Express

namespace Reader

open Text

/-! ### Where characters come from -/

namespace Stride

/-- The characters that are read at the front of a text. -/
def taken (step : Stride) (c : Char) (cs : List Char) : List Char :=
  if step.isPair then c :: cs.take 1 else [c]

theorem taken_append_rest (step : Stride) (c : Char) (cs : List Char) : step.taken c cs ++ step.rest cs = c :: cs := by
  unfold taken rest
  split
  · rw [← List.drop_one, List.cons_append, List.take_append_drop]
  · rfl

end Stride

/-- The characters kept of a text, each with the place that it comes from. -/
def traced (mode : Mode) (place : Nat) : List Char → List (Char × Nat)
  | [] => []
  | c :: cs =>
    ((stride mode c cs.head?).kept.map fun kept => (kept, place)).toList ++
      traced (stride mode c cs.head?).next (place + ((stride mode c cs.head?).taken c cs).length)
        ((stride mode c cs.head?).rest cs)
termination_by cs => cs.length
decreasing_by exact Nat.lt_succ_of_le (Stride.length_rest_le _ _)

theorem map_fst_traced (mode : Mode) (place : Nat) (cs : List Char) : (traced mode place cs).map (·.1) = strip mode cs := by
  fun_induction traced mode place cs with
  | case1 mode place => rw [strip_nil, List.map_nil]
  | case2 mode place c cs ih =>
    rw [List.map_append, ih, strip_stride]
    cases (stride mode c cs.head?).kept <;> rfl

/-- What is dropped at a stride holds no line end, and what is kept holds as many as what is read. -/
theorem lineEnds_taken (mode : Mode) (c : Char) (cs : List Char) :
    lineEnds ((stride mode c cs.head?).taken c cs) = lineEnds (stride mode c cs.head?).kept.toList := by
  rcases stride_cases mode c cs.head? with ⟨d, kept, next, found, mark, same, shown⟩ | ⟨kept, next, same, shown⟩
  · obtain ⟨tail, rfl⟩ := List.head?_eq_some_iff.mp found
    have silent : lineEnds [c, d] = 0 := by
      simp only [isMark, List.mem_cons, List.not_mem_nil, or_false, decide_eq_true_eq, Prod.mk.injEq] at mark
      rcases mark with ⟨rfl, rfl⟩ | ⟨rfl, rfl⟩ | ⟨rfl, rfl⟩ <;> rfl
    rw [same]
    refine Eq.trans silent ?_
    rcases shown with rfl | ⟨rfl, -⟩ <;> rfl
  · rw [same]
    rcases shown with rfl | ⟨rfl, other⟩
    · rfl
    · exact List.count_eq_zero.mpr fun member => other (List.mem_singleton.mp member).symm

theorem lineEnds_strip (mode : Mode) (cs : List Char) : lineEnds (strip mode cs) = lineEnds cs := by
  fun_induction modeAfter mode cs with
  | case1 mode => rw [strip_nil]
  | case2 mode c cs ih =>
    rw [strip_stride, lineEnds_append, ih, ← lineEnds_taken, ← lineEnds_append, Stride.taken_append_rest]

/-- The text starts with the character, or it opens a remark and the character is the blank for it. -/
def Shows (c : Char) (cs : List Char) : Prop :=
  cs.head? = some c ∨ (c = ' ' ∧ ∃ tail, cs = '(' :: '*' :: tail)

/-- The character is shown at the place `origin` of a text that starts at `place`, with so many line ends between. -/
def ShownAt (c : Char) (origin lines : Nat) (place : Nat) (cs : List Char) : Prop :=
  ∃ front back, cs = front ++ back ∧ origin = place + front.length ∧ lines = lineEnds front ∧ Shows c back

theorem kept_shows {mode : Mode} {c kept : Char} {cs : List Char} (found : (stride mode c cs.head?).kept = some kept) :
    Shows kept (c :: cs) := by
  rcases stride_cases mode c cs.head? with ⟨d, _, next, second, mark, same, shown⟩ | ⟨_, next, same, shown⟩
  · rw [same] at found
    obtain ⟨tail, rfl⟩ := List.head?_eq_some_iff.mp second
    rcases shown with rfl | ⟨rfl, rfl, rfl⟩
    · cases found
    · cases found
      exact .inr ⟨rfl, tail, rfl⟩
  · rw [same] at found
    rcases shown with rfl | ⟨rfl, -⟩
    · exact .inl found
    · cases found

theorem ShownAt.stride {mode : Mode} {c d : Char} {cs : List Char} {origin lines place : Nat}
    (shown : ShownAt c origin lines (place + ((stride mode d cs.head?).taken d cs).length)
      ((stride mode d cs.head?).rest cs)) :
    ShownAt c origin (lineEnds (stride mode d cs.head?).kept.toList + lines) place (d :: cs) := by
  obtain ⟨front, back, shape, rfl, rfl, shows⟩ := shown
  refine ⟨(Reader.stride mode d cs.head?).taken d cs ++ front, back, ?_, ?_, ?_, shows⟩
  · rw [List.append_assoc, ← shape, Stride.taken_append_rest]
  · rw [List.length_append, Nat.add_assoc]
  · rw [lineEnds_append, lineEnds_taken]

/-- A kept character is shown at its place, and the line ends that are kept in front of it are those in front of its
place. -/
theorem traced_shown {mode : Mode} {place : Nat} {cs : List Char} {before after : List (Char × Nat)} {c : Char}
    {origin : Nat} (kept : traced mode place cs = before ++ (c, origin) :: after) :
    ShownAt c origin (lineEnds (before.map (·.1))) place cs := by
  fun_induction traced mode place cs generalizing before with
  | case1 mode place => cases before <;> cases kept
  | case2 mode place d cs ih =>
    cases found : (stride mode d cs.head?).kept with
    | none =>
      rw [found] at kept
      have shown := (ih kept).stride
      rw [found] at shown
      exact (Nat.zero_add (lineEnds (before.map (·.1)))) ▸ shown
    | some first =>
      rw [found] at kept
      cases before with
      | nil =>
        cases kept
        exact ⟨[], d :: cs, rfl, rfl, rfl, kept_shows found⟩
      | cons head before =>
        obtain ⟨rfl, behind⟩ := List.cons.inj kept
        have shown := (ih behind).stride
        rw [found] at shown
        exact (lineEnds_append [first] (before.map (·.1))) ▸ shown

theorem le_of_mem_traced {mode : Mode} {place : Nat} {cs : List Char} {kept : Char × Nat}
    (member : kept ∈ traced mode place cs) : place ≤ kept.2 := by
  obtain ⟨before, after, shape⟩ := List.append_of_mem member
  obtain ⟨front, _, _, origin, _⟩ := traced_shown shape
  omega

/-- Characters are kept in their order. -/
theorem traced_increasing (mode : Mode) (place : Nat) (cs : List Char) :
    (traced mode place cs).Pairwise fun a b => a.2 < b.2 := by
  fun_induction traced mode place cs with
  | case1 mode place => exact .nil
  | case2 mode place c cs ih =>
    have filled : 0 < ((stride mode c cs.head?).taken c cs).length := by
      unfold Stride.taken
      split <;> exact Nat.succ_pos _
    cases (stride mode c cs.head?).kept with
    | none => exact ih
    | some first =>
      refine List.pairwise_cons.mpr ⟨fun later member => ?_, ih⟩
      have := le_of_mem_traced member
      dsimp only
      omega

/-- A kept character is shown at its place, and in front of both are the same line ends. -/
theorem traced_getElem? {cs : List Char} {index origin : Nat} {c : Char}
    (kept : (traced .plain 0 cs)[index]? = some (c, origin)) :
    Shows c (cs.drop origin) ∧ lineEnds ((strip .plain cs).take index) = lineEnds (cs.take origin) := by
  obtain ⟨within, same⟩ := List.getElem?_eq_some_iff.mp kept
  have shape := List.take_append_drop index (traced .plain 0 cs)
  rw [List.drop_eq_getElem_cons within, same] at shape
  obtain ⟨front, back, rfl, origin, lines, shows⟩ := traced_shown shape.symm
  rw [Nat.zero_add] at origin
  rw [origin, List.drop_left, List.take_left, ← lines, List.map_take, map_fst_traced]
  exact ⟨shows, rfl⟩

end Reader

/-! ### Reported lines -/

/-- The line that an error names, if it names one. -/
def ReadError.line? : ReadError → Option Nat
  | .missingHeader | .missingEnd => none
  | .unterminatedClause line _ | .unterminatedBlock line _ | .unexpectedCharacter line _ | .unrecognized line _
  | .malformed line _ _ => some line

/-- The line that is reported where a text cannot be read. -/
def Schema.reportedLine? (text : String) : Option Nat :=
  match Schema.read text with
  | .ok _ => none
  | .error fault => fault.line?

theorem Schema.exists_fault_of_reportedLine? {text : String} {line : Nat} (reported : reportedLine? text = some line) :
    ∃ fault, Schema.read text = .error fault ∧ fault.line? = some line := by
  unfold reportedLine? at reported
  cases failed : Schema.read text with
  | ok schema => rw [failed] at reported; cases reported
  | error fault => rw [failed] at reported; exact ⟨fault, rfl, reported⟩

namespace Reader

open Text

theorem Block.line_of_error {block : Block} {fault : ReadError} (failed : block.declaration? = .error fault) :
    fault.line? = some block.line := by
  unfold Block.declaration? at failed
  dsimp only at failed
  split at failed
  · cases failed
  · cases failed
    rfl

/-- A sequence of blocks that ends with a fault on a line ends on that line. -/
theorem line_of_frontAt {line reported : Nat} {start : List Char} {ending : Ending} {fault : ReadError}
    (seen : frontAt line start = .ends ending) (faulty : ReadError.ofEnding? ending = some fault)
    (lined : fault.line? = some reported) : reported = line ∧ start ≠ [] := by
  cases start with
  | nil =>
    cases seen
    cases faulty
    cases lined
  | cons c tail =>
    refine ⟨?_, List.cons_ne_nil c tail⟩
    rw [frontAt] at seen
    generalize String.ofList (upper (leadingWord (c :: tail))) = word at seen
    split at seen
    · cases seen
      cases faulty
    · split at seen
      · cases found : splitStatement false (c :: tail) with
        | none =>
          rw [found] at seen
          cases seen
          cases faulty
          cases lined
          rfl
        | some pieces => rw [found] at seen; cases seen
      · cases known : BlockKind.ofKeyword? word with
        | none =>
          rw [known] at seen
          dsimp only at seen
          split at seen
          · cases seen
            cases faulty
            cases lined
            rfl
          · cases seen
            cases faulty
            cases lined
            rfl
        | some kind =>
          rw [known] at seen
          cases cut : cut? kind (c :: tail) with
          | none =>
            simp only [cut] at seen
            cases seen
            cases faulty
            cases lined
            rfl
          | some piece => simp only [cut] at seen; cases seen

/-- The line of a fault is that of the place where it is found. -/
theorem Offends.line {line reported : Nat} {start : List Char} {fault : ReadError} (offends : Offends line start fault)
    (lined : fault.line? = some reported) : reported = line ∧ start ≠ [] := by
  cases offends with
  | ends seen faulty => exact line_of_frontAt seen faulty lined
  | block seen faulty =>
    have same := Block.line_of_error faulty
    obtain ⟨kind, piece, known, cut, rfl, -, -⟩ := frontAt_block_iff.mp seen
    refine ⟨Option.some.inj (lined.symm.trans same), ?_⟩
    rintro rfl
    cases cut

/-- What the reader stands at does not start with a blank. -/
theorem Reaches.filled {text start : List Char} {name : Name} {found : List Declaration} {c : Char}
    (reached : Reaches text name found start) (starts : start.head? = some c) : isBlank c = false := by
  have filled (cs : List Char) (starts : (cs.dropWhile isBlank).head? = some c) : isBlank c = false := by
    have := List.head?_dropWhile_not isBlank cs
    rw [starts] at this
    simpa using this
  cases reached with
  | header _ _ => exact filled _ starts
  | clause _ _ => exact filled _ starts
  | block _ _ _ => exact filled _ starts

end Reader

open Reader Text in
/-- Every character that is kept of a text comes from a place with the same line ends in front of it, and no line end is
lost. So the line that an error names is that of the declaration at fault in the text as it was given. -/
theorem Schema.read_error_line (text : String) :
    (traced .plain 0 text.toList).map (·.1) = strip .plain text.toList ∧
    ((traced .plain 0 text.toList).Pairwise fun a b => a.2 < b.2) ∧
    (∀ index c origin, (traced .plain 0 text.toList)[index]? = some (c, origin) →
      Shows c (text.toList.drop origin) ∧
        lineEnds ((strip .plain text.toList).take index) = lineEnds (text.toList.take origin)) ∧
    lineEnds (strip .plain text.toList) = lineEnds text.toList ∧
    ∀ line, reportedLine? text = some line →
      ∃ fault name found index c origin, Schema.read text = .error fault ∧
        Reaches (strip .plain text.toList) name found ((strip .plain text.toList).drop index) ∧
        Offends line ((strip .plain text.toList).drop index) fault ∧
        (traced .plain 0 text.toList)[index]? = some (c, origin) ∧ text.toList[origin]? = some c ∧
        line = lineEnds (text.toList.take origin) + 1 := by
  refine ⟨map_fst_traced .plain 0 _, traced_increasing .plain 0 _, fun _ _ _ => traced_getElem?,
    lineEnds_strip .plain _, ?_⟩
  intro line reported
  obtain ⟨fault, failed, lined⟩ := exists_fault_of_reportedLine? reported
  rcases readPlain_error failed with rfl | ⟨name, passed, found, start, shape, reached, offends⟩
  · cases lined
  obtain ⟨rfl, filled⟩ := offends.line lined
  obtain ⟨c, tail, rfl⟩ := List.exists_cons_of_ne_nil filled
  have kept : (strip .plain text.toList)[passed.length]? = some c := by
    rw [shape]
    simp
  have behind : (strip .plain text.toList).drop passed.length = c :: tail := by rw [shape, List.drop_left]
  rw [← map_fst_traced .plain 0, List.getElem?_map] at kept
  obtain ⟨⟨d, origin⟩, traced, same⟩ := Option.map_eq_some_iff.mp kept
  obtain rfl : d = c := same
  obtain ⟨shows, lines⟩ := traced_getElem? traced
  rw [shape, List.take_left] at lines
  refine ⟨fault, name, found, passed.length, d, origin, failed, behind ▸ reached, behind ▸ offends, traced, ?_, ?_⟩
  · -- The blank for a remark would have been passed over.
    rcases shows with copied | ⟨rfl, -⟩
    · rw [← List.head?_drop, copied]
    · exact absurd (reached.filled rfl) (by decide)
  · rw [lines, Nat.add_comm]

/-- A text with a fault behind a remark of two lines and a tail remark. -/
def pierText : String :=
  "SCHEMA pier; (* one\ntwo *) -- three\nTYPE berth = ;\nEND_TYPE; END_SCHEMA;"

theorem pier_error_line :
    Schema.reportedLine? pierText = some 3 ∧
      ∃ fault start origin, Schema.read pierText = .error fault ∧ Reader.Offends 3 start fault ∧
        pierText.toList[origin]? = start.head? ∧ Text.lineEnds (pierText.toList.take origin) = 2 := by
  have reported : Schema.reportedLine? pierText = some 3 := by decide +kernel
  obtain ⟨_, _, _, _, lines⟩ := Schema.read_error_line pierText
  obtain ⟨fault, _, _, index, c, origin, failed, -, offends, kept, copied, line⟩ := lines 3 reported
  have same : ((Reader.strip .plain pierText.toList).drop index).head? = some c := by
    rw [List.head?_drop, ← Reader.map_fst_traced .plain 0, List.getElem?_map, kept]
    rfl
  exact ⟨reported, fault, _, origin, failed, offends, copied.trans same.symm, by omega⟩

end Express
