import FormCalc.Proofs.Text.Position
import FormCalc.Proofs.Token.Place
import Mathlib.Data.List.TakeWhile
import Mathlib.Data.Set.Card

/-!
# Lines and columns of all offsets

A position tells an offset by what stands in front of it: the line counts the line terminators,
and the column counts the characters behind the last of them.  What a terminator is, is said here
without a scan (`Terminates`).

* `terminatorEnds_iff`: the lines start where terminators end.
* `LineIndex.Starts`: the start of the line of an offset.
* `LineIndex.column_of_boundary`, `LineIndex.column_of_inside`: the column of an offset between two
  characters, and of one inside a character.

So positions are in the order of the offsets (`position_exact`).
-/

namespace FormCalc

/-! ### Line terminators -/

/-- Whether some characters end a line, between what stands in front of them and what comes behind.
A carriage return and the line feed behind it are one terminator. -/
inductive Terminates : (front terminator back : List Char) → Prop
  | pair (front back : List Char) : Terminates front ['\r', '\n'] back
  | carriageReturn {front back : List Char} (h : back.head? ≠ some '\n') :
      Terminates front ['\r'] back
  | lineFeed {front back : List Char} (h : front.getLast? ≠ some '\r') :
      Terminates front ['\n'] back

/-- Whether a line terminator of a text ends at an offset. -/
def TerminatorEnds (text : String) (offset : Nat) : Prop :=
  ∃ front terminator back, text.toList = front ++ terminator ++ back ∧
    Terminates front terminator back ∧ utf8Length (front ++ terminator) = offset

/-- How many line terminators of a text end at or in front of an offset. -/
noncomputable def terminatorsUpTo (text : String) (offset : Nat) : Nat :=
  {stop | stop ≤ offset ∧ TerminatorEnds text stop}.ncard

/-- The last character of a terminator is the one that ends the line. -/
theorem Terminates.exists_last {front terminator back : List Char}
    (h : Terminates front terminator back) :
    ∃ before c, front ++ terminator = before ++ [c] ∧ endsLine c back = true := by
  cases h with
  | pair => exact ⟨front ++ ['\r'], '\n', by simp, rfl⟩
  | carriageReturn h => exact ⟨front, '\r', rfl, by simpa [endsLine] using h⟩
  | lineFeed => exact ⟨front, '\n', rfl, rfl⟩

/-- A character that ends the line is the last of a terminator. -/
theorem exists_terminates {before back : List Char} {c : Char} (h : endsLine c back = true) :
    ∃ front terminator, before ++ [c] = front ++ terminator ∧ Terminates front terminator back := by
  have hc : c = '\n' ∨ c = '\r' ∧ back.head? ≠ some '\n' := by simpa [endsLine] using h
  rcases hc with rfl | ⟨rfl, hback⟩
  · by_cases hlast : before.getLast? = some '\r'
    · obtain ⟨front, rfl⟩ := List.getLast?_eq_some_iff.mp hlast
      exact ⟨front, ['\r', '\n'], by simp, .pair front back⟩
    · exact ⟨before, ['\n'], rfl, .lineFeed hlast⟩
  · exact ⟨before, ['\r'], rfl, .carriageReturn hback⟩

theorem mem_lineBreaks {offset start : Nat} {cs : List Char} : start ∈ lineBreaks offset cs ↔
    ∃ before c back, cs = before ++ c :: back ∧ endsLine c back = true ∧
      start = offset + utf8Length (before ++ [c]) := by
  induction cs generalizing offset with
  | nil => simp [lineBreaks]
  | cons d cs ih =>
    -- the break is at the first character, or the first character stands in front of it
    have hcases : start ∈ lineBreaks offset (d :: cs) ↔
        (endsLine d cs = true ∧ start = offset + d.utf8Size) ∨
          start ∈ lineBreaks (offset + d.utf8Size) cs := by
      rw [lineBreaks]
      split <;> simp [*]
    rw [hcases, ih]
    constructor
    · rintro (⟨hend, rfl⟩ | ⟨before, c, back, rfl, hend, rfl⟩)
      · exact ⟨[], d, cs, rfl, hend, by simp⟩
      · exact ⟨d :: before, c, back, rfl, hend, by simp [Nat.add_assoc]⟩
    · rintro ⟨before, c, back, hcs, hend, rfl⟩
      cases before with
      | nil =>
        obtain ⟨rfl, rfl⟩ := List.cons.inj hcs
        exact .inl ⟨hend, by simp⟩
      | cons e before =>
        obtain ⟨rfl, rfl⟩ := List.cons.inj hcs
        exact .inr ⟨before, c, back, rfl, hend, by simp [Nat.add_assoc]⟩

/-- **A line starts where a terminator ends.** -/
theorem terminatorEnds_iff {text : String} {offset : Nat} :
    TerminatorEnds text offset ↔ offset ∈ lineBreaks 0 text.toList := by
  rw [mem_lineBreaks]
  constructor
  · rintro ⟨front, terminator, back, htext, hterminates, rfl⟩
    obtain ⟨before, c, hlast, hend⟩ := hterminates.exists_last
    refine ⟨before, c, back, ?_, hend, by rw [hlast, Nat.zero_add]⟩
    rw [htext, hlast, List.append_assoc, List.singleton_append]
  · rintro ⟨before, c, back, htext, hend, rfl⟩
    obtain ⟨front, terminator, hsplit, hterminates⟩ := @exists_terminates before back c hend
    refine ⟨front, terminator, back, ?_, hterminates, by rw [← hsplit, Nat.zero_add]⟩
    rw [htext, ← hsplit, List.append_assoc, List.singleton_append]

theorem TerminatorEnds.isBoundary {text : String} {offset : Nat} (h : TerminatorEnds text offset) :
    IsBoundary text offset := by
  obtain ⟨front, terminator, back, htext, -, hoffset⟩ := h
  exact ⟨front ++ terminator, back, htext, hoffset⟩

theorem pairwise_lineBreaks (offset : Nat) (cs : List Char) :
    (lineBreaks offset cs).Pairwise (· < ·) := by
  induction cs generalizing offset with
  | nil => exact .nil
  | cons c cs ih =>
    rw [lineBreaks]
    split
    · exact .cons lt_of_mem_lineBreaks (ih _)
    · exact ih _

/-! ### Offsets in order -/

/-- What is in order up to a bound is taken from the front. -/
theorem mem_takeWhile_le {starts : List Nat} (h : starts.Pairwise (· < ·)) {bound start : Nat} :
    start ∈ starts.takeWhile (· ≤ bound) ↔ start ≤ bound ∧ start ∈ starts := by
  induction starts with
  | nil => simp
  | cons first rest ih =>
    obtain ⟨hfirst, hrest⟩ := List.pairwise_cons.mp h
    by_cases hle : first ≤ bound
    · rw [List.takeWhile_cons_of_pos (by simpa using hle), List.mem_cons, List.mem_cons, ih hrest]
      constructor
      · rintro (rfl | ⟨hstart, hmem⟩)
        · exact ⟨hle, .inl rfl⟩
        · exact ⟨hstart, .inr hmem⟩
      · rintro ⟨hstart, rfl | hmem⟩
        · exact .inl rfl
        · exact .inr ⟨hstart, hmem⟩
    · rw [List.takeWhile_cons_of_neg (by simpa using hle)]
      refine iff_of_false List.not_mem_nil ?_
      rintro ⟨hstart, hmem⟩
      rcases List.mem_cons.mp hmem with rfl | hmem
      · exact hle hstart
      · exact hle (Nat.le_trans (Nat.le_of_lt (hfirst start hmem)) hstart)

theorem length_takeWhile_lineBreaks (text : String) (offset : Nat) :
    ((lineBreaks 0 text.toList).takeWhile (· ≤ offset)).length = terminatorsUpTo text offset := by
  have horder := pairwise_lineBreaks 0 text.toList
  have hset : {stop | stop ≤ offset ∧ TerminatorEnds text stop} =
      (((lineBreaks 0 text.toList).takeWhile (· ≤ offset)).toFinset : Set Nat) := by
    ext stop
    rw [Set.mem_ofPred_eq, List.coe_toFinset, Set.mem_ofPred_eq, mem_takeWhile_le horder,
      terminatorEnds_iff]
  have hnodup : ((lineBreaks 0 text.toList).takeWhile (· ≤ offset)).Nodup :=
    (horder.sublist (List.takeWhile_sublist _)).imp Nat.ne_of_lt
  rw [terminatorsUpTo, hset, Set.ncard_coe_finset, List.toFinset_card_of_nodup hnodup]

/-- Of two beginnings of a text, the one with fewer bytes is the beginning of the other. -/
theorem exists_append_of_utf8Length_le {front back front' back' : List Char}
    (h : front ++ back = front' ++ back') (hle : utf8Length front ≤ utf8Length front') :
    ∃ line, front' = front ++ line ∧ back = line ++ back' := by
  rcases List.append_eq_append_iff.mp h with ⟨line, hfront, hback⟩ | ⟨line, hfront, hback⟩
  · exact ⟨line, hfront, hback⟩
  · -- the longer one has no more bytes, so there is nothing between their ends
    cases line with
    | nil => exact ⟨[], by simpa using hfront.symm, by simpa using hback.symm⟩
    | cons c line =>
      have hsize : 0 < c.utf8Size := c.utf8Size_pos
      rw [hfront, utf8Length_append, utf8Length_cons] at hle
      omega

theorem eq_of_utf8Length_eq {front back front' back' : List Char}
    (h : front ++ back = front' ++ back') (heq : utf8Length front = utf8Length front') :
    front = front' := by
  obtain ⟨line, rfl, -⟩ := exists_append_of_utf8Length_le h (Nat.le_of_eq heq)
  cases line with
  | nil => simp
  | cons c line =>
    have hsize : 0 < c.utf8Size := c.utf8Size_pos
    rw [utf8Length_append, utf8Length_cons] at heq
    omega

theorem exists_of_charsWithin {n count : Nat} {cs : List Char} (h : charsWithin n cs = some count) :
    ∃ line back, cs = line ++ back ∧ utf8Length line = n := by
  induction n, cs using charsWithin.induct generalizing count with
  | case1 cs => exact ⟨[], cs, rfl, rfl⟩
  | case2 n => cases h
  | case3 n c cs hle ih =>
    rw [charsWithin, if_pos hle] at h
    obtain ⟨count, hcount, -⟩ := Option.map_eq_some_iff.mp h
    obtain ⟨line, back, rfl, hline⟩ := ih hcount
    exact ⟨c :: line, back, rfl, by rw [utf8Length_cons, hline]; omega⟩
  | case4 n c cs hle =>
    rw [charsWithin, if_neg hle] at h
    cases h

/-! ### The line of an offset -/

namespace LineIndex

variable {text : String} {offset start : Nat}

/-- Whether the line of an offset starts here: at the end of the last terminator up to the offset,
or at the start of the text. -/
structure Starts (text : String) (offset start : Nat) : Prop where
  le : start ≤ offset
  first : start = 0 ∨ TerminatorEnds text start
  last : ∀ stop ≤ offset, TerminatorEnds text stop → stop ≤ start

theorem Starts.isBoundary (h : Starts text offset start) : IsBoundary text start := by
  rcases h.first with rfl | hends
  · exact isBoundary_zero text
  · exact hends.isBoundary

/-- There is no other start. -/
theorem Starts.eq {start' : Nat} (h : Starts text offset start) (h' : Starts text offset start') :
    start = start' := by
  have hle : ∀ {a b}, Starts text offset a → Starts text offset b → a ≤ b := by
    intro a b ha hb
    rcases ha.first with rfl | hends
    · exact Nat.zero_le b
    · exact hb.last a ha.le hends
  exact Nat.le_antisymm (hle h h') (hle h' h)

theorem starts_ofText (text : String) : (ofText text).starts = 0 :: lineBreaks 0 text.toList := rfl

theorem pairwise_starts (text : String) : (ofText text).starts.Pairwise (· < ·) :=
  .cons lt_of_mem_lineBreaks (pairwise_lineBreaks 0 text.toList)

theorem min_utf8Length (text : String) (offset : Nat) :
    min offset (utf8Length (ofText text).text) = min offset text.utf8ByteSize :=
  congrArg (min offset) (utf8Length_toList text)

/-- The last start up to an offset is where its line starts. -/
theorem starts_lineStart (text : String) (offset : Nat) :
    Starts text (min offset text.utf8ByteSize) ((ofText text).lineStart offset) := by
  have horder := pairwise_starts text
  unfold lineStart
  rw [min_utf8Length]
  generalize min offset text.utf8ByteSize = bound
  have hmem := fun start => @mem_takeWhile_le _ horder bound start
  have hupTo := horder.sublist (List.takeWhile_sublist (· ≤ bound))
  have hcons : ∃ rest, (ofText text).starts.takeWhile (· ≤ bound) = 0 :: rest :=
    ⟨_, List.takeWhile_cons_of_pos (by simp)⟩
  obtain ⟨rest, hrest⟩ := hcons
  rcases List.eq_nil_or_concat ((ofText text).starts.takeWhile (· ≤ bound)) with
    hnil | ⟨front, last, hlast⟩
  · rw [hnil] at hrest
    cases hrest
  · rw [List.concat_eq_append] at hlast
    rw [hlast] at hmem hupTo ⊢
    rw [List.getLastD_concat]
    obtain ⟨hle, hstart⟩ := (hmem last).mp (by simp)
    refine ⟨hle, ?_, fun stop hstop hends => ?_⟩
    · rcases List.mem_cons.mp (starts_ofText text ▸ hstart) with rfl | hbreak
      · exact .inl rfl
      · exact .inr (terminatorEnds_iff.mpr hbreak)
    · -- the starts are in order, and `stop` is one of those up to the last
      have hbreak : stop ∈ (ofText text).starts :=
        List.mem_cons_of_mem 0 (terminatorEnds_iff.mp hends)
      rcases List.mem_append.mp ((hmem stop).mpr ⟨hstop, hbreak⟩) with hfront | hsame
      · exact Nat.le_of_lt ((List.pairwise_append.mp hupTo).2.2 stop hfront last (by simp))
      · exact Nat.le_of_eq (List.mem_singleton.mp hsame)

/-- **The line counts the terminators in front of an offset.** -/
theorem line_position (text : String) (offset : Nat) :
    ((ofText text).position offset).line =
      terminatorsUpTo text (min offset text.utf8ByteSize) + 1 := by
  have hline : ((ofText text).position offset).line =
      ((ofText text).starts.takeWhile (· ≤ min offset text.utf8ByteSize)).length := by
    rw [← min_utf8Length]
    rfl
  rw [hline, starts_ofText, List.takeWhile_cons_of_pos (by simp), List.length_cons,
    length_takeWhile_lineBreaks]

theorem lineCount_ofText (text : String) :
    (ofText text).lineCount = terminatorsUpTo text text.utf8ByteSize + 1 := by
  have hall : ∀ start ∈ lineBreaks 0 text.toList, start ≤ text.utf8ByteSize := by
    intro start hstart
    exact (terminatorEnds_iff.mpr hstart).isBoundary.le
  rw [lineCount, starts_ofText, List.length_cons, ← length_takeWhile_lineBreaks,
    List.takeWhile_eq_self_iff.mpr]
  intro start hstart
  exact decide_eq_true (hall start hstart)

/-- Between two characters the column counts the characters of the line. -/
theorem column_of_boundary (h : IsBoundary text (min offset text.utf8ByteSize)) :
    ∃ whole line back, text.toList = whole ++ line ++ back ∧
      utf8Length (whole ++ line) = min offset text.utf8ByteSize ∧
      Starts text (min offset text.utf8ByteSize) (utf8Length whole) ∧
      ((ofText text).position offset).column = line.length + 1 := by
  have hstarts := starts_lineStart text offset
  obtain ⟨front, back, htext, hfront⟩ := h
  obtain ⟨whole, rest, hwhole, hstart⟩ := hstarts.isBoundary
  have hle : utf8Length whole ≤ utf8Length front := by
    rw [hstart, hfront]
    exact hstarts.le
  obtain ⟨line, rfl, rfl⟩ := exists_append_of_utf8Length_le (hwhole.symm.trans htext) hle
  refine ⟨whole, line, back, htext, hfront, hstart ▸ hstarts, ?_⟩
  have hcount : min offset text.utf8ByteSize - utf8Length whole = utf8Length line := by
    rw [← hfront, utf8Length_append]
    omega
  have hdrop : dropBytes (utf8Length whole) (ofText text).text = line ++ back := by
    rw [ofText, hwhole, dropBytes_append]
  rw [column_position, charsBefore?, min_utf8Length, ← hstart, hcount, hdrop, charsWithin_append]
  rfl

/-- Inside a character the column is that of the start of the line. -/
theorem column_of_inside (h : ¬IsBoundary text (min offset text.utf8ByteSize)) :
    ((ofText text).position offset).column = 1 := by
  have hstarts := starts_lineStart text offset
  obtain ⟨whole, rest, hwhole, hstart⟩ := hstarts.isBoundary
  have hdrop : dropBytes (utf8Length whole) (ofText text).text = rest := by
    rw [ofText, hwhole, dropBytes_append]
  rw [column_position, charsBefore?, min_utf8Length, ← hstart, hdrop]
  cases hchars : charsWithin (min offset text.utf8ByteSize - utf8Length whole) rest with
  | none => rfl
  | some count =>
    obtain ⟨line, back, rfl, hline⟩ := exists_of_charsWithin hchars
    have hle := hstarts.le
    refine absurd ⟨whole ++ line, back, by rw [hwhole, List.append_assoc], ?_⟩ h
    rw [utf8Length_append, hline]
    omega

end LineIndex

/-! ### Positions in order -/

/-- Whether a position comes before another: on an earlier line, or earlier on the same line. -/
def Position.Before (p q : Position) : Prop :=
  p.line < q.line ∨ p.line = q.line ∧ p.column < q.column

theorem Position.Before.ne {p q : Position} (h : p.Before q) : p ≠ q := by
  rintro rfl
  rcases h with hline | ⟨-, hcolumn⟩ <;> omega

theorem terminatorsUpTo_mono (text : String) {offset offset' : Nat} (h : offset ≤ offset') :
    terminatorsUpTo text offset ≤ terminatorsUpTo text offset' := by
  refine Set.ncard_le_ncard ?_ ((Set.finite_le_nat offset').subset fun stop hstop => hstop.1)
  rintro stop ⟨hstop, hends⟩
  exact ⟨Nat.le_trans hstop h, hends⟩

/-- Where no terminator ends between two offsets, they are on the line that starts at the same
place. -/
theorem LineIndex.Starts.of_terminatorsUpTo_eq {text : String} {offset offset' start : Nat}
    (h : Starts text offset start) (hle : offset ≤ offset')
    (heq : terminatorsUpTo text offset = terminatorsUpTo text offset') :
    Starts text offset' start := by
  have hsubset : {stop | stop ≤ offset ∧ TerminatorEnds text stop} ⊆
      {stop | stop ≤ offset' ∧ TerminatorEnds text stop} := by
    rintro stop ⟨hstop, hends⟩
    exact ⟨Nat.le_trans hstop hle, hends⟩
  have hsame := Set.eq_of_subset_of_ncard_le hsubset (Nat.le_of_eq heq.symm)
    ((Set.finite_le_nat offset').subset fun stop hstop => hstop.1)
  refine ⟨Nat.le_trans h.le hle, h.first, fun stop hstop hends => ?_⟩
  have hmem : stop ∈ {stop | stop ≤ offset ∧ TerminatorEnds text stop} := hsame ▸ ⟨hstop, hends⟩
  exact h.last stop hmem.1 hends

/-- Positions are in the order of the offsets. -/
theorem LineIndex.before_position {text : String} {offset offset' : Nat}
    (h : IsBoundary text offset) (h' : IsBoundary text offset') (hlt : offset < offset') :
    ((ofText text).position offset).Before ((ofText text).position offset') := by
  have hmin : min offset text.utf8ByteSize = offset := Nat.min_eq_left h.le
  have hmin' : min offset' text.utf8ByteSize = offset' := Nat.min_eq_left h'.le
  have hline := line_position text offset
  have hline' := line_position text offset'
  obtain ⟨whole, line, back, htext, hoffset, hstarts, hcolumn⟩ :=
    column_of_boundary (hmin.symm ▸ h)
  obtain ⟨whole', line', back', htext', hoffset', hstarts', hcolumn'⟩ :=
    column_of_boundary (hmin'.symm ▸ h')
  rw [hmin] at hline hoffset hstarts
  rw [hmin'] at hline' hoffset' hstarts'
  rcases Nat.lt_or_eq_of_le (terminatorsUpTo_mono text (Nat.le_of_lt hlt)) with hfewer | hsame
  · left
    omega
  · -- both are on one line, and the later one has more characters of it in front
    right
    refine ⟨by omega, ?_⟩
    have hstart := (hstarts.of_terminatorsUpTo_eq (Nat.le_of_lt hlt) hsame).eq hstarts'
    rw [htext, List.append_assoc, List.append_assoc] at htext'
    obtain rfl := eq_of_utf8Length_eq htext' hstart
    rw [utf8Length_append] at hoffset hoffset'
    obtain ⟨more, rfl, -⟩ := exists_append_of_utf8Length_le (List.append_cancel_left htext')
      (by omega)
    have hmore : more ≠ [] := by
      rintro rfl
      rw [List.append_nil] at hoffset'
      omega
    have hpos := List.length_pos_of_ne_nil hmore
    rw [hcolumn, hcolumn', List.length_append]
    omega

/-- **Lines and columns are right for every offset.**  The line of an offset is one more than the
number of line terminators that end at or in front of it, and there are as many lines as
terminators and one more.  The column is one more than the number of characters between the last
of these terminators and the offset, or one where the offset falls inside a character.  An offset
behind the end counts as the end.  So over the offsets between characters positions are in order,
and no two of them share one. -/
theorem position_exact (text : String) :
    (LineIndex.ofText text).lineCount = terminatorsUpTo text text.utf8ByteSize + 1 ∧
    (∀ offset,
      ((LineIndex.ofText text).position offset).line =
        terminatorsUpTo text (min offset text.utf8ByteSize) + 1 ∧
      (IsBoundary text (min offset text.utf8ByteSize) → ∃ whole line back,
        text.toList = whole ++ line ++ back ∧
        utf8Length (whole ++ line) = min offset text.utf8ByteSize ∧
        LineIndex.Starts text (min offset text.utf8ByteSize) (utf8Length whole) ∧
        ((LineIndex.ofText text).position offset).column = line.length + 1) ∧
      (¬IsBoundary text (min offset text.utf8ByteSize) →
        ((LineIndex.ofText text).position offset).column = 1)) ∧
    ∀ offset offset', IsBoundary text offset → IsBoundary text offset' →
      (offset < offset' → ((LineIndex.ofText text).position offset).Before
        ((LineIndex.ofText text).position offset')) ∧
      ((LineIndex.ofText text).position offset = (LineIndex.ofText text).position offset' →
        offset = offset') := by
  refine ⟨LineIndex.lineCount_ofText text, fun offset => ⟨LineIndex.line_position text offset,
    LineIndex.column_of_boundary, LineIndex.column_of_inside⟩, fun offset offset' h h' =>
    ⟨LineIndex.before_position h h', fun hsame => ?_⟩⟩
  rcases Nat.lt_trichotomy offset offset' with hlt | heq | hlt
  · exact absurd hsame (LineIndex.before_position h h' hlt).ne
  · exact heq
  · exact absurd hsame.symm (LineIndex.before_position h' h hlt).ne

/-- Offsets inside a character, between a carriage return and its line feed, and behind them. -/
theorem position_exact_pair :
    ¬IsBoundary "é\r\nb" 1 ∧ IsBoundary "é\r\nb" 3 ∧ IsBoundary "é\r\nb" 4 ∧
      ((LineIndex.ofText "é\r\nb").position 1).column = 1 ∧
      ((LineIndex.ofText "é\r\nb").position 3).Before ((LineIndex.ofText "é\r\nb").position 4) := by
  have hinside : ¬IsBoundary "é\r\nb" (min 1 "é\r\nb".utf8ByteSize) := by
    rintro ⟨front, back, htext, hlength⟩
    cases front with
    | nil => cases hlength
    | cons c front =>
      obtain rfl : 'é' = c := (List.cons.inj htext).1
      have hsize : 'é'.utf8Size = 2 := rfl
      have hone : min 1 "é\r\nb".utf8ByteSize = 1 := rfl
      rw [utf8Length_cons, hsize, hone] at hlength
      omega
  have hbetween : IsBoundary "é\r\nb" 3 := ⟨['é', '\r'], ['\n', 'b'], rfl, rfl⟩
  have hbehind : IsBoundary "é\r\nb" 4 := ⟨['é', '\r', '\n'], ['b'], rfl, rfl⟩
  obtain ⟨-, hpositions, horder⟩ := position_exact "é\r\nb"
  exact ⟨hinside, hbetween, hbehind, (hpositions 1).2.2 hinside,
    (horder 3 4 hbetween hbehind).1 (by decide)⟩

end FormCalc
