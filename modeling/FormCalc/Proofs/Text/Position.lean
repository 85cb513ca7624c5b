import FormCalc.Text.Position
import Mathlib.Data.List.Induction

/-!
# Lines and columns between characters

An offset between two characters splits a text in two.  The line it falls into is what stands in
front of it from the last line terminator on (`LastLine`), and its column counts the characters of
that line.

* `lineBreaks_append`: the lines that start in front of an offset, and those that start behind it.
* `LineIndex.exists_lastLine`: the line and the column of an offset between two characters.
* `LineIndex.position_append`: they do not depend on what comes behind, a line feed apart.
-/

namespace FormCalc

/-! ### Counting bytes in characters -/

theorem charsWithin_append (line back : List Char) :
    charsWithin (utf8Length line) (line ++ back) = some line.length := by
  induction line with
  | nil => rw [utf8Length_nil, charsWithin, List.length_nil]
  | cons c line ih =>
    have hsize : 0 < c.utf8Size := c.utf8Size_pos
    obtain ⟨n, hn⟩ := Nat.exists_eq_succ_of_ne_zero
      (show c.utf8Size + utf8Length line ≠ 0 by omega)
    have hrest : n + 1 - c.utf8Size = utf8Length line := by omega
    rw [utf8Length_cons, hn, List.cons_append, charsWithin, if_pos (by omega), hrest, ih]
    rfl

theorem dropBytes_append (whole rest : List Char) :
    dropBytes (utf8Length whole) (whole ++ rest) = rest := by
  induction whole with
  | nil => rw [utf8Length_nil, List.nil_append, dropBytes]
  | cons c whole ih =>
    have hsize : 0 < c.utf8Size := c.utf8Size_pos
    obtain ⟨n, hn⟩ := Nat.exists_eq_succ_of_ne_zero
      (show c.utf8Size + utf8Length whole ≠ 0 by omega)
    have hrest : n + 1 - c.utf8Size = utf8Length whole := by omega
    rw [utf8Length_cons, hn, List.cons_append, dropBytes, hrest, ih]

/-! ### Line terminators -/

theorem lt_of_mem_lineBreaks {offset : Nat} {cs : List Char} :
    ∀ start ∈ lineBreaks offset cs, offset < start := by
  induction cs generalizing offset with
  | nil => exact nofun
  | cons c cs ih =>
    have hsize : 0 < c.utf8Size := c.utf8Size_pos
    intro start hstart
    rw [lineBreaks] at hstart
    split at hstart
    · rcases List.mem_cons.mp hstart with rfl | hstart
      · omega
      · exact Nat.lt_trans (by omega) (ih start hstart)
    · exact Nat.lt_trans (by omega) (ih start hstart)

/-- The offsets right after the line terminators of `front`, with `back` behind it. -/
def breaksIn (offset : Nat) (front back : List Char) : List Nat :=
  match front with
  | [] => []
  | c :: cs =>
    if endsLine c (cs ++ back) then
      (offset + c.utf8Size) :: breaksIn (offset + c.utf8Size) cs back
    else
      breaksIn (offset + c.utf8Size) cs back

section Breaks

variable (offset : Nat) (front back : List Char)

/-- A line starts in what stands in front of an offset, or behind it. -/
theorem lineBreaks_append : lineBreaks offset (front ++ back) =
    breaksIn offset front back ++ lineBreaks (offset + utf8Length front) back := by
  induction front generalizing offset with
  | nil => rfl
  | cons c front ih =>
    rw [List.cons_append, lineBreaks, breaksIn, ih, utf8Length_cons, Nat.add_assoc]
    split
    · rfl
    · rfl

theorem breaksIn_concat (c : Char) : breaksIn offset (front ++ [c]) back =
    breaksIn offset front (c :: back) ++
      if endsLine c back then [offset + utf8Length (front ++ [c])] else [] := by
  induction front generalizing offset with
  | nil => rfl
  | cons d front ih =>
    have hback : front ++ [c] ++ back = front ++ c :: back := by simp
    rw [List.cons_append, breaksIn, breaksIn, hback, ih, utf8Length_cons, Nat.add_assoc]
    split
    · rfl
    · rfl

theorem le_of_mem_breaksIn :
    ∀ start ∈ breaksIn offset front back, start ≤ offset + utf8Length front := by
  induction front generalizing offset with
  | nil => exact nofun
  | cons c front ih =>
    intro start hstart
    rw [utf8Length_cons, ← Nat.add_assoc]
    rw [breaksIn] at hstart
    split at hstart
    · rcases List.mem_cons.mp hstart with rfl | hstart
      · exact Nat.le_add_right _ _
      · exact ih _ start hstart
    · exact ih _ start hstart

/-- The lines that start up to an offset are those that start in front of it. -/
theorem takeWhile_lineBreaks :
    (lineBreaks offset (front ++ back)).takeWhile (· ≤ offset + utf8Length front) =
      breaksIn offset front back := by
  rw [lineBreaks_append, List.takeWhile_append_of_pos]
  · suffices h : (lineBreaks (offset + utf8Length front) back).takeWhile
        (· ≤ offset + utf8Length front) = [] by
      rw [h, List.append_nil]
    cases hback : lineBreaks (offset + utf8Length front) back with
    | nil => rfl
    | cons start starts =>
      have hlt := lt_of_mem_lineBreaks start (hback ▸ List.mem_cons_self)
      exact List.takeWhile_cons_of_neg (by simpa using hlt)
  · intro start hstart
    exact decide_eq_true (le_of_mem_breaksIn offset front back start hstart)

/-- What comes behind matters only if it is a line feed. -/
theorem breaksIn_of_head? {back : List Char} (h : back.head? ≠ some '\n') :
    breaksIn offset front back = breaksIn offset front [] := by
  induction front generalizing offset with
  | nil => rfl
  | cons c front ih =>
    have hends : endsLine c (front ++ back) = endsLine c (front ++ []) := by
      cases front with
      | nil =>
        have hback : (back.head? != some '\n') = true := bne_iff_ne.mpr h
        rw [List.nil_append, List.nil_append, endsLine, endsLine, hback]
        rfl
      | cons d front => rfl
    rw [breaksIn, breaksIn, hends, ih]

end Breaks

/-! ### The line of an offset -/

/-- Whether `line` is what stands in front of an offset from the last line terminator on: `whole`
is empty or ends a line, and no character of `line` does. -/
structure LastLine (front back whole line : List Char) : Prop where
  split : front = whole ++ line
  whole : whole = [] ∨ ∃ before c, whole = before ++ [c] ∧ endsLine c (line ++ back) = true
  line : ∀ before c after, line = before ++ c :: after → endsLine c (after ++ back) = false

/-- Every offset falls into a line, which starts at the last start up to that offset. -/
theorem exists_lastLine (front back : List Char) : ∃ whole line,
    LastLine front back whole line ∧
      (0 :: breaksIn 0 front back).getLast? = some (utf8Length whole) := by
  induction front using List.reverseRecOn generalizing back with
  | nil => exact ⟨[], [], ⟨rfl, .inl rfl, by simp⟩, rfl⟩
  | append_singleton front c ih =>
    rw [breaksIn_concat]
    by_cases hend : endsLine c back = true
    · -- the line ends right here, so the next one has no character yet
      refine ⟨front ++ [c], [], ⟨by simp, .inr ⟨front, c, rfl, hend⟩, by simp⟩, ?_⟩
      rw [if_pos hend, ← List.cons_append, List.getLast?_append, Nat.zero_add]
      rfl
    · obtain ⟨whole, line, hlast, hstart⟩ := ih (c :: back)
      refine ⟨whole, line ++ [c], ⟨?_, ?_, ?_⟩, ?_⟩
      · rw [hlast.split, List.append_assoc]
      · simpa using hlast.whole
      · intro before d after hline
        rcases List.eq_nil_or_concat after with rfl | ⟨more, last, rfl⟩
        · obtain ⟨-, hc⟩ := List.append_inj' hline rfl
          obtain rfl := List.singleton_inj.mp hc
          exact Bool.eq_false_iff.mpr hend
        · rw [List.concat_eq_append, ← List.cons_append, ← List.append_assoc] at hline
          obtain ⟨hfront, hc⟩ := List.append_inj' hline rfl
          obtain rfl := List.singleton_inj.mp hc
          simpa using hlast.line before d more hfront
      · rw [if_neg hend, List.append_nil, hstart]

namespace LineIndex

/-- The offset at which the line of an offset starts. -/
def lineStart (index : LineIndex) (offset : Nat) : Nat :=
  (index.starts.takeWhile (· ≤ min offset (utf8Length index.text))).getLastD 0

/-- How many characters stand between the start of the line and an offset, unless the offset falls
inside a character. -/
def charsBefore? (index : LineIndex) (offset : Nat) : Option Nat :=
  charsWithin (min offset (utf8Length index.text) - index.lineStart offset)
    (dropBytes (index.lineStart offset) index.text)

theorem column_position (index : LineIndex) (offset : Nat) :
    (index.position offset).column = (index.charsBefore? offset).getD 0 + 1 := rfl

section Between

variable {text : String} {front back : List Char}

/-- An offset between two characters is no more than the length of the text. -/
theorem min_utf8Length_front (htext : text.toList = front ++ back) :
    min (utf8Length front) (utf8Length (ofText text).text) = utf8Length front := by
  rw [ofText, htext, utf8Length_append]
  exact Nat.min_eq_left (Nat.le_add_right _ _)

/-- The lines that start up to an offset between two characters. -/
theorem takeWhile_starts (htext : text.toList = front ++ back) :
    (ofText text).starts.takeWhile (· ≤ utf8Length front) = 0 :: breaksIn 0 front back := by
  have hbreaks := takeWhile_lineBreaks 0 front back
  rw [Nat.zero_add] at hbreaks
  rw [ofText, htext, List.takeWhile_cons_of_pos (by simp), hbreaks]

/-- **The column of an offset between two characters counts the characters of its line in front of
it.** -/
theorem exists_lastLine (htext : text.toList = front ++ back) : ∃ whole line,
      LastLine front back whole line ∧
        (ofText text).starts[((ofText text).position (utf8Length front)).line - 1]? =
          some (utf8Length whole) ∧
        (ofText text).charsBefore? (utf8Length front) = some line.length := by
  obtain ⟨whole, line, hlast, hstart⟩ := FormCalc.exists_lastLine front back
  have hmin := min_utf8Length_front htext
  have hupTo := takeWhile_starts htext
  have hline : (ofText text).lineStart (utf8Length front) = utf8Length whole := by
    rw [lineStart, hmin, hupTo, List.getLastD_eq_getLast?, hstart]
    rfl
  refine ⟨whole, line, hlast, ?_, ?_⟩
  · have hnumber : ((ofText text).position (utf8Length front)).line =
        (0 :: breaksIn 0 front back).length := by
      rw [← hupTo]
      simp only [position, hmin]
    have hstarts : (ofText text).starts =
        (0 :: breaksIn 0 front back) ++ lineBreaks (0 + utf8Length front) back := by
      rw [ofText, htext, lineBreaks_append, List.cons_append]
    rw [hnumber, hstarts, List.getElem?_append_left (by simp), ← List.getLast?_eq_getElem?, hstart]
  · have hcount : utf8Length front - utf8Length whole = utf8Length line := by
      rw [hlast.split, utf8Length_append]
      omega
    rw [charsBefore?, hmin, hline, hcount, ofText, htext, hlast.split, List.append_assoc,
      dropBytes_append, charsWithin_append]

end Between

/-- The position of an offset, by the lines that start in front of it. -/
theorem position_eq {text : String} {whole line back : List Char}
    (htext : text.toList = whole ++ line ++ back)
    (hstart : (0 :: breaksIn 0 (whole ++ line) back).getLast? = some (utf8Length whole)) :
    (ofText text).position (utf8Length (whole ++ line)) =
      ⟨(breaksIn 0 (whole ++ line) back).length + 1, line.length + 1⟩ := by
  have hcount : utf8Length (whole ++ line) - utf8Length whole = utf8Length line := by
    rw [utf8Length_append]
    omega
  have hdrop : dropBytes (utf8Length whole) (ofText text).text = line ++ back := by
    rw [ofText, htext, List.append_assoc, dropBytes_append]
  simp only [position, min_utf8Length_front htext, takeWhile_starts htext,
    List.getLastD_eq_getLast?, hstart, Option.getD_some, hcount, hdrop, charsWithin_append,
    List.length_cons]

/-- Behind a text that no line feed follows, the position is that of its end. -/
theorem position_append {text shown : String} {back : List Char}
    (hshown : shown.toList = text.toList ++ back) (hback : back.head? ≠ some '\n') :
    (ofText shown).position (utf8Length text.toList) =
      (ofText text).position (utf8Length text.toList) := by
  obtain ⟨whole, line, hlast, hstart⟩ := FormCalc.exists_lastLine text.toList []
  have hsplit := hlast.split
  have htext : text.toList = whole ++ line ++ [] := by rw [hsplit, List.append_nil]
  have hbreaks := breaksIn_of_head? 0 (whole ++ line) hback
  rw [hsplit] at hshown hstart ⊢
  rw [position_eq htext hstart, position_eq hshown (hbreaks ▸ hstart), hbreaks]

end LineIndex

end FormCalc
