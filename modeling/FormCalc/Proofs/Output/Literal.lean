import FormCalc.Output.Name
import FormCalc.Proofs.Token.Quoted

/-!
# String literals of JavaScript

What JavaScript takes a string literal in double quotes for, outside strict mode.  A value is a
list of UTF-16 units.

* `Literal.escape`: what the characters behind a backslash stand for.
* `Literal.body`: the value of a literal from its opening quote on, and the text behind its
  closing quote.
* `Literal.value?`: the value of a text that is one literal and nothing else.

The literal that is written for a string token has the value of the token exactly if the token
holds no backslash (`literal_quotedText_iff`).  A backslash is written as it stands, and there
it begins an escape: what follows it loses its meaning, so units are missing from the value or
differ, or the literal does not end where it should.
-/

namespace FormCalc.Literal

/-! ### Escapes -/

/-- The units of a code point. -/
def unitsOf (n : Nat) : List UInt16 :=
  if n < 0x10000 then [UInt16.ofNat n]
  else [UInt16.ofNat (0xD800 + (n - 0x10000) / 0x400),
    UInt16.ofNat (0xDC00 + (n - 0x10000) % 0x400)]

/-- The units of a text. -/
def units (cs : List Char) : List UInt16 := cs.flatMap fun c => unitsOf c.toNat

/-- Whether a character ends a line.  U+2028 and U+2029 do as well. -/
def endsLine (c : Char) : Bool := c ∈ ['\n', '\r', '\u2028', '\u2029']

/-- The digit that a character is, up to base 16. -/
def digit? (c : Char) : Option Nat :=
  if c.isDigit then some (c.toNat - '0'.toNat)
  else if 'a' ≤ c && c ≤ 'f' then some (c.toNat - 'a'.toNat + 10)
  else if 'A' ≤ c && c ≤ 'F' then some (c.toNat - 'A'.toNat + 10)
  else none

/-- Whether a character is a digit of a base. -/
def isDigitOf (base : Nat) (c : Char) : Bool := (digit? c).any (· < base)

/-- The number that digits of a base stand for. -/
def number (base : Nat) (digits : List Char) : Nat :=
  digits.foldl (fun n c => n * base + (digit? c).getD 0) 0

/-- `\x41` and `\u0041`: so many hexadecimal digits for one unit. -/
def fixedEscape (count : Nat) (cs : List Char) : Option (List UInt16 × List Char) :=
  let digits := (cs.take count).takeWhile (isDigitOf 16)
  if digits.length = count then some ([UInt16.ofNat (number 16 digits)], cs.drop digits.length)
  else none

/-- `\u{41}`: a code point. -/
def bracedEscape (cs : List Char) : Option (List UInt16 × List Char) :=
  let digits := cs.takeWhile (isDigitOf 16)
  match cs.drop digits.length with
  | '\x7d' :: rest =>
    if digits ≠ [] ∧ number 16 digits ≤ 0x10FFFF then some (unitsOf (number 16 digits), rest)
    else none
  | _ => none

/-- `\101`: up to three octal digits, of which the first is given, as long as they make a
number below 256. -/
def octalEscape (first : Char) (cs : List Char) : List UInt16 × List Char :=
  let more := (cs.take (if first ≤ '3' then 2 else 1)).takeWhile (isDigitOf 8)
  ([UInt16.ofNat (number 8 (first :: more))], cs.drop more.length)

/-- The letters that stand for a control character behind a backslash. -/
def controls : List (Char × UInt16) :=
  [('b', 0x08), ('t', 0x09), ('n', 0x0A), ('v', 0x0B), ('f', 0x0C), ('r', 0x0D)]

/-- What the characters behind a backslash stand for, and the text behind them.  A line that
ends there goes on with the next one, and most characters stand for themselves. -/
def escape : List Char → Option (List UInt16 × List Char)
  | [] => none
  | 'x' :: cs => fixedEscape 2 cs
  | 'u' :: '\x7b' :: cs => bracedEscape cs
  | 'u' :: cs => fixedEscape 4 cs
  | '\r' :: '\n' :: cs => some ([], cs)
  | c :: cs =>
    match controls.lookup c with
    | some unit => some ([unit], cs)
    | none =>
      if endsLine c then some ([], cs)
      else if isDigitOf 8 c then some (octalEscape c cs)
      else some (unitsOf c.toNat, cs)

theorem one_le_length_unitsOf (n : Nat) : 1 ≤ (unitsOf n).length := by
  unfold unitsOf
  split
  · exact Nat.le_refl 1
  · exact Nat.le_succ 1

theorem length_unitsOf_le (n : Nat) : (unitsOf n).length ≤ 2 := by
  unfold unitsOf
  split
  · exact Nat.le_succ 1
  · exact Nat.le_refl 2

/-- Whether a character neither closes a literal nor begins an escape. -/
def Inner (c : Char) : Prop := c ≠ '"' ∧ c ≠ '\\'

theorem inner_of_isDigitOf {base : Nat} {c : Char} (h : isDigitOf base c = true) : Inner c := by
  constructor <;> rintro rfl <;> exact nomatch h

theorem inner_of_mem_takeWhile {base : Nat} {c : Char} {cs : List Char}
    (h : c ∈ cs.takeWhile (isDigitOf base)) : Inner c :=
  inner_of_isDigitOf (List.all_eq_true.mp List.all_takeWhile c h)

theorem takeWhile_append_drop {p : Char → Bool} {cs ds : List Char} (h : cs <+: ds) :
    ds = cs.takeWhile p ++ ds.drop (cs.takeWhile p).length :=
  (List.prefix_iff_eq_append.mp ((List.takeWhile_prefix p).trans h)).symm

/-- What an escape takes: a character and then only inner ones.  It stands for no more units
than these have. -/
structure Takes (cs : List Char) (value : List UInt16) (rest : List Char) (c : Char)
    (more : List Char) : Prop where
  eq : cs = c :: (more ++ rest)
  inner : ∀ d ∈ more, Inner d
  length : value.length ≤ (unitsOf c.toNat).length + more.length

theorem takes_fixedEscape {count : Nat} {cs rest : List Char} {value : List UInt16} (c : Char)
    (h : fixedEscape count cs = some (value, rest)) :
    ∃ more, Takes (c :: cs) value rest c more := by
  unfold fixedEscape at h
  dsimp only at h
  split at h
  · obtain ⟨rfl, rfl⟩ := Prod.mk.inj (Option.some.inj h)
    have hone := one_le_length_unitsOf c.toNat
    refine ⟨(cs.take count).takeWhile (isDigitOf 16), ?_, ?_, ?_⟩
    · rw [← takeWhile_append_drop (List.take_prefix count cs)]
    · exact fun d hd => inner_of_mem_takeWhile hd
    · simp only [List.length_singleton]
      omega
  · exact nomatch h

theorem takes_bracedEscape {cs rest : List Char} {value : List UInt16} (c : Char)
    (h : bracedEscape cs = some (value, rest)) :
    ∃ more, Takes (c :: '\x7b' :: cs) value rest c more := by
  unfold bracedEscape at h
  dsimp only at h
  split at h
  · rename_i rest' hdrop
    split at h
    · obtain ⟨rfl, rfl⟩ := Prod.mk.inj (Option.some.inj h)
      have hsplit : cs = cs.takeWhile (isDigitOf 16) ++ '\x7d' :: rest' := by
        rw [← hdrop]
        exact takeWhile_append_drop (List.prefix_refl cs)
      have htwo := length_unitsOf_le (number 16 (cs.takeWhile (isDigitOf 16)))
      refine ⟨'\x7b' :: (cs.takeWhile (isDigitOf 16) ++ ['\x7d']), ?_, ?_, ?_⟩
      · rw [List.cons_append, List.append_assoc, List.singleton_append, ← hsplit]
      · intro d hd
        simp only [List.mem_cons, List.mem_append, List.not_mem_nil, or_false] at hd
        rcases hd with rfl | hd | rfl
        · exact ⟨by decide, by decide⟩
        · exact inner_of_mem_takeWhile hd
        · exact ⟨by decide, by decide⟩
      · simp only [List.length_cons, List.length_append]
        omega
    · exact nomatch h
  · exact nomatch h

/-- What takes one character and stands for no more units than it. -/
theorem takes_char {cs : List Char} {value : List UInt16} {c : Char}
    (h : value.length ≤ (unitsOf c.toNat).length) : Takes (c :: cs) value cs c [] :=
  ⟨rfl, nofun, h⟩

theorem takes_octalEscape (first : Char) (cs : List Char) :
    ∃ more, Takes (first :: cs) (octalEscape first cs).1 (octalEscape first cs).2 first more := by
  have hone := one_le_length_unitsOf first.toNat
  refine ⟨(cs.take (if first ≤ '3' then 2 else 1)).takeWhile (isDigitOf 8), ?_, ?_, ?_⟩
  · exact congrArg (first :: ·) (takeWhile_append_drop (List.take_prefix _ cs))
  · exact fun d hd => inner_of_mem_takeWhile hd
  · exact Nat.le_trans hone (Nat.le_add_right _ _)

/-- An escape takes a character and then only inner ones. -/
theorem exists_takes {cs rest : List Char} {value : List UInt16}
    (h : escape cs = some (value, rest)) : ∃ c more, Takes cs value rest c more := by
  unfold escape at h
  split at h
  · exact nomatch h
  · exact ⟨'x', takes_fixedEscape 'x' h⟩
  · exact ⟨'u', takes_bracedEscape 'u' h⟩
  · exact ⟨'u', takes_fixedEscape 'u' h⟩
  · obtain ⟨rfl, rfl⟩ := Prod.mk.inj (Option.some.inj h)
    refine ⟨'\r', ['\n'], rfl, ?_, Nat.zero_le _⟩
    rintro d (_ | ⟨_, ⟨⟩⟩)
    exact ⟨by decide, by decide⟩
  · rename_i c cs _ _ _ _
    refine ⟨c, ?_⟩
    split at h
    · obtain ⟨rfl, rfl⟩ := Prod.mk.inj (Option.some.inj h)
      exact ⟨[], takes_char (one_le_length_unitsOf c.toNat)⟩
    · split at h
      · obtain ⟨rfl, rfl⟩ := Prod.mk.inj (Option.some.inj h)
        exact ⟨[], takes_char (Nat.zero_le _)⟩
      · split at h
        · obtain ⟨rfl, rfl⟩ := Prod.mk.inj (Option.some.inj h)
          exact takes_octalEscape c cs
        · obtain ⟨rfl, rfl⟩ := Prod.mk.inj (Option.some.inj h)
          exact ⟨[], takes_char (Nat.le_refl _)⟩

theorem length_of_escape {cs rest : List Char} {value : List UInt16}
    (h : escape cs = some (value, rest)) : rest.length < cs.length := by
  obtain ⟨c, more, htakes⟩ := exists_takes h
  rw [htakes.eq, List.length_cons, List.length_append]
  omega

/-! ### Literals -/

/-- A reading with a value in front of it. -/
def before (value : List UInt16) (read : List UInt16 × List Char) : List UInt16 × List Char :=
  (value ++ read.1, read.2)

/-- Reads a literal behind its opening quote: its value, and the text behind its closing
quote.  A line feed or a carriage return cannot stand in it. -/
def body (cs : List Char) : Option (List UInt16 × List Char) :=
  match cs with
  | [] => none
  | '"' :: cs => some ([], cs)
  | '\\' :: cs =>
    match h : escape cs with
    | none => none
    | some (value, rest) =>
      have : rest.length < cs.length := length_of_escape h
      (body rest).map (before value)
  | c :: cs =>
    if c = '\n' ∨ c = '\r' then none else (body cs).map (before (unitsOf c.toNat))
termination_by cs.length

/-- The value of a text that is one literal and nothing else. -/
def value? (text : String) : Option (List UInt16) :=
  match text.toList with
  | '"' :: cs =>
    match body cs with
    | some (value, []) => some value
    | _ => none
  | _ => none

theorem value?_eq_some_iff {text : String} {cs : List Char} {value : List UInt16}
    (h : text.toList = '"' :: cs) : value? text = some value ↔ body cs = some (value, []) := by
  rw [value?, h]
  show (match body cs with
    | some (value, []) => some value
    | _ => none) = some value ↔ _
  rcases body cs with _ | ⟨units, _ | ⟨c, rest⟩⟩
  · exact ⟨nofun, nofun⟩
  · simp
  · exact ⟨nofun, nofun⟩

theorem body_nil : body [] = none := by
  rw [body]

theorem body_quote (cs : List Char) : body ('"' :: cs) = some ([], cs) := by
  rw [body]

theorem body_escape {cs rest : List Char} {value : List UInt16}
    (h : escape cs = some (value, rest)) :
    body ('\\' :: cs) = (body rest).map (before value) := by
  rw [body]
  split
  · rename_i hnone
    exact nomatch h.symm.trans hnone
  · rename_i hsome
    obtain ⟨rfl, rfl⟩ := Prod.mk.inj (Option.some.inj (h.symm.trans hsome))
    rfl

theorem body_escape_none {cs : List Char} (h : escape cs = none) : body ('\\' :: cs) = none := by
  rw [body]
  split
  · rfl
  · rename_i hsome
    exact nomatch h.symm.trans hsome

theorem body_char {c : Char} (hinner : Inner c) (cs : List Char) :
    body (c :: cs) =
      if c = '\n' ∨ c = '\r' then none else (body cs).map (before (unitsOf c.toNat)) := by
  rw [body]
  · exact hinner.1
  · exact hinner.2

/-! ### Reading what is written -/

/-- How a character of a value is written. -/
def spell (c : Char) : List Char :=
  if c = '"' then ['\\', '"'] else if c = '\n' then ['\\', 'n'] else [c]

theorem spell_quote : spell '"' = ['\\', '"'] := rfl

theorem spell_newline : spell '\n' = ['\\', 'n'] := rfl

theorem spell_char {c : Char} (hquote : c ≠ '"') (hnewline : c ≠ '\n') : spell c = [c] := by
  rw [spell, if_neg hquote, if_neg hnewline]

theorem escape_quote (cs : List Char) : escape ('"' :: cs) = some ([0x22], cs) := rfl

theorem escape_n (cs : List Char) : escape ('n' :: cs) = some ([0x0A], cs) := rfl

theorem escape_backslash (cs : List Char) : escape ('\\' :: cs) = some ([0x5C], cs) := rfl

theorem units_cons (c : Char) (cs : List Char) : units (c :: cs) = unitsOf c.toNat ++ units cs :=
  rfl

theorem units_append (cs ds : List Char) : units (cs ++ ds) = units cs ++ units ds :=
  List.flatMap_append

theorem length_le_length_units (cs : List Char) : cs.length ≤ (units cs).length := by
  induction cs with
  | nil => exact Nat.le_refl 0
  | cons c cs ih =>
    have hone := one_le_length_unitsOf c.toNat
    rw [units_cons, List.length_append, List.length_cons]
    omega

theorem map_before_before (first second : List UInt16)
    (read : Option (List UInt16 × List Char)) :
    (read.map (before second)).map (before first) = read.map (before (first ++ second)) := by
  cases read with
  | none => rfl
  | some read => simp [before]

/-- A character that is no backslash is read as it was meant. -/
theorem body_spell {c : Char} (hslash : c ≠ '\\') (hreturn : c ≠ '\r') (rest : List Char) :
    body (spell c ++ rest) = (body rest).map (before (unitsOf c.toNat)) := by
  by_cases hquote : c = '"'
  · rw [hquote]
    exact body_escape (escape_quote rest)
  · by_cases hnewline : c = '\n'
    · rw [hnewline]
      exact body_escape (escape_n rest)
    · rw [spell_char hquote hnewline, List.singleton_append, body_char ⟨hquote, hslash⟩,
        if_neg (not_or.mpr ⟨hnewline, hreturn⟩)]

theorem body_spell_append {value : List Char} (hslash : '\\' ∉ value) (hreturn : '\r' ∉ value)
    (rest : List Char) :
    body (value.flatMap spell ++ rest) = (body rest).map (before (units value)) := by
  induction value with
  | nil =>
    show body rest = (body rest).map (before [])
    cases body rest with
    | none => rfl
    | some read => rfl
  | cons c value ih =>
    obtain ⟨hcslash, hslash⟩ := not_or.mp (mt List.mem_cons.mpr hslash)
    obtain ⟨hcreturn, hreturn⟩ := not_or.mp (mt List.mem_cons.mpr hreturn)
    rw [List.flatMap_cons, List.append_assoc, body_spell (Ne.symm hcslash) (Ne.symm hcreturn),
      ih hslash hreturn, map_before_before, units_cons]

/-- Inner characters at the front of what is written stand at the front of the value. -/
theorem spell_of_inner {more rest value : List Char} (hinner : ∀ d ∈ more, Inner d)
    (h : more ++ rest = value.flatMap spell ++ ['"']) :
    ∃ value', value = more ++ value' ∧ rest = value'.flatMap spell ++ ['"'] := by
  induction more generalizing value with
  | nil => exact ⟨value, rfl, h⟩
  | cons d more ih =>
    obtain ⟨hd, hinner⟩ := List.forall_mem_cons.mp hinner
    cases value with
    | nil => exact absurd (List.cons.inj h).1 hd.1
    | cons c value =>
      rw [List.flatMap_cons, List.append_assoc] at h
      by_cases hquote : c = '"'
      · rw [hquote, spell_quote] at h
        exact absurd (List.cons.inj h).1 hd.2
      · by_cases hnewline : c = '\n'
        · rw [hnewline, spell_newline] at h
          exact absurd (List.cons.inj h).1 hd.2
        · rw [spell_char hquote hnewline] at h
          obtain ⟨rfl, htail⟩ := List.cons.inj h
          obtain ⟨value', rfl, hrest⟩ := ih hinner htail
          exact ⟨value', rfl, hrest⟩

/-- Whether no reading of what is written for a value has more units than the value. -/
def Limited (value : List Char) : Prop :=
  ∀ read, body (value.flatMap spell ++ ['"']) = some read → read.1.length ≤ (units value).length

/-- Behind a backslash units get lost, unless a line feed follows it: then the backslash of
`\n` is taken for the character, and the letter for the next. -/
theorem body_backslash {value : List Char}
    (ih : ∀ value' : List Char, value'.length < value.length → Limited value')
    {read : List UInt16 × List Char}
    (h : body ('\\' :: (value.flatMap spell ++ ['"'])) = some read) :
    read.1.length ≤ (units value).length ∨
      ∃ value' more, value = '\n' :: value' ∧ read.1 = 0x5C :: 0x6E :: more ∧
        more.length ≤ (units value').length := by
  cases value with
  | nil =>
    rw [List.flatMap_nil, List.nil_append, body_escape (escape_quote []), body_nil] at h
    exact nomatch h
  | cons c value =>
    rw [List.flatMap_cons, List.append_assoc] at h
    by_cases hquote : c = '"'
    · rw [hquote, spell_quote, List.cons_append, body_escape (escape_backslash _),
        List.singleton_append, body_quote] at h
      obtain rfl := Option.some.inj h
      exact .inl (Nat.le_trans (Nat.le_add_left 1 _) (length_le_length_units (c :: value)))
    · by_cases hnewline : c = '\n'
      · rw [hnewline, spell_newline, List.cons_append, body_escape (escape_backslash _),
          List.singleton_append, body_char ⟨by decide, by decide⟩, if_neg (by decide),
          map_before_before] at h
        obtain ⟨read', hread, rfl⟩ := Option.map_eq_some_iff.mp h
        exact .inr ⟨value, read'.1, by rw [hnewline], rfl,
          ih value (Nat.lt_succ_self _) read' hread⟩
      · rw [spell_char hquote hnewline, List.singleton_append] at h
        cases hescape : escape (c :: (value.flatMap spell ++ ['"'])) with
        | none =>
          rw [body_escape_none hescape] at h
          exact nomatch h
        | some escaped =>
          obtain ⟨unitsOfEscape, rest⟩ := escaped
          rw [body_escape hescape] at h
          obtain ⟨read', hread, rfl⟩ := Option.map_eq_some_iff.mp h
          obtain ⟨c', more, htakes⟩ := exists_takes hescape
          obtain ⟨rfl, hmore⟩ := List.cons.inj htakes.eq
          obtain ⟨value', rfl, rfl⟩ := spell_of_inner htakes.inner hmore.symm
          have hlength := htakes.length
          have hmorelength := length_le_length_units more
          have hrest := ih value' (by simp only [List.length_cons, List.length_append]; omega)
            read' hread
          left
          simp only [before, units_cons, units_append, List.length_append]
          omega

theorem limited (value : List Char) : Limited value := by
  induction hn : value.length using Nat.strongRecOn generalizing value with
  | ind n ih =>
    have ih : ∀ value' : List Char, value'.length < value.length → Limited value' := by
      intro value' hlt
      exact ih value'.length (by omega) value' rfl
    intro read h
    cases value with
    | nil =>
      obtain rfl := Option.some.inj ((body_quote []).symm.trans h)
      exact Nat.le_refl 0
    | cons c value =>
      have hshorter := ih value (Nat.lt_succ_self _)
      rw [List.flatMap_cons, List.append_assoc] at h
      rw [units_cons, List.length_append]
      by_cases hslash : c = '\\'
      · rw [hslash, spell_char (by decide) (by decide), List.singleton_append] at h
        have hone := one_le_length_unitsOf c.toNat
        rcases body_backslash (fun value' hlt => ih value' (Nat.lt_succ_of_lt hlt)) h with
          hlost | ⟨value', more, rfl, hread, hmore⟩
        · omega
        · have hone' := one_le_length_unitsOf '\n'.toNat
          rw [hread, units_cons, List.length_append]
          simp only [List.length_cons]
          omega
      · by_cases hreturn : c = '\r'
        · rw [hreturn, spell_char (by decide) (by decide), List.singleton_append,
            body_char ⟨by decide, by decide⟩, if_pos (.inr rfl)] at h
          exact nomatch h
        · rw [body_spell hslash hreturn] at h
          obtain ⟨read', hread, rfl⟩ := Option.map_eq_some_iff.mp h
          have hrest := hshorter read' hread
          simp only [before, List.length_append]
          omega

/-- What is written for a value is a literal with this value exactly if there is no backslash
in it. -/
theorem body_spell_iff {value : List Char} (hreturn : '\r' ∉ value) :
    body (value.flatMap spell ++ ['"']) = some (units value, []) ↔ '\\' ∉ value := by
  constructor
  · intro h hmem
    -- Up to the first backslash the reading is right.
    obtain ⟨before', value', rfl, hslash⟩ := List.eq_append_cons_of_mem hmem
    have hreturn' : '\r' ∉ before' := fun hin => hreturn (List.mem_append_left _ hin)
    rw [List.flatMap_append, List.append_assoc, body_spell_append hslash hreturn',
      List.flatMap_cons, spell_char (by decide) (by decide), List.append_assoc,
      List.singleton_append] at h
    obtain ⟨read, hread, hbefore⟩ := Option.map_eq_some_iff.mp h
    obtain ⟨hunits, -⟩ := Prod.mk.inj hbefore
    rw [units_append] at hunits
    have hunits : read.1 = 0x5C :: units value' := List.append_cancel_left hunits
    rcases body_backslash (fun value'' _ => limited value'') hread with
      hlost | ⟨value'', more, rfl, hmore, -⟩
    · rw [hunits, List.length_cons] at hlost
      omega
    · rw [hunits, units_cons] at hmore
      exact nomatch (List.cons.inj (List.cons.inj hmore).2).1
  · intro hslash
    rw [body_spell_append hslash hreturn, body_quote]
    simp [before]

end FormCalc.Literal

namespace FormCalc

open Literal

theorem Interior.escaped_eq {cs : List Char} (h : Interior cs) :
    escaped cs = (interiorValue cs).flatMap spell := by
  induction h with
  | nil => rfl
  | pair rest ih =>
    rw [escaped, interiorValue, List.flatMap_cons, spell_quote, ih]
    rfl
  | @char c cs hquote _ rest ih =>
    rw [interiorValue_char hquote]
    by_cases hreturn : c = '\r'
    · rw [hreturn, if_pos rfl, escaped, ih]
    · rw [if_neg hreturn, List.flatMap_cons, ← ih]
      by_cases hnewline : c = '\n'
      · rw [hnewline, spell_newline, escaped]
        rfl
      · rw [spell_char hquote hnewline, escaped, List.singleton_append]
        · exact fun heq => absurd heq hquote
        · exact fun _ _ heq => absurd heq hquote
        · exact hreturn
        · exact hnewline

theorem dropLast_interior {raw : String} {interior : List Char}
    (h : raw.toList = '"' :: interior ++ ['"']) : (raw.toList.drop 1).dropLast = interior := by
  rw [h, List.cons_append, List.drop_succ_cons, List.drop_zero, List.dropLast_concat]

/-- The literal of a string token holds the value of the token.  The shortest token is its own
literal, and that is no exception: its value is empty. -/
theorem toList_quotedText {raw : String} {interior : List Char}
    (h : raw.toList = '"' :: interior ++ ['"']) (hinterior : Interior interior) :
    (quotedText raw).toList = '"' :: ((interiorValue interior).flatMap spell ++ ['"']) := by
  rw [quotedText]
  split
  · rename_i hshort
    have hempty : interior = [] := by
      rw [← utf8Length_toList, h, utf8Length_append, utf8Length_cons, utf8Length_cons,
        utf8Length_nil] at hshort
      cases interior with
      | nil => rfl
      | cons c cs =>
        have hquote : '"'.utf8Size = 1 := rfl
        have hc := c.utf8Size_pos
        rw [utf8Length_cons, hquote] at hshort
        omega
    rw [h, hempty]
    rfl
  · have hquote : "\"".toList = ['"'] := rfl
    rw [dropLast_interior h, hinterior.escaped_eq, String.toList_append, String.toList_append,
      hquote, String.toList_ofList]
    rfl

/-- **When string literals survive.**  The literal that is written for a string token is one
complete literal of JavaScript whose value is the value of the token, exactly if there is no
backslash in the token. -/
theorem literal_quotedText_iff {lexer : Lexer} (h : lexer.next.1.kind = .string) :
    value? (quotedText lexer.next.1.text) = some (units (stringValue lexer.next.1.text)) ↔
      '\\' ∉ lexer.next.1.text.toList := by
  obtain ⟨interior, htext, hinterior⟩ := Lexer.exists_interior h
  have hvalue : stringValue lexer.next.1.text = interiorValue interior :=
    congrArg interiorValue (dropLast_interior htext)
  have hslash : '\\' ∉ lexer.next.1.text.toList ↔ '\\' ∉ interiorValue interior := by
    rw [hinterior.mem_value (by decide) (by decide), htext]
    simp
  rw [hslash, hvalue, value?_eq_some_iff (toList_quotedText htext hinterior)]
  exact body_spell_iff hinterior.return_not_mem_value

/-- A token with a doubled quote and a broken line keeps its value.  One with a backslash in
front of its closing quote does not. -/
theorem literal_quotedText_iff_backslash :
    (Lexer.ofText "\"a\"\"\r\nb\"").next.1.text = "\"a\"\"\r\nb\"" ∧
    quotedText "\"a\"\"\r\nb\"" = "\"a\\\"\\nb\"" ∧
    value? (quotedText "\"a\"\"\r\nb\"") = some (units ['a', '"', '\n', 'b']) ∧
    (Lexer.ofText "\"\\\"").next.1.text = "\"\\\"" ∧
    quotedText "\"\\\"" = "\"\\\"" ∧
    value? (quotedText "\"\\\"") ≠ some (units ['\\']) := by
  have hbroken : (Lexer.ofText "\"a\"\"\r\nb\"").next.1.kind = .string := rfl
  have hslash : (Lexer.ofText "\"\\\"").next.1.kind = .string := rfl
  refine ⟨rfl, by decide +kernel, (literal_quotedText_iff hbroken).mpr ?_, rfl, by decide +kernel,
    mt (literal_quotedText_iff hslash).mp ?_⟩
  · decide +kernel
  · decide +kernel

end FormCalc
