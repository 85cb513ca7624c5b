import FormCalc.Command.Report
import FormCalc.Proofs.Token.Alone

/-!
# Reports as JSON values

A report is one line of text, and whoever asked for it reads the line as a JSON value.

* `Json`, `Json.text`: the values that occur in reports, and how they are spelled.
* `Json.read`: a reader of such values, which knows nothing of reports.
* `Report.value`: the value of a report.

Values are read back from their spelling (`Json.read_text`), so the line of a report is read as its
value and as nothing else (`Report.read_json`).  The reader takes one part off the front at a time
and hands on what is left; each lemma about it says what it does in front of any rest.
-/

namespace FormCalc

/-- A JSON value, of the forms that occur in reports. -/
inductive Json where
  | bool (value : Bool)
  | number (value : Nat)
  | string (value : String)
  | object (fields : List (String × Json))

namespace Json

/-- The value of a field. -/
def field (name : String) : Json → Option Json
  | .object fields => fields.lookup name
  | _ => none

mutual

/-- The spelling of a value. -/
def text : Json → String
  | .bool value => if value then "true" else "false"
  | .number value => toString value
  | .string value => jsonString value
  | .object fields => jsonObject (fieldTexts fields)

/-- The spelling of fields. -/
def fieldTexts : List (String × Json) → List (String × String)
  | [] => []
  | (name, value) :: rest => (name, value.text) :: fieldTexts rest

end

/-! ### The reader -/

/-- The character that a letter behind a backslash stands for. -/
def unescaped : Char → Option Char
  | '"' => some '"'
  | '\\' => some '\\'
  | '/' => some '/'
  | 'b' => some '\x08'
  | 'f' => some '\x0c'
  | 'n' => some '\n'
  | 'r' => some '\r'
  | 't' => some '\t'
  | _ => none

/-- The value of a hexadecimal digit. -/
def hexValue (c : Char) : Option Nat :=
  if c.isDigit then some (c.toNat - 48)
  else if 'a' ≤ c ∧ c ≤ 'f' then some (c.toNat - 87)
  else if 'A' ≤ c ∧ c ≤ 'F' then some (c.toNat - 55)
  else none

/-- The character of four hexadecimal digits.  Half of a surrogate pair is none. -/
def codeCharacter (a b c d : Char) : Option Char := do
  let code := (((← hexValue a) * 16 + (← hexValue b)) * 16 + (← hexValue c)) * 16 + (← hexValue d)
  if code.isValidChar then some (Char.ofNat code) else none

/-- Splits off the characters of a string behind its opening quote, and the closing quote. -/
def characters : List Char → Option (List Char × List Char)
  | [] => none
  | '"' :: cs => some ([], cs)
  | '\\' :: 'u' :: a :: b :: c :: d :: cs => do
    let character ← codeCharacter a b c d
    let (chars, rest) ← characters cs
    return (character :: chars, rest)
  | '\\' :: c :: cs => do
    let character ← unescaped c
    let (chars, rest) ← characters cs
    return (character :: chars, rest)
  | c :: cs =>
    if c.toNat < 0x20 ∨ c = '\\' then none
    else do
      let (chars, rest) ← characters cs
      return (c :: chars, rest)

mutual

/-- Splits off a value.  Every value inside it takes at least one character, and `fuel` is the
number of characters that may be taken. -/
def value : (fuel : Nat) → List Char → Option (Json × List Char)
  | fuel + 1, c :: cs =>
    if c.isDigit then
      some (.number (Nat.ofDigitChars 10 ((c :: cs).takeWhile Char.isDigit) 0),
        (c :: cs).dropWhile Char.isDigit)
    else match c :: cs with
      | '"' :: cs => (characters cs).map fun (chars, rest) => (.string (String.ofList chars), rest)
      | '\x7b' :: '\x7d' :: cs => some (.object [], cs)
      | '\x7b' :: cs => (fields fuel cs).map fun (fields, rest) => (.object fields, rest)
      | 't' :: 'r' :: 'u' :: 'e' :: cs => some (.bool true, cs)
      | 'f' :: 'a' :: 'l' :: 's' :: 'e' :: cs => some (.bool false, cs)
      | _ => none
  | _, _ => none

/-- Splits off fields with commas between them, and the closing brace. -/
def fields : (fuel : Nat) → List Char → Option (List (String × Json) × List Char)
  | fuel + 1, '"' :: cs => do
    let (chars, behindName) ← characters cs
    match behindName with
    | ':' :: cs =>
      let (content, behindValue) ← value fuel cs
      match behindValue with
      | ',' :: cs =>
        let (more, rest) ← fields fuel cs
        return ((String.ofList chars, content) :: more, rest)
      | '\x7d' :: cs => return ([(String.ofList chars, content)], cs)
      | _ => none
    | _ => none
  | _, _ => none

end

/-- The value that a line spells.  The line ends behind it. -/
def read (line : String) : Option Json :=
  match value line.length line.toList with
  | some (content, ['\n']) => some content
  | _ => none

/-! ### Strings -/

theorem codeCharacter_hexDigit : ∀ n < 32,
    codeCharacter '0' '0' (hexDigit (n / 16)) (hexDigit n) = some (Char.ofNat n) := by
  decide

/-- A reader takes a letter behind a backslash off the front. -/
theorem characters_letter {c d : Char} (h : unescaped c = some d) (cs : List Char) :
    characters ('\\' :: c :: cs) = (characters cs).map fun (chars, rest) => (d :: chars, rest) := by
  rw [characters, h]
  · cases characters cs <;> rfl
  · rintro a b c d cs rfl
    cases h

/-- A reader takes a character that is given by its code off the front. -/
theorem characters_code {a b c d character : Char} (h : codeCharacter a b c d = some character)
    (cs : List Char) : characters ('\\' :: 'u' :: a :: b :: c :: d :: cs) =
      (characters cs).map fun (chars, rest) => (character :: chars, rest) := by
  rw [characters, h]
  cases characters cs <;> rfl

/-- A reader takes a character that stands for itself off the front. -/
theorem characters_plain {c : Char} (hquote : c ≠ '"') (hslash : c ≠ '\\')
    (hcontrol : ¬c.toNat < 0x20) (cs : List Char) :
    characters (c :: cs) = (characters cs).map fun (chars, rest) => (c :: chars, rest) := by
  rw [characters, if_neg (by simp [hslash, hcontrol])]
  · cases characters cs <;> rfl
  · exact hquote
  all_goals
    intros
    exact hslash (by assumption)

/-- A reader takes an escaped character off the front. -/
theorem characters_jsonEscaped (c : Char) (cs : List Char) :
    characters (jsonEscaped c ++ cs) =
      (characters cs).map fun (chars, rest) => (c :: chars, rest) := by
  unfold jsonEscaped
  -- seven characters have a letter of their own
  iterate 7
    split
    · subst_vars
      exact characters_letter rfl cs
  split
  · rename_i h
    have hcode := codeCharacter_hexDigit c.toNat h
    rw [Char.ofNat_toNat] at hcode
    exact characters_code hcode cs
  · exact characters_plain (by assumption) (by assumption) (by assumption) cs

/-- **Strings are read back**, up to their closing quote. -/
theorem characters_jsonString (chars rest : List Char) :
    characters (chars.flatMap jsonEscaped ++ '"' :: rest) = some (chars, rest) := by
  induction chars with
  | nil => rfl
  | cons c chars ih =>
    rw [List.flatMap_cons, List.append_assoc, characters_jsonEscaped, ih]
    rfl

theorem toList_jsonString (s : String) :
    (jsonString s).toList = '"' :: (s.toList.flatMap jsonEscaped ++ ['"']) := by
  simp [jsonString]

/-! ### Values -/

/-- The spelling of fields inside their braces. -/
def inner (fields : List (String × Json)) : List Char :=
  (",".intercalate ((fieldTexts fields).map fun field =>
    jsonString field.1 ++ ":" ++ field.2)).toList

theorem toList_text_object (fields : List (String × Json)) :
    (text (.object fields)).toList = '\x7b' :: (inner fields ++ ['\x7d']) := by
  simp [text, jsonObject, inner]

theorem inner_single (name : String) (content : Json) :
    inner [(name, content)] = (jsonString name).toList ++ ':' :: content.text.toList := by
  simp [inner, fieldTexts]

theorem inner_cons (name : String) (content : Json) (field : String × Json)
    (rest : List (String × Json)) : inner ((name, content) :: field :: rest) =
      (jsonString name).toList ++ ':' :: (content.text.toList ++ ',' :: inner (field :: rest)) := by
  obtain ⟨name', content'⟩ := field
  simp [inner, fieldTexts]

/-- A field is read in front of the closing brace. -/
theorem fields_last {fuel : Nat} {name : String} {content : Json} {cs rest : List Char}
    (h : value fuel cs = some (content, '\x7d' :: rest)) :
    fields (fuel + 1) ((jsonString name).toList ++ ':' :: cs) = some ([(name, content)], rest) := by
  rw [toList_jsonString, List.cons_append, List.append_assoc, fields]
  show (characters (name.toList.flatMap jsonEscaped ++ '"' :: ':' :: cs)).bind _ = _
  rw [characters_jsonString]
  show (value fuel cs).bind _ = _
  rw [h, String.ofList_toList]
  rfl

/-- A field is read in front of others. -/
theorem fields_more {fuel : Nat} {name : String} {content : Json} {cs rest rest' : List Char}
    {more : List (String × Json)} (h : value fuel cs = some (content, ',' :: rest))
    (hmore : fields fuel rest = some (more, rest')) :
    fields (fuel + 1) ((jsonString name).toList ++ ':' :: cs) =
      some ((name, content) :: more, rest') := by
  rw [toList_jsonString, List.cons_append, List.append_assoc, fields]
  show (characters (name.toList.flatMap jsonEscaped ++ '"' :: ':' :: cs)).bind _ = _
  rw [characters_jsonString]
  show (value fuel cs).bind _ = _
  rw [h, String.ofList_toList]
  show (fields fuel rest).bind _ = _
  rw [hmore]
  rfl

theorem value_number (fuel n : Nat) {rest : List Char} (h : Stops Char.isDigit rest) :
    value (fuel + 1) ((toString n).toList ++ rest) = some (.number n, rest) := by
  have hdigits : ∀ c ∈ (toString n).toList, c.isDigit = true := by
    rw [Nat.toString_eq_repr, Nat.toList_repr]
    exact fun c hc => Nat.isDigit_of_mem_toDigits (by decide) (by decide) hc
  cases hn : (toString n).toList with
  | nil =>
    rw [Nat.toString_eq_repr, Nat.toList_repr] at hn
    exact absurd hn Nat.toDigits_ne_nil
  | cons c cs =>
    rw [hn] at hdigits
    have hvalue : Nat.ofDigitChars 10 (c :: cs) 0 = n := by
      rw [← hn, Nat.toString_eq_repr, Nat.toList_repr, Nat.ofDigitChars_ten_toDigits]
    rw [List.cons_append, value, if_pos (hdigits c List.mem_cons_self), ← List.cons_append,
      takeWhile_exact hdigits h, dropWhile_exact hdigits h, hvalue]

theorem value_string (fuel : Nat) (s : String) (rest : List Char) :
    value (fuel + 1) ((jsonString s).toList ++ rest) = some (.string s, rest) := by
  rw [toList_jsonString, List.cons_append, List.append_assoc, value]
  show (characters (s.toList.flatMap jsonEscaped ++ '"' :: rest)).map _ = _
  rw [characters_jsonString]
  exact congrArg (fun s => some (Json.string s, rest)) String.ofList_toList

theorem value_object {fuel : Nat} {cs rest : List Char} {content : List (String × Json)}
    (h : fields fuel ('"' :: cs) = some (content, rest)) :
    value (fuel + 1) ('\x7b' :: '"' :: cs) = some (.object content, rest) := by
  rw [value]
  show (fields fuel ('"' :: cs)).map _ = _
  rw [h, Option.map_some]

/-- Fields start with the quote of a name. -/
theorem exists_inner (field : String × Json) (more : List (String × Json)) :
    ∃ cs, inner (field :: more) = '"' :: cs := by
  obtain ⟨name, content⟩ := field
  cases more with
  | nil =>
    rw [inner_single, toList_jsonString]
    exact ⟨_, rfl⟩
  | cons next more =>
    rw [inner_cons, toList_jsonString]
    exact ⟨_, rfl⟩

theorem length_text_pos (content : Json) : 0 < content.text.length := by
  cases content with
  | bool flag => cases flag <;> decide
  | number n => exact Nat.length_repr_pos
  | string s =>
    rw [text, ← String.length_toList, toList_jsonString]
    exact Nat.succ_pos _
  | object content =>
    rw [← String.length_toList, toList_text_object]
    exact Nat.succ_pos _

/-- What the reader does in front of any rest: it takes off a value, or fields and their brace. -/
theorem value_and_fields (fuel : Nat) :
    (∀ content rest, content.text.length ≤ fuel → Stops Char.isDigit rest →
      value fuel (content.text.toList ++ rest) = some (content, rest)) ∧
    ∀ field more rest, (inner (field :: more)).length ≤ fuel →
      fields fuel (inner (field :: more) ++ '\x7d' :: rest) = some (field :: more, rest) := by
  induction fuel with
  | zero =>
    refine ⟨fun content rest hfuel => ?_, fun field more rest hfuel => ?_⟩
    · exact absurd (length_text_pos content) (Nat.not_lt_of_le hfuel)
    · obtain ⟨cs, hcs⟩ := exists_inner field more
      rw [hcs] at hfuel
      cases hfuel
  | succ fuel ih =>
    obtain ⟨ihvalue, ihfields⟩ := ih
    -- neither a comma nor a brace goes on with a number
    have hcomma : ∀ rest, Stops Char.isDigit (',' :: rest) := by
      rintro rest d hd
      obtain rfl := Option.some.inj hd
      rfl
    have hbrace : ∀ rest, Stops Char.isDigit ('\x7d' :: rest) := by
      rintro rest d hd
      obtain rfl := Option.some.inj hd
      rfl
    constructor
    · intro content rest hfuel hrest
      cases content with
      | bool flag => cases flag <;> rfl
      | number n => exact value_number fuel n hrest
      | string s => exact value_string fuel s rest
      | object content =>
        rw [← String.length_toList, toList_text_object, List.length_cons] at hfuel
        rw [toList_text_object, List.cons_append, List.append_assoc]
        cases content with
        | nil => rfl
        | cons field more =>
          have hfields := ihfields field more rest (by rw [List.length_append] at hfuel; omega)
          obtain ⟨cs, hcs⟩ := exists_inner field more
          rw [hcs] at hfields ⊢
          exact value_object hfields
    · rintro ⟨name, content⟩ more rest hfuel
      cases more with
      | nil =>
        simp only [inner_single, List.length_append, List.length_cons, String.length_toList]
          at hfuel
        rw [inner_single, List.append_assoc, List.cons_append]
        exact fields_last (ihvalue content _ (by omega) (hbrace rest))
      | cons next more =>
        simp only [inner_cons, List.length_append, List.length_cons, String.length_toList] at hfuel
        rw [inner_cons, List.append_assoc, List.cons_append, List.append_assoc]
        exact fields_more (ihvalue content _ (by omega) (hcomma _))
          (ihfields next more rest (by omega))

/-- **Values are read back** from a line of their own. -/
theorem read_text (content : Json) : read (content.text ++ "\n") = some content := by
  have hlength : content.text.length ≤ (content.text ++ "\n").length := by
    rw [String.length_append]
    omega
  have hstops : Stops Char.isDigit ['\n'] := by
    rintro d hd
    obtain rfl := Option.some.inj hd
    rfl
  have hvalue := (value_and_fields (content.text ++ "\n").length).1 content ['\n'] hlength hstops
  rw [read, String.toList_append, show "\n".toList = ['\n'] from rfl, hvalue]
  rfl

end Json

/-! ### Reports -/

/-- A field that may not apply. -/
def Json.optional (name : String) (content : Option Json) : List (String × Json) :=
  (content.map (name, ·)).toList

/-- A failure as a JSON value. -/
def Failure.value (failure : Failure) : Json :=
  .object ([("code", .string failure.code), ("message", .string failure.message)] ++
    Json.optional "line" (failure.position.map fun p => .number p.line) ++
    Json.optional "column" (failure.position.map fun p => .number p.column))

/-- A report as a JSON value. -/
def Report.value (report : Report) : Json :=
  .object ([("ok", .bool report.failure.isNone), ("input", .string report.input)] ++
    Json.optional "output" (report.output.map .string) ++
    Json.optional "javascript" (report.javascript.map .string) ++
    Json.optional "error" (report.failure.map Failure.value))

theorem Failure.text_value (failure : Failure) : failure.value.text = failure.json := by
  obtain ⟨code, message, position⟩ := failure
  cases position <;> rfl

theorem Report.text_value (report : Report) : report.value.text = report.json := by
  obtain ⟨input, output, javascript, failure⟩ := report
  cases output <;> cases javascript <;> cases failure with
  | none => rfl
  | some failure =>
    simp [Report.value, Report.json, Json.text, Json.fieldTexts, Json.optional, optionalField,
      failure.text_value]

/-- **The line of a report is read as its value.** -/
theorem Report.read_json (report : Report) :
    Json.read (report.json ++ "\n") = some report.value := by
  rw [← report.text_value, Json.read_text]

end FormCalc
