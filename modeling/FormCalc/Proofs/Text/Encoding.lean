import FormCalc.Text.Utf16
import FormCalc.Text.Utf8

/-!
# Texts as bytes and as units

The two encodings in which a script may come, from the side of whoever writes it down.

* `Utf8.encode`: a text as bytes, of one to four for each character.
* `Utf16.encode`: a text as 16-bit units, of one or two for each character.

Both are read back.  A reader takes one character off the front at a time
(`Utf8.decodeFrom_encodeChar`, `Utf16.decode_encodeChar`), so it comes to the end of every encoded
text with its characters in hand (`Utf8.decode_encode`, `Utf16.text?_encode`), and where no
surrogate is unpaired nothing has to be replaced (`Utf16.lossy_encode`).

As for bytes, there is no other way to write a text down: the reader refuses all bytes but those
that the writer makes (`Utf8.decode_eq_ok_iff`).
-/

namespace FormCalc.Text

/-- The code of a character is no surrogate. -/
theorem toNat_cases (c : Char) : c.toNat < 0xD800 ∨ 0xDFFF < c.toNat ∧ c.toNat < 0x110000 :=
  c.valid

theorem toNat_ofNat {code : Nat} (h : code.isValidChar) : (Char.ofNat code).toNat = code := by
  rw [Char.ofNat, dif_pos h]
  rfl

/-! ### UTF-8 -/

namespace Utf8

/-- The bytes of a text. -/
def encode (text : String) : List UInt8 := text.toList.flatMap String.utf8EncodeChar

section Bytes

variable {a b : UInt8}

/-- How wide a character is, by the number of its first byte. -/
theorem width?_eq_some_iff {width : Nat} : width? a = some width ↔
    width = 1 ∧ a.toNat < 0x80 ∨ width = 2 ∧ 0xC2 ≤ a.toNat ∧ a.toNat < 0xE0 ∨
      width = 3 ∧ 0xE0 ≤ a.toNat ∧ a.toNat < 0xF0 ∨
        width = 4 ∧ 0xF0 ≤ a.toNat ∧ a.toNat < 0xF5 := by
  simp only [width?, UInt8.lt_iff_toNat_lt,
    show (0x80 : UInt8).toNat = 0x80 from rfl, show (0xC2 : UInt8).toNat = 0xC2 from rfl,
    show (0xE0 : UInt8).toNat = 0xE0 from rfl, show (0xF0 : UInt8).toNat = 0xF0 from rfl,
    show (0xF5 : UInt8).toNat = 0xF5 from rfl]
  iterate 5
    split
    · simp only [Option.some.injEq, reduceCtorEq, false_iff]
      omega
  simp only [reduceCtorEq, false_iff]
  omega

theorem isTail_iff : isTail b = true ↔ 0x80 ≤ b.toNat ∧ b.toNat ≤ 0xBF := by
  rw [isTail, Bool.and_eq_true, decide_eq_true_eq, decide_eq_true_eq]
  rfl

/-- The second byte of a character lies where the first one wants it. -/
theorem isSecond_iff : isSecond a b = true ↔ (0x80 ≤ b.toNat ∧ b.toNat ≤ 0xBF) ∧
    (a.toNat = 0xE0 → 0xA0 ≤ b.toNat) ∧ (a.toNat = 0xED → b.toNat ≤ 0x9F) ∧
      (a.toNat = 0xF0 → 0x90 ≤ b.toNat) ∧ (a.toNat = 0xF4 → b.toNat ≤ 0x8F) := by
  simp only [isSecond, beq_iff_eq, ← UInt8.toNat_inj, UInt8.le_iff_toNat_le,
    show (0xE0 : UInt8).toNat = 0xE0 from rfl, show (0xED : UInt8).toNat = 0xED from rfl,
    show (0xF0 : UInt8).toNat = 0xF0 from rfl, show (0xF4 : UInt8).toNat = 0xF4 from rfl,
    show (0xA0 : UInt8).toNat = 0xA0 from rfl, show (0xBF : UInt8).toNat = 0xBF from rfl,
    show (0x80 : UInt8).toNat = 0x80 from rfl, show (0x9F : UInt8).toNat = 0x9F from rfl,
    show (0x90 : UInt8).toNat = 0x90 from rfl, show (0x8F : UInt8).toNat = 0x8F from rfl]
  -- four first bytes want something of the second
  iterate 4
    split
    · simp only [Bool.and_eq_true, decide_eq_true_eq]
      omega
  rw [isTail_iff]
  omega

/-- Six bits behind the mark of a byte that continues a character. -/
theorem toNat_tail (bits : Nat) : (UInt8.ofNat (bits % 64 + 128)).toNat = bits % 64 + 128 :=
  UInt8.toNat_ofNat_of_lt' (show bits % 64 + 128 < 256 by omega)

theorem isTail_ofNat (bits : Nat) : isTail (UInt8.ofNat (bits % 64 + 128)) = true := by
  rw [isTail_iff, toNat_tail]
  omega

end Bytes

section Widths

variable {a b c d : UInt8} (index : Nat) (rest : List UInt8)

theorem decodeFrom_one (ha : width? a = some 1) : decodeFrom index (a :: rest) =
    (decodeFrom (index + 1) rest).map (assemble a.toNat [] :: ·) := by
  rw [decodeFrom.eq_def]
  simp only [ha]

theorem decodeFrom_two (ha : width? a = some 2) (hb : isTail b = true) :
    decodeFrom index (a :: b :: rest) =
      (decodeFrom (index + 2) rest).map (assemble (a.toNat - 0xC0) [b] :: ·) := by
  rw [decodeFrom.eq_def]
  simp only [ha, hb, Bool.not_true, Bool.false_eq_true, if_false]

theorem decodeFrom_three (ha : width? a = some 3) (hb : isSecond a b = true)
    (hc : isTail c = true) : decodeFrom index (a :: b :: c :: rest) =
      (decodeFrom (index + 3) rest).map (assemble (a.toNat - 0xE0) [b, c] :: ·) := by
  rw [decodeFrom.eq_def]
  simp only [ha, hb, hc, Bool.not_true, Bool.false_eq_true, if_false]

theorem decodeFrom_four (ha : width? a = some 4) (hb : isSecond a b = true)
    (hc : isTail c = true) (hd : isTail d = true) : decodeFrom index (a :: b :: c :: d :: rest) =
      (decodeFrom (index + 4) rest).map (assemble (a.toNat - 0xF0) [b, c, d] :: ·) := by
  rw [decodeFrom.eq_def]
  simp only [ha, hb, hc, hd, Bool.not_true, Bool.false_eq_true, if_false]

end Widths

/-- Bytes put together to the number of a character give the character. -/
theorem assemble_eq {lead : Nat} {tails : List UInt8} {c : Char}
    (h : tails.foldl (fun n b => n * 64 + (b.toNat - 0x80)) lead = c.toNat) :
    assemble lead tails = c := by
  rw [assemble, h, Char.ofNat_toNat]

/-- A reader takes an encoded character off the front. -/
theorem decodeFrom_encodeChar (index : Nat) (c : Char) (rest : List UInt8) :
    decodeFrom index (String.utf8EncodeChar c ++ rest) =
      (decodeFrom (index + (String.utf8EncodeChar c).length) rest).map (c :: ·) := by
  have hcases := toNat_cases c
  unfold String.utf8EncodeChar
  rw [show c.val.toNat = c.toNat from rfl]
  dsimp only
  split
  · have hlead : c.toNat < 256 := by omega
    have hwidth : width? (UInt8.ofNat c.toNat) = some 1 := by
      rw [width?_eq_some_iff, UInt8.toNat_ofNat_of_lt' hlead]
      omega
    refine (decodeFrom_one index rest hwidth).trans ?_
    rw [assemble_eq (c := c) (by simpa using hlead)]
    rfl
  split
  · have hlead : c.toNat / 64 % 32 + 192 < 256 := by omega
    have hwidth : width? (UInt8.ofNat (c.toNat / 64 % 32 + 192)) = some 2 := by
      rw [width?_eq_some_iff, UInt8.toNat_ofNat_of_lt' hlead]
      omega
    refine (decodeFrom_two index rest hwidth (isTail_ofNat _)).trans ?_
    rw [assemble_eq (c := c) ?_]
    · rfl
    · simp only [List.foldl_cons, List.foldl_nil, toNat_tail, UInt8.toNat_ofNat_of_lt' hlead]
      omega
  split
  · have hlead : c.toNat / 4096 % 16 + 224 < 256 := by omega
    have hwidth : width? (UInt8.ofNat (c.toNat / 4096 % 16 + 224)) = some 3 := by
      rw [width?_eq_some_iff, UInt8.toNat_ofNat_of_lt' hlead]
      omega
    have hsecond : isSecond (UInt8.ofNat (c.toNat / 4096 % 16 + 224))
        (UInt8.ofNat (c.toNat / 64 % 64 + 128)) = true := by
      rw [isSecond_iff, toNat_tail, UInt8.toNat_ofNat_of_lt' hlead]
      omega
    refine (decodeFrom_three index rest hwidth hsecond (isTail_ofNat _)).trans ?_
    rw [assemble_eq (c := c) ?_]
    · rfl
    · simp only [List.foldl_cons, List.foldl_nil, toNat_tail, UInt8.toNat_ofNat_of_lt' hlead]
      omega
  · have hlead : c.toNat / 262144 % 8 + 240 < 256 := by omega
    have hwidth : width? (UInt8.ofNat (c.toNat / 262144 % 8 + 240)) = some 4 := by
      rw [width?_eq_some_iff, UInt8.toNat_ofNat_of_lt' hlead]
      omega
    have hsecond : isSecond (UInt8.ofNat (c.toNat / 262144 % 8 + 240))
        (UInt8.ofNat (c.toNat / 4096 % 64 + 128)) = true := by
      rw [isSecond_iff, toNat_tail, UInt8.toNat_ofNat_of_lt' hlead]
      omega
    refine (decodeFrom_four index rest hwidth hsecond (isTail_ofNat _) (isTail_ofNat _)).trans ?_
    rw [assemble_eq (c := c) ?_]
    · rfl
    · simp only [List.foldl_cons, List.foldl_nil, toNat_tail, UInt8.toNat_ofNat_of_lt' hlead]
      omega

theorem decodeFrom_encode (index : Nat) (cs : List Char) :
    decodeFrom index (cs.flatMap String.utf8EncodeChar) = .ok cs := by
  induction cs generalizing index with
  | nil => rfl
  | cons c cs ih =>
    rw [List.flatMap_cons, decodeFrom_encodeChar, ih]
    rfl

/-- **UTF-8 is read back.** -/
theorem decode_encode (text : String) : decode (encode text) = .ok text := by
  rw [decode, encode, decodeFrom_encode]
  exact congrArg Except.ok String.ofList_toList

/-! #### No other bytes are read -/

/-- The number of the character that bytes are put together to. -/
theorem toNat_assemble {lead code : Nat} {tails : List UInt8}
    (hcode : tails.foldl (fun n b => n * 64 + (b.toNat - 0x80)) lead = code)
    (h : code.isValidChar) : (assemble lead tails).toNat = code := by
  rw [assemble, hcode, toNat_ofNat h]

/-- A byte is told by its number. -/
theorem ofNat_eq {n : Nat} {a : UInt8} (h : n = a.toNat) : UInt8.ofNat n = a := by
  rw [h, UInt8.ofNat_toNat]

section Assembled

variable {a b c d : UInt8}

theorem encodeChar_one (ha : width? a = some 1) :
    String.utf8EncodeChar (assemble a.toNat []) = [a] := by
  have hbounds := width?_eq_some_iff.mp ha
  have hcode : (assemble a.toNat []).val.toNat = a.toNat := by
    refine toNat_assemble rfl (.inl ?_)
    show a.toNat < 0xD800
    omega
  rw [String.utf8EncodeChar, hcode]
  rw [if_pos (by omega), ofNat_eq rfl]

theorem encodeChar_two (ha : width? a = some 2) (hb : isTail b = true) :
    String.utf8EncodeChar (assemble (a.toNat - 0xC0) [b]) = [a, b] := by
  have hbounds := width?_eq_some_iff.mp ha
  have htail := isTail_iff.mp hb
  have hcode : (assemble (a.toNat - 0xC0) [b]).val.toNat =
      (a.toNat - 0xC0) * 64 + (b.toNat - 0x80) := by
    refine toNat_assemble rfl ?_
    unfold Nat.isValidChar
    omega
  rw [String.utf8EncodeChar, hcode]
  rw [if_neg (by omega), if_pos (by omega), ofNat_eq (a := a) (by omega),
    ofNat_eq (a := b) (by omega)]

theorem encodeChar_three (ha : width? a = some 3) (hb : isSecond a b = true)
    (hc : isTail c = true) :
    String.utf8EncodeChar (assemble (a.toNat - 0xE0) [b, c]) = [a, b, c] := by
  have hbounds := width?_eq_some_iff.mp ha
  have hsecond := isSecond_iff.mp hb
  have htail := isTail_iff.mp hc
  have hcode : (assemble (a.toNat - 0xE0) [b, c]).val.toNat =
      ((a.toNat - 0xE0) * 64 + (b.toNat - 0x80)) * 64 + (c.toNat - 0x80) := by
    refine toNat_assemble rfl ?_
    unfold Nat.isValidChar
    omega
  rw [String.utf8EncodeChar, hcode]
  rw [if_neg (by omega), if_neg (by omega), if_pos (by omega), ofNat_eq (a := a) (by omega),
    ofNat_eq (a := b) (by omega), ofNat_eq (a := c) (by omega)]

theorem encodeChar_four (ha : width? a = some 4) (hb : isSecond a b = true)
    (hc : isTail c = true) (hd : isTail d = true) :
    String.utf8EncodeChar (assemble (a.toNat - 0xF0) [b, c, d]) = [a, b, c, d] := by
  have hbounds := width?_eq_some_iff.mp ha
  have hsecond := isSecond_iff.mp hb
  have hthird := isTail_iff.mp hc
  have htail := isTail_iff.mp hd
  have hcode : (assemble (a.toNat - 0xF0) [b, c, d]).val.toNat =
      (((a.toNat - 0xF0) * 64 + (b.toNat - 0x80)) * 64 + (c.toNat - 0x80)) * 64 +
        (d.toNat - 0x80) := by
    refine toNat_assemble rfl ?_
    unfold Nat.isValidChar
    omega
  rw [String.utf8EncodeChar, hcode]
  rw [if_neg (by omega), if_neg (by omega), if_neg (by omega), ofNat_eq (a := a) (by omega),
    ofNat_eq (a := b) (by omega), ofNat_eq (a := c) (by omega), ofNat_eq (a := d) (by omega)]

end Assembled

/-- A character in front of what is read is written in front of it. -/
theorem eq_encode_cons {char : Char} {front rest : List UInt8} {cs : List Char}
    {result : Except Error (List Char)} (hfront : String.utf8EncodeChar char = front)
    (hrest : ∀ cs, result = .ok cs → rest = cs.flatMap String.utf8EncodeChar)
    (h : result.map (char :: ·) = .ok cs) : front ++ rest = cs.flatMap String.utf8EncodeChar := by
  cases result with
  | error => cases h
  | ok cs' =>
    obtain rfl := Except.ok.inj h
    rw [List.flatMap_cons, hfront, hrest cs' rfl]

/-- What is read from bytes is written as these bytes. -/
theorem eq_encode_of_decodeFrom {index : Nat} {bytes : List UInt8} {cs : List Char}
    (h : decodeFrom index bytes = .ok cs) : bytes = cs.flatMap String.utf8EncodeChar := by
  -- four cases read a character, one for each width; the others are refusals
  fun_induction decodeFrom index bytes generalizing cs with
  | case1 =>
    obtain rfl := Except.ok.inj h
    rfl
  | case3 index a rest ha ih => exact eq_encode_cons (encodeChar_one ha) (fun _ => ih) h
  | case6 index a ha b rest hb ih =>
    rw [Bool.not_eq_true', Bool.not_eq_false] at hb
    exact eq_encode_cons (encodeChar_two ha hb) (fun _ => ih) h
  | case11 index a ha b hb c rest hc ih =>
    rw [Bool.not_eq_true', Bool.not_eq_false] at hb hc
    exact eq_encode_cons (encodeChar_three ha hb hc) (fun _ => ih) h
  | case18 index a width hone htwo hthree ha b hb c hc d rest hd ih =>
    rw [Bool.not_eq_true', Bool.not_eq_false] at hb hc hd
    obtain rfl : width = 4 := by
      rcases width?_eq_some_iff.mp ha with ⟨h, -⟩ | ⟨h, -⟩ | ⟨h, -⟩ | ⟨h, -⟩
      · exact absurd h hone
      · exact absurd h htwo
      · exact absurd h hthree
      · exact h
    exact eq_encode_cons (encodeChar_four ha hb hc hd) (fun _ => ih) h
  | _ => cases h

/-- **Bytes that hold a text are the bytes of this text.** -/
theorem decode_eq_ok_iff {bytes : List UInt8} {text : String} :
    decode bytes = .ok text ↔ bytes = encode text := by
  constructor
  · intro h
    rw [decode] at h
    cases hchars : decodeFrom 0 bytes with
    | error =>
      rw [hchars] at h
      cases h
    | ok cs =>
      rw [hchars] at h
      obtain rfl := Except.ok.inj h
      rw [eq_encode_of_decodeFrom hchars, encode, String.toList_ofList]
  · rintro rfl
    exact decode_encode text

end Utf8

/-! ### UTF-16 -/

namespace Utf16

/-- The units of a character.  Above U+FFFF there are two of them, with ten bits of what lies above
in each. -/
def encodeChar (c : Char) : List UInt16 :=
  if c.toNat < 0x10000 then [UInt16.ofNat c.toNat]
  else [UInt16.ofNat (0xD800 + (c.toNat - 0x10000) / 0x400),
    UInt16.ofNat (0xDC00 + (c.toNat - 0x10000) % 0x400)]

/-- The units of a text. -/
def encode (text : String) : List UInt16 := text.toList.flatMap encodeChar

section Units

variable {n : Nat}

theorem isHigh_ofNat (h : n < 65536) :
    isHigh (UInt16.ofNat n) = (decide (0xD800 ≤ n) && decide (n ≤ 0xDBFF)) := by
  simp only [isHigh, UInt16.le_iff_toNat_le, UInt16.toNat_ofNat_of_lt' h]
  rfl

theorem isLow_ofNat (h : n < 65536) :
    isLow (UInt16.ofNat n) = (decide (0xDC00 ≤ n) && decide (n ≤ 0xDFFF)) := by
  simp only [isLow, UInt16.le_iff_toNat_le, UInt16.toNat_ofNat_of_lt' h]
  rfl

end Units

/-- A unit that is no surrogate stands for itself. -/
theorem decode_single {u : UInt16} (hhigh : isHigh u = false) (hlow : isLow u = false)
    (rest : List UInt16) : decode (u :: rest) = .ok (Char.ofNat u.toNat) :: decode rest := by
  rw [decode.eq_def]
  simp only [hhigh, hlow, Bool.false_eq_true, if_false]

/-- A pair of surrogates stands for one character. -/
theorem decode_pair {u v : UInt16} (hhigh : isHigh u = true) (hlow : isLow v = true)
    (rest : List UInt16) : decode (u :: v :: rest) = .ok (combine u v) :: decode rest := by
  rw [decode.eq_def]
  simp only [hhigh, hlow, if_true]

/-- The units of a character are one that is no surrogate, or a pair of surrogates. -/
theorem encodeChar_cases (c : Char) :
    (∃ u, encodeChar c = [u] ∧ isHigh u = false ∧ isLow u = false ∧ Char.ofNat u.toNat = c) ∨
      ∃ u v, encodeChar c = [u, v] ∧ isHigh u = true ∧ isLow v = true ∧ combine u v = c := by
  have hcases := toNat_cases c
  unfold encodeChar
  split
  · rename_i h
    have hhigh : isHigh (UInt16.ofNat c.toNat) = false := by
      rw [isHigh_ofNat h, Bool.and_eq_false_iff, decide_eq_false_iff_not, decide_eq_false_iff_not]
      omega
    have hlow : isLow (UInt16.ofNat c.toNat) = false := by
      rw [isLow_ofNat h, Bool.and_eq_false_iff, decide_eq_false_iff_not, decide_eq_false_iff_not]
      omega
    refine .inl ⟨_, rfl, hhigh, hlow, ?_⟩
    rw [UInt16.toNat_ofNat_of_lt' h, Char.ofNat_toNat]
  · have hfirst : 0xD800 + (c.toNat - 0x10000) / 0x400 < 65536 := by omega
    have hsecond : 0xDC00 + (c.toNat - 0x10000) % 0x400 < 65536 := by omega
    have hhigh : isHigh (UInt16.ofNat (0xD800 + (c.toNat - 0x10000) / 0x400)) = true := by
      rw [isHigh_ofNat hfirst, Bool.and_eq_true, decide_eq_true_eq, decide_eq_true_eq]
      omega
    have hlow : isLow (UInt16.ofNat (0xDC00 + (c.toNat - 0x10000) % 0x400)) = true := by
      rw [isLow_ofNat hsecond, Bool.and_eq_true, decide_eq_true_eq, decide_eq_true_eq]
      omega
    have hcode : 0x10000 + (0xD800 + (c.toNat - 0x10000) / 0x400 - 0xD800) * 0x400 +
        (0xDC00 + (c.toNat - 0x10000) % 0x400 - 0xDC00) = c.toNat := by omega
    refine .inr ⟨_, _, rfl, hhigh, hlow, ?_⟩
    rw [combine, UInt16.toNat_ofNat_of_lt' hfirst, UInt16.toNat_ofNat_of_lt' hsecond, hcode,
      Char.ofNat_toNat]

/-- A reader takes the units of a character off the front. -/
theorem decode_encodeChar (c : Char) (rest : List UInt16) :
    decode (encodeChar c ++ rest) = .ok c :: decode rest := by
  rcases encodeChar_cases c with ⟨u, hc, hhigh, hlow, rfl⟩ | ⟨u, v, hc, hhigh, hlow, rfl⟩
  · rw [hc]
    exact decode_single hhigh hlow rest
  · rw [hc]
    exact decode_pair hhigh hlow rest

/-- A reader takes the units of a text off the front. -/
theorem decode_encode_append (text : String) (rest : List UInt16) :
    decode (encode text ++ rest) = text.toList.map .ok ++ decode rest := by
  unfold encode
  induction text.toList with
  | nil => rfl
  | cons c cs ih =>
    rw [List.flatMap_cons, List.append_assoc, decode_encodeChar, ih, List.map_cons,
      List.cons_append]

theorem decode_encode (text : String) : decode (encode text) = text.toList.map .ok := by
  have h := decode_encode_append text []
  rwa [List.append_nil, decode, List.append_nil] at h

theorem charsFrom_ok (offset : Nat) (cs : List Char) : charsFrom offset (cs.map .ok) = .ok cs := by
  induction cs generalizing offset with
  | nil => rfl
  | cons c cs ih =>
    rw [List.map_cons, charsFrom, ih]
    rfl

/-- **UTF-16 is read back**, with no surrogate left over. -/
theorem text?_encode (text : String) : text? (encode text) = .ok text := by
  rw [text?, decode_encode, charsFrom_ok]
  exact congrArg Except.ok String.ofList_toList

/-- Where no surrogate is left over, what is shown is the text itself. -/
theorem lossy_encode (text : String) : lossy (encode text) = text := by
  rw [lossy, decode_encode, List.map_map]
  exact (congrArg String.ofList (List.map_id _)).trans String.ofList_toList

end Utf16

end FormCalc.Text
