import FormCalc.Proofs.Text.Encoding
import FormCalc.Proofs.Token.Stream

/-!
# Surrogates without a partner

A surrogate is alone if it is a high one with no low one behind it, or a low one with no high one
in front of it (`Alone`); that takes one look to either side and no decoding.

* `exists_encode_or_alone`: units are the units of a text, up to the end or up to one that is
  alone.
* `Alone.length_le`: none among the units of a text is alone, so that one is the first.
* `text?_alone`, `lossy_alone`: the strict reading stops there, and the other one puts the
  replacement character there; both have read the same text up to there.
-/

namespace FormCalc.Text.Utf16

/-- Whether a unit is a surrogate without a partner, between the units in front of it and those
behind it. -/
def Alone (before : List UInt16) (u : UInt16) (after : List UInt16) : Prop :=
  (isHigh u = true ∧ ∀ v ∈ after.head?, isLow v = false) ∨
    (isLow u = true ∧ ∀ v ∈ before.getLast?, isHigh v = false)

section Ranges

variable {u v : UInt16}

theorem isHigh_iff : isHigh u = true ↔ 0xD800 ≤ u.toNat ∧ u.toNat ≤ 0xDBFF := by
  rw [isHigh, Bool.and_eq_true, decide_eq_true_eq, decide_eq_true_eq]
  rfl

theorem isLow_iff : isLow u = true ↔ 0xDC00 ≤ u.toNat ∧ u.toNat ≤ 0xDFFF := by
  rw [isLow, Bool.and_eq_true, decide_eq_true_eq, decide_eq_true_eq]
  rfl

theorem isHigh_of_isLow (h : isLow u = true) : isHigh u = false := by
  rw [← Bool.not_eq_true, isHigh_iff]
  have := isLow_iff.mp h
  omega

theorem isLow_of_isHigh (h : isHigh u = true) : isLow u = false := by
  rw [← Bool.not_eq_true, isLow_iff]
  have := isHigh_iff.mp h
  omega

/-- A unit that is no surrogate is the unit of its character. -/
theorem encodeChar_ofNat (hhigh : isHigh u = false) (hlow : isLow u = false) :
    encodeChar (Char.ofNat u.toNat) = [u] := by
  have hu := u.toNat_lt
  rw [← Bool.not_eq_true, isHigh_iff] at hhigh
  rw [← Bool.not_eq_true, isLow_iff] at hlow
  have hvalid : u.toNat.isValidChar := by
    unfold Nat.isValidChar
    omega
  have hcode : (Char.ofNat u.toNat).toNat = u.toNat := toNat_ofNat hvalid
  rw [encodeChar, hcode, if_pos hu, UInt16.ofNat_toNat]

/-- A pair of surrogates are the units of its character. -/
theorem encodeChar_combine (hhigh : isHigh u = true) (hlow : isLow v = true) :
    encodeChar (combine u v) = [u, v] := by
  rw [isHigh_iff] at hhigh
  rw [isLow_iff] at hlow
  have hvalid : (0x10000 + (u.toNat - 0xD800) * 0x400 + (v.toNat - 0xDC00)).isValidChar := by
    unfold Nat.isValidChar
    omega
  have hcode : (combine u v).toNat =
      0x10000 + (u.toNat - 0xD800) * 0x400 + (v.toNat - 0xDC00) :=
    toNat_ofNat hvalid
  have hfirst : 0xD800 + ((combine u v).toNat - 0x10000) / 0x400 = u.toNat := by omega
  have hsecond : 0xDC00 + ((combine u v).toNat - 0x10000) % 0x400 = v.toNat := by omega
  rw [encodeChar, if_neg (by omega), hfirst, hsecond, UInt16.ofNat_toNat, UInt16.ofNat_toNat]

end Ranges

/-! ### The first one -/

theorem encode_cons (c : Char) (text : String) :
    encode (String.ofList (c :: text.toList)) = encodeChar c ++ encode text := by
  rw [encode, encode, String.toList_ofList, List.flatMap_cons]

/-- No character ends in a high surrogate. -/
theorem isHigh_getLast?_encodeChar (c : Char) :
    ∀ v ∈ (encodeChar c).getLast?, isHigh v = false := by
  rcases encodeChar_cases c with ⟨u, hc, hhigh, -, -⟩ | ⟨u, v, hc, -, hlow, -⟩
  · rw [hc]
    rintro _ ⟨⟩
    exact hhigh
  · rw [hc]
    rintro _ ⟨⟩
    exact isHigh_of_isLow hlow

section Alone

variable {before after : List UInt16} {u : UInt16}

/-- A character in front is no partner. -/
theorem Alone.behind (h : Alone before u after) (c : Char) :
    Alone (encodeChar c ++ before) u after := by
  refine h.imp_right fun ⟨hlow, hlast⟩ => ⟨hlow, fun v hv => ?_⟩
  rw [List.getLast?_append] at hv
  cases hbefore : before.getLast? with
  | none =>
    rw [hbefore] at hv
    exact isHigh_getLast?_encodeChar c v hv
  | some w =>
    rw [hbefore] at hv hlast
    exact hlast v hv

/-- A unit that is alone is so with fewer units in front of it. -/
theorem Alone.of_cons {v : UInt16} (h : Alone (v :: before) u after) : Alone before u after := by
  refine h.imp_right fun ⟨hlow, hlast⟩ => ⟨hlow, fun w hw => hlast w ?_⟩
  rw [List.getLast?_cons, hw]
  rfl

theorem not_alone (hhigh : isHigh u = false) (hlow : isLow u = false) : ¬Alone before u after := by
  rintro (⟨h, -⟩ | ⟨h, -⟩)
  · exact Bool.false_ne_true (hhigh.symm.trans h)
  · exact Bool.false_ne_true (hlow.symm.trans h)

end Alone

/-- **Units are a text up to the first that is alone.** -/
theorem exists_encode_or_alone (units : List UInt16) :
    (∃ text, units = encode text) ∨
      ∃ text u after, units = encode text ++ u :: after ∧ Alone (encode text) u after := by
  -- a character in front goes to the text, whatever is found behind it
  have hcons : ∀ (c : Char) (rest : List UInt16),
      ((∃ text, rest = encode text) ∨
        ∃ text u after, rest = encode text ++ u :: after ∧ Alone (encode text) u after) →
      (∃ text, encodeChar c ++ rest = encode text) ∨
        ∃ text u after, encodeChar c ++ rest = encode text ++ u :: after ∧
          Alone (encode text) u after := by
    rintro c rest (⟨text, rfl⟩ | ⟨text, u, after, rfl, halone⟩)
    · exact .inl ⟨_, (encode_cons c text).symm⟩
    · refine .inr ⟨String.ofList (c :: text.toList), u, after, ?_, ?_⟩
      · rw [encode_cons, List.append_assoc]
      · rw [encode_cons]
        exact halone.behind c
  fun_induction decode units with
  | case1 => exact .inl ⟨"", rfl⟩
  | case2 u hhigh => exact .inr ⟨"", u, [], rfl, .inl ⟨hhigh, nofun⟩⟩
  | case3 u hhigh v rest hlow ih =>
    have h := hcons (combine u v) rest ih
    rwa [encodeChar_combine hhigh hlow] at h
  | case4 u hhigh v rest hlow ih =>
    exact .inr ⟨"", u, v :: rest, rfl, .inl ⟨hhigh, by simpa using hlow⟩⟩
  | case5 u rest hhigh hlow ih => exact .inr ⟨"", u, rest, rfl, .inr ⟨hlow, nofun⟩⟩
  | case6 u rest hhigh hlow ih =>
    have h := hcons (Char.ofNat u.toNat) rest ih
    rwa [encodeChar_ofNat (Bool.eq_false_iff.mpr hhigh) (Bool.eq_false_iff.mpr hlow)] at h

/-- No unit of a text is alone, whatever stands behind the text. -/
theorem Alone.length_le {front back rest : List UInt16} {v : UInt16} {text : String}
    (halone : Alone front v back) (h : encode text ++ rest = front ++ v :: back) :
    (encode text).length ≤ front.length := by
  unfold encode at h ⊢
  generalize text.toList = cs at h ⊢
  induction cs generalizing front with
  | nil => exact Nat.zero_le _
  | cons c cs ih =>
    rw [List.flatMap_cons, List.append_assoc] at h
    rw [List.flatMap_cons, List.length_append]
    rcases encodeChar_cases c with ⟨a, hc, hhigh, hlow, -⟩ | ⟨a, b, hc, hhigh, hlow, -⟩
    · rw [hc] at h ⊢
      cases front with
      | nil =>
        obtain ⟨rfl, -⟩ := List.cons.inj h
        exact absurd halone (not_alone hhigh hlow)
      | cons w front =>
        have := ih halone.of_cons (List.cons.inj h).2
        simp only [List.length_cons, List.length_nil]
        omega
    · -- the two halves of a pair are partners
      rw [hc] at h ⊢
      match front with
      | [] =>
        obtain ⟨rfl, rfl⟩ := List.cons.inj h
        rcases halone with ⟨-, hnext⟩ | ⟨ha, -⟩
        · exact absurd (hnext b rfl) (by rw [hlow]; decide)
        · exact absurd ha (by rw [isLow_of_isHigh hhigh]; decide)
      | [w] =>
        obtain ⟨rfl, hrest⟩ := List.cons.inj h
        obtain ⟨rfl, -⟩ := List.cons.inj hrest
        rcases halone with ⟨hb, -⟩ | ⟨-, hlast⟩
        · exact absurd hb (by rw [isHigh_of_isLow hlow]; decide)
        · exact absurd (hlast a rfl) (by rw [hhigh]; decide)
      | w :: x :: front =>
        have := ih halone.of_cons.of_cons (List.cons.inj (List.cons.inj h).2).2
        simp only [List.length_cons, List.length_nil]
        omega

/-! ### What is read up to there -/

theorem decode_alone {before after : List UInt16} {u : UInt16} (h : Alone before u after) :
    decode (u :: after) = .error u :: decode after := by
  rcases h with ⟨hhigh, hnext⟩ | ⟨hlow, -⟩
  · cases after with
    | nil =>
      rw [decode.eq_def]
      simp only [hhigh, if_true]
      rfl
    | cons v after =>
      have hv : isLow v = false := hnext v rfl
      rw [decode.eq_def]
      simp only [hhigh, hv, if_true, Bool.false_eq_true, if_false]
  · rw [decode.eq_def]
    simp only [isHigh_of_isLow hlow, hlow, Bool.false_eq_true, if_false, if_true]

theorem charsFrom_error (offset : Nat) (cs : List Char) (u : UInt16)
    (rest : List (Except UInt16 Char)) :
    charsFrom offset (cs.map .ok ++ .error u :: rest) = .error ⟨u, offset + utf8Length cs⟩ := by
  induction cs generalizing offset with
  | nil => rfl
  | cons c cs ih =>
    rw [List.map_cons, List.cons_append, charsFrom, ih, utf8Length_cons, Nat.add_assoc]
    rfl

section

variable {text : String} {u : UInt16} {after : List UInt16}

/-- The strict reading stops at a unit that is alone, behind the text in front of it. -/
theorem text?_alone (h : Alone (encode text) u after) :
    text? (encode text ++ u :: after) = .error ⟨u, text.utf8ByteSize⟩ := by
  rw [text?, decode_encode_append, decode_alone h, charsFrom_error, utf8Length_toList,
    Nat.zero_add]
  rfl

/-- The other reading shows the replacement character for a unit that is alone, behind the text
in front of it. -/
theorem lossy_alone (h : Alone (encode text) u after) :
    lossy (encode text ++ u :: after) = text ++ String.singleton '\uFFFD' ++ lossy after := by
  apply String.toList_injective
  rw [lossy, decode_encode_append, decode_alone h, List.map_append, List.map_cons, List.map_map,
    String.toList_append, String.toList_append, String.toList_singleton, lossy,
    String.toList_ofList, String.toList_ofList, List.append_assoc]
  exact congrArg (· ++ _) (List.map_id text.toList)

end

end FormCalc.Text.Utf16
