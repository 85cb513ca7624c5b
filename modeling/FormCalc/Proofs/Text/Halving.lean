import FormCalc.Proofs.Text.Encoding
import FormCalc.Proofs.Text.Lines

/-!
# Lines found by halving

A position can be looked up without going through all lines in front of it, and the starts of the
lines can be found without decoding the text.

* `byteBreaks`: the line terminators among the bytes of a text.
* `probe`: a search by halving, which tells the place of an offset among others, or the place where
  it would be put in.
* `LineIndex.positionByHalving`: the position of an offset in terms of both.

No byte of a longer character is a line terminator, so the bytes have the terminators of the text
(`byteBreaks_encode`).  The starts are in order, so halving finds how many there are up to an offset
(`upTo_probe`).  Hence both ways lead to the same position (`LineIndex.position_eq_halving`).
-/

namespace FormCalc

open Text

/-! ### Terminators among bytes -/

/-- The offsets right after the line terminators among bytes of which the first stands at
`offset`. -/
def byteBreaks (offset : Nat) : List UInt8 → List Nat
  | [] => []
  | 0x0D :: 0x0A :: bs => (offset + 2) :: byteBreaks (offset + 2) bs
  | b :: bs =>
    if b = 0x0D ∨ b = 0x0A then (offset + 1) :: byteBreaks (offset + 1) bs
    else byteBreaks (offset + 1) bs

section Bytes

variable (offset : Nat) {b : UInt8} {bs : List UInt8}

theorem byteBreaks_cons (h : b = 0x0D → bs.head? ≠ some 0x0A) : byteBreaks offset (b :: bs) =
    if b = 0x0D ∨ b = 0x0A then (offset + 1) :: byteBreaks (offset + 1) bs
    else byteBreaks (offset + 1) bs := by
  rw [byteBreaks]
  rintro rest rfl rfl
  exact h rfl rfl

/-- Bytes that end no line are passed over. -/
theorem byteBreaks_append (h : ∀ b ∈ bs, b ≠ 0x0D ∧ b ≠ 0x0A) (rest : List UInt8) :
    byteBreaks offset (bs ++ rest) = byteBreaks (offset + bs.length) rest := by
  induction bs generalizing offset with
  | nil => rfl
  | cons b bs ih =>
    obtain ⟨⟨hreturn, hfeed⟩, hbs⟩ := List.forall_mem_cons.mp h
    rw [List.cons_append, byteBreaks_cons offset (absurd · hreturn),
      if_neg (not_or.mpr ⟨hreturn, hfeed⟩), ih _ hbs, List.length_cons]
    exact congrArg (byteBreaks · rest) (by omega)

/-- A byte that is a character by itself stands for no other character. -/
theorem toNat_of_mem_encodeChar {c : Char} (h : b ∈ String.utf8EncodeChar c) (hb : b.toNat < 0x80) :
    c.toNat = b.toNat := by
  -- the bytes of a longer character are all marked
  have hmarked : ∀ bits mark, bits + mark < 256 → 0x80 ≤ mark → b ≠ UInt8.ofNat (bits + mark) := by
    rintro bits mark hlt hmark rfl
    rw [UInt8.toNat_ofNat_of_lt' hlt] at hb
    omega
  have hcode := toNat_cases c
  unfold String.utf8EncodeChar at h
  rw [show c.val.toNat = c.toNat from rfl] at h
  dsimp only at h
  split at h
  · obtain rfl := List.mem_singleton.mp h
    rw [UInt8.toNat_ofNat_of_lt' (show c.toNat < 256 by omega)]
  split at h
  · simp only [List.mem_cons, List.not_mem_nil, or_false] at h
    rcases h with h | h <;> exact absurd h (hmarked _ _ (by omega) (by omega))
  split at h
  · simp only [List.mem_cons, List.not_mem_nil, or_false] at h
    rcases h with h | h | h <;> exact absurd h (hmarked _ _ (by omega) (by omega))
  · simp only [List.mem_cons, List.not_mem_nil, or_false] at h
    rcases h with h | h | h | h <;> exact absurd h (hmarked _ _ (by omega) (by omega))

theorem ne_of_mem_encodeChar {c : Char} (hreturn : c ≠ '\r') (hfeed : c ≠ '\n') :
    ∀ b ∈ String.utf8EncodeChar c, b ≠ 0x0D ∧ b ≠ 0x0A := by
  intro b hb
  constructor
  · rintro rfl
    exact hreturn (Char.toNat_inj.mp (toNat_of_mem_encodeChar hb (by decide)))
  · rintro rfl
    exact hfeed (Char.toNat_inj.mp (toNat_of_mem_encodeChar hb (by decide)))

/-- The bytes of a text start with a line feed only if the text does. -/
theorem head?_encode {cs : List Char}
    (h : (cs.flatMap String.utf8EncodeChar).head? = some 0x0A) : cs.head? = some '\n' := by
  cases cs with
  | nil => cases h
  | cons c cs =>
    have hmem : 0x0A ∈ String.utf8EncodeChar c := by
      rw [List.flatMap_cons] at h
      cases hbytes : String.utf8EncodeChar c with
      | nil => exact absurd hbytes String.utf8EncodeChar_ne_nil
      | cons b bs =>
        rw [hbytes] at h
        obtain rfl := Option.some.inj h
        exact List.mem_cons_self
    exact congrArg some (Char.toNat_inj.mp (toNat_of_mem_encodeChar hmem (by decide)))

theorem length_encode (cs : List Char) :
    (cs.flatMap String.utf8EncodeChar).length = utf8Length cs := by
  induction cs with
  | nil => rfl
  | cons c cs ih =>
    rw [List.flatMap_cons, List.length_append, String.length_utf8EncodeChar, ih, utf8Length_cons]

/-- **The bytes of a text have its line terminators.** -/
theorem byteBreaks_encode (cs : List Char) :
    byteBreaks offset (cs.flatMap String.utf8EncodeChar) = lineBreaks offset cs := by
  induction cs generalizing offset with
  | nil => rfl
  | cons c cs ih =>
    rw [List.flatMap_cons, lineBreaks]
    by_cases hreturn : c = '\r'
    · subst hreturn
      by_cases hpair : cs.head? = some '\n'
      · -- the line feed ends the line, and is read together with the carriage return
        obtain ⟨rest, rfl⟩ := List.head?_eq_some_iff.mp hpair
        rw [if_neg (show ¬endsLine '\r' ('\n' :: rest) = true from Bool.false_ne_true), ← ih]
        rfl
      · have hbytes : (0x0D : UInt8) = 0x0D →
            (cs.flatMap String.utf8EncodeChar).head? ≠ some 0x0A :=
          fun _ h => hpair (head?_encode h)
        rw [if_pos (by simp [endsLine, hpair]), ← ih]
        exact (byteBreaks_cons offset hbytes).trans (if_pos (.inl rfl))
    · by_cases hfeed : c = '\n'
      · subst hfeed
        rw [if_pos (show endsLine '\n' cs = true from rfl), ← ih]
        exact (byteBreaks_cons offset (absurd · (by decide))).trans (if_pos (.inr rfl))
      · rw [if_neg (by simp [endsLine, hreturn, hfeed]), ← ih,
          byteBreaks_append offset (ne_of_mem_encodeChar hreturn hfeed),
          String.length_utf8EncodeChar]

end Bytes

/-! ### Halving -/

/-- How a search among offsets ends. -/
inductive Probe where
  /-- The offset stands at this place. -/
  | found (place : Nat)
  /-- It does not stand there, and would be put in at this place. -/
  | missing (place : Nat)

/-- How many offsets there are up to the one that was looked for. -/
def Probe.upTo : Probe → Nat
  | .found place => place + 1
  | .missing place => place

/-- The place of the last offset up to the one that was looked for. -/
def Probe.line : Probe → Nat
  | .found place => place
  | .missing place => place - 1

theorem Probe.line_eq (result : Probe) : result.line = result.upTo - 1 := by
  cases result <;> rfl

/-- Looks for an offset from place `low` up to but not including place `high`, in at most `probes`
steps. -/
def probeWithin (starts : Array Nat) (offset : Nat) : (probes low high : Nat) → Probe
  | 0, low, _ => .missing low
  | probes + 1, low, high =>
    if low < high then
      match starts[(low + high) / 2]? with
      | none => .missing low
      | some start =>
        match compare start offset with
        | .eq => .found ((low + high) / 2)
        | .lt => probeWithin starts offset probes ((low + high) / 2 + 1) high
        | .gt => probeWithin starts offset probes low ((low + high) / 2)
    else .missing low

/-- Looks for an offset among all. -/
def probe (starts : Array Nat) (offset : Nat) : Probe :=
  probeWithin starts offset starts.size 0 starts.size

section Halving

variable {starts : List Nat} {offset : Nat}

/-- In sorted offsets, those up to a bound stand in front of the others. -/
theorem lt_length_takeWhile_iff (hsorted : starts.Pairwise (· < ·)) {place start : Nat}
    (hplace : starts[place]? = some start) :
    place < (starts.takeWhile (· ≤ offset)).length ↔ start ≤ offset := by
  induction starts generalizing place with
  | nil => cases hplace
  | cons first rest ih =>
    obtain ⟨hfirst, hrest⟩ := List.pairwise_cons.mp hsorted
    by_cases hle : first ≤ offset
    · rw [List.takeWhile_cons_of_pos (by simpa using hle), List.length_cons]
      cases place with
      | zero =>
        obtain rfl := Option.some.inj hplace
        exact iff_of_true (Nat.succ_pos _) hle
      | succ place => rw [Nat.add_lt_add_iff_right, ih hrest hplace]
    · rw [List.takeWhile_cons_of_neg (by simpa using hle)]
      refine iff_of_false (Nat.not_lt_zero _) fun hstart => hle ?_
      rcases List.mem_cons.mp (List.mem_of_getElem? hplace) with rfl | hmem
      · exact hstart
      · exact Nat.le_trans (Nat.le_of_lt (hfirst start hmem)) hstart

/-- A stretch that holds the end of the offsets up to a bound still holds it when it is halved. -/
theorem upTo_probeWithin (hsorted : starts.Pairwise (· < ·)) {probes low high : Nat}
    (hlow : low ≤ (starts.takeWhile (· ≤ offset)).length)
    (hhigh : (starts.takeWhile (· ≤ offset)).length ≤ high) (hsize : high ≤ starts.length)
    (hprobes : high - low ≤ probes) :
    (probeWithin starts.toArray offset probes low high).upTo =
      (starts.takeWhile (· ≤ offset)).length := by
  induction probes generalizing low high with
  | zero =>
    show low = _
    omega
  | succ probes ih =>
    rw [probeWithin]
    by_cases hlt : low < high
    · have hmiddle : (low + high) / 2 < starts.length := by omega
      have hplace := List.getElem?_eq_getElem hmiddle
      have hiff : (low + high) / 2 < (starts.takeWhile (· ≤ offset)).length ↔ _ :=
        lt_length_takeWhile_iff hsorted hplace
      rw [if_pos hlt, List.getElem?_toArray, hplace]
      dsimp only
      rcases Nat.lt_trichotomy starts[(low + high) / 2] offset with hless | hsame | hmore
      · rw [Nat.compare_eq_lt.mpr hless]
        exact ih (hiff.mpr (Nat.le_of_lt hless)) hhigh hsize (by omega)
      · rw [Nat.compare_eq_eq.mpr hsame]
        have hbefore := hiff.mpr (Nat.le_of_eq hsame)
        -- what is behind the offset itself is larger
        have hbehind : ¬(low + high) / 2 + 1 < (starts.takeWhile (· ≤ offset)).length := by
          intro hnext
          have hlast : (low + high) / 2 + 1 < starts.length := by omega
          have hle := (lt_length_takeWhile_iff hsorted (List.getElem?_eq_getElem hlast)).mp hnext
          have hless := List.pairwise_iff_getElem.mp hsorted _ _ hmiddle hlast (Nat.lt_succ_self _)
          omega
        exact Nat.le_antisymm hbefore (Nat.not_lt.mp hbehind)
      · rw [Nat.compare_eq_gt.mpr hmore]
        have hbehind : ¬(low + high) / 2 < (starts.takeWhile (· ≤ offset)).length :=
          fun h => Nat.not_le_of_lt hmore (hiff.mp h)
        exact ih hlow (Nat.not_lt.mp hbehind) (by omega) (by omega)
    · rw [if_neg hlt]
      show low = _
      omega

/-- **Halving finds how many offsets there are up to a bound.** -/
theorem upTo_probe (hsorted : starts.Pairwise (· < ·)) (offset : Nat) :
    (probe starts.toArray offset).upTo = (starts.takeWhile (· ≤ offset)).length :=
  upTo_probeWithin hsorted (Nat.zero_le _) (List.takeWhile_sublist _).length_le (Nat.le_refl _)
    (Nat.le_refl _)

end Halving

namespace LineIndex

/-- The position of a byte offset, with the starts of the lines taken from the bytes of the text,
and the line found by halving. -/
def positionByHalving (text : String) (offset : Nat) : Position :=
  let bytes := Utf8.encode text
  let starts := (0 :: byteBreaks 0 bytes).toArray
  let offset := min offset bytes.length
  let line := (probe starts offset).line
  let start := starts[line]?.getD 0
  let column := (charsWithin (offset - start) (dropBytes start text.toList)).getD 0
  ⟨line + 1, column + 1⟩

theorem line_pos (text : String) (offset : Nat) : 0 < ((ofText text).position offset).line := by
  rw [line_position]
  exact Nat.succ_pos _

/-- The line of an offset is the number of the start of this line. -/
theorem getD_starts (text : String) (offset : Nat) :
    (ofText text).starts[((ofText text).position offset).line - 1]?.getD 0 =
      (ofText text).lineStart offset := by
  have hpos := line_pos text offset
  have hline : ((ofText text).position offset).line = ((ofText text).starts.takeWhile
      (· ≤ min offset (utf8Length (ofText text).text))).length := rfl
  obtain ⟨back, hback⟩ := List.takeWhile_prefix
    (· ≤ min offset (utf8Length (ofText text).text)) (l := (ofText text).starts)
  rw [← hback, List.getElem?_append_left (by omega), hline, ← List.getLast?_eq_getElem?, lineStart,
    List.getLastD_eq_getLast?]

/-- **Halving finds the same position**, and so does a scan of the bytes. -/
theorem position_eq_halving (text : String) (offset : Nat) :
    (ofText text).position offset = positionByHalving text offset := by
  have hlength : (Utf8.encode text).length = utf8Length text.toList := length_encode text.toList
  have hbreaks : byteBreaks 0 (Utf8.encode text) = lineBreaks 0 text.toList :=
    byteBreaks_encode 0 text.toList
  have hline : (probe (ofText text).starts.toArray (min offset (utf8Length text.toList))).line =
      ((ofText text).position offset).line - 1 := by
    rw [Probe.line_eq, upTo_probe (pairwise_starts text)]
    rfl
  unfold positionByHalving
  dsimp only
  rw [hlength, hbreaks, ← starts_ofText, hline, List.getElem?_toArray, getD_starts,
    Nat.sub_add_cancel (line_pos text offset)]
  rfl

end LineIndex

end FormCalc
