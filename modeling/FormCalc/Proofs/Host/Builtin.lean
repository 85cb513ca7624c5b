import FormCalc.Host.Builtin
import FormCalc.Proofs.Token.Stream

/-!
# Looking up built-in functions

A search by halving sees a few entries of its table only.  In a sorted table this is enough: it
finds what a search from the first entry to the last would find.

* `search_eq_find?`: halving finds what is there.
* `lowered`: a name with its ASCII letters in lower case.
* `builtin?_eq_find?`: so a name means the built-in function that differs from it in the case of
  ASCII letters alone, and no other.
-/

namespace FormCalc.Host

/-! ### Sorted tables -/

section Search

variable {α : Type} {order : α → Ordering} {table : Array α} {entry : α} {probes low high : Nat}

/-- A search finds an entry of its table, and one that is equal to what is looked for. -/
theorem found_of_searchWithin (h : searchWithin order table probes low high = some entry) :
    entry ∈ table ∧ order entry = .eq := by
  induction probes generalizing low high with
  | zero => cases h
  | succ probes ih =>
    unfold searchWithin at h
    split at h
    · split at h
      · cases h
      · rename_i found hfound
        split at h
        · rename_i horder
          obtain rfl := Option.some.inj h
          exact ⟨Array.mem_of_getElem? hfound, horder⟩
        · exact ih h
        · exact ih h
    · cases h

/-- Whether what is looked for has one place in a table: behind an entry that is not too small,
all entries are too large. -/
def Sorted (order : α → Ordering) (table : Array α) : Prop :=
  ∀ (i j : Nat) (a b : α), i < j → table[i]? = some a → table[j]? = some b →
    order a ≠ .lt → order b = .gt

/-- An entry that is equal to what is looked for is found from every stretch that holds it. -/
theorem Sorted.searchWithin_eq (hsorted : Sorted order table) {k : Nat}
    (hentry : table[k]? = some entry) (horder : order entry = .eq) (hlow : low ≤ k)
    (hhigh : k < high) (hsize : high ≤ table.size) (hprobes : high - low ≤ probes) :
    searchWithin order table probes low high = some entry := by
  induction probes generalizing low high with
  | zero => omega
  | succ probes ih =>
    have hmiddle : (low + high) / 2 < table.size := by omega
    have hfound := Array.getElem?_eq_getElem hmiddle
    generalize table[(low + high) / 2] = found at hfound
    rw [searchWithin, if_pos (Nat.lt_of_le_of_lt hlow hhigh), hfound]
    dsimp only
    -- the entry stands on the side of the middle that the order tells
    have hbefore : k < (low + high) / 2 → order found = .gt := fun hlt =>
      hsorted _ _ _ _ hlt hentry hfound (by rw [horder]; decide)
    have hbehind : (low + high) / 2 < k → order found = .lt := fun hlt =>
      Classical.byContradiction fun hnot =>
        nomatch horder.symm.trans (hsorted _ _ _ _ hlt hfound hentry hnot)
    have hsame : (low + high) / 2 = k → found = entry := fun heq =>
      Option.some.inj (hfound.symm.trans (heq ▸ hentry))
    rcases Nat.lt_trichotomy k ((low + high) / 2) with hlt | heq | hgt
    · rw [hbefore hlt]
      exact ih hlow hlt (by omega) (by omega)
    · rw [hsame heq.symm, horder]
    · rw [hbehind hgt]
      exact ih hgt hhigh hsize (by omega)

/-- **Halving finds what is there.** -/
theorem search_eq_find? (hsorted : Sorted order table) :
    search order table = table.toList.find? (order · == .eq) := by
  cases hfind : table.toList.find? (order · == .eq) with
  | none =>
    cases hsearch : search order table with
    | none => rfl
    | some entry =>
      obtain ⟨hmem, horder⟩ := found_of_searchWithin hsearch
      have hnot := List.find?_eq_none.mp hfind entry (Array.mem_toList_iff.mpr hmem)
      exact absurd (beq_iff_eq.mpr horder) hnot
  | some entry =>
    obtain ⟨k, hk, hentry⟩ :=
      Array.mem_iff_getElem.mp (Array.mem_toList_iff.mp (List.mem_of_find?_eq_some hfind))
    have hfound : table[k]? = some entry := by rw [Array.getElem?_eq_getElem hk, hentry]
    have horder : order entry = .eq :=
      beq_iff_eq.mp (List.find?_some (p := (order · == .eq)) hfind)
    exact hsorted.searchWithin_eq hfound horder (Nat.zero_le k) hk (Nat.le_refl _) (Nat.le_refl _)

/-- At most one place of a sorted table has what is looked for. -/
theorem Sorted.place_eq (hsorted : Sorted order table) {i j : Nat} {a b : α}
    (hi : table[i]? = some a) (hj : table[j]? = some b) (ha : order a = .eq)
    (hb : order b = .eq) : i = j := by
  rcases Nat.lt_trichotomy i j with hlt | heq | hgt
  · exact nomatch hb.symm.trans (hsorted i j a b hlt hi hj (by rw [ha]; decide))
  · exact heq
  · exact nomatch ha.symm.trans (hsorted j i b a hgt hj hi (by rw [hb]; decide))

end Search

/-! ### Comparing texts -/

section Compare

variable {key : Char → Char} {as bs cs : List Char}

theorem compareBy_eq_iff : compareBy key as bs = .eq ↔ as.map key = bs.map key := by
  induction as generalizing bs with
  | nil => cases bs <;> simp [compareBy]
  | cons a as ih =>
    cases bs with
    | nil => simp [compareBy]
    | cons b bs =>
      rw [compareBy, Ordering.then_eq_eq, Nat.compare_eq_eq, Char.toNat_inj, ih, List.map_cons,
        List.map_cons, List.cons.injEq]

/-- What is behind a text that is not too small is too large. -/
theorem compareBy_gt_of_lt (hab : compareBy key as bs = .lt) (hac : compareBy key as cs ≠ .lt) :
    compareBy key bs cs = .gt := by
  induction as generalizing bs cs with
  | nil =>
    cases cs with
    | cons => exact absurd rfl hac
    | nil =>
      cases bs with
      | nil => cases hab
      | cons => rfl
  | cons a as ih =>
    cases bs with
    | nil => cases hab
    | cons b bs =>
      cases cs with
      | nil => rfl
      | cons c cs =>
        rw [compareBy, Ordering.then_eq_lt, Nat.compare_eq_lt, Nat.compare_eq_eq] at hab
        rw [compareBy, ne_eq, Ordering.then_eq_lt, Nat.compare_eq_lt, Nat.compare_eq_eq,
          not_or] at hac
        rw [compareBy, Ordering.then_eq_gt, Nat.compare_eq_gt, Nat.compare_eq_eq]
        rcases hab with hlt | ⟨heq, hlt⟩
        · left
          omega
        · by_cases hca : (key c).toNat < (key a).toNat
          · left
            omega
          · right
            refine ⟨by omega, ih hlt fun hless => hac.2 ⟨by omega, hless⟩⟩

/-- A table in which each text is smaller than those behind it is sorted, whatever text is looked
for. -/
theorem sorted_of_pairwise {α : Type} {t : α → List Char} {table : Array α}
    (h : table.toList.Pairwise fun a b => compareBy key (t a) (t b) = .lt) (cs : List Char) :
    Sorted (fun entry => compareBy key (t entry) cs) table := by
  intro i j a b hij ha hb hlt
  rw [← Array.getElem?_toList] at ha hb
  obtain ⟨hi, rfl⟩ := List.getElem?_eq_some_iff.mp ha
  obtain ⟨hj, rfl⟩ := List.getElem?_eq_some_iff.mp hb
  exact compareBy_gt_of_lt (List.pairwise_iff_getElem.mp h i j hi hj hij) hlt

end Compare

/-! ### Built-in functions -/

/-- A name with its ASCII letters in lower case. -/
def lowered (name : String) : List Char := name.toList.map Char.toLower

/-- The table is sorted, whatever name is looked for. -/
theorem sorted_builtins (name : String) :
    Sorted (fun entry => compareBy Char.toLower entry.toList name.toList) builtins := by
  have hpairwise : builtins.toList.Pairwise fun a b =>
      compareBy Char.toLower a.toList b.toList = .lt := by
    decide +kernel
  exact sorted_of_pairwise hpairwise name.toList

/-- Case makes no difference to the length of a character. -/
theorem utf8Size_toLower (c : Char) : c.toLower.utf8Size = c.utf8Size := by
  unfold Char.toLower
  split
  · rename_i hupper
    have hc : c.val.toNat ≤ 90 := UInt32.le_iff_toNat_le.mp hupper.2
    have hsum : (c.val + ('a'.val - 'A'.val)).toNat = c.val.toNat + 32 := by
      rw [UInt32.toNat_add]
      exact Nat.mod_eq_of_lt (show c.val.toNat + 32 < 2 ^ 32 by omega)
    have hone : ∀ d : Char, d.val.toNat ≤ 127 → d.utf8Size = 1 := fun d hd =>
      if_pos (UInt32.le_iff_toNat_le.mpr hd)
    rw [hone c (by omega), hone]
    rw [hsum]
    omega
  · rfl

theorem utf8Length_map_toLower (cs : List Char) :
    utf8Length (cs.map Char.toLower) = utf8Length cs := by
  induction cs with
  | nil => rfl
  | cons c cs ih => rw [List.map_cons, utf8Length_cons, utf8Length_cons, utf8Size_toLower, ih]

theorem utf8ByteSize_of_lowered {name name' : String} (h : lowered name = lowered name') :
    name.utf8ByteSize = name'.utf8ByteSize := by
  rw [← utf8Length_toList, ← utf8Length_toList, ← utf8Length_map_toLower name.toList,
    ← utf8Length_map_toLower name'.toList]
  exact congrArg utf8Length h

/-- **A name means the function that it spells in any case.** -/
theorem builtin?_eq_find? (name : String) :
    builtin? name = builtins.toList.find? (lowered · = lowered name) := by
  have hcompare : ∀ entry : String, (compareBy Char.toLower entry.toList name.toList == .eq) =
      decide (lowered entry = lowered name) := fun entry =>
    Bool.eq_iff_iff.mpr (beq_iff_eq.trans (compareBy_eq_iff.trans decide_eq_true_iff.symm))
  unfold builtin?
  split
  · rename_i hlong
    have hlongest : ∀ entry ∈ builtins.toList, entry.utf8ByteSize ≤ maxBuiltinLength := by
      decide +kernel
    refine (List.find?_eq_none.mpr fun entry hentry hsame => ?_).symm
    have hsize := utf8ByteSize_of_lowered (of_decide_eq_true hsame)
    have hentry' := hlongest entry hentry
    omega
  · rw [search_eq_find? (sorted_builtins name)]
    exact congrArg (List.find? · _) (funext hcompare)

theorem builtin_spec {name spelling : String} (h : builtin? name = some spelling) :
    spelling ∈ builtins ∧ lowered spelling = lowered name := by
  rw [builtin?_eq_find?] at h
  exact ⟨Array.mem_toList_iff.mp (List.mem_of_find?_eq_some h),
    of_decide_eq_true (List.find?_some (p := (lowered · = lowered name)) h)⟩

end FormCalc.Host
