/-!
# Sorted ranges of code points

A property of characters is stored as its code points, in rising and disjoint ranges.
A look-up may then stop at the first range that starts above the code point.
-/

namespace FormCalc.Text

/-- Whether `n` lies in one of the ranges `(low, high)`, both ends included.  The ranges
rise, so the first that starts above `n` ends the search. -/
def inRanges (n : Nat) : List (Nat × Nat) → Bool
  | [] => false
  | (low, high) :: rest => if n < low then false else n ≤ high || inRanges n rest

/-- Whether ranges rise, from `bound` on: each starts behind the end of the one before. -/
def RiseFrom (bound : Nat) : List (Nat × Nat) → Prop
  | [] => True
  | (low, high) :: rest => bound ≤ low ∧ low ≤ high ∧ RiseFrom (high + 1) rest

instance RiseFrom.decidable (bound : Nat) : (ranges : List (Nat × Nat)) →
    Decidable (RiseFrom bound ranges)
  | [] => inferInstanceAs (Decidable True)
  | (low, high) :: rest =>
    have := RiseFrom.decidable (high + 1) rest
    inferInstanceAs (Decidable (bound ≤ low ∧ low ≤ high ∧ RiseFrom (high + 1) rest))

theorem RiseFrom.le {bound : Nat} {ranges : List (Nat × Nat)} (h : RiseFrom bound ranges) :
    ∀ range ∈ ranges, bound ≤ range.1 := by
  induction ranges generalizing bound with
  | nil => exact nofun
  | cons first rest ih =>
    obtain ⟨hlow, hhigh, hrest⟩ := h
    refine List.forall_mem_cons.mpr ⟨hlow, fun range hrange => ?_⟩
    have hbehind := ih hrest range hrange
    omega

/-- **Nothing is lost by the early end of the search.**  Where the ranges rise, a code point is
found exactly if it lies in one of them. -/
theorem RiseFrom.inRanges_iff {bound n : Nat} {ranges : List (Nat × Nat)}
    (h : RiseFrom bound ranges) :
    inRanges n ranges = true ↔ ∃ range ∈ ranges, range.1 ≤ n ∧ n ≤ range.2 := by
  induction ranges generalizing bound with
  | nil => simp [inRanges]
  | cons first rest ih =>
    obtain ⟨-, hhigh, hrest⟩ := h
    rw [inRanges]
    split
    · -- all other ranges start even higher
      rename_i hbelow
      refine iff_of_false Bool.false_ne_true ?_
      rintro ⟨range, hrange, hlow, -⟩
      rcases List.mem_cons.mp hrange with rfl | hrange
      · omega
      · have hbehind := hrest.le range hrange
        omega
    · rename_i hfrom
      rw [Bool.or_eq_true, decide_eq_true_iff, ih hrest]
      constructor
      · rintro (hup | ⟨range, hrange, hin⟩)
        · exact ⟨first, List.mem_cons_self, Nat.le_of_not_lt hfrom, hup⟩
        · exact ⟨range, List.mem_cons_of_mem _ hrange, hin⟩
      · rintro ⟨range, hrange, hin⟩
        rcases List.mem_cons.mp hrange with rfl | hrange
        · exact .inl hin.2
        · exact .inr ⟨range, hrange, hin⟩

end FormCalc.Text
