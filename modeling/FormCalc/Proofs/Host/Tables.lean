import FormCalc.Host.Method
import FormCalc.Proofs.Host.Builtin

/-!
# Looking up names in the tables

Both tables of the host are searched by halving.  A search that looks at every entry in turn comes
to the same, for each table is sorted under the comparison that its own search makes: without
regard to case for functions, exactly for methods.  The functions are only searched for names that
are short enough, and no function has a longer one.

* `builtin?_eq_some_iff`: the functions.
* `objectMask_eq_iff`: the methods.
* `tables_scan`: both.
-/

namespace FormCalc.Host

/-! ### Functions -/

/-- An entry means the same as a name where the comparison of the search finds them equal. -/
theorem compareBy_toLower_eq {entry name : String} :
    compareBy Char.toLower entry.toList name.toList = .eq ↔ lowered entry = lowered name :=
  compareBy_eq_iff

/-- At most one place of the table has a function that a name means. -/
theorem builtins_place_eq {name a b : String} {i j : Nat} (hi : builtins[i]? = some a)
    (hj : builtins[j]? = some b) (ha : lowered a = lowered name) (hb : lowered b = lowered name) :
    i = j :=
  (sorted_builtins name).place_eq hi hj (compareBy_toLower_eq.mpr ha) (compareBy_toLower_eq.mpr hb)

/-- **A name means every function that it spells**, for there is only one. -/
theorem builtin?_eq_some_iff {name spelling : String} :
    builtin? name = some spelling ↔ spelling ∈ builtins ∧ lowered spelling = lowered name := by
  constructor
  · exact builtin_spec
  · rintro ⟨hmem, hsame⟩
    cases hfound : builtin? name with
    | none =>
      rw [builtin?_eq_find?, List.find?_eq_none] at hfound
      exact absurd (decide_eq_true hsame) (hfound spelling (Array.mem_toList_iff.mpr hmem))
    | some found =>
      obtain ⟨hmem', hsame'⟩ := builtin_spec hfound
      obtain ⟨i, hi, rfl⟩ := Array.mem_iff_getElem.mp hmem
      obtain ⟨j, hj, rfl⟩ := Array.mem_iff_getElem.mp hmem'
      have hplace := builtins_place_eq (Array.getElem?_eq_getElem hi)
        (Array.getElem?_eq_getElem hj) hsame hsame'
      subst hplace
      rfl

/-! ### Methods -/

/-- The table is sorted, whatever name is looked for. -/
theorem sorted_methods (name : String) :
    Sorted (fun entry : String × Nat => compareBy id entry.1.toList name.toList) methods := by
  have hpairwise : methods.toList.Pairwise fun a b =>
      compareBy id a.1.toList b.1.toList = .lt := by
    decide +kernel
  exact sorted_of_pairwise hpairwise name.toList

theorem compareBy_id_eq {entry name : String} :
    compareBy id entry.toList name.toList = .eq ↔ entry = name := by
  rw [compareBy_eq_iff, List.map_id_fun, id, id, String.toList_inj]

/-- The search finds the entry of a name. -/
theorem search_methods {name : String} {mask : Nat} (h : (name, mask) ∈ methods) :
    search (fun entry => compareBy id entry.1.toList name.toList) methods = some (name, mask) := by
  obtain ⟨k, hk, hentry⟩ := Array.mem_iff_getElem.mp h
  have hfound : methods[k]? = some (name, mask) := by rw [Array.getElem?_eq_getElem hk, hentry]
  exact (sorted_methods name).searchWithin_eq hfound (compareBy_id_eq.mpr rfl) (Nat.zero_le k) hk
    (Nat.le_refl _) (Nat.le_refl _)

/-- **The mask of a method is the one in its entry**, and no bit is set without one. -/
theorem objectMask_eq_iff {name : String} {mask : Nat} :
    objectMask name = mask ↔
      (name, mask) ∈ methods ∨ mask = 0 ∧ ∀ other, (name, other) ∉ methods := by
  constructor
  · intro h
    unfold objectMask at h
    split at h
    · rename_i entry hsearch
      obtain ⟨hmem, horder⟩ := found_of_searchWithin hsearch
      obtain rfl := compareBy_id_eq.mp horder
      obtain rfl := h
      exact .inl hmem
    · rename_i hsearch
      refine .inr ⟨h.symm, fun other hmem => ?_⟩
      rw [search_methods hmem] at hsearch
      cases hsearch
  · rintro (hmem | ⟨rfl, hnone⟩)
    · rw [objectMask, search_methods hmem]
    · unfold objectMask
      split
      · rename_i entry hsearch
        obtain ⟨hmem, horder⟩ := found_of_searchWithin hsearch
        obtain rfl := compareBy_id_eq.mp horder
        exact absurd hmem (hnone entry.2)
      · rfl

/-- **The tables are searched as if entry by entry.**  A name means a function exactly if the table
has this function and the two differ in the case of ASCII letters at most, and there are no two
places in the table of which this holds.  The mask of a method is that of the entry with exactly
this name, and has no bit set if there is none. -/
theorem tables_scan (name : String) :
    (∀ spelling, builtin? name = some spelling ↔
      spelling ∈ builtins ∧ lowered spelling = lowered name) ∧
    (∀ (i j : Nat) a b, builtins[i]? = some a → builtins[j]? = some b →
      lowered a = lowered name → lowered b = lowered name → i = j) ∧
    ∀ mask, objectMask name = mask ↔
      (name, mask) ∈ methods ∨ mask = 0 ∧ ∀ other, (name, other) ∉ methods :=
  ⟨fun _ => builtin?_eq_some_iff, fun _ _ _ _ => builtins_place_eq, fun _ => objectMask_eq_iff⟩

end FormCalc.Host
