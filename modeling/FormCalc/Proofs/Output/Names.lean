import FormCalc.Output.Name
import FormCalc.Proofs.Token.Characters

/-!
# References and declarations

A name is rewritten where it is declared, and in another way where it is used.  The script means
the same name by both exactly if the two spellings come out equal, so that what is declared under
one name could only be meant by another where the rewriting makes two names one.

* `declaredName_eq_iff`: two names are declared under one spelling only if one of them is the other
  with its `!` spelled out.
* `isIdentifierChar_declaredName`: the spelling of a declaration has the characters of a name, so
  that no declaration hides an object of the form.  `this` is the only object without a point.
* `referencedName_eq_declaredName_iff`: all the ways in which a reference meets a declaration.
-/

namespace FormCalc

open Text

/-! ### Declarations -/

/-- Texts that begin differently differ. -/
theorem ne_of_head? {a b : String} (h : a.toList.head? ≠ b.toList.head?) : a ≠ b := by
  rintro rfl
  exact h rfl

theorem declaredName_exclamation (rest : String) :
    declaredName ("!" ++ rest) = exclamationText ++ rest := by
  have hlist : ("!" ++ rest).toList = '!' :: rest.toList := String.toList_append
  rw [declaredName, hlist]
  exact congrArg (exclamationText ++ ·) String.ofList_toList

/-- A name is declared as it stands, unless it starts with `!`. -/
theorem exclamation_or_declaredName_eq (name : String) :
    (∃ rest, name = "!" ++ rest) ∨ declaredName name = name := by
  unfold declaredName
  split
  · rename_i rest hrest
    have hlist : ("!" ++ String.ofList rest).toList = '!' :: rest := by simp
    exact .inl ⟨String.ofList rest, String.toList_inj.mp (hrest.trans hlist.symm)⟩
  · exact .inr rfl

theorem exclamationText_append_ne (rest rest' : String) :
    exclamationText ++ rest ≠ "!" ++ rest' :=
  ne_of_head? (by simp [String.toList_append, exclamationText])

theorem declaredName_exclamationText (rest : String) :
    declaredName (exclamationText ++ rest) = exclamationText ++ rest := by
  rcases exclamation_or_declaredName_eq (exclamationText ++ rest) with ⟨rest', h⟩ | h
  · exact absurd h (exclamationText_append_ne rest rest')
  · exact h

/-- Two names are declared under one spelling if they are equal, or if one of them has in place of
its `!` what the other has there. -/
theorem declaredName_eq_iff {a b : String} :
    declaredName a = declaredName b ↔ a = b ∨
      (∃ rest, a = "!" ++ rest ∧ b = exclamationText ++ rest) ∨
        ∃ rest, a = exclamationText ++ rest ∧ b = "!" ++ rest := by
  constructor
  · intro h
    rcases exclamation_or_declaredName_eq a with ⟨rest, rfl⟩ | ha
    · rw [declaredName_exclamation] at h
      rcases exclamation_or_declaredName_eq b with ⟨rest', rfl⟩ | hb
      · rw [declaredName_exclamation, String.append_right_inj] at h
        exact .inl (congrArg ("!" ++ ·) h)
      · rw [hb] at h
        exact .inr (.inl ⟨rest, rfl, h.symm⟩)
    · rw [ha] at h
      rcases exclamation_or_declaredName_eq b with ⟨rest, rfl⟩ | hb
      · rw [declaredName_exclamation] at h
        exact .inr (.inr ⟨rest, h, rfl⟩)
      · rw [hb] at h
        exact .inl h
  · rintro (rfl | ⟨rest, rfl, rfl⟩ | ⟨rest, rfl, rfl⟩)
    · rfl
    · rw [declaredName_exclamation, declaredName_exclamationText]
    · rw [declaredName_exclamation, declaredName_exclamationText]

/-- A declaration is spelled with the characters of a name. -/
theorem isIdentifierChar_declaredName {name : String} (h : IsName name) :
    ∀ c ∈ (declaredName name).toList, isIdentifierStart c = true ∨ isIdentifierPart c = true := by
  have hname := h.isIdentifierChar
  unfold declaredName
  split
  · rename_i rest hrest
    rw [hrest] at hname
    rw [String.toList_append, String.toList_ofList]
    have htext : exclamationText.toList.all isIdentifierPart = true := by decide
    refine List.forall_mem_append.mpr ⟨fun c hc => ?_, (List.forall_mem_cons.mp hname).2⟩
    exact .inr (List.all_eq_true.mp htext c hc)
  · exact hname

/-! ### References -/

/-- The names that stand for objects of the form. -/
def specialNames : List String :=
  ["$", "!", "$data", "$event", "$form", "$host", "$layout", "$template"]

/-- A name that stands for no object is used as it is declared. -/
theorem referencedName_of_not_special {name : String} (h : name ∉ specialNames) :
    referencedName name = declaredName name := by
  have hlookup : objectNames.lookup name = none := by
    refine List.lookup_eq_none_iff.mpr fun entry hentry => bne_iff_ne.mpr ?_
    rintro rfl
    exact h (List.mem_map_of_mem hentry)
  rw [referencedName, hlookup]
  rfl

/-- Of the objects only `this` could be declared as well. -/
theorem referencedName_eq_of_special {a b : String} (ha : a ∈ specialNames) (hb : IsName b)
    (h : referencedName a = declaredName b) : a = "$" ∧ b = "this" := by
  have hpoint : '.' ∉ (referencedName a).toList := by
    rw [h]
    intro hmem
    have hclass := isIdentifierChar_declaredName hb '.' hmem
    revert hclass
    decide
  have hpoints : ∀ name ∈ specialNames, name = "$" ∨ '.' ∈ (referencedName name).toList := by
    decide
  rcases hpoints a ha with rfl | hmem
  · refine ⟨rfl, ?_⟩
    have hthis : declaredName b = "this" := h.symm
    rcases exclamation_or_declaredName_eq b with ⟨rest, rfl⟩ | heq
    · rw [declaredName_exclamation] at hthis
      exact absurd hthis (ne_of_head? (by simp [String.toList_append, exclamationText]))
    · exact heq.symm.trans hthis
  · exact absurd hmem hpoint

/-- No name with something behind its `!` stands for an object, and neither does one with the `!`
spelled out. -/
theorem spelling_of_special {name : String} (h : name ∈ specialNames) :
    (∀ rest, name = "!" ++ rest → rest = "") ∧ ∀ rest, name ≠ exclamationText ++ rest := by
  constructor
  · rintro rest rfl
    have hlength : ∀ name ∈ specialNames, name.toList.head? = some '!' → name = "!" ++ "" := by
      decide
    have heq := hlength _ h (by rw [String.toList_append]; rfl)
    exact (String.append_right_inj "!").mp heq
  · rintro rest rfl
    have hfirst : ∀ name ∈ specialNames, name.toList.head? ≠ some 'p' := by decide
    refine hfirst _ h ?_
    rw [String.toList_append]
    rfl

/-- **Where a reference meets a declaration.**  A text that is used and a name that is declared
come out as one spelling exactly in these cases: they are equal, and do not stand for an object of
the form; the object is `this`, and so is the name; or one of them has a `!` where the other has
what stands for it.  The `!` alone is an object where it is used, but can be declared. -/
theorem referencedName_eq_declaredName_iff {a b : String} (hb : IsName b) :
    referencedName a = declaredName b ↔
      (a = b ∧ a ∉ ["$", "!", "$data", "$event", "$form", "$host", "$layout", "$template"]) ∨
      (a = "$" ∧ b = "this") ∨
      (∃ rest, rest ≠ "" ∧ a = "!" ++ rest ∧ b = "pfm__excl__" ++ rest) ∨
      ∃ rest, a = "pfm__excl__" ++ rest ∧ b = "!" ++ rest := by
  by_cases hspecial : a ∈ specialNames
  · obtain ⟨hmark, htext⟩ := spelling_of_special hspecial
    constructor
    · intro h
      exact .inr (.inl (referencedName_eq_of_special hspecial hb h))
    · rintro (⟨-, hnot⟩ | ⟨rfl, rfl⟩ | ⟨rest, hrest, heq, -⟩ | ⟨rest, heq, -⟩)
      · exact absurd hspecial hnot
      · rfl
      · exact absurd (hmark rest heq) hrest
      · exact absurd heq (htext rest)
  · rw [referencedName_of_not_special hspecial, declaredName_eq_iff]
    constructor
    · rintro (rfl | ⟨rest, rfl, rfl⟩ | hspelled)
      · exact .inl ⟨rfl, hspecial⟩
      · refine .inr (.inr (.inl ⟨rest, ?_, rfl, rfl⟩))
        rintro rfl
        exact hspecial (by decide)
      · exact .inr (.inr (.inr hspelled))
    · rintro (⟨rfl, -⟩ | ⟨rfl, -⟩ | ⟨rest, -, hmark⟩ | hspelled)
      · exact .inl rfl
      · exact absurd List.mem_cons_self hspecial
      · exact .inr (.inl ⟨rest, hmark⟩)
      · exact .inr (.inr hspelled)

/-- A name that is declared with the `!` spelled out is met by a reference to the one with the
`!`, and `$data` is declared but never met. -/
theorem referencedName_eq_declaredName_iff_total :
    IsName "pfm__excl__total" ∧ IsName "$data" ∧
      referencedName "!total" = declaredName "pfm__excl__total" ∧
      ∀ a, referencedName a ≠ declaredName "$data" := by
  have htotal : IsName "pfm__excl__total" := ⟨_, _, rfl, rfl⟩
  have hdata : IsName "$data" := ⟨_, _, rfl, rfl⟩
  refine ⟨htotal, hdata, ?_, fun a h => ?_⟩
  · exact (referencedName_eq_declaredName_iff htotal).mpr
      (.inr (.inr (.inl ⟨"total", by decide, rfl, rfl⟩)))
  · rcases (referencedName_eq_declaredName_iff hdata).mp h with
      ⟨rfl, hnot⟩ | ⟨-, hthis⟩ | ⟨rest, -, -, hspelled⟩ | ⟨rest, -, hmark⟩
    · exact hnot (by decide)
    · exact absurd hthis (by decide)
    · exact absurd hspelled (ne_of_head? (by simp [String.toList_append]))
    · exact absurd hmark (ne_of_head? (by simp [String.toList_append]))

end FormCalc
