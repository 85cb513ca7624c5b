import FormCalc.Proofs.Output.Literal
import FormCalc.Proofs.Output.Markup
import FormCalc.Proofs.Token.Characters
import FormCalc.Proofs.Token.Spelling
import Mathlib.Data.List.SplitBy

/-!
# Words of JavaScript

The code of a script as words and signs.  A word is a longest run of characters that names are made
of, and every other character is a sign, except for blanks and line feeds.

* `codeTokens`: the words and signs of code.
* `Writes`: a variable is declared or assigned.
* `hiddenNames`: the variables that a loop over collections keeps its state in.
* `Markup.Free`: none of them is a word of a text.  `Markup.Ended`: and no word goes on behind it.

Texts are put together from words of scripts and fixed texts that keep these words apart
(`Markup.Ended.word`, `Markup.Free.fence`), so it is enough to look at each of them.
-/

namespace FormCalc

open Host Markup Text

/-! ### Tokens -/

/-- The words and signs of code. -/
def codeTokens (s : String) : List String :=
  ((s.toList.splitBy fun a b => isIdentifierPart a && isIdentifierPart b).map String.ofList).filter
    fun token => token != " " && token != "\n"

/-- What declares the variable behind it, or assigns to it. -/
def writesBehind : List (List String) :=
  [["var"], ["let"], ["const"], ["function"], ["+", "+"], ["-", "-"]]

/-- What assigns to the variable in front of it. -/
def writesBefore : List (List String) :=
  [["="], ["+", "="], ["-", "="], ["+", "+"], ["-", "-"]]

/-- Whether a variable is declared or assigned. -/
def Writes (tokens : List String) (name : String) : Prop :=
  (∃ sign ∈ writesBehind, sign ++ [name] <:+: tokens) ∨
    ∃ sign ∈ writesBefore, name :: sign <:+: tokens

instance (tokens : List String) (name : String) : Decidable (Writes tokens name) :=
  inferInstanceAs (Decidable ((∃ sign ∈ writesBehind, sign ++ [name] <:+: tokens) ∨
    ∃ sign ∈ writesBefore, name :: sign <:+: tokens))

/-- Text falls into tokens at a place where no word goes on. -/
theorem codeTokens_append {front back : String}
    (h : ∀ a ∈ front.toList.getLast?, ∀ b ∈ back.toList.head?,
      (isIdentifierPart a && isIdentifierPart b) = false) :
    codeTokens (front ++ back) = codeTokens front ++ codeTokens back := by
  rw [codeTokens, String.toList_append, List.splitBy_append h, List.map_append, List.filter_append]
  rfl

/-- A word is its only token. -/
theorem codeTokens_word {word : String} (h : ∀ c ∈ word.toList, isIdentifierPart c = true)
    (hne : word ≠ "") : codeTokens word = [word] := by
  have hchars : word.toList ≠ [] := fun hnil => hne (String.toList_eq_nil_iff.mp hnil)
  have hchain : word.toList.IsChain fun a b => (isIdentifierPart a && isIdentifierPart b) = true :=
    List.Pairwise.isChain (List.pairwise_of_forall_mem_list fun a ha b hb => by
      rw [h a ha, h b hb, Bool.and_true])
  have hsign : ∀ sign : Char, isIdentifierPart sign = false → word ≠ String.singleton sign := by
    rintro sign hsign rfl
    have hpart := h sign (by simp)
    rw [hsign] at hpart
    cases hpart
  have hblank : word ≠ " " := hsign ' ' (by decide +kernel)
  have hfeed : word ≠ "\n" := hsign '\n' (by decide +kernel)
  rw [codeTokens, List.splitBy_of_isChain hchars hchain, List.map_singleton, String.ofList_toList]
  simp [hblank, hfeed]

/-- Whether a text keeps the words in front of it and behind it apart. -/
def keepsApart (s : String) : Bool :=
  s.toList.head?.any (!isIdentifierPart ·) && s.toList.getLast?.any (!isIdentifierPart ·)

theorem exists_of_keepsApart {s : String} (h : keepsApart s = true) :
    (∃ c, s.toList.head? = some c ∧ isIdentifierPart c = false) ∧
      ∃ c, s.toList.getLast? = some c ∧ isIdentifierPart c = false := by
  simpa [keepsApart, Option.any_eq_true] using h

/-- The tokens of a text that keeps what is around it apart. -/
theorem codeTokens_between {s : String} (h : keepsApart s = true) (front back : String) :
    codeTokens (front ++ s ++ back) = codeTokens front ++ codeTokens s ++ codeTokens back := by
  obtain ⟨⟨c, hhead, hc⟩, d, hlast, hd⟩ := exists_of_keepsApart h
  rw [codeTokens_append, codeTokens_append]
  · intro a _ b hb
    rw [hhead] at hb
    obtain rfl := Option.some.inj hb
    rw [hc, Bool.and_false]
  · intro a ha b _
    rw [String.toList_append, List.getLast?_append, hlast, Option.some_or] at ha
    obtain rfl := Option.some.inj ha
    rw [hd, Bool.false_and]

/-- A token is made of characters of the text. -/
theorem subset_of_mem_codeTokens {s token : String} (h : token ∈ codeTokens s) :
    token.toList ⊆ s.toList := by
  obtain ⟨cs, hcs, rfl⟩ := List.mem_map.mp (List.mem_of_mem_filter h)
  rw [String.toList_ofList]
  intro c hc
  rw [← List.flatten_splitBy (fun a b => isIdentifierPart a && isIdentifierPart b) s.toList]
  exact List.mem_flatten.mpr ⟨cs, hcs, hc⟩

/-! ### Free texts -/

/-- The variables that a loop over collections keeps its state in. -/
def hiddenNames : List String := ["pfm_ary", "pfm_ary_idx"]

/-- Whether no hidden name is a word of code. -/
def isFree (s : String) : Bool := hiddenNames.all fun name => name ∉ codeTokens s

/-- Whether a fixed text lets a word start behind it. -/
def opens (s : String) : Bool := isFree s && s.toList.getLast?.all (!isIdentifierPart ·)

/-- Whether a fixed text keeps words apart and is none of the hidden ones. -/
def fences (s : String) : Bool := isFree s && keepsApart s

namespace Markup

variable {m first second : Markup} {s : String}

/-- Whether a hidden name is a word of the code of a text only where it is the end of a name in
quotes that starts with an exclamation mark. -/
def Free (m : Markup) : Prop := ∀ name ∈ hiddenNames, ∀ front back,
  codeTokens m.codeText = front ++ name :: back →
    front.getLast? = some "!" ∧ back.head? = some "\""

/-- Whether a text is free and a word may start behind it. -/
structure Ended (m : Markup) : Prop where
  free : m.Free
  last : ∀ c ∈ m.codeText.toList.getLast?, isIdentifierPart c = false

theorem free_of_not_mem (h : ∀ name ∈ hiddenNames, name ∉ codeTokens m.codeText) : m.Free := by
  intro name hname front back htokens
  refine absurd ?_ (h name hname)
  rw [htokens]
  exact List.mem_append_right front List.mem_cons_self

theorem free_code (h : isFree s = true) : (code s).Free :=
  free_of_not_mem fun name hname => of_decide_eq_true (List.all_eq_true.mp h name hname)

theorem ended_code (h : opens s = true) : (code s).Ended := by
  obtain ⟨hfree, hlast⟩ := Bool.and_eq_true_iff.mp h
  refine ⟨free_code hfree, fun c hc => ?_⟩
  rw [codeText, Option.mem_def] at hc
  rw [hc, Option.all_some, Bool.not_eq_true'] at hlast
  exact hlast

/-- Nothing that is free declares or assigns a hidden name. -/
theorem Free.not_writes (h : m.Free) {name : String} (hname : name ∈ hiddenNames) :
    ¬Writes (codeTokens m.codeText) name := by
  have hbehind : ∀ sign ∈ writesBehind, ∃ token, sign.getLast? = some token ∧ token ≠ "!" := by
    decide
  have hbefore : ∀ sign ∈ writesBefore, ∃ token, sign.head? = some token ∧ token ≠ "\"" := by
    decide
  rintro (⟨sign, hsign, front, back, htokens⟩ | ⟨sign, hsign, front, back, htokens⟩)
  · obtain ⟨token, htoken, hne⟩ := hbehind sign hsign
    have hsplit : codeTokens m.codeText = (front ++ sign) ++ name :: back := by
      rw [← htokens, List.append_assoc, List.append_assoc, List.append_assoc, List.singleton_append]
    have hlast := (h name hname _ _ hsplit).1
    rw [List.getLast?_append, htoken, Option.some_or] at hlast
    exact hne (Option.some.inj hlast)
  · obtain ⟨token, htoken, hne⟩ := hbefore sign hsign
    have hsplit : codeTokens m.codeText = front ++ name :: (sign ++ back) := by
      rw [← htokens, List.append_assoc, List.cons_append]
    have hhead := (h name hname _ _ hsplit).2
    rw [List.head?_append, htoken, Option.some_or] at hhead
    exact hne (Option.some.inj hhead)

theorem free_append (hfirst : first.Free) (hsecond : second.Free)
    (h : ∀ a ∈ first.codeText.toList.getLast?, ∀ b ∈ second.codeText.toList.head?,
      (isIdentifierPart a && isIdentifierPart b) = false) : (first ++ second).Free := by
  intro name hname front back htokens
  have happend : codeTokens (first ++ second).codeText =
      codeTokens first.codeText ++ codeTokens second.codeText := codeTokens_append h
  rw [happend] at htokens
  rcases List.append_eq_append_iff.mp htokens with ⟨more, rfl, hmore⟩ | ⟨more, hmore, hback⟩
  · -- the name stands in the second text
    obtain ⟨hlast, hhead⟩ := hsecond name hname more back hmore
    exact ⟨by rw [List.getLast?_append, hlast, Option.some_or], hhead⟩
  · cases more with
    | nil => cases (hsecond name hname [] back hback.symm).1
    | cons token more =>
      rw [List.cons_append] at hback
      obtain ⟨rfl, rfl⟩ := List.cons.inj hback
      obtain ⟨hlast, hhead⟩ := hfirst name hname front more hmore
      exact ⟨hlast, by rw [List.head?_append, hhead, Option.some_or]⟩

/-- Two fixed texts are one. -/
theorem free_code_append {t : String} (h : (code s ++ code t).Free) : (code (s ++ t)).Free := h

theorem ended_code_append {a b c : String} (h : (code a ++ code b ++ code c).Ended) :
    (code (a ++ b ++ c)).Ended := ⟨h.free, h.last⟩

/-- A free text where a word may start. -/
theorem Ended.word (hfirst : first.Ended) (hsecond : second.Free) : (first ++ second).Free :=
  free_append hfirst.free hsecond fun a ha b _ => by rw [hfirst.last a ha, Bool.false_and]

theorem Ended.append (hfirst : first.Ended) (hsecond : second.Ended) : (first ++ second).Ended := by
  refine ⟨hfirst.word hsecond.free, fun c hc => ?_⟩
  have htext : (first ++ second).codeText.toList =
      first.codeText.toList ++ second.codeText.toList := String.toList_append
  rw [htext, List.getLast?_append, Option.mem_def, Option.or_eq_some_iff] at hc
  rcases hc with hlast | ⟨-, hlast⟩
  · exact hsecond.last c hlast
  · exact hfirst.last c hlast

/-- A fixed text behind a free one. -/
theorem Free.fence (h : m.Free) (hs : fences s = true) : (m ++ code s).Ended := by
  obtain ⟨hfree, hapart⟩ := Bool.and_eq_true_iff.mp hs
  obtain ⟨⟨c, hhead, hc⟩, d, hlast, hd⟩ := exists_of_keepsApart hapart
  refine ⟨free_append h (free_code hfree) fun a _ b hb => ?_, fun a ha => ?_⟩
  · rw [codeText, hhead] at hb
    obtain rfl := Option.some.inj hb
    rw [hc, Bool.and_false]
  · have htext : (m ++ code s).codeText.toList = m.codeText.toList ++ s.toList :=
      String.toList_append
    rw [htext, List.getLast?_append, hlast, Option.some_or] at ha
    obtain rfl := Option.some.inj ha
    exact hd

theorem Ended.part (h : m.Ended) : (part m).Ended := ⟨h.free, h.last⟩

end Markup

/-! ### Names and numbers -/

/-- Whether a name is one that JavaScript keeps for itself. -/
def IsReserved (name : String) : Prop := "pfm_".toList <+: name.toList

instance (name : String) : Decidable (IsReserved name) :=
  inferInstanceAs (Decidable ("pfm_".toList <+: name.toList))

/-- Only the first character of a name may be one that no word of JavaScript holds. -/
theorem IsLexeme.exists_start {name : String} (h : IsName name) : ∃ c cs, name.toList = c :: cs ∧
    isIdentifierStart c = true ∧ ∀ d ∈ cs, isIdentifierPart d = true := by
  obtain ⟨c, cs, htext, hread⟩ := h
  have hverdict : (Lexeme.read c cs).verdict = .ok .identifier := by rw [hread]
  have hspells := Lexeme.spells_of_read hverdict
  rw [hread] at hspells
  generalize c :: cs = text at htext hspells
  cases hspells with
  | word h => cases h
  | @identifier d ds hstart hparts => exact ⟨d, ds, htext, hstart, hparts⟩

theorem isIdentifierPart_of_start {c : Char} (h : isIdentifierStart c = true) (hc : c ≠ '!') :
    isIdentifierPart c = true := by
  unfold isIdentifierStart at h
  unfold isIdentifierPart
  simp only [Bool.or_eq_true, beq_iff_eq] at h ⊢
  rcases h with ((hletter | hlow) | hdollar) | hexclamation
  · exact .inl (.inl (.inl hletter))
  · exact .inl (.inr hlow)
  · exact .inr hdollar
  · exact absurd hexclamation hc

theorem free_word {word : String} (h : ∀ c ∈ word.toList, isIdentifierPart c = true)
    (hword : word ∉ hiddenNames) : (code word).Free := by
  by_cases hempty : word = ""
  · rw [hempty]
    exact free_code (by decide +kernel)
  · refine free_of_not_mem fun name hname htoken => ?_
    rw [codeText, codeTokens_word h hempty, List.mem_singleton] at htoken
    exact hword (htoken ▸ hname)

theorem not_mem_hiddenNames {name : String} (h : ¬IsReserved name) : name ∉ hiddenNames := by
  have hreserved : ∀ name ∈ hiddenNames, IsReserved name := by decide
  exact fun hname => h (hreserved name hname)

/-- What comes behind an exclamation mark may be a hidden name, if a quote closes it. -/
theorem free_exclamation {word : String} (h : ∀ c ∈ word.toList, isIdentifierPart c = true) :
    (code ("!" ++ word ++ "\"")).Free := by
  by_cases hempty : word = ""
  · rw [hempty]
    exact free_code (by decide +kernel)
  · have hmark : isIdentifierPart '!' = false := by decide +kernel
    have hquote : isIdentifierPart '"' = false := by decide +kernel
    have htokens : codeTokens ("!" ++ word ++ "\"") = ["!", word, "\""] := by
      have hfront : codeTokens ("!" ++ word) = ["!"] ++ [word] := by
        rw [codeTokens_append, codeTokens_word h hempty]
        · rfl
        · intro a ha b _
          obtain rfl : '!' = a := by simpa using ha
          rw [hmark, Bool.false_and]
      rw [codeTokens_append, hfront]
      · rfl
      · intro a _ b hb
        obtain rfl : '"' = b := by simpa using hb
        rw [hquote, Bool.and_false]
    intro name hname front back hsplit
    have hsigns : name ≠ "!" ∧ name ≠ "\"" := by
      have hhidden : ∀ name ∈ hiddenNames, name ≠ "!" ∧ name ≠ "\"" := by decide
      exact hhidden name hname
    rw [codeText, htokens] at hsplit
    match front, hsplit with
    | [], hsplit => exact absurd (List.cons.inj hsplit).1.symm hsigns.1
    | [mark], hsplit =>
      obtain ⟨rfl, hrest⟩ := List.cons.inj hsplit
      obtain ⟨-, rfl⟩ := List.cons.inj hrest
      exact ⟨rfl, rfl⟩
    | [mark, word'], hsplit =>
      simp only [List.cons_append, List.nil_append, List.cons.injEq] at hsplit
      exact absurd hsplit.2.2.1.symm hsigns.2
    | mark :: word' :: quote :: more, hsplit => simp at hsplit

theorem free_declaredName {name : String} (h : IsName name) (hname : ¬IsReserved name) :
    (code (declaredName name)).Free := by
  obtain ⟨c, cs, htext, hstart, hparts⟩ := h.exists_start
  unfold declaredName
  split
  · rename_i rest hrest
    rw [htext] at hrest
    obtain ⟨rfl, rfl⟩ := List.cons.inj hrest
    have hfixed : exclamationText.toList.all isIdentifierPart = true := by decide +kernel
    have htoList : (exclamationText ++ String.ofList cs).toList = exclamationText.toList ++ cs := by
      rw [String.toList_append, String.toList_ofList]
    refine free_word ?_ fun hmem => ?_
    · rw [htoList]
      exact List.forall_mem_append.mpr ⟨List.all_eq_true.mp hfixed, hparts⟩
    · -- the hidden names do not go on like this
      have hhidden : ∀ name ∈ hiddenNames, ¬exclamationText.toList <+: name.toList := by decide
      exact hhidden _ hmem (htoList ▸ List.prefix_append ..)
  · rename_i hmark
    refine free_word ?_ (not_mem_hiddenNames hname)
    rw [htext] at hmark ⊢
    refine List.forall_mem_cons.mpr ⟨?_, hparts⟩
    have hc : c ≠ '!' := fun hc => hmark cs (by rw [hc])
    exact isIdentifierPart_of_start hstart hc

theorem free_referencedName {name : String} (h : IsName name) (hname : ¬IsReserved name) :
    (code (referencedName name)).Free := by
  unfold referencedName
  cases hlookup : objectNames.lookup name with
  | none => exact free_declaredName h hname
  | some object =>
    have hobjects : ∀ entry ∈ objectNames, isFree entry.2 = true := by decide +kernel
    have hobject : isFree object = true := hobjects (name, object) (mem_of_lookup hlookup)
    rw [Option.getD_some]
    exact free_code hobject

theorem free_number {raw : String} (h : IsLexeme .number raw) : (code raw).Free := by
  refine free_of_not_mem fun name hname htoken => ?_
  have hhidden : ∀ name ∈ hiddenNames, 'p' ∈ name.toList := by decide +kernel
  have hdigits : isNumberChar 'p' = false := by decide +kernel
  have hp := h.isNumberChar 'p' (subset_of_mem_codeTokens htoken (hhidden name hname))
  rw [hdigits] at hp
  cases hp

end FormCalc
