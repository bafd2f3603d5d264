import TensorSig.Proofs.Column

/-!
# The parts of a line

A line is split into its lead, its declaration and the blank characters at its end in one way. It
has no declaration if it is blank, if its first character that is not blank is the mark of a
comment, or if a lead that ends with the keyword is all there is. The declaration occurs on the
line, at the latest behind the lead.

* `Lead.head?_trimStart`: a line with a declaration does not start like a comment.
* `declaration?_lead`: a lead without anything behind it.
* `declaration?_eq_none_iff`: the lines without a declaration.
* `line_parts`: the lines with a declaration, those without, and where the declaration is found.
-/

namespace TensorSig

open Text

variable {line text : List Char}

/-! ## Lines with a declaration -/

/-- A line with a declaration does not start like a comment. -/
theorem Lead.Precedes.head?_trimStart {l : Lead} (h : l.Precedes text) (rest : List Char) :
    (trimStart (l.text ++ (text ++ rest))).head? ≠ some '#' := by
  have hne := h.isTrimmed_markerText.ne_nil
  have hline : trimStart (l.text ++ (text ++ rest)) =
      (markerText itemMarker l.item? ++ (markerText keywordMarker l.keyword? ++ text)) ++ rest := by
    simp only [Lead.text, List.append_assoc]
    rw [trimStart_append l.indent.isBlank, trimStart_eq_self]
    simp only [← List.append_assoc] at hne ⊢
    rw [List.head?_append_of_ne_nil _ hne]
    simpa only [List.append_assoc] using h.isTrimmed_markerText.head
  rw [hline, List.head?_append_of_ne_nil _ hne]
  exact h.head?_markerText

/-! ## Lines without a declaration -/

theorem trimStart_eq_nil (h : ∀ c ∈ line, isBlank c = true) : trimStart line = [] :=
  List.dropWhile_eq_nil_iff.2 h

/-- There is nothing behind a lead that ends with the keyword. -/
theorem declaration?_lead {l : Lead} {ws : Blanks} (h : l.keyword? = some ws) :
    declaration? l.text = none := by
  have hkeyword : IsTrimmed keywordMarker :=
    ⟨by decide, by rintro _ ⟨⟩; rfl, by rintro _ ⟨⟩; rfl⟩
  have hbody : IsTrimmed (markerText itemMarker l.item? ++ keywordMarker) :=
    hkeyword.append (isBlank_of_head?_markerText (by decide) (by rintro _ ⟨⟩; rfl) _)
  have htrim : trim l.text = markerText itemMarker l.item? ++ keywordMarker := by
    rw [← hbody.trim_eq l.indent.isBlank ws.isBlank]
    simp only [Lead.text, h, markerText, List.append_assoc]
  have hitem : dropMarker itemMarker (trim l.text) = keywordMarker := by
    rw [htrim]
    exact dropMarker_markerText hkeyword.head fun _ => by decide
  rw [declaration?_eq, hitem]
  exact if_pos (.inr (.inr rfl))

/-- **The lines without a declaration**: blank lines, comments, and leads by themselves. -/
theorem declaration?_eq_none_iff : declaration? line = none ↔
    (∀ c ∈ line, isBlank c = true) ∨ (trimStart line).head? = some '#' ∨
      ∃ (l : Lead) (ws : Blanks), l.keyword? = some ws ∧ line = l.text := by
  constructor
  · intro h
    obtain ⟨indent, ws, hline⟩ := exists_eq_trim line
    by_cases hne : trim line = []
    · left
      rw [hne] at hline
      rw [hline]
      exact List.forall_mem_append.2 ⟨indent.isBlank, ws.isBlank⟩
    right
    have htrim := isTrimmed_trim hne
    by_cases hcomment : (trim line).head? = some '#'
    · left
      rw [hline, trimStart_append indent.isBlank, trimStart_eq_self,
        List.head?_append_of_ne_nil _ hne]
      · exact hcomment
      · rw [List.head?_append_of_ne_nil _ hne]
        exact htrim.head
    right
    -- neither marker leaves anything, so the keyword was there
    obtain ⟨item?, hi, -, hhead⟩ := exists_eq_markerText itemMarker htrim.head
    obtain ⟨keyword?, hk, -, -⟩ := exists_eq_markerText keywordMarker hhead
    have hnil : dropMarker keywordMarker (dropMarker itemMarker (trim line)) = [] := by
      by_contra hrest
      rw [declaration?_eq, if_neg (by simp [hne, hcomment, hrest])] at h
      cases h
    rw [hnil, List.append_nil] at hk
    cases keyword? with
    | some after =>
      refine ⟨⟨indent, item?, some (after.append ws)⟩, after.append ws, rfl, ?_⟩
      calc line = indent.text ++ (trim line ++ ws.text) := hline
        _ = indent.text ++ (markerText itemMarker item? ++
              markerText keywordMarker (some after) ++ ws.text) := by rw [← hk, ← hi]
        _ = _ := by simp only [Lead.text, markerText, Blanks.append, List.append_assoc]
    | none =>
      -- a dash by itself has no blank character behind it, and is no marker
      rw [hk, markerText, List.append_nil] at hi
      cases item? with
      | none => exact absurd hi hne
      | some after =>
        have hblank : ∀ c ∈ ' ' :: after.text, isBlank c = true :=
          List.forall_mem_cons.2 ⟨rfl, after.isBlank⟩
        have hne' := List.cons_ne_nil ' ' after.text
        have hlast : (trim line).getLast? = some ((' ' :: after.text).getLast hne') := by
          rw [hi]
          exact (List.getLast?_cons_cons ..).trans (List.getLast?_eq_some_getLast hne')
        have hc := htrim.last _ hlast
        rw [hblank _ (List.getLast_mem hne')] at hc
        cases hc
  · rintro (h | h | ⟨l, ws, hk, rfl⟩)
    · rw [declaration?_eq]
      exact if_pos (.inl (by rw [trim, trimStart_eq_nil h]; rfl))
    · cases hd : declaration? line with
      | none => rfl
      | some text =>
        obtain ⟨l, ws, hl, rfl⟩ := exists_lead hd
        exact absurd h (hl.head?_trimStart ws.text)
    · exact declaration?_lead hk

/-! ## All lines -/

/-- **The parts of a line.** The declaration on a line is what is behind its lead, up to the blank
characters at its end. A line without one is blank, or a comment, or nothing but a lead with the
keyword. The declaration is found at or in front of its place, and there if it has a character that
the lead has not. -/
theorem line_parts (line : List Char) :
    (∀ text, declaration? line = some text ↔
      ∃ (l : Lead) (ws : Blanks), l.Precedes text ∧ line = l.text ++ (text ++ ws.text)) ∧
    (declaration? line = none ↔ (∀ c ∈ line, isBlank c = true) ∨
      (trimStart line).head? = some '#' ∨
        ∃ (l : Lead) (ws : Blanks), l.keyword? = some ws ∧ line = l.text) ∧
    ∀ (l : Lead) (ws : Blanks) (text : List Char), l.Precedes text →
      line = l.text ++ (text ++ ws.text) → (trimStart line).head? ≠ some '#' ∧
        ∃ n ≤ l.text.length, firstOccurrence? text line = some n ∧
          ∀ c ∈ text, c ∉ l.text → n = l.text.length := by
  refine ⟨fun text => declaration?_eq_some_iff, declaration?_eq_none_iff, ?_⟩
  rintro l ws text hl rfl
  have hocc : OccursAt text (l.text ++ (text ++ ws.text)) l.text.length :=
    ⟨l.text, ws.text, rfl, rfl⟩
  obtain ⟨n, hn, hfirst, hle⟩ := exists_firstOccurrence? hocc
  exact ⟨hl.head?_trimStart ws.text, n, hle hocc, hn,
    fun c hc hp => le_antisymm (hle hocc) (le_of_occursAt hc hp hfirst)⟩

example : declaration? "- - f() -> ()".toList = some "- f() -> ()".toList := rfl

end TensorSig
