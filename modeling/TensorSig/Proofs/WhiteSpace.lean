import TensorSig.Proofs.Composition

/-!
# White space

White space separates words and has no other meaning: wherever there is some, it may be replaced by
any other, and the outcome stays the same but for the offsets behind it. This holds for all texts,
whether they are accepted or not.

The proof compares the runs on two such texts. What comes before the white space is read in the same
way in both, since no word goes on into white space, neither where tokens are taken nor where the
run gets stuck. What comes behind it is read from the same stack, at another offset.

* `Terminal.scan_eq_some_iff`, `firstLexeme?_append`, `step_append`: what is found in a text does
  not change with white space and another text behind.
* `exists_read_append`: what is read of a text with white space behind it.
* `read_gap`, `parse_gap`: replacing white space.
-/

namespace TensorSig

/-! ## Lexemes before white space -/

namespace Terminal

/-- **A scanner finds the longest word** of its terminal at the start of a text. -/
theorem scan_eq_some_iff {t : Terminal} {text w rest : List Char} :
    t.scan text = some (w, rest) ↔
      w ∈ t.words ∧ w ++ rest = text ∧ ∀ v ∈ t.words, v <+: text → v.length ≤ w.length := by
  constructor
  · intro h
    exact ⟨t.longest_scan.mem h, t.exact_scan _ _ _ h, fun v hv hp => t.longest_scan.le h hv hp⟩
  · rintro ⟨hw, hwr, hl⟩
    cases hs : t.scan text with
    | none => exact absurd ⟨rest, hwr⟩ (scan_eq_none_iff.1 hs w hw)
    | some found =>
      obtain ⟨v, rest'⟩ := found
      have hvr := t.exact_scan _ _ _ hs
      have h₁ := hl v (t.longest_scan.mem hs) ⟨rest', hvr⟩
      have h₂ := t.longest_scan.le hs hw ⟨rest, hwr⟩
      obtain ⟨rfl, rfl⟩ := List.append_inj (hvr.trans hwr.symm) (Nat.le_antisymm h₁ h₂)
      rfl

/-- A scanner finds the same word when a detached text comes behind. -/
theorem scan_append (t : Terminal) (a : List Char) {b : List Char} (hb : Detached b) :
    t.scan (a ++ b) = (t.scan a).map fun (w, rest) => (w, rest ++ b) := by
  cases hs : t.scan a with
  | none =>
    exact scan_eq_none_iff.2 fun v hv hp => scan_eq_none_iff.1 hs v hv (hb.prefix_of_word hv hp)
  | some found =>
    obtain ⟨w, rest⟩ := found
    obtain ⟨hw, rfl, hl⟩ := scan_eq_some_iff.1 hs
    exact scan_eq_some_iff.2
      ⟨hw, (List.append_assoc _ _ _).symm, fun v hv hp => hl v hv (hb.prefix_of_word hv hp)⟩

end Terminal

/-- The first terminal that has a lexeme is the same when a detached text comes behind. -/
theorem firstLexeme?_append (ts : List Terminal) (a : List Char) {b : List Char}
    (hb : Detached b) :
    firstLexeme? ts (a ++ b) =
      (firstLexeme? ts a).map fun (t, w, rest) => (t, w, rest ++ b) := by
  induction ts with
  | nil => rfl
  | cons t ts ih =>
    unfold firstLexeme? at ih ⊢
    simp only [List.findSome?_cons, t.scan_append a hb]
    cases t.scan a with
    | none => exact ih
    | some found => rfl

theorem strayLexeme_append {a b : List Char} (ha : a ≠ []) (hb : Detached b) :
    strayLexeme (a ++ b) = strayLexeme a := by
  unfold strayLexeme
  rw [firstLexeme?_append _ a hb]
  cases firstLexeme? Terminal.ranked a with
  | none =>
    obtain ⟨x, a, rfl⟩ := List.exists_cons_of_ne_nil ha
    rfl
  | some found => rfl

/-! ## Steps and runs -/

variable {r : StartRule}

/-- A step skips white space. -/
theorem step_gap {stack : List Frame} {offset : Nat} {gap : List Char} (hg : Gap gap)
    (text : List Char) :
    step r ⟨stack, offset, gap ++ text⟩ = step r ⟨stack, offset + gap.length, text⟩ := by
  simp only [step, List.takeWhile_append_of_pos hg, List.dropWhile_append_of_pos hg,
    List.length_append, Nat.add_assoc]

/-- A step where there is no white space to skip. -/
theorem step_cons {stack : List Frame} {offset : Nat} {x : Char} (hx : Text.isSpace x = false)
    (text : List Char) : step r ⟨stack, offset, x :: text⟩ =
      match firstLexeme? (top r stack).acceptable (x :: text) with
      | none => .reject (.unreadable offset (strayLexeme (x :: text)) (top r stack).acceptable)
      | some (t, lexeme, rest) =>
        match (top r (settle r (.token t) stack)).shift? t with
        | none =>
          .reject (.misplaced offset lexeme (top r (settle r (.token t) stack)).expected)
        | some q =>
          .shift ⟨⟨q, .terminal t, (⟨lexeme, offset⟩ : Lexeme)⟩ :: settle r (.token t) stack,
            offset + lexeme.length, rest⟩ := by
  have hn : ¬ Text.isSpace x = true := by simp [hx]
  simp only [step, List.takeWhile_cons_of_neg hn, List.dropWhile_cons_of_neg hn]
  rfl

/-- A step where the terminal that comes next is shifted at once. -/
theorem step_of_shift? {stack : List Frame} {offset : Nat} {x : Char} {text w rest : List Char}
    {t : Terminal} {q : State} (hx : Text.isSpace x = false)
    (hf : firstLexeme? (top r stack).acceptable (x :: text) = some (t, w, rest))
    (hq : (top r stack).shift? t = some q) : step r ⟨stack, offset, x :: text⟩ =
      .shift ⟨⟨q, .terminal t, (⟨w, offset⟩ : Lexeme)⟩ :: stack, offset + w.length, rest⟩ := by
  rw [step_cons hx, hf]
  dsimp only
  rw [settle_of_shift? hq, hq]

/-- A text that is more than white space is white space and then some other character. -/
theorem exists_of_not_gap {text : List Char} (h : ¬ Gap text) :
    ∃ gap x rest, Gap gap ∧ Text.isSpace x = false ∧ text = gap ++ x :: rest := by
  cases hd : text.dropWhile Text.isSpace with
  | nil => exact absurd (List.dropWhile_eq_nil_iff.1 hd) h
  | cons x rest =>
    exact ⟨_, x, rest, gap_takeWhile text, isSpace_head_eq_false hd,
      by rw [← hd, List.takeWhile_append_dropWhile]⟩

/-- A step that rejects what it finds does so with any detached text behind. -/
theorem step_append {stack : List Frame} {offset : Nat} {text : List Char} {why : Rejection}
    (hn : ¬ Gap text) (h : step r ⟨stack, offset, text⟩ = .reject why) {b : List Char}
    (hb : Detached b) : step r ⟨stack, offset, text ++ b⟩ = .reject why := by
  obtain ⟨gap, x, rest, hg, hx, rfl⟩ := exists_of_not_gap hn
  rw [step_gap hg, step_cons hx] at h
  rw [List.append_assoc, List.cons_append, step_gap hg, step_cons hx, ← List.cons_append,
    firstLexeme?_append _ _ hb, strayLexeme_append (by simp) hb]
  cases hf : firstLexeme? (top r stack).acceptable (x :: rest) with
  | none =>
    rw [hf] at h
    exact h
  | some found =>
    obtain ⟨t, w, rest'⟩ := found
    rw [hf] at h
    dsimp only [Option.map_some] at h ⊢
    split at h
    · exact h
    · cases h

theorem run_gap {stack : List Frame} {offset : Nat} {gap : List Char} (hg : Gap gap)
    (text : List Char) :
    run r ⟨stack, offset, gap ++ text⟩ = run r ⟨stack, offset + gap.length, text⟩ := by
  have hstep : step r ⟨stack, offset, gap ++ text⟩ = step r ⟨stack, offset + gap.length, text⟩ :=
    step_gap hg text
  cases hs : step r ⟨stack, offset + gap.length, text⟩ with
  | accept e => rw [run_of_accept hs, run_of_accept (hstep.trans hs)]
  | reject why => rw [run_of_reject hs, run_of_reject (hstep.trans hs)]
  | shift next => rw [run_of_shift hs, run_of_shift (hstep.trans hs)]

/-! ## Before white space -/

variable {φ : Nat → Nat}

theorem shiftToken?_relocated (stack : List Frame) (k : Token) :
    shiftToken? r (stack.map (Frame.relocated φ)) (k.relocated φ) =
      (shiftToken? r stack k).map (List.map (Frame.relocated φ)) := by
  simp only [shiftToken?, Token.relocated, settle_relocated, top_relocated, Option.map_map]
  rfl

theorem feed?_relocated (stack : List Frame) (ks : List Token) :
    feed? r (stack.map (Frame.relocated φ)) (ks.map (Token.relocated φ)) =
      (feed? r stack ks).map (List.map (Frame.relocated φ)) := by
  induction ks generalizing stack with
  | nil => rfl
  | cons k ks ih =>
    rw [List.map_cons, feed?, feed?, shiftToken?_relocated]
    cases shiftToken? r stack k with
    | none => rfl
    | some stack' => exact ih stack'

/-- The values on a stack have no offsets but those that have been read. -/
theorem Reads.map_relocated {text : List Char} {ks : List Token} {c : Config}
    (h : Reads r ⟨[], 0, text⟩ ks c) (hφ : ∀ i < c.offset, φ i = i) :
    c.stack.map (Frame.relocated φ) = c.stack := by
  obtain ⟨t, -, hs, ho⟩ := h.spells
  have hk : ks.map (Token.relocated φ) = ks.map id := by
    refine List.map_congr_left fun k hk => ?_
    have hn : k.lexeme.text ≠ [] := Terminal.ne_nil_of_mem_words (hs.mem_words hk)
    have hlt : k.lexeme.offset < k.stop := Nat.lt_add_of_pos_right (List.length_pos_iff.2 hn)
    have hle := hs.stop_le hk
    rw [Token.relocated, Lexeme.relocated, hφ _ (by omega)]
    rfl
  have hf := @feed?_relocated r φ [] ks
  rw [hk, List.map_id, List.map_nil, h.feed?] at hf
  exact (Option.some.inj hf).symm

/-- A step is stuck before the end of a text that is more than white space. -/
theorem Stuck.offset_lt {c : Config} {why : Rejection} (h : Stuck r c why) (hc : ¬ Gap c.text) :
    why.offset < c.offset + c.text.length := by
  cases h with
  | incomplete hg _ => exact absurd hg hc
  | unreadable _ ht _ _ =>
    rw [ht, Rejection.offset, List.length_append, List.length_cons]
    omega
  | misplaced _ ht ho hw _ _ =>
    have := List.length_pos_iff.2 (Terminal.ne_nil_of_mem_words hw)
    rw [ht, Rejection.offset, ho, List.length_append, List.length_append]
    omega

/-- **Before white space** a text is read in the same way whatever follows: it leaves a stack to go
on with, or it is rejected. -/
theorem exists_read_append (r : StartRule) (u : List Char) :
    (∃ stack, (∀ φ : Nat → Nat, (∀ i < u.length, φ i = i) →
        stack.map (Frame.relocated φ) = stack) ∧
      ∀ b, Detached b → read r (u ++ b) = run r ⟨stack, u.length, b⟩) ∨
    ∃ why, why.offset < u.length ∧ ∀ b, Detached b → read r (u ++ b) = .error why := by
  obtain ⟨ks, c, hr, hend⟩ := exists_reads r ⟨[], 0, u⟩
  obtain ⟨t, ht, -, ho⟩ := hr.spells
  dsimp only at ht ho
  have hlen : u.length = c.offset + c.text.length := by
    rw [ht, List.length_append, ho, Nat.zero_add]
  have hcut : ∀ b, Detached b → read r (u ++ b) = run r ⟨c.stack, c.offset, c.text ++ b⟩ := by
    intro b hb
    obtain ⟨z, hz, hr'⟩ := hr.cut (List.append_nil c.text).symm hb
    obtain rfl : u = z := hz.trans (List.append_nil z)
    exact hr'.run_eq
  by_cases hg : Gap c.text
  · refine Or.inl ⟨c.stack, fun φ hφ => hr.map_relocated fun i hi => hφ i (by omega),
      fun b hb => ?_⟩
    rw [hcut b hb, run_gap hg, hlen]
  · rcases hend with ⟨e, hg', -, -⟩ | ⟨why, hw, hs, -⟩
    · exact absurd hg' hg
    · refine Or.inr ⟨why, hlen ▸ hw.offset_lt hg, fun b hb => ?_⟩
      rw [hcut b hb, run_of_reject (step_append hg hs hb)]

/-! ## Replacing white space -/

/-- White space may be replaced where it does not come to stand between two texts or vanish from
there. -/
theorem exists_read_gap (r : StartRule) (u : List Char) :
    (∃ stack, (∀ φ : Nat → Nat, (∀ i < u.length, φ i = i) →
        stack.map (Frame.relocated φ) = stack) ∧
      ∀ w v, Gap w → w ≠ [] ∨ u = [] ∨ v = [] →
        read r (u ++ w ++ v) = run r ⟨stack, u.length + w.length, v⟩) ∨
    ∃ why, why.offset < u.length ∧ ∀ w v, Gap w → w ≠ [] ∨ u = [] ∨ v = [] →
      read r (u ++ w ++ v) = .error why := by
  by_cases hu : u = []
  · subst hu
    refine Or.inl ⟨[], fun φ _ => rfl, fun w v hw _ => ?_⟩
    rw [read, List.nil_append, run_gap hw]
    rfl
  have hd : ∀ {w v : List Char}, Gap w → w ≠ [] ∨ u = [] ∨ v = [] → Detached (w ++ v) := by
    rintro w v hw (hn | hn | rfl)
    · exact .gap_append hw hn v
    · exact absurd hn hu
    · exact (List.append_nil w).symm ▸ .of_gap hw
  rcases exists_read_append r u with ⟨stack, hs, hrun⟩ | ⟨why, hlt, hrun⟩
  · refine Or.inl ⟨stack, hs, fun w v hw h => ?_⟩
    rw [List.append_assoc, hrun _ (hd hw h), run_gap hw]
  · refine Or.inr ⟨why, hlt, fun w v hw h => ?_⟩
    rw [List.append_assoc, hrun _ (hd hw h)]

theorem Rejection.offset_relocated (why : Rejection) : (why.relocated φ).offset = φ why.offset := by
  cases why <;> rfl

theorem Rejection.relocated_eq {why : Rejection} (h : φ why.offset = why.offset) :
    why.relocated φ = why := by
  cases why with
  | unreadable offset found expected => exact congrArg (unreadable · found expected) h
  | misplaced offset found expected => exact congrArg (misplaced · found expected) h
  | incomplete offset expected => exact congrArg (incomplete · expected) h

/-- **Replacing white space** moves what has been read behind it, and the place of a rejection. -/
theorem read_gap {u v w w' : List Char} (hw : Gap w) (hw' : Gap w')
    (h : (w ≠ [] ∧ w' ≠ []) ∨ u = [] ∨ v = []) (hu : ∀ i < u.length, φ i = i)
    (hv : ∀ i, φ (u.length + w.length + i) = u.length + w'.length + i) :
    read r (u ++ w' ++ v) =
      ((read r (u ++ w ++ v)).map (r.nonterminal.relocate φ)).mapError (Rejection.relocated φ) := by
  have h₁ : w ≠ [] ∨ u = [] ∨ v = [] := h.imp_left And.left
  have h₂ : w' ≠ [] ∨ u = [] ∨ v = [] := h.imp_left And.right
  rcases exists_read_gap r u with ⟨stack, hs, hrun⟩ | ⟨why, hlt, hrun⟩
  · rw [hrun w v hw h₁, hrun w' v hw' h₂]
    have hφ : φ (u.length + w.length) = u.length + w'.length := hv 0
    have hrel := @run_relocated φ r ⟨stack, u.length + w.length, v⟩ fun i => by rw [hv, hφ]
    rw [Config.relocated, hs φ hu] at hrel
    dsimp only at hrel
    rw [hφ] at hrel
    exact hrel
  · rw [hrun w v hw h₁, hrun w' v hw' h₂]
    exact congrArg Except.error (Rejection.relocated_eq (hu _ hlt)).symm

/-- An offset that all maps leave alone that leave alone what is before and behind a piece of the
text is not in that piece. -/
theorem lt_or_le_of_fixed {m n o : Nat} (h : ∀ φ : Nat → Nat, (∀ i < m, φ i = i) →
    (∀ i, φ (m + n + i) = m + n + i) → φ o = o) : o < m ∨ m + n ≤ o := by
  by_contra ho
  have := h (fun i => if i < m ∨ m + n ≤ i then i else i + 1) (fun i hi => by simp [hi])
    fun i => by simp
  simp [ho] at this

/-- The report on a text, with its offset renamed, as that on another text. -/
theorem SignatureError.ofRejection_relocated (text source : List Char) (why : Rejection) :
    ofRejection source (why.relocated φ) = { ofRejection text why with
      span := .ofOffset source (φ why.offset)
      source := String.ofList source } := by
  cases why <;> rfl

/-- **White space may be replaced by other white space.** The outcome is the same value, or the same
failure with its place moved along. No failure is ever placed in the white space, and the line and
the column of a place are always those in the text at hand. Neither white space may be empty where
it stands between two texts. -/
theorem parse_gap {u v w w' : List Char} (hw : Gap w) (hw' : Gap w')
    (h : (w ≠ [] ∧ w' ≠ []) ∨ u = [] ∨ v = []) :
    match parse r (u ++ w ++ v) with
    | .ok value => parse r (u ++ w' ++ v) = .ok value
    | .error (.oversized numeral) => parse r (u ++ w' ++ v) = .error (.oversized numeral)
    | .error (.signature error) => ∃ o, error.span = .ofOffset (u ++ w ++ v) o ∧
        (o < u.length ∨ u.length + w.length ≤ o) ∧
        parse r (u ++ w' ++ v) = .error (.signature { error with
          span := .ofOffset (u ++ w' ++ v) (if o < u.length then o else o - w.length + w'.length)
          source := String.ofList (u ++ w' ++ v) }) := by
  have hsame : ∀ φ : Nat → Nat, (∀ i < u.length, φ i = i) →
      (∀ i, φ (u.length + w.length + i) = u.length + w.length + i) → read r (u ++ w ++ v) =
        ((read r (u ++ w ++ v)).map (r.nonterminal.relocate φ)).mapError (Rejection.relocated φ) :=
    fun φ => read_gap hw hw (h.imp_left fun hn => ⟨hn.1, hn.1⟩)
  have hmove := @read_gap r (fun o => if o < u.length then o else o - w.length + w'.length)
    u v w w' hw hw' h (fun i hi => if_pos hi) fun i => by rw [if_neg (by omega)]; omega
  cases hread : read r (u ++ w ++ v) with
  | error why =>
    rw [hread] at hmove hsame
    rw [parse_of_read_error hread, parse_of_read_error hmove]
    refine ⟨why.offset, rfl, lt_or_le_of_fixed fun φ h₁ h₂ => ?_, ?_⟩
    · have := congrArg Rejection.offset (Except.error.inj (hsame φ h₁ h₂))
      rw [Rejection.offset_relocated] at this
      exact this.symm
    · rw [SignatureError.ofRejection_relocated]
  | ok e =>
    rw [hread] at hmove hsame
    rw [parse_of_read hread, parse_of_read hmove, StartRule.denote_relocated]
    cases hd : r.denote e with
    | ok value => rfl
    | error fault =>
      cases fault with
      | oversized numeral => rfl
      | unsupportedElement o element =>
        refine ⟨o, rfl, lt_or_le_of_fixed fun φ h₁ h₂ => ?_, rfl⟩
        -- the expression has no offsets in the white space either, so the fault has none
        have he : e = r.nonterminal.relocate φ e := Except.ok.inj (hsame φ h₁ h₂)
        have hfault := StartRule.denote_relocated φ r e
        rw [← he, hd] at hfault
        exact (DenoteFault.unsupportedElement.inj (Except.error.inj hfault)).1.symm

theorem parse_gap_lines : Gap " ".toList ∧ Gap "\n\n ".toList ∧
    ∃ error, parse .literal " x".toList = .error (.signature error) ∧
      error.span = .ofOffset " x".toList 1 ∧
      parse .literal "\n\n x".toList = .error (.signature { error with
        span := .ofOffset "\n\n x".toList 3
        source := String.ofList "\n\n x".toList }) := by
  have hw : Gap " ".toList := by decide
  have hw' : Gap "\n\n ".toList := by decide
  have hread : parse .literal ([] ++ " ".toList ++ "x".toList) = .error (.signature _) :=
    parse_of_read_error (run_of_reject rfl)
  have h := @parse_gap .literal [] "x".toList _ _ hw hw' (Or.inr (Or.inl rfl))
  rw [hread] at h
  obtain ⟨o, ho, -, h⟩ := h
  obtain rfl : o = 1 := Int.ofNat.inj (congrArg Span.offset ho).symm
  exact ⟨hw, hw', _, hread, ho, h⟩

end TensorSig
