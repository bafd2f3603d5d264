import Mathlib.Order.Bounds.Basic
import TensorSig.Parse
import TensorSig.Proofs.Completion
import TensorSig.Proofs.Reading

/-!
# Where a text is rejected

The offset of an error is the greatest one up to which the text can be kept: cut there, and with a
space after it, it is the beginning of some text that is accepted, and no longer piece of it is.

* `Accepted`: a text that follows the grammar, whatever its expression denotes; `accepted_iff` puts
  it in terms of reading.
* `Reads.exists_accepted`: what has been read can be completed behind a space.
* `Reads.cut`: what comes after a token does not matter to it once it is cut off and replaced by
  white space, since no word has white space in it.
* `Stuck.exists_split`: where a step is stuck, it stays so however much of the rest is kept.
* `exists_cut_of_read_error`: the text up to where it is rejected can be completed, and no more.
* `isGreatest_errorOffset`: the offset of an error is the length of the longest piece of the text
  that can be completed.
-/

namespace TensorSig

variable {r : StartRule}

/-! ## Accepted texts -/

/-- A text follows the grammar: it is not rejected for a lexical mismatch or an unterminated
construct. -/
def Accepted (r : StartRule) (text : List Char) : Prop :=
  ∀ error, parse r text = .error (.signature error) →
    error.kind ≠ .lexicalMismatch ∧ error.kind ≠ .unterminatedConstruct

theorem parse_of_read_error {text : List Char} {why : Rejection} (h : read r text = .error why) :
    parse r text = .error (.signature (.ofRejection text why)) := by
  rw [parse, h]

theorem parse_of_read {text : List Char} {e : r.Expr} (h : read r text = .ok e) :
    parse r text = (r.denote e).mapError (Failure.ofFault text) := by
  unfold parse
  rw [h]
  dsimp only
  cases r.denote e <;> rfl

/-- A report is made on a rejected text, or on an array over an unsupported type. -/
theorem exists_report_of_parse {text : List Char} {error : SignatureError}
    (h : parse r text = .error (.signature error)) :
    (∃ why, read r text = .error why ∧ error = .ofRejection text why) ∨
      ∃ o element, error = .ofElement text o element := by
  cases hr : read r text with
  | error why =>
    rw [parse_of_read_error hr] at h
    exact .inl ⟨why, rfl, (Failure.signature.inj (Except.error.inj h)).symm⟩
  | ok e =>
    rw [parse_of_read hr] at h
    cases hd : r.denote e with
    | ok v => rw [hd] at h; cases h
    | error fault =>
      rw [hd] at h
      cases fault with
      | oversized numeral => cases h
      | unsupportedElement o element =>
        exact .inr ⟨o, element, (Failure.signature.inj (Except.error.inj h)).symm⟩

/-- The report on a text names a place in it, with its line and column. -/
theorem exists_ofOffset_of_parse {text : List Char} {error : SignatureError}
    (h : parse r text = .error (.signature error)) : ∃ o, error.span = Span.ofOffset text o := by
  rcases exists_report_of_parse h with ⟨why, -, rfl⟩ | ⟨o, element, rfl⟩
  · exact ⟨why.offset, rfl⟩
  · exact ⟨o, rfl⟩

theorem not_accepted_of_read_error {text : List Char} {why : Rejection}
    (h : read r text = .error why) : ¬ Accepted r text := by
  intro ha
  obtain ⟨h₁, h₂⟩ := ha _ (parse_of_read_error h)
  have hk : (SignatureError.ofRejection text why).kind = why.kind := rfl
  rw [hk, Rejection.kind] at h₁ h₂
  split at h₁ <;> simp_all

/-- **The accepted texts are those that are read**, whether or not their expression denotes a value.
-/
theorem accepted_iff {text : List Char} : Accepted r text ↔ ∃ e, read r text = .ok e := by
  constructor
  · intro ha
    cases hr : read r text with
    | ok e => exact ⟨e, rfl⟩
    | error why => exact absurd ha (not_accepted_of_read_error hr)
  · rintro ⟨e, hr⟩ error he
    rw [parse, hr] at he
    dsimp only at he
    cases hd : r.denote e with
    | ok v => rw [hd] at he; cases he
    | error fault =>
      rw [hd] at he
      cases fault with
      | oversized numeral => cases he
      | unsupportedElement offset element =>
        cases he
        exact ⟨by simp [SignatureError.ofElement], by simp [SignatureError.ofElement]⟩

/-! ## Completing what has been read -/

theorem Spells.stop_le {offset : Nat} {ks : List Token} {text : List Char}
    (h : Spells offset ks text) {k : Token} (hk : k ∈ ks) : k.stop ≤ offset + text.length := by
  induction h with
  | nil => cases hk
  | @cons offset gap rest l ls _ _ ho _ ih =>
    rw [← Token.stop_add ho]
    rcases List.mem_cons.1 hk with rfl | hk
    · omega
    · exact ih hk

/-- **What has been read can be completed** behind a space. -/
theorem Reads.exists_accepted {text rest gap : List Char} {ks : List Token} {c : Config}
    (h : Reads r ⟨[], 0, text⟩ ks c) (ht : text = rest ++ c.text) (hg : Gap gap) :
    ∃ t, Accepted r (rest ++ (gap ++ ' ' :: t)) := by
  obtain ⟨t, ht', hs, ho⟩ := h.spells
  obtain rfl : t = rest := List.append_cancel_right (ht'.symm.trans ht)
  obtain ⟨ls, hls, -, stack, e, hf, he⟩ :=
    exists_completion (r := r) (IsPath.feed? h.feed? trivial) (t.length + gap.length)
  obtain ⟨u, hu⟩ := hls.exists_text
  refine ⟨u, accepted_iff.2 ⟨e, read_eq_ok_iff.2 ⟨ks ++ ls, hs.append (.gap hg ?_), ?_, ?_⟩⟩⟩
  · rw [Nat.zero_add]
    exact hu
  · refine h.apart.append hls.apart fun k hk l hl hr => ?_
    have hk := hs.stop_le (List.mem_of_getLast? hk)
    cases ls with
    | nil => cases hl
    | cons l' ls =>
      obtain rfl : l' = l := Option.some.inj hl
      have h₁ := hls.1
      have h₂ := hr.1
      dsimp only at hk
      omega
  · exact Recognizes.derives ⟨stack, by rw [feed?_append, h.feed?, Option.bind_some, hf], he⟩

/-! ## Cutting a text -/

/-- What follows a token may be cut off anywhere and replaced by any detached text. -/
theorem Takes.cut {c c' : Config} {k : Token} {y x b : List Char} (h : Takes r c k c')
    (hx : c'.text = y ++ x) (hb : Detached b) :
    ∃ z, c.text = z ++ x ∧
      Takes r ⟨c.stack, c.offset, z ++ b⟩ k ⟨c'.stack, c'.offset, y ++ b⟩ := by
  obtain ⟨gap, hg, ht, ho⟩ := h.text
  refine ⟨gap ++ (k.lexeme.text ++ y), by rw [ht, hx]; simp,
    ⟨⟨gap, hg, by simp, ho⟩, h.stop, h.word, fun u hu v hv hp => ?_, h.shift⟩⟩
  refine h.longest u hu v hv ?_
  rw [← List.append_assoc] at hp
  have := hb.prefix_of_word hv hp
  rw [hx, ← List.append_assoc]
  exact this.trans (List.prefix_append _ _)

/-- **Cutting a text does not change the tokens before the cut.** -/
theorem Reads.cut {c c' : Config} {ks : List Token} {y x b : List Char} (h : Reads r c ks c')
    (hx : c'.text = y ++ x) (hb : Detached b) :
    ∃ z, c.text = z ++ x ∧
      Reads r ⟨c.stack, c.offset, z ++ b⟩ ks ⟨c'.stack, c'.offset, y ++ b⟩ := by
  induction h with
  | nil => exact ⟨y, hx, .nil⟩
  | cons hk _ ih =>
    obtain ⟨z, hz, hr⟩ := ih hx
    obtain ⟨z', hz', hk'⟩ := hk.cut hz hb
    exact ⟨z', hz', .cons hk' hr⟩

/-! ## Staying stuck -/

/-- An acceptable terminal that is not shifted at once is a name or one of four brackets and commas.
-/
theorem State.mem_of_shift?_eq_none {s : State} {t : Terminal} (ht : t ∈ s.acceptable)
    (h : s.shift? t = none) :
    t ∈ [Terminal.name, .comma, .openParen, .closeParen, .closeSquare] := by
  have key : ∀ s ∈ all, ∀ t ∈ s.acceptable, s.shift? t = none →
      t ∈ [Terminal.name, .comma, .openParen, .closeParen, .closeSquare] := by decide +kernel
  exact key s (mem_all s) t ht h

/-- No other acceptable terminal of the state has a word that starts like one of such a terminal. -/
theorem Terminal.eq_of_starts {s : State} {t u : Terminal} (ht : t ∈ s.acceptable)
    (hu : u ∈ s.acceptable) (h : s.shift? t = none) {c : Char} {v w : List Char}
    (hv : c :: v ∈ t.words) (hw : c :: w ∈ u.words) : u = t := by
  have hm := State.mem_of_shift?_eq_none ht h
  by_contra hn
  rcases overlap ht hu (Ne.symm hn) (starts_of_cons_mem_words hv)
    (starts_of_cons_mem_words hw) with ⟨hts, hus⟩ | ⟨htn, -⟩
  · -- a bracket or comma is one character, so it would start the longer spelling
    obtain ⟨p, hp⟩ := Option.isSome_iff_exists.1 hts
    obtain ⟨q, hq⟩ := Option.isSome_iff_exists.1 hus
    rw [words_of_spelling? hp, mem_singleton_language] at hv
    rw [words_of_spelling? hq, mem_singleton_language] at hw
    have hl : p.toList.length = 1 := by
      simp only [List.mem_cons, List.not_mem_nil, or_false] at hm
      rcases hm with rfl | rfl | rfl | rfl | rfl <;> cases hp <;> rfl
    obtain rfl : v = [] := by
      rw [← hv] at hl
      simpa using hl
    obtain ⟨⟨p', -, hp', -⟩, -⟩ := prefix_of_spelling hp hq (Ne.symm hn)
      ⟨w, by rw [← hv, ← hw]; rfl⟩
    rw [hp'] at hm
    simp at hm
  · simp only [List.mem_cons, List.not_mem_nil, or_false] at hm
    rcases hm with rfl | rfl | rfl | rfl | rfl <;> cases htn

theorem shiftToken?_eq_none_iff {stack : List Frame} {k : Token} :
    shiftToken? r stack k = none ↔
      (top r (settle r (.token k.terminal) stack)).shift? k.terminal = none :=
  Option.map_eq_none_iff

/-- A text that does not start with white space is rejected, when it is cut behind a piece of it and
no token is in that piece. -/
theorem exists_error_of_not_takes {stack : List Frame} {offset : Nat} {gap z t : List Char}
    {x : Char} (hg : Gap gap) (hx : Text.isSpace x = false)
    (hk : ∀ k c', Takes r ⟨stack, offset, gap ++ (x :: z ++ ' ' :: t)⟩ k c' →
      ¬ k.lexeme.text <+: x :: z) :
    ∃ why, run r ⟨stack, offset, gap ++ (x :: z ++ ' ' :: t)⟩ = .error why := by
  rcases step_cases r ⟨stack, offset, gap ++ (x :: z ++ ' ' :: t)⟩ with
    ⟨k, c', ht, -⟩ | ⟨e, hg', -, -⟩ | ⟨why, -, hs⟩
  · exfalso
    obtain ⟨gap', hg', htext, -⟩ := ht.text
    obtain ⟨d, w, hw, -⟩ := Terminal.exists_of_mem_words ht.word
    have hword := ht.word
    rw [hw] at hword htext
    have h₁ := (@takeWhile_gap gap (z ++ ' ' :: t) x hg hx).2
    have h₂ := (@takeWhile_gap gap' (w ++ c'.text) d hg'
      (Terminal.isSpace_eq_false_of_cons_mem hword)).2
    dsimp only [List.cons_append] at htext
    rw [htext] at h₁
    have he : d :: w ++ c'.text = x :: z ++ ' ' :: t := h₂.symm.trans h₁
    refine hk k c' ht ?_
    rw [hw]
    exact (Detached.space t).prefix_of_word hword (he ▸ List.prefix_append _ _)
  · have := hg' x (by simp)
    rw [hx] at this
    cases this
  · exact ⟨why, run_of_reject hs⟩

/-- A token that has no place keeps every token out that starts like it. -/
theorem not_takes_of_starts {stack : List Frame} {k l : Token} {d : Char} {v w : List Char}
    (hk : k.terminal ∈ (top r stack).acceptable) (hs : shiftToken? r stack k = none)
    (hv : k.lexeme.text = d :: v) (hkw : k.lexeme.text ∈ k.terminal.words)
    (hw : l.lexeme.text = d :: w) (offset : Nat) (text : List Char) (c' : Config) :
    ¬ Takes r ⟨stack, offset, text⟩ l c' := by
  intro hl
  have hn : (top r stack).shift? k.terminal = none := by
    cases hq : (top r stack).shift? k.terminal with
    | none => rfl
    | some q =>
      rw [shiftToken?_eq_none_iff, settle_of_shift? hq, hq] at hs
      cases hs
  have hacc := State.mem_acceptable.2 (acts_of_shiftToken? hl.shift)
  have hlk : l.terminal = k.terminal :=
    Terminal.eq_of_starts hk hacc hn (hv ▸ hkw) (hw ▸ hl.word)
  have hsl := hl.shift
  rw [shiftToken?_eq_none_iff, ← hlk, ← shiftToken?_eq_none_iff] at hs
  exact absurd (hs.symm.trans hsl) (by simp)

/-- **Where a step is stuck, it stays so.** The text of the point is white space and then a rest,
and whatever piece of the rest is kept before a space, the text is rejected. -/
theorem Stuck.exists_split {c : Config} {why : Rejection} (h : Stuck r c why) :
    ∃ gap rest, Gap gap ∧ c.text = gap ++ rest ∧ why.offset = c.offset + gap.length ∧
      (rest = [] ↔ why.found? = none) ∧ ∀ y x, y ≠ [] → rest = y ++ x → ∀ t, ∃ why',
        run r ⟨c.stack, c.offset, gap ++ (y ++ ' ' :: t)⟩ = .error why' := by
  cases h with
  | incomplete hg ha =>
    refine ⟨c.text, [], hg, by simp, rfl, by simp [Rejection.found?], fun y x hy he => ?_⟩
    exact absurd (List.append_eq_nil_iff.1 he.symm).1 hy
  | @unreadable gap rest x hg ht hx hw =>
    refine ⟨gap, x :: rest, hg, ht, rfl, by simp [Rejection.found?], fun y x' hy he t => ?_⟩
    obtain ⟨d, z, rfl⟩ := List.exists_cons_of_ne_nil hy
    obtain ⟨rfl, -⟩ := List.cons.inj he
    refine exists_error_of_not_takes hg hx fun k c' hk hp => ?_
    have hacc := State.mem_acceptable.2 (acts_of_shiftToken? hk.shift)
    exact hw _ hacc _ hk.word (he ▸ hp.trans (List.prefix_append _ _))
  | @misplaced gap rest k hg ht ho hw hk hs =>
    obtain ⟨d, w, hdw, -⟩ := Terminal.exists_of_mem_words hw
    have hd : Text.isSpace d = false := Terminal.isSpace_eq_false_of_mem_words hw d (by simp [hdw])
    rw [hdw] at ht
    refine ⟨gap, d :: w ++ rest, hg, ht, ho, by simp [Rejection.found?], fun y x' hy he t => ?_⟩
    obtain ⟨d', z, rfl⟩ := List.exists_cons_of_ne_nil hy
    obtain ⟨rfl, -⟩ := List.cons.inj he
    refine exists_error_of_not_takes hg hd fun l c' hl hp => ?_
    obtain ⟨d', w', hdw', -⟩ := Terminal.exists_of_mem_words hl.word
    obtain ⟨rfl, -⟩ := List.cons_prefix_cons.1 (hdw' ▸ hp)
    exact not_takes_of_starts hk hs hdw hw hdw' _ _ c' hl

/-! ## The offset of an error -/

theorem quoteFor_ne (text : List Char) : Text.quoteFor text ≠ 'e' := by
  unfold Text.quoteFor
  split <;> decide

/-- The message starts with the end of the text exactly when that is what was found. -/
theorem Rejection.prefix_message_iff (why : Rejection) :
    "unexpected end of input".toList <+: why.message.toList ↔ why.found? = none := by
  have hu : "unexpected end of input".toList = "unexpected ".toList ++ "end of input".toList := by
    decide
  unfold message
  cases hf : why.found? with
  | none =>
    simp only [String.toList_append, iff_true]
    rw [hu]
    exact List.prefix_append _ _
  | some piece =>
    simp only [String.toList_append, String.toList_ofList, reduceCtorEq, iff_false]
    rw [hu, List.append_assoc, List.prefix_append_right_inj, Text.quoted]
    intro hp
    have he : "end of input".toList = 'e' :: "nd of input".toList := by decide
    rw [he, List.cons_append, List.cons_prefix_cons] at hp
    exact quoteFor_ne piece hp.1.symm

/-- **Where a text is rejected**, the text up to there can be completed behind a space, and no
longer piece of it can. -/
theorem exists_cut_of_read_error {text : List Char} {why : Rejection}
    (h : read r text = .error why) : ∃ a b, text = a ++ b ∧ why.offset = a.length ∧
      (b = [] ↔ why.found? = none) ∧ (∃ t, Accepted r (a ++ ' ' :: t)) ∧
      ∀ y x, y ≠ [] → b = y ++ x → ∀ t, ¬ Accepted r (a ++ y ++ ' ' :: t) := by
  obtain ⟨ks, c, hks, hw, -⟩ := exists_stuck_of_read h
  obtain ⟨t, ht, -, ho⟩ := hks.spells
  obtain ⟨gap, rest, hg, hc, hoff, hfound, hstuck⟩ := hw.exists_split
  dsimp only at ht ho
  have hsplit : text = t ++ gap ++ rest := by rw [ht, hc, List.append_assoc]
  refine ⟨t ++ gap, rest, hsplit, ?_, hfound, ?_, fun y x hy hr u => ?_⟩
  · rw [hoff, ho, List.length_append, Nat.zero_add]
  · simpa only [List.append_assoc] using hks.exists_accepted ht hg
  · -- the tokens before the cut are read as they were, and then the run is stuck as it was
    obtain ⟨z, hz, hcut⟩ := hks.cut (y := gap ++ y) (x := x)
      (by rw [hc, hr, List.append_assoc]) (Detached.space u)
    obtain rfl : z = t ++ gap ++ y := by
      have hx : z ++ x = t ++ gap ++ y ++ x := by rw [← hz, hsplit, hr, List.append_assoc _ y]
      exact List.append_cancel_right hx
    obtain ⟨why', hwhy'⟩ := hstuck y x hy hr u
    have hrun := hcut.run_eq
    rw [List.append_assoc gap, hwhy'] at hrun
    exact not_accepted_of_read_error hrun

/-- **The offset of an error** is the length of the longest piece at the start of the text that some
text behind a space completes to an accepted one. The error is reported as the end of the text
exactly when that is the whole text, and then it is an unterminated construct. -/
theorem isGreatest_errorOffset {text : List Char} (h : ¬ Accepted r text) :
    ∃ (error : SignatureError) (o : Nat), parse r text = .error (.signature error) ∧
      error.span.offset = o ∧
      IsGreatest {p | p ≤ text.length ∧ ∃ t, Accepted r (text.take p ++ ' ' :: t)} o ∧
      ("unexpected end of input".toList <+: error.message.toList ↔
        ∃ t, Accepted r (text ++ ' ' :: t)) ∧
      ((∃ t, Accepted r (text ++ ' ' :: t)) →
        error.kind = .unterminatedConstruct ∧ o = text.length) := by
  cases hread : read r text with
  | ok e => exact absurd (accepted_iff.2 ⟨e, hread⟩) h
  | error why =>
    obtain ⟨a, b, rfl, hoff, hfound, hmem, hmax⟩ := exists_cut_of_read_error hread
    have hend : (∃ t, Accepted r (a ++ b ++ ' ' :: t)) ↔ b = [] := by
      constructor
      · rintro ⟨t, ht⟩
        by_contra hb
        exact hmax b [] hb (by simp) t ht
      · rintro rfl
        simpa using hmem
    refine ⟨_, why.offset, parse_of_read_error hread, rfl, ⟨⟨?_, ?_⟩, ?_⟩, ?_, ?_⟩
    · rw [hoff, List.length_append]
      omega
    · rw [hoff, List.take_left]
      exact hmem
    · rintro p ⟨hp, t, ht⟩
      by_contra hlt
      rw [List.length_append] at hp
      rw [List.take_append, List.take_of_length_le (by omega)] at ht
      refine hmax _ (b.drop (p - a.length)) ?_ (List.take_append_drop _ _).symm t ht
      intro hn
      have := congrArg List.length hn
      rw [List.length_take, List.length_nil] at this
      omega
    · rw [hend, hfound]
      exact why.prefix_message_iff
    · rw [hend]
      rintro rfl
      refine ⟨?_, by simpa using hoff⟩
      change why.kind = _
      simp [Rejection.kind, hfound.1 rfl]

theorem isGreatest_errorOffset_tru : ¬ Accepted .literal "  tru".toList ∧
    ∃ (error : SignatureError) (o : Nat),
      parse .literal "  tru".toList = .error (.signature error) ∧ error.span.offset = o ∧
      IsGreatest {p | p ≤ "  tru".toList.length ∧
        ∃ t, Accepted .literal ("  tru".toList.take p ++ ' ' :: t)} o ∧
      ("unexpected end of input".toList <+: error.message.toList ↔
        ∃ t, Accepted .literal ("  tru".toList ++ ' ' :: t)) ∧
      ((∃ t, Accepted .literal ("  tru".toList ++ ' ' :: t)) →
        error.kind = .unterminatedConstruct ∧ o = "  tru".toList.length) := by
  have h : ¬ Accepted .literal "  tru".toList := not_accepted_of_read_error (run_of_reject rfl)
  exact ⟨h, isGreatest_errorOffset h⟩

end TensorSig
