import Mathlib.Data.List.TakeWhile
import TensorSig.Proofs.Spelling

/-!
# Reading

What a run of the automaton does on a text, put in terms of tokens. The run takes the longest word
at each point; the texts that are accepted are those that spell a sequence of tokens derived from
the start symbol, provided that no token runs into the next one.

* `Takes`, `Stuck`: what one step does; `step_cases` says that it does one of these.
* `Reads`: several tokens taken one after the other; `exists_reads` says that every run is of this
  kind up to its last step.
* `Reads.spells`, `Reads.apart`: what is read spells tokens of which none runs into the next.
* `exists_reads_of_spells`: conversely, tokens that the automaton can be fed with are read from the
  texts that spell them.
* `read_eq_ok_iff`, `exists_stuck_of_read`: the texts that are accepted, with their expressions, and
  those that are rejected.
-/

namespace TensorSig

variable {r : StartRule}

/-! ## One step -/

/-- The text of a point starts, after white space, with the longest word of an acceptable terminal,
and the token is shifted. -/
structure Takes (r : StartRule) (c : Config) (k : Token) (c' : Config) : Prop where
  text : ∃ gap, Gap gap ∧ c.text = gap ++ (k.lexeme.text ++ c'.text) ∧
    k.lexeme.offset = c.offset + gap.length
  stop : c'.offset = k.stop
  word : k.lexeme.text ∈ k.terminal.words
  longest : ∀ u ∈ (top r c.stack).acceptable, ∀ v ∈ u.words, v <+: k.lexeme.text ++ c'.text →
    v.length ≤ k.lexeme.text.length
  shift : shiftToken? r c.stack k = some c'.stack

/-- The ways in which a step rejects the text of a point. -/
inductive Stuck (r : StartRule) (c : Config) : Rejection → Prop
  /-- Only white space is left, and the start symbol is not alone on the stack. -/
  | incomplete : Gap c.text → accepted? r (settle r .endOfText c.stack) = none →
      Stuck r c (.incomplete (c.offset + c.text.length)
        (top r (settle r .endOfText c.stack)).expected)
  /-- No word of an acceptable terminal follows. -/
  | unreadable {gap rest : List Char} {x : Char} : Gap gap → c.text = gap ++ x :: rest →
      Text.isSpace x = false →
      (∀ u ∈ (top r c.stack).acceptable, ∀ v ∈ u.words, ¬ v <+: x :: rest) →
      Stuck r c (.unreadable (c.offset + gap.length) (strayLexeme (x :: rest))
        (top r c.stack).acceptable)
  /-- A word of an acceptable terminal follows that cannot be shifted after the reductions. -/
  | misplaced {gap rest : List Char} {k : Token} : Gap gap →
      c.text = gap ++ (k.lexeme.text ++ rest) → k.lexeme.offset = c.offset + gap.length →
      k.lexeme.text ∈ k.terminal.words → k.terminal ∈ (top r c.stack).acceptable →
      shiftToken? r c.stack k = none →
      Stuck r c (.misplaced k.lexeme.offset k.lexeme.text
        (top r (settle r (.token k.terminal) c.stack)).expected)

theorem isSpace_head_eq_false {text rest : List Char} {x : Char}
    (h : text.dropWhile Text.isSpace = x :: rest) : Text.isSpace x = false := by
  have := List.head?_dropWhile_not Text.isSpace text
  rw [h] at this
  simpa using this

theorem gap_takeWhile (text : List Char) : Gap (text.takeWhile Text.isSpace) :=
  List.all_eq_true.1 List.all_takeWhile

/-- **What a step does**: it takes a token, accepts at the end of the text, or is stuck. -/
theorem step_cases (r : StartRule) (c : Config) : (∃ k c', Takes r c k c' ∧ step r c = .shift c') ∨
    (∃ e, Gap c.text ∧ accepted? r (settle r .endOfText c.stack) = some e ∧
      step r c = .accept e) ∨
    ∃ why, Stuck r c why ∧ step r c = .reject why := by
  have hsplit : c.text.takeWhile Text.isSpace ++ c.text.dropWhile Text.isSpace = c.text :=
    List.takeWhile_append_dropWhile
  have hg := gap_takeWhile c.text
  cases hd : c.text.dropWhile Text.isSpace with
  | nil =>
    rw [hd, List.append_nil] at hsplit
    rw [hsplit] at hg
    cases ha : accepted? r (settle r .endOfText c.stack) with
    | some e => exact Or.inr (Or.inl ⟨e, hg, rfl, by simp [step, hd, ha]⟩)
    | none =>
      exact Or.inr (Or.inr ⟨_, .incomplete hg ha, by simp [step, hd, ha, hsplit]⟩)
  | cons x rest =>
    rw [hd] at hsplit
    cases hf : firstLexeme? (top r c.stack).acceptable (x :: rest) with
    | none =>
      refine Or.inr (Or.inr ⟨_, .unreadable hg hsplit.symm (isSpace_head_eq_false hd)
        (firstLexeme?_eq_none_iff.1 hf), ?_⟩)
      simp [step, hd, hf]
    | some found =>
      obtain ⟨t, w, rest'⟩ := found
      obtain ⟨ht, hw, hwr, hl⟩ := firstLexeme?_eq_some_iff.1 hf
      have htext : c.text = c.text.takeWhile Text.isSpace ++ (w ++ rest') := by rw [hwr, hsplit]
      cases hs : (top r (settle r (.token t) c.stack)).shift? t with
      | none =>
        refine Or.inr (Or.inr ⟨_, .misplaced
          (k := ⟨t, ⟨w, c.offset + (c.text.takeWhile Text.isSpace).length⟩⟩) hg htext rfl hw ht
          (Option.map_eq_none_iff.2 hs), ?_⟩)
        simp [step, hd, hf, hs]
      | some q =>
        refine Or.inl ⟨⟨t, ⟨w, c.offset + (c.text.takeWhile Text.isSpace).length⟩⟩, ⟨_, _, rest'⟩,
          ⟨⟨_, hg, htext, rfl⟩, rfl, hw, by rw [hwr]; exact hl,
            Option.map_eq_some_iff.2 ⟨q, hs, rfl⟩⟩, ?_⟩
        simp [step, hd, hf, hs]

theorem Takes.step_eq {c c' : Config} {k : Token} (h : Takes r c k c') :
    step r c = .shift c' := by
  obtain ⟨gap, hg, ht, ho⟩ := h.text
  obtain ⟨x, w, hxw, hx⟩ := Terminal.exists_of_mem_words h.word
  have hword := h.word
  rw [hxw] at hword
  have hsp : Text.isSpace x = false := Terminal.isSpace_eq_false_of_cons_mem hword
  have hf : firstLexeme? (top r c.stack).acceptable (k.lexeme.text ++ c'.text) =
      some (k.terminal, k.lexeme.text, c'.text) :=
    firstLexeme?_eq_some_iff.2 ⟨State.mem_acceptable.2 (acts_of_shiftToken? h.shift), h.word, rfl,
      h.longest⟩
  obtain ⟨q, hq, hstack⟩ := Option.map_eq_some_iff.1 h.shift
  rw [hxw, List.cons_append] at ht hf
  have hsplit := @takeWhile_gap gap (w ++ c'.text) x hg hsp
  rw [← ht] at hsplit
  obtain ⟨h₁, h₂⟩ := hsplit
  obtain ⟨stack, offset, text⟩ := c'
  obtain ⟨t, w', o⟩ := k
  obtain rfl : w' = x :: w := hxw
  obtain rfl : o = c.offset + gap.length := ho
  obtain rfl : _ = stack := hstack
  obtain rfl : offset = _ := h.stop
  simp only [step, h₁, h₂, hf, hq, List.isEmpty_cons, Bool.false_eq_true, if_false, Token.stop]

theorem step_of_gap {c : Config} {e : r.Expr} (hg : Gap c.text)
    (ha : accepted? r (settle r .endOfText c.stack) = some e) : step r c = .accept e := by
  have hd : c.text.dropWhile Text.isSpace = [] := List.dropWhile_eq_nil_iff.2 hg
  simp [step, hd, ha]

/-! ## Several steps -/

/-- Tokens that are taken one after the other. -/
inductive Reads (r : StartRule) : Config → List Token → Config → Prop
  | nil {c : Config} : Reads r c [] c
  | cons {c c₁ c' : Config} {k : Token} {ks : List Token} :
      Takes r c k c₁ → Reads r c₁ ks c' → Reads r c (k :: ks) c'

/-- **Every run is a sequence of tokens** up to its last step. -/
theorem exists_reads (r : StartRule) (c : Config) : ∃ ks c', Reads r c ks c' ∧
    ((∃ e, Gap c'.text ∧ accepted? r (settle r .endOfText c'.stack) = some e ∧
      run r c = .ok e) ∨ ∃ why, Stuck r c' why ∧ step r c' = .reject why ∧
        run r c = .error why) := by
  induction hn : c.text.length using Nat.strong_induction_on generalizing c with
  | _ n ih =>
    rcases step_cases r c with ⟨k, c₁, ht, hs⟩ | ⟨e, hg, ha, hs⟩ | ⟨why, hw, hs⟩
    · obtain ⟨ks, c', hr, h⟩ := ih _ (hn ▸ length_lt_of_step hs) c₁ rfl
      refine ⟨k :: ks, c', .cons ht hr, ?_⟩
      rw [run_of_shift hs]
      exact h
    · exact ⟨[], c, .nil, Or.inl ⟨e, hg, ha, run_of_accept hs⟩⟩
    · exact ⟨[], c, .nil, Or.inr ⟨why, hw, hs, run_of_reject hs⟩⟩

namespace Reads

variable {c c' : Config} {ks : List Token}

theorem run_eq (h : Reads r c ks c') : run r c = run r c' := by
  induction h with
  | nil => rfl
  | cons ht _ ih => rw [run_of_shift ht.step_eq, ih]

theorem feed? (h : Reads r c ks c') : feed? r c.stack ks = some c'.stack := by
  induction h with
  | nil => rfl
  | cons ht _ ih => rw [TensorSig.feed?, ht.shift, Option.bind_some, ih]

theorem append {c₁ : Config} {ls : List Token} (h : Reads r c ks c₁) (h' : Reads r c₁ ls c') :
    Reads r c (ks ++ ls) c' := by
  induction h with
  | nil => exact h'
  | cons ht _ ih => exact .cons ht (ih h')

/-- What is read spells the tokens. -/
theorem spells (h : Reads r c ks c') : ∃ t, c.text = t ++ c'.text ∧ Spells c.offset ks t ∧
    c'.offset = c.offset + t.length := by
  induction h with
  | nil => exact ⟨[], rfl, .nil .nil, rfl⟩
  | @cons c c₁ c' k ks ht _ ih =>
    obtain ⟨t, h₁, hs, ho⟩ := ih
    obtain ⟨gap, hg, h₂, hk⟩ := ht.text
    refine ⟨gap ++ (k.lexeme.text ++ t), by rw [h₂, h₁]; simp, .cons hg ht.word hk ?_, ?_⟩
    · rw [← ht.stop]
      exact hs
    · rw [ho, ht.stop, Token.stop_add hk]

end Reads

/-- No token runs into the one that is taken after it, since it would have been read as a longer
word. -/
theorem Takes.not_runsInto {c c₁ c₂ : Config} {k l : Token} (hk : Takes r c k c₁)
    (hl : Takes r c₁ l c₂) : ¬ k.RunsInto l := by
  rintro ⟨ho, p, q, hp, hlt, hpre⟩
  obtain ⟨gap, -, ht, hgo⟩ := hl.text
  obtain rfl : gap = [] := by
    apply List.eq_nil_of_length_eq_zero
    rw [ho, hk.stop] at hgo
    omega
  have hkt : k.lexeme.text = p.spelling.toList := by
    have := hk.word
    rw [hp] at this
    exact mem_singleton_language.1 this
  have hacc : Terminal.plain q ∈ (top r c.stack).acceptable :=
    State.plain_mem_acceptable (p := p) (hp ▸ State.mem_acceptable.2 (acts_of_shiftToken? hk.shift))
  have := hk.longest _ hacc q.spelling.toList rfl (by
    rw [ht, hkt, List.nil_append, ← List.append_assoc]
    exact hpre.trans (List.prefix_append _ _))
  rw [hkt] at this
  omega

theorem Reads.apart {c c' : Config} {ks : List Token} (h : Reads r c ks c') : Apart ks := by
  induction h with
  | nil => exact .nil
  | @cons c c₁ c' k ks ht hr ih =>
    cases hr with
    | nil => exact .singleton k
    | cons ht' _ => exact List.isChain_cons_cons.2 ⟨ht.not_runsInto ht', ih⟩

/-! ## From tokens to runs -/

/-- Characters that go on with a word of a terminal are no white space. -/
theorem isSpace_eq_false_of_body {t : Terminal} {c : Char} (h : t.body c = true) :
    Text.isSpace c = false := by
  rw [Bool.eq_false_iff]
  intro hs
  obtain ⟨h₁, h₂⟩ := Terminal.part_eq_false_of_isBlank (Text.isBlank_of_isSpace hs)
  have h₃ : c.isDigit = false := by
    rw [Terminal.isNumeralPart] at h₁
    simp_all
  unfold Terminal.body at h
  split at h <;> simp_all

/-- Characters that go on with a word of a token do not go beyond it into the tokens behind. -/
theorem prefix_of_body {stack stack₁ stack₂ : List Frame} {k : Token} {ks : List Token}
    {w y rest : List Char} (hk : shiftToken? r stack k = some stack₁)
    (hf : feed? r stack₁ ks = some stack₂) (hs : Spells k.stop ks rest)
    (hy : ∀ c ∈ y, k.terminal.body c = true) (hp : y <+: w ++ rest) : y <+: w := by
  rcases List.prefix_or_prefix_of_prefix hp (List.prefix_append w rest) with h | ⟨x, rfl⟩
  · exact h
  rw [List.prefix_append_right_inj] at hp
  cases x with
  | nil => simp
  | cons c x =>
    obtain ⟨z, rfl⟩ := hp
    have hc : k.terminal.body c = true := hy c (by simp)
    obtain ⟨l, ls, w', rest', rfl, -, -, hl, -⟩ := hs.exists_of_cons (isSpace_eq_false_of_body hc)
    obtain ⟨stack₃, hl₃, -⟩ := Option.bind_eq_some_iff.1 hf
    obtain ⟨q, hq, rfl⟩ := Option.map_eq_some_iff.1 hk
    have := Terminal.body_eq_false_of_next hq (State.mem_acceptable.2 (acts_of_shiftToken? hl₃)) hl
    rw [hc] at this
    cases this

/-- The word of a token is the longest one where the tokens after it, spelled behind it, can follow
and it does not run into the first of them. -/
theorem longest_of_spells {stack stack₁ stack₂ : List Frame} {k : Token} {ks : List Token}
    {rest : List Char} (hk : shiftToken? r stack k = some stack₁)
    (hw : k.lexeme.text ∈ k.terminal.words) (hf : feed? r stack₁ ks = some stack₂)
    (hs : Spells k.stop ks rest) (hn : ∀ l ∈ ks.head?, ¬ k.RunsInto l) :
    ∀ u ∈ (top r stack).acceptable, ∀ v ∈ u.words, v <+: k.lexeme.text ++ rest →
      v.length ≤ k.lexeme.text.length := by
  intro u hu v hv hp
  by_contra hlt
  obtain ⟨x, rfl⟩ := List.prefix_of_prefix_length_le (List.prefix_append _ rest) hp (by omega)
  rw [List.prefix_append_right_inj] at hp
  cases x with
  | nil => simp at hlt
  | cons c y =>
    obtain ⟨z, rfl⟩ := hp
    -- the longer word goes on with the first character of the next token
    have hc : Text.isSpace c = false := Terminal.isSpace_eq_false_of_mem_words hv c (by simp)
    obtain ⟨l, ls, w, rest', rfl, hl, hyz, hlw, hs'⟩ := hs.exists_of_cons hc
    obtain ⟨stack₃, hl₃, hls⟩ := Option.bind_eq_some_iff.1 hf
    obtain ⟨q, hq, rfl⟩ := Option.map_eq_some_iff.1 hk
    have hlq : l.terminal ∈ q.acceptable := State.mem_acceptable.2 (acts_of_shiftToken? hl₃)
    have hacc := State.mem_acceptable.2 (acts_of_shiftToken? hk)
    rcases Terminal.body_of_append_mem hacc hu hw hv with ⟨p, p', hkp, rfl⟩ | hb
    · -- both are words of types, so the next token is a name and makes the word longer
      rw [hkp] at hw hq
      obtain rfl := State.eq_of_shift?_plain hq
      have hkt : k.lexeme.text = p.spelling.toList := hw
      have hp' : p.spelling.toList ++ c :: y = p'.spelling.toList := hkt ▸ hv
      obtain ⟨hcm, hy⟩ := PlainType.mem_of_append hp'
      have hname := State.eq_name_of_mem_acceptable_plain hlq hlw hcm
      refine hn l rfl ⟨by rw [hl], p, p', hkp, ?_, ?_⟩
      · rw [← hp', List.length_append, List.length_cons]
        omega
      · rw [← hp', hl, List.prefix_append_right_inj, List.cons_prefix_cons]
        refine ⟨rfl, ?_⟩
        refine prefix_of_body hl₃ hls hs' (by rw [hname]; exact hy) ?_
        exact hyz ▸ List.prefix_append y z
    · have := Terminal.body_eq_false_of_next hq hlq hlw
      rw [hb] at this
      cases this

/-- **Tokens that can be fed are read** from a text that spells them, as long as none of them runs
into the next one. What comes after them in the text may be any tokens that can be fed. -/
theorem exists_reads_of_spells {stack stack' : List Frame} {offset : Nat} {ks ls : List Token}
    {text : List Char} (hs : Spells offset (ks ++ ls) text)
    (hf : feed? r stack (ks ++ ls) = some stack') (ha : Apart (ks ++ ls.take 1)) :
    ∃ c', Reads r ⟨stack, offset, text⟩ ks c' ∧ feed? r c'.stack ls = some stack' ∧
      Spells c'.offset ls c'.text := by
  induction ks generalizing stack offset text with
  | nil => exact ⟨_, .nil, hf, hs⟩
  | cons k ks ih =>
    obtain ⟨stack₁, hk, hf⟩ := Option.bind_eq_some_iff.1 hf
    cases hs with
    | @cons _ gap rest _ _ hg hw ho hs =>
      obtain ⟨c', hr, h⟩ := ih hs hf ha.tail
      refine ⟨c', .cons ⟨⟨gap, hg, rfl, ho⟩, rfl, hw, ?_, hk⟩ hr, h⟩
      refine longest_of_spells hk hw hf hs fun l hl => ?_
      have hl' : l ∈ (ks ++ ls.take 1).head? := by
        cases ks with
        | nil => cases ls with
          | nil => exact hl
          | cons l' ls => exact hl
        | cons k' ks => exact hl
      exact (List.isChain_cons.1 ha).1 l hl'

/-- Tokens derived from the start symbol are read from a text that spells them, as long as none of
them runs into the next one, and then the text is accepted. -/
theorem exists_reads_of_derives {text : List Char} {ks : List Token} {e : r.Expr}
    (hs : Spells 0 ks text) (ha : Apart ks) (hd : Derives [.nonterminal r.nonterminal] ks (e, ())) :
    ∃ c', Reads r ⟨[], 0, text⟩ ks c' ∧ step r c' = .accept e := by
  obtain ⟨stack, hf, hacc⟩ := hd.recognizes
  rw [← List.append_nil ks] at hs hf ha
  obtain ⟨c', hr, hf', hs'⟩ := exists_reads_of_spells hs hf ha
  obtain rfl : c'.stack = stack := Option.some.inj hf'
  cases hs' with
  | nil hg => exact ⟨c', hr, step_of_gap hg hacc⟩

/-- **The accepted texts** are those that spell tokens derived from the start symbol of which none
runs into the next. -/
theorem read_eq_ok_iff {text : List Char} {e : r.Expr} : read r text = .ok e ↔
    ∃ ks, Spells 0 ks text ∧ Apart ks ∧ Derives [.nonterminal r.nonterminal] ks (e, ()) := by
  constructor
  · intro h
    obtain ⟨ks, c', hr, h'⟩ := exists_reads r ⟨[], 0, text⟩
    rw [show run r ⟨[], 0, text⟩ = .ok e from h] at h'
    rcases h' with ⟨e', hg, ha, he⟩ | ⟨why, -, -, he⟩
    · obtain rfl := Except.ok.inj he
      obtain ⟨t, ht, hs, -⟩ := hr.spells
      refine ⟨ks, ?_, hr.apart, Recognizes.derives ⟨_, hr.feed?, ha⟩⟩
      have := hs.append (.nil hg)
      rw [List.append_nil, ← ht] at this
      exact this
    · cases he
  · rintro ⟨ks, hs, ha, hd⟩
    obtain ⟨c', hr, hacc⟩ := exists_reads_of_derives hs ha hd
    rw [read, hr.run_eq]
    exact run_of_accept hacc

/-- A rejected text is read up to a point where the run is stuck. -/
theorem exists_stuck_of_read {text : List Char} {why : Rejection} (h : read r text = .error why) :
    ∃ ks c, Reads r ⟨[], 0, text⟩ ks c ∧ Stuck r c why ∧ step r c = .reject why := by
  obtain ⟨ks, c, hr, hend⟩ := exists_reads r ⟨[], 0, text⟩
  rw [show run r ⟨[], 0, text⟩ = .error why from h] at hend
  rcases hend with ⟨e, -, -, he⟩ | ⟨why', hw, hs, he⟩
  · cases he
  · obtain rfl := Except.error.inj he
    exact ⟨ks, c, hr, hw, hs⟩

end TensorSig
