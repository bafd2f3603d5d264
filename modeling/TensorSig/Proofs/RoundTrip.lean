import TensorSig.Proofs.Meaning
import TensorSig.Proofs.Reading

/-!
# Texts and what they stand for

Parsing and the notation agree. What a text is parsed as is written in it, and every text in which a
value is written is parsed as that value, unless the word of a type runs into the name after it:
then the longer word is read, and the text stands for something else.

* `parse_eq_ok_iff`: a text is parsed as the values written with tokens that it spells, none of
  which runs into the next.
* `StartRule.Writes.unique`: tokens are the notation of at most one value.
* `Apart.exists_of_not`, `apart_of_parse`: a text in which a token runs into the next is not parsed
  as what is written with those tokens.
* `exists_notation_of_parse`: whatever is parsed is written.
* `parse_notation_iff`: whatever is written is parsed, as long as no token runs into the next.
-/

namespace TensorSig

variable {r : StartRule}

/-! ## Parsed values -/

theorem parse_eq_ok_iff_read {text : List Char} {v : r.Result} :
    parse r text = .ok v ↔ ∃ e, read r text = .ok e ∧ r.denote e = .ok v := by
  unfold parse
  cases hr : read r text with
  | error why => simp
  | ok e => cases hd : r.denote e <;> simp [hd]

/-- Parsing is reading the notation of values, with words as long as possible. -/
theorem parse_eq_ok_iff {text : List Char} {v : r.Result} : parse r text = .ok v ↔
    ∃ ks, Spells 0 ks text ∧ Apart ks ∧ r.Writes v ks := by
  rw [parse_eq_ok_iff_read]
  constructor
  · rintro ⟨e, he, hv⟩
    obtain ⟨ks, hs, ha, hd⟩ := read_eq_ok_iff.1 he
    exact ⟨ks, hs, ha, hd.writes hv⟩
  · rintro ⟨ks, hs, ha, hw⟩
    obtain ⟨e, hd, hv⟩ := hw.exists_derives
    exact ⟨e, read_eq_ok_iff.2 ⟨ks, hs, ha, hd⟩, hv⟩

/-- Tokens are derived with one expression only, since the automaton is deterministic. -/
theorem Derives.unique {ks : List Token} {e e' : r.Expr}
    (h : Derives [.nonterminal r.nonterminal] ks (e, ()))
    (h' : Derives [.nonterminal r.nonterminal] ks (e', ())) : e = e' := by
  obtain ⟨stack, hf, ha⟩ := h.recognizes
  obtain ⟨stack', hf', ha'⟩ := h'.recognizes
  obtain rfl := Option.some.inj (hf.symm.trans hf')
  exact Option.some.inj (ha.symm.trans ha')

/-- **Tokens are the notation of one value** at most. -/
theorem StartRule.Writes.unique {ks : List Token} {v v' : r.Result} (h : r.Writes v ks)
    (h' : r.Writes v' ks) : v = v' := by
  obtain ⟨e, hd, hv⟩ := h.exists_derives
  obtain ⟨e', hd', hv'⟩ := h'.exists_derives
  obtain rfl := hd.unique hd'
  exact Except.ok.inj (hv.symm.trans hv')

/-- **Whatever is parsed is written.** A text that yields a value consists of tokens with white
space around them, in which that value is written and no other, and no token of which could be taken
for a longer one together with the next. -/
theorem exists_notation_of_parse {text : List Char} {v : r.Result} (h : parse r text = .ok v) :
    ∃ ks, Spells 0 ks text ∧ Apart ks ∧ r.Writes v ks ∧ ∀ v', r.Writes v' ks → v' = v := by
  obtain ⟨ks, hs, ha, hw⟩ := parse_eq_ok_iff.1 h
  exact ⟨ks, hs, ha, hw, fun v' hw' => hw'.unique hw⟩

theorem exists_notation_of_parse_tuple :
    ∃ v, parse .type "(Tensor, TensorList)".toList = .ok v ∧
      ∃ ks, Spells 0 ks "(Tensor, TensorList)".toList ∧ Apart ks ∧ StartRule.type.Writes v ks ∧
        ∀ v', StartRule.type.Writes v' ks → v' = v := by
  have hp : parse .type "(Tensor, TensorList)".toList =
      .ok (.tuple [.tensor .tensor none, .tensor .tensorList none]) := by
    refine parse_eq_ok_iff.2 ⟨_, ?_, ?_, .tuple ⟨['('], 0⟩ ⟨[')'], 19⟩
      (.base (.word (.tensor .tensor) ⟨"Tensor".toList, 1⟩))
      (.cons ⟨[','], 7⟩ (.base (.word (.tensor .tensorList) ⟨"TensorList".toList, 9⟩)) .nil)⟩
    · refine @Spells.cons 0 [] _ _ _ .nil rfl rfl ?_
      refine @Spells.cons 1 [] _ _ _ .nil rfl rfl ?_
      refine @Spells.cons 7 [] _ _ _ .nil rfl rfl ?_
      refine @Spells.cons 8 [' '] _ _ _ (by decide) rfl rfl ?_
      exact @Spells.cons 19 [] _ _ _ .nil rfl rfl (.nil .nil)
    · decide
  exact ⟨_, hp, exists_notation_of_parse hp⟩

/-! ## Tokens that run into one another -/

/-- The first token that runs into the next one. -/
theorem Apart.exists_of_not {ks : List Token} (h : ¬ Apart ks) : ∃ us k l ls,
    ks = us ++ k :: l :: ls ∧ Apart (us ++ [k]) ∧ k.RunsInto l := by
  induction ks with
  | nil => exact absurd .nil h
  | cons k ks ih =>
    cases ks with
    | nil => exact absurd (.singleton k) h
    | cons l ls =>
      by_cases hr : k.RunsInto l
      · exact ⟨[], k, l, ls, rfl, .singleton k, hr⟩
      · obtain ⟨us, k', l', ls', he, ha, hr'⟩ :=
          ih fun h' => h (List.isChain_cons_cons.2 ⟨hr, h'⟩)
        refine ⟨k :: us, k', l', ls', by rw [he]; rfl, List.isChain_cons.2 ⟨?_, ha⟩, hr'⟩
        have hl : (us ++ [k']).head? = some l := by
          have := congrArg List.head? he
          cases us with
          | nil => exact this.symm
          | cons u us => exact this.symm
        intro l'' hl''
        obtain rfl : l = l'' := Option.some.inj (hl.symm.trans hl'')
        exact hr

/-- Where a token runs into the next, a longer word that starts with it is taken instead. -/
theorem Takes.exists_append {c c' : Config} {k l m : Token} {ls : List Token}
    (h : Takes r c m c') (hs : Spells c.offset (k :: l :: ls) c.text)
    (hacc : k.terminal ∈ (top r c.stack).acceptable) (hr : k.RunsInto l) :
    ∃ d y, m.lexeme.text = k.lexeme.text ++ d :: y := by
  obtain ⟨hlo, p, q, hp, hlt, hpre⟩ := hr
  obtain ⟨gap, hg, htext, -⟩ := h.text
  generalize c.text = text at hs htext
  cases hs with
  | @cons _ gap' rest _ _ hg' hw ho hs =>
    obtain ⟨-, hrest⟩ := hg'.append_inj hg hw h.word htext
    cases hs with
    | @cons _ gap'' rest _ _ _ _ hlo' _ =>
      obtain rfl : gap'' = [] := List.eq_nil_of_length_eq_zero (by omega)
      rw [List.nil_append] at hrest
      have hkp : k.lexeme.text = p.spelling.toList := by
        rw [hp] at hw
        exact mem_singleton_language.1 hw
      -- the longer word of a type starts the text, so no shorter one is taken
      have hq : q.spelling.toList.length ≤ m.lexeme.text.length := by
        refine h.longest (.plain q) (State.plain_mem_acceptable (p := p) (hp ▸ hacc)) _ rfl ?_
        rw [← hrest, hkp, ← List.append_assoc]
        exact hpre.trans (List.prefix_append _ _)
      rw [← hkp] at hlt
      have hkm : k.lexeme.text <+: m.lexeme.text ++ c'.text := hrest ▸ List.prefix_append _ _
      obtain ⟨x, hx⟩ : k.lexeme.text <+: m.lexeme.text :=
        List.prefix_of_prefix_length_le hkm (List.prefix_append _ _) (by omega)
      cases x with
      | nil =>
        rw [List.append_nil] at hx
        rw [hx] at hlt
        omega
      | cons d y => exact ⟨d, y, hx.symm⟩

/-- Where a token runs into the next, the word of another type is taken instead. -/
theorem Takes.exists_plain_ne {c c' : Config} {k l m : Token} {ls : List Token}
    {stack : List Frame} (h : Takes r c m c') (hs : Spells c.offset (k :: l :: ls) c.text)
    (hf : feed? r c.stack (k :: l :: ls) = some stack) (hr : k.RunsInto l) :
    ∃ p q, k.terminal = .plain p ∧ m.terminal = .plain q ∧ p ≠ q := by
  obtain ⟨stack₁, hk, -⟩ := Option.bind_eq_some_iff.1 hf
  have hacc := State.mem_acceptable.2 (acts_of_shiftToken? hk)
  have hacc' := State.mem_acceptable.2 (acts_of_shiftToken? h.shift)
  have hkw := hs.mem_words List.mem_cons_self
  have hmw := h.word
  obtain ⟨d, y, hx⟩ := h.exists_append hs hacc hr
  obtain ⟨-, p, -, hp, -⟩ := hr
  rw [hx] at hmw
  rcases Terminal.body_of_append_mem hacc hacc' hkw hmw with ⟨p, q, hp, hq⟩ | hb
  · refine ⟨p, q, hp, hq, ?_⟩
    rintro rfl
    rw [hp] at hkw
    rw [hq, mem_singleton_language.1 hkw] at hmw
    have := mem_singleton_language.1 hmw
    simp at this
  · rw [hp] at hb
    cases hb

/-- A text in which a token runs into the next is not parsed as what those tokens are a notation
of: the words of types differ. -/
theorem apart_of_parse {ks : List Token} {text : List Char} {v : r.Result} (hw : r.Writes v ks)
    (hs : Spells 0 ks text) (h : parse r text = .ok v) : Apart ks := by
  by_contra hn
  obtain ⟨us, k, l, ls, rfl, ha, hr⟩ := Apart.exists_of_not hn
  obtain ⟨e, hd, -⟩ := hw.exists_derives
  obtain ⟨stack, hf, -⟩ := hd.recognizes
  -- up to the token that runs into the next, the tokens are read as they are
  obtain ⟨c, hus, hfc, hsc⟩ := exists_reads_of_spells hs hf ha
  obtain ⟨e', he', hv⟩ := parse_eq_ok_iff_read.1 h
  obtain ⟨ms, c', hms, hrun⟩ := exists_reads r c
  rw [← hus.run_eq, show run r ⟨[], 0, text⟩ = .ok e' from he'] at hrun
  rcases hrun with ⟨e'', hg, hacc, he⟩ | ⟨why, -, -, he⟩
  · obtain rfl := Except.ok.inj he
    have hread := hus.append hms
    have hw' : r.Writes v (us ++ ms) :=
      Derives.writes (Recognizes.derives ⟨_, hread.feed?, hacc⟩) hv
    cases hms with
    | nil => exact absurd hg hsc.not_gap
    | @cons _ c₁ _ m ms ht _ =>
      obtain ⟨p, q, hp, hq, hpq⟩ := ht.exists_plain_ne hsc hfc hr
      have he : plainWords (us ++ k :: l :: ls) = plainWords (us ++ m :: ms) :=
        hw.words_eq.trans hw'.words_eq.symm
      obtain ⟨t, kl⟩ := k
      obtain ⟨u, ml⟩ := m
      obtain rfl : t = _ := hp
      obtain rfl : u = _ := hq
      rw [plainWords_append, plainWords_append, List.append_cancel_left_eq, plainWords,
        plainWords] at he
      exact hpq (List.cons.inj he).1
  · cases he

/-- **Whatever is written is parsed.** A text in which a value is written yields that value exactly
when no token of it runs into the next one. -/
theorem parse_notation_iff {text : List Char} {ks : List Token} {v : r.Result}
    (hw : r.Writes v ks) (hs : Spells 0 ks text) : parse r text = .ok v ↔ Apart ks :=
  ⟨apart_of_parse hw hs, fun ha => parse_eq_ok_iff.2 ⟨ks, hs, ha, hw⟩⟩

theorem parse_notation_iff_default :
    ∃ ks, StartRule.param.Writes (.parameter ⟨.scalar .bool, "flag", some (.bool false)⟩) ks ∧
      Spells 0 ks "bool\tflag=False".toList ∧
      (parse .param "bool\tflag=False".toList =
        .ok (.parameter ⟨.scalar .bool, "flag", some (.bool false)⟩) ↔ Apart ks) := by
  have hw : StartRule.param.Writes (.parameter ⟨.scalar .bool, "flag", some (.bool false)⟩)
      [⟨.plain (.scalar .bool), ⟨"bool".toList, 0⟩⟩, ⟨.name, ⟨"flag".toList, 5⟩⟩,
        ⟨.equal, ⟨['='], 9⟩⟩, ⟨.literal (.bool false), ⟨"False".toList, 10⟩⟩] :=
    .default ⟨"flag".toList, 5⟩ _ (.base (.word (.scalar .bool) _)) (.bool false _)
  have hs : Spells 0 [⟨.plain (.scalar .bool), ⟨"bool".toList, 0⟩⟩,
      ⟨.name, ⟨"flag".toList, 5⟩⟩, ⟨.equal, ⟨['='], 9⟩⟩,
      ⟨.literal (.bool false), ⟨"False".toList, 10⟩⟩] "bool\tflag=False".toList := by
    refine @Spells.cons 0 [] _ _ _ .nil rfl rfl ?_
    refine @Spells.cons 4 ['\t'] _ _ _ (by decide) (Terminal.mem_words_of_scan rfl) rfl ?_
    refine @Spells.cons 9 [] _ _ _ .nil rfl rfl ?_
    exact @Spells.cons 10 [] _ _ _ .nil (Terminal.mem_words_of_scan rfl) rfl (.nil .nil)
  exact ⟨_, hw, hs, parse_notation_iff hw hs⟩

/-- The word of a type and a name that stand side by side may be taken for the word of another type
and the rest of the name. -/
theorem parse_tensorListx_ne :
    ∃ ks, StartRule.param.Writes (.parameter ⟨.tensor .tensor none, "Listx", none⟩) ks ∧
      Spells 0 ks "TensorListx".toList ∧
      parse .param "TensorListx".toList ≠
        .ok (.parameter ⟨.tensor .tensor none, "Listx", none⟩) := by
  have hw : StartRule.param.Writes (.parameter ⟨.tensor .tensor none, "Listx", none⟩)
      [⟨.plain (.tensor .tensor), ⟨"Tensor".toList, 0⟩⟩, ⟨.name, ⟨"Listx".toList, 6⟩⟩] :=
    .plain ⟨"Listx".toList, 6⟩ (.base (.word (.tensor .tensor) _))
  have hs : Spells 0 [⟨.plain (.tensor .tensor), ⟨"Tensor".toList, 0⟩⟩,
      ⟨.name, ⟨"Listx".toList, 6⟩⟩] "TensorListx".toList := by
    refine @Spells.cons 0 [] _ _ _ .nil rfl rfl ?_
    exact @Spells.cons 6 [] _ _ _ .nil (Terminal.mem_words_of_scan rfl) rfl (.nil .nil)
  exact ⟨_, hw, hs, fun h => absurd (apart_of_parse hw hs h) (by decide)⟩

end TensorSig
