import Mathlib.Data.List.Chain
import TensorSig.Proofs.Derivation
import TensorSig.Proofs.Munch

/-!
# Spellings of tokens

A text spells a sequence of tokens when it is made of their words, one after the other, with any
white space around them. Two words may stand side by side, and then they can be taken for one: where
the word of a type runs into the next token, the beginning of which makes a longer word of it.

* `Gap`, `Spells`: white space, and the texts that spell tokens from an offset on.
* `Detached`: the texts that no word before them goes on into.
* `Spells.append`: texts side by side spell tokens side by side.
* `Token.RunsInto`, `Apart`: a token that is taken for a longer one together with the next, and
  sequences without such tokens.
-/

namespace TensorSig

/-- The offset of the character after a token. -/
def Token.stop (k : Token) : Nat := k.lexeme.offset + k.lexeme.text.length

/-- White space, a token behind it and a text behind that, from an offset on. -/
theorem Token.stop_add {k : Token} {offset : Nat} {gap : List Char}
    (h : k.lexeme.offset = offset + gap.length) (rest : List Char) :
    k.stop + rest.length = offset + (gap ++ (k.lexeme.text ++ rest)).length := by
  simp only [stop, h, List.length_append]
  omega

/-- White space, or nothing at all. -/
def Gap (text : List Char) : Prop := ∀ c ∈ text, Text.isSpace c = true

/-- `Spells offset tokens text`: from the offset on, the text is made of the words of the tokens
with white space around them. -/
inductive Spells : Nat → List Token → List Char → Prop
  | nil {offset : Nat} {gap : List Char} : Gap gap → Spells offset [] gap
  | cons {offset : Nat} {gap rest : List Char} {k : Token} {ks : List Token} :
      Gap gap → k.lexeme.text ∈ k.terminal.words → k.lexeme.offset = offset + gap.length →
      Spells k.stop ks rest → Spells offset (k :: ks) (gap ++ (k.lexeme.text ++ rest))

instance (text : List Char) : Decidable (Gap text) :=
  decidable_of_iff (text.all Text.isSpace = true) List.all_eq_true

theorem Gap.nil : Gap [] := by
  intro c hc
  cases hc

theorem Gap.append {gap gap' : List Char} (h : Gap gap) (h' : Gap gap') : Gap (gap ++ gap') := by
  intro c hc
  rcases List.mem_append.1 hc with hc | hc
  · exact h c hc
  · exact h' c hc

theorem Gap.notMem {gap : List Char} (hg : Gap gap) {c : Char} (hc : Text.isSpace c = false) :
    c ∉ gap := by
  intro hm
  rw [hg c hm] at hc
  cases hc

/-- A text that is empty or starts with white space, so that no word goes on in it. -/
def Detached (text : List Char) : Prop := ∀ c ∈ text.head?, Text.isSpace c = true

namespace Detached

theorem nil : Detached [] := by
  intro c hc
  cases hc

theorem of_gap {gap : List Char} (hg : Gap gap) : Detached gap := fun c hc =>
  hg c (List.mem_of_mem_head? hc)

theorem gap_append {gap : List Char} (hg : Gap gap) (hn : gap ≠ []) (text : List Char) :
    Detached (gap ++ text) := by
  intro c hc
  rw [List.head?_append_of_ne_nil _ hn] at hc
  exact of_gap hg c hc

theorem space (text : List Char) : Detached (' ' :: text) :=
  gap_append (show Gap [' '] by decide) (by simp) text

/-- What has no white space in it and starts a text with a detached end is before that end. -/
theorem prefix_of_append {v a b : List Char} (hb : Detached b)
    (hv : ∀ c ∈ v, Text.isSpace c = false) (h : v <+: a ++ b) : v <+: a := by
  rcases List.prefix_or_prefix_of_prefix h (List.prefix_append a b) with h' | ⟨x, rfl⟩
  · exact h'
  · cases x with
    | nil => simp
    | cons c x =>
      obtain ⟨y, rfl⟩ := (List.prefix_append_right_inj a).1 h
      have h₁ := hv c (by simp)
      rw [hb c (by simp)] at h₁
      cases h₁

/-- A word that starts a text with a detached end is before that end. -/
theorem prefix_of_word {t : Terminal} {v a b : List Char} (hb : Detached b) (hv : v ∈ t.words)
    (h : v <+: a ++ b) : v <+: a :=
  hb.prefix_of_append (Terminal.isSpace_eq_false_of_mem_words hv) h

end Detached

theorem takeWhile_gap {gap rest : List Char} {x : Char} (hg : Gap gap)
    (hx : Text.isSpace x = false) : (gap ++ x :: rest).takeWhile Text.isSpace = gap ∧
      (gap ++ x :: rest).dropWhile Text.isSpace = x :: rest := by
  rw [List.takeWhile_append_of_pos hg, List.dropWhile_append_of_pos hg,
    List.takeWhile_cons_of_neg (by simp [hx]), List.dropWhile_cons_of_neg (by simp [hx]),
    List.append_nil]
  exact ⟨rfl, rfl⟩

/-- White space before a word is all the white space at the start of a text. -/
theorem Gap.append_inj {gap gap' v w rest rest' : List Char} {t u : Terminal} (hg : Gap gap)
    (hg' : Gap gap') (hv : v ∈ t.words) (hw : w ∈ u.words)
    (h : gap ++ (v ++ rest) = gap' ++ (w ++ rest')) : gap = gap' ∧ v ++ rest = w ++ rest' := by
  obtain ⟨x, v, rfl, -⟩ := Terminal.exists_of_mem_words hv
  obtain ⟨y, w, rfl, -⟩ := Terminal.exists_of_mem_words hw
  rw [List.cons_append, List.cons_append] at h ⊢
  obtain ⟨h₁, h₂⟩ := @takeWhile_gap gap (v ++ rest) x hg
    (Terminal.isSpace_eq_false_of_cons_mem hv)
  obtain ⟨h₃, h₄⟩ := @takeWhile_gap gap' (w ++ rest') y hg'
    (Terminal.isSpace_eq_false_of_cons_mem hw)
  rw [h] at h₁ h₂
  exact ⟨h₁.symm.trans h₃, h₂.symm.trans h₄⟩

namespace Spells

variable {offset : Nat} {ks ls : List Token} {text text' : List Char}

/-- White space at the start changes nothing but the offset. -/
theorem gap {gap : List Char} (hg : Gap gap) (h : Spells (offset + gap.length) ks text) :
    Spells offset ks (gap ++ text) := by
  cases h with
  | nil h => exact .nil (hg.append h)
  | @cons _ gap' rest k ks h hw ho hs =>
    rw [← List.append_assoc]
    refine .cons (hg.append h) hw ?_ hs
    rw [ho, List.length_append, Nat.add_assoc]

/-- **Texts side by side** spell tokens side by side. -/
theorem append (h : Spells offset ks text) (h' : Spells (offset + text.length) ls text') :
    Spells offset (ks ++ ls) (text ++ text') := by
  induction h with
  | nil hg => exact gap hg h'
  | @cons offset gap rest k ks hg hw ho _ ih =>
    rw [List.cons_append, List.append_assoc, List.append_assoc]
    refine .cons hg hw ho (ih ?_)
    rw [Token.stop_add ho]
    exact h'

/-- A text that starts with no white space starts with the word of the first token. -/
theorem exists_of_cons {c : Char} (h : Spells offset ks (c :: text))
    (hc : Text.isSpace c = false) : ∃ k ls w rest, ks = k :: ls ∧ k.lexeme = ⟨c :: w, offset⟩ ∧
      text = w ++ rest ∧ c :: w ∈ k.terminal.words ∧ Spells k.stop ls rest := by
  generalize ht : c :: text = t at h
  cases h with
  | nil hg => exact absurd (ht ▸ List.mem_cons_self) (hg.notMem hc)
  | @cons _ gap rest k ls hg hw ho hs =>
    obtain ⟨t, ⟨w, o⟩⟩ := k
    cases gap with
    | cons d gap =>
      obtain ⟨rfl, -⟩ := List.cons.inj ht
      exact absurd List.mem_cons_self (hg.notMem hc)
    | nil =>
      cases w with
      | nil => exact absurd rfl (Terminal.ne_nil_of_mem_words hw)
      | cons d w =>
        obtain ⟨rfl, rfl⟩ := List.cons.inj ht
        obtain rfl : o = offset := ho
        exact ⟨_, ls, w, rest, rfl, rfl, rfl, hw, hs⟩

/-- A text of tokens is more than white space. -/
theorem not_gap {k : Token} (h : Spells offset (k :: ks) text) : ¬ Gap text := by
  intro hg
  cases h with
  | cons _ hw _ _ =>
    obtain ⟨c, w, hc, -⟩ := Terminal.exists_of_mem_words hw
    have hs := Terminal.isSpace_eq_false_of_mem_words hw c (by simp [hc])
    exact hg.notMem hs (by simp [hc])

/-- No token is before the start of the text. -/
theorem le_offset (h : Spells offset ks text) {k : Token} (hk : k ∈ ks) :
    offset ≤ k.lexeme.offset := by
  induction h with
  | nil => cases hk
  | @cons offset gap rest l ls _ _ ho _ ih =>
    rcases List.mem_cons.1 hk with rfl | hk
    · omega
    · have := ih hk
      rw [Token.stop] at this
      omega

/-- Each token is a word of its terminal. -/
theorem mem_words (h : Spells offset ks text) {k : Token} (hk : k ∈ ks) :
    k.lexeme.text ∈ k.terminal.words := by
  induction h with
  | nil => cases hk
  | cons _ hw _ _ ih =>
    rcases List.mem_cons.1 hk with rfl | hk
    · exact hw
    · exact ih hk

end Spells

/-! ## Tokens taken for one -/

/-- A token runs into the next one: no white space stands between them, and together with the next
the word of a type starts with a longer one. -/
def Token.RunsInto (k l : Token) : Prop :=
  l.lexeme.offset = k.stop ∧ ∃ p q : PlainType, k.terminal = .plain p ∧
    p.spelling.toList.length < q.spelling.toList.length ∧
      q.spelling.toList <+: p.spelling.toList ++ l.lexeme.text

instance (k l : Token) : Decidable (k.RunsInto l) :=
  decidable_of_iff (l.lexeme.offset = k.stop ∧ ∃ p ∈ PlainType.all, ∃ q ∈ PlainType.all,
      k.terminal = .plain p ∧ p.spelling.toList.length < q.spelling.toList.length ∧
      q.spelling.toList <+: p.spelling.toList ++ l.lexeme.text) <| by
    simp only [Token.RunsInto, PlainType.mem_all, true_and]

/-- No token runs into the next one. -/
def Apart (ks : List Token) : Prop := ks.IsChain fun k l => ¬ k.RunsInto l

instance (ks : List Token) : Decidable (Apart ks) :=
  inferInstanceAs (Decidable (ks.IsChain fun k l => ¬ k.RunsInto l))

/-- What makes the word of a type longer: a question mark, or letters. -/
theorem PlainType.mem_of_append {p q : PlainType} {c : Char} {y : List Char}
    (h : p.spelling.toList ++ c :: y = q.spelling.toList) :
    c ∈ ['?', 'L', 'O', 'T'] ∧ ∀ d ∈ y, Terminal.isNamePart d = true := by
  have key : ∀ p ∈ all, ∀ q ∈ all, p.spelling.toList <+: q.spelling.toList →
      ((q.spelling.toList.drop p.spelling.toList.length).head?.all
          fun c => c ∈ ['?', 'L', 'O', 'T']) = true ∧
        (q.spelling.toList.drop p.spelling.toList.length).tail.all Terminal.isNamePart = true := by
    decide +kernel
  have hd : q.spelling.toList.drop p.spelling.toList.length = c :: y := by
    rw [← h, List.drop_left]
  obtain ⟨hc, hy⟩ := key p (mem_all p) q (mem_all q) ⟨c :: y, h⟩
  rw [hd] at hc hy
  exact ⟨by simpa using hc, List.all_eq_true.1 hy⟩

/-- A token that another one runs into starts with one of four characters. -/
theorem Token.RunsInto.exists_cons {k l : Token} (h : k.RunsInto l) :
    ∃ c w, l.lexeme.text = c :: w ∧ c ∈ ['?', 'L', 'O', 'T'] := by
  obtain ⟨-, p, q, -, hl, hp⟩ := h
  obtain ⟨x, hx⟩ := List.prefix_of_prefix_length_le (List.prefix_append p.spelling.toList _) hp
    (Nat.le_of_lt hl)
  cases x with
  | nil =>
    rw [List.append_nil] at hx
    rw [hx] at hl
    omega
  | cons c y =>
    rw [← hx, List.prefix_append_right_inj] at hp
    obtain ⟨z, hz⟩ := hp
    exact ⟨c, y ++ z, hz.symm, (PlainType.mem_of_append hx).1⟩

namespace Apart

variable {k l : Token} {ks ls : List Token}

theorem nil : Apart [] := List.isChain_nil

theorem append (h : Apart ks) (h' : Apart ls)
    (hj : ∀ k ∈ ks.getLast?, ∀ l ∈ ls.head?, ¬ k.RunsInto l) : Apart (ks ++ ls) :=
  List.isChain_append.2 ⟨h, h', hj⟩

theorem left (h : Apart (ks ++ ls)) : Apart ks := (List.isChain_append.1 h).1

theorem right (h : Apart (ks ++ ls)) : Apart ls := (List.isChain_append.1 h).2.1

theorem tail (h : Apart (k :: ks)) : Apart ks := (List.isChain_cons.1 h).2

end Apart

end TensorSig
