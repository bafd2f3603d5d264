import Mathlib.Data.List.Chain
import TensorSig.Proofs.Completion

/-!
# The moves of the automaton

A run of the automaton, taken apart into single moves: something is found ahead, the stack is
reduced by one rule, the token that was found is shifted, or the run ends. A reduction is a move
only if the symbols of its rule are on the stack and the state below them has a jump, so a run in
which one of these failed would stop without an end. This module shows that no run does, that all
runs are short, and that the end they come to is the outcome of `read`.

* `Sight`, `Phase`, `Move`: what has been found ahead, the points between two moves, and the moves.
* `Move.unique`: no phase has more than one move.
* `Phase.Sound`, `Move.sound`, `Phase.Sound.exists_move`: what every move keeps, and that it is
  enough for another move to exist where the run has not ended.
* `Phase.budget`, `Move.budget_lt`: a number that every move lowers.
* `Phase.result`, `Move.result_eq`: the outcome that a phase leads to, which no move changes.
* `IsTrace`, `Safe`, `IsRun`: the beginnings of runs, the safe points, and whole runs.
* `exists_isRun`: every text has one.
-/

namespace TensorSig

variable {r : StartRule} {text : List Char}

/-! ## Phases and moves -/

/-- What has been found ahead: a token with the text behind it, or the end of the text. -/
inductive Sight
  | token (k : Token) (rest : List Char)
  | endOfText (offset : Nat)

/-- What has been found, as far as the table is concerned. -/
def Sight.ahead : Sight → Ahead
  | token k _ => .token k.terminal
  | endOfText _ => .endOfText

/-- The points of a run between two moves. -/
inductive Phase (r : StartRule)
  /-- What is ahead is still to be found. -/
  | seeking (c : Config)
  /-- The stack is being reduced before what has been found. -/
  | reducing (stack : List Frame) (sight : Sight)
  /-- The text has been read, or it has been rejected. -/
  | ended (result : Except Rejection r.Expr)

/-- A point of a run behind the white space that is ahead of it. -/
def Config.skipped (c : Config) : Config :=
  ⟨c.stack, c.offset + (c.text.takeWhile Text.isSpace).length, c.text.dropWhile Text.isSpace⟩

/-- A reduction that is due is made. -/
def Reduces (r : StartRule) (a : Ahead) (stack stack' : List Frame) : Prop :=
  ∃ p, (top r stack).reduces? a = some p ∧ reduce? r p stack = some stack'

/-- The moves. There is none from a stack on which a reduction is due that cannot be made. -/
inductive Move (r : StartRule) : Phase r → Phase r → Prop
  /-- A token is found. -/
  | find {c : Config} {t : Terminal} {w rest : List Char} :
      firstLexeme? (top r c.stack).acceptable c.skipped.text = some (t, w, rest) →
      Move r (.seeking c) (.reducing c.stack (.token ⟨t, ⟨w, c.skipped.offset⟩⟩ rest))
  /-- The end of the text is found. -/
  | finish {c : Config} : c.skipped.text = [] →
      Move r (.seeking c) (.reducing c.stack (.endOfText c.skipped.offset))
  /-- Something is ahead that no acceptable terminal starts. -/
  | unreadable {c : Config} : c.skipped.text ≠ [] →
      firstLexeme? (top r c.stack).acceptable c.skipped.text = none →
      Move r (.seeking c) (.ended (.error (.unreadable c.skipped.offset
        (strayLexeme c.skipped.text) (top r c.stack).acceptable)))
  /-- A rule is reduced. -/
  | reduce {stack stack' : List Frame} {sight : Sight} : Reduces r sight.ahead stack stack' →
      Move r (.reducing stack sight) (.reducing stack' sight)
  /-- The token is shifted. -/
  | shift {stack : List Frame} {k : Token} {rest : List Char} {q : State} :
      (top r stack).shift? k.terminal = some q →
      Move r (.reducing stack (.token k rest))
        (.seeking ⟨⟨q, .terminal k.terminal, k.lexeme⟩ :: stack, k.stop, rest⟩)
  /-- The state on top has no action for the token. -/
  | misplaced {stack : List Frame} {k : Token} {rest : List Char} :
      (top r stack).acts (.token k.terminal) = false →
      Move r (.reducing stack (.token k rest)) (.ended (.error
        (.misplaced k.lexeme.offset k.lexeme.text (top r stack).expected)))
  /-- The start symbol is all that is on the stack at the end of the text. -/
  | accept {offset : Nat} {e : r.Expr} :
      Move r (.reducing [⟨.accepted r, .nonterminal r.nonterminal, e⟩] (.endOfText offset))
        (.ended (.ok e))
  /-- The state on top has no action for the end of the text and does not accept. -/
  | incomplete {stack : List Frame} {offset : Nat} : (top r stack).acts .endOfText = false →
      top r stack ≠ .accepted r →
      Move r (.reducing stack (.endOfText offset)) (.ended (.error
        (.incomplete offset (top r stack).expected)))

/-! ## One move at most -/

theorem ne_nil_of_firstLexeme? {ts : List Terminal} {t : Terminal} {v w rest : List Char}
    (h : firstLexeme? ts v = some (t, w, rest)) : v ≠ [] :=
  List.ne_nil_of_length_pos (Nat.zero_lt_of_lt (length_lt_of_firstLexeme? h))

theorem Reduces.unique {a : Ahead} {stack stack₁ stack₂ : List Frame}
    (h : Reduces r a stack stack₁) (h' : Reduces r a stack stack₂) : stack₁ = stack₂ := by
  obtain ⟨p, hp, hr⟩ := h
  obtain ⟨p', hp', hr'⟩ := h'
  obtain rfl := Option.some.inj (hp.symm.trans hp')
  exact Option.some.inj (hr.symm.trans hr')

/-- Where a rule is reduced, nothing else is done. -/
theorem Reduces.eq_of_move {sight : Sight} {stack stack' : List Frame} {q : Phase r}
    (h : Reduces r sight.ahead stack stack') (hq : Move r (.reducing stack sight) q) :
    q = .reducing stack' sight := by
  obtain ⟨p, hp, -⟩ := id h
  have hacts : (top r stack).acts sight.ahead = true := State.acts_of_reduces? hp
  cases hq with
  | reduce h' => rw [h.unique h']
  | shift hs => cases (State.reduces?_eq_none_of_shift? hs).symm.trans hp
  | misplaced hn => cases hn.symm.trans hacts
  | accept => cases (show none = some p from hp)
  | incomplete hn _ => cases hn.symm.trans hacts

/-- **No phase has more than one move.** -/
theorem Move.unique {p q q' : Phase r} (h : Move r p q) (h' : Move r p q') : q = q' := by
  cases h with
  | find hf => cases h' with
    | find hf' =>
      obtain ⟨rfl, rfl, rfl⟩ : _ = _ ∧ _ = _ ∧ _ = _ := by simpa using hf.symm.trans hf'
      rfl
    | finish hn => exact absurd hn (ne_nil_of_firstLexeme? hf)
    | unreadable _ hf' => cases hf.symm.trans hf'
  | finish hn => cases h' with
    | find hf => exact absurd hn (ne_nil_of_firstLexeme? hf)
    | finish => rfl
    | unreadable hn' _ => exact absurd hn hn'
  | unreadable hn hf => cases h' with
    | find hf' => cases hf.symm.trans hf'
    | finish hn' => exact absurd hn' hn
    | unreadable => rfl
  | reduce hr => exact (hr.eq_of_move h').symm
  | shift hs => cases h' with
    | reduce hr => exact hr.eq_of_move (.shift hs)
    | shift hs' => rw [Option.some.inj (hs.symm.trans hs')]
    | misplaced hn => cases hn.symm.trans (State.acts_of_shift? hs)
  | misplaced hn => cases h' with
    | reduce hr => exact hr.eq_of_move (.misplaced hn)
    | shift hs => cases hn.symm.trans (State.acts_of_shift? hs)
    | misplaced => rfl
  | accept => cases h' with
    | reduce hr => exact hr.eq_of_move .accept
    | accept => rfl
    | incomplete _ ht => exact absurd rfl ht
  | incomplete hn ht => cases h' with
    | reduce hr => exact hr.eq_of_move (.incomplete hn ht)
    | accept => exact absurd rfl ht
    | incomplete => rfl

/-! ## What every move keeps -/

/-- What is left of a text from an offset on. -/
def Remains (text : List Char) (offset : Nat) (rest : List Char) : Prop :=
  ∃ before, before ++ rest = text ∧ before.length = offset

theorem Remains.append {offset : Nat} {v rest : List Char} (h : Remains text offset (v ++ rest)) :
    Remains text (offset + v.length) rest := by
  obtain ⟨before, rfl, rfl⟩ := h
  exact ⟨before ++ v, by simp, by simp⟩

theorem Remains.skipped {c : Config} (h : Remains text c.offset c.text) :
    Remains text c.skipped.offset c.skipped.text := by
  refine Remains.append (v := c.text.takeWhile Text.isSpace) ?_
  rw [Config.skipped, List.takeWhile_append_dropWhile]
  exact h

/-- What has been found stands in the text at its offset, and a token has characters. -/
def Sight.StandsIn (text : List Char) : Sight → Prop
  | token k rest => k.lexeme.text ≠ [] ∧ Remains text k.lexeme.offset (k.lexeme.text ++ rest)
  | endOfText offset => offset = text.length

/-- The stack follows the edges of the table, and what is ahead is ahead in the text. -/
def Phase.Sound (text : List Char) : Phase r → Prop
  | seeking c => IsPath r c.stack ∧ Remains text c.offset c.text
  | reducing stack sight => IsPath r stack ∧ sight.StandsIn text
  | ended _ => True

theorem Move.sound {p q : Phase r} (h : Move r p q) (hp : p.Sound text) : q.Sound text := by
  cases h with
  | find hf =>
    obtain ⟨-, hw, hwr, -⟩ := firstLexeme?_eq_some_iff.1 hf
    refine ⟨hp.1, Terminal.ne_nil_of_mem_words hw, ?_⟩
    rw [hwr]
    exact hp.2.skipped
  | @finish c hn =>
    obtain ⟨before, hb, ho⟩ := hp.2.skipped
    rw [hn, List.append_nil] at hb
    exact ⟨hp.1, by rw [← ho, hb]; rfl⟩
  | unreadable | misplaced | accept | incomplete => trivial
  | reduce hr =>
    obtain ⟨_, -, hr⟩ := hr
    exact ⟨hp.1.reduce? hr, hp.2⟩
  | shift hs => exact ⟨⟨hs, hp.1⟩, hp.2.2.append⟩

/-- **A run does not stop before its end.** -/
theorem Phase.Sound.exists_move {p : Phase r} (h : p.Sound text) :
    (∃ result, p = .ended result) ∨ ∃ q, Move r p q := by
  cases p with
  | ended result => exact Or.inl ⟨result, rfl⟩
  | seeking c =>
    right
    by_cases hn : c.skipped.text = []
    · exact ⟨_, .finish hn⟩
    · cases hf : firstLexeme? (top r c.stack).acceptable c.skipped.text with
      | none => exact ⟨_, .unreadable hn hf⟩
      | some found => exact ⟨_, .find hf⟩
  | reducing stack sight =>
    right
    cases hr : (top r stack).reduces? sight.ahead with
    | some p =>
      obtain ⟨q, v, -, -, hr'⟩ := h.1.exists_reduce? hr
      exact ⟨_, .reduce ⟨p, hr, hr'⟩⟩
    | none => cases sight with
      | token k rest =>
        cases hs : (top r stack).shift? k.terminal with
        | some q => exact ⟨_, .shift hs⟩
        | none => exact ⟨_, .misplaced (State.acts_token_eq_false_iff.2 ⟨hr, hs⟩)⟩
      | endOfText offset =>
        by_cases ht : top r stack = .accepted r
        · obtain ⟨e, he⟩ := h.1.exists_accepted ht
          obtain ⟨q, rfl⟩ := eq_of_accepted? he
          obtain rfl : q = .accepted r := ht
          exact ⟨_, .accept⟩
        · exact ⟨_, .incomplete (State.acts_endOfText_eq_false_iff.2 hr) ht⟩

/-! ## How many moves there are -/

/-- A chain along which a number gets less and less is no longer than the number at its start. -/
theorem length_le_of_isChain {α : Type} {R : α → α → Prop} {f : α → Nat}
    (hf : ∀ {a b}, R a b → f b < f a) {a : α} {l : List α} (h : (a :: l).IsChain R) :
    l.length ≤ f a := by
  induction l generalizing a with
  | nil => exact Nat.zero_le _
  | cons b l ih =>
    obtain ⟨hab, hl⟩ := List.isChain_cons_cons.1 h
    have := hf hab
    have := ih hl
    rw [List.length_cons]
    omega

theorem State.rank_le (s : State) : s.rank ≤ 5 := by
  have key : ∀ s ∈ all, s.rank ≤ 5 := by decide +kernel
  exact key s (mem_all s)

theorem Reduces.rank_lt {a : Ahead} {stack stack' : List Frame} (h : Reduces r a stack stack') :
    (top r stack').rank < (top r stack).rank := by
  obtain ⟨p, hp, hr⟩ := h
  rw [State.rank_of_reduces? hp]
  exact Nat.lt_succ_of_le (rank_top_of_reduce? hr)

/-- A bound on the moves that are made once the stack has been reduced before what was found. -/
def Sight.budget : Sight → Nat
  | token _ rest => 7 * (rest.length + 1)
  | endOfText _ => 0

/-- A bound on the moves that are left. For each character that is left there may be a token: it is
found, up to five rules are reduced before it, and it is shifted. -/
def Phase.budget : Phase r → Nat
  | seeking c => 7 * (c.text.length + 1)
  | reducing stack sight => (top r stack).rank + 1 + sight.budget
  | ended _ => 0

theorem Move.budget_lt {p q : Phase r} (h : Move r p q) : q.budget < p.budget := by
  cases h with
  | @find c t w rest hf =>
    have h₁ := length_lt_of_firstLexeme? hf
    have h₂ : c.skipped.text.length ≤ c.text.length :=
      (List.dropWhile_sublist Text.isSpace).length_le
    have h₃ := (top r c.stack).rank_le
    simp only [Phase.budget, Sight.budget]
    omega
  | @finish c hn =>
    have h₃ := (top r c.stack).rank_le
    simp only [Phase.budget, Sight.budget]
    omega
  | unreadable | misplaced | accept | incomplete =>
    simp only [Phase.budget]
    omega
  | reduce hr =>
    have := hr.rank_lt
    simp only [Phase.budget]
    omega
  | shift =>
    simp only [Phase.budget, Sight.budget]
    omega

/-! ## The outcome of a run -/

/-- The outcome that a phase leads to. -/
def Phase.result : Phase r → Except Rejection r.Expr
  | seeking c => run r c
  | reducing stack (.token k rest) =>
    match shiftToken? r stack k with
    | some stack' => run r ⟨stack', k.stop, rest⟩
    | none => .error (.misplaced k.lexeme.offset k.lexeme.text
        (top r (settle r (.token k.terminal) stack)).expected)
  | reducing stack (.endOfText offset) =>
    match accepted? r (settle r .endOfText stack) with
    | some e => .ok e
    | none => .error (.incomplete offset (top r (settle r .endOfText stack)).expected)
  | ended result => result

/-- A step on a text that starts with a token. -/
theorem step_of_find {c : Config} {t : Terminal} {w rest : List Char}
    (hf : firstLexeme? (top r c.stack).acceptable c.skipped.text = some (t, w, rest)) :
    step r c = match shiftToken? r c.stack ⟨t, ⟨w, c.skipped.offset⟩⟩ with
      | some stack => .shift ⟨stack, c.skipped.offset + w.length, rest⟩
      | none => .reject (.misplaced c.skipped.offset w
          (top r (settle r (.token t) c.stack)).expected) := by
  have hn : c.skipped.text ≠ [] := ne_nil_of_firstLexeme? hf
  dsimp only [Config.skipped] at hf hn ⊢
  cases hs : (top r (settle r (.token t) c.stack)).shift? t <;>
    simp [step, shiftToken?, hf, hn, hs]

/-- **No move changes the outcome.** -/
theorem Move.result_eq {p q : Phase r} (h : Move r p q) (hp : p.Sound text) :
    q.result = p.result := by
  cases h with
  | @find c t w rest hf =>
    have hstep := step_of_find hf
    dsimp only [Phase.result]
    split
    · rename_i stack hs
      rw [hs] at hstep
      exact (run_of_shift hstep).symm
    · rename_i hs
      rw [hs] at hstep
      exact (run_of_reject hstep).symm
  | @finish c hn =>
    dsimp only [Phase.result]
    dsimp only [Config.skipped] at hn
    split
    · rename_i e he
      exact (run_of_accept (by simp [step, hn, he])).symm
    · rename_i he
      exact (run_of_reject (by simp [step, hn, he, Config.skipped])).symm
  | @unreadable c hn hf =>
    dsimp only [Config.skipped] at hn hf
    exact (run_of_reject (by simp [step, hn, hf, Config.skipped])).symm
  | @reduce stack stack' sight hr =>
    obtain ⟨p, hp', hr⟩ := hr
    have hs := settle_of_reduce? hp' hr
    cases sight with
    | token k rest =>
      dsimp only [Sight.ahead] at hs
      simp only [Phase.result, shiftToken?, hs]
    | endOfText offset =>
      dsimp only [Sight.ahead] at hs
      simp only [Phase.result, hs]
  | shift hs =>
    simp only [Phase.result, shiftToken?, settle_of_shift? hs, hs, Option.map_some]
  | @misplaced stack k rest hn =>
    obtain ⟨hr, hs⟩ := State.acts_token_eq_false_iff.1 hn
    simp only [Phase.result, shiftToken?, settle_of_reduces?_eq_none hr, hs, Option.map_none]
  | @accept offset e =>
    have hr : (top r [⟨.accepted r, .nonterminal r.nonterminal, e⟩]).reduces? .endOfText = none :=
      rfl
    have ha : accepted? r [⟨.accepted r, .nonterminal r.nonterminal, e⟩] = some e :=
      Frame.valueAs?_mk ..
    simp only [Phase.result, settle_of_reduces?_eq_none hr, ha]
  | @incomplete stack offset hn ht =>
    have hr := State.acts_endOfText_eq_false_iff.1 hn
    have ha : accepted? r stack = none := by
      rw [Option.eq_none_iff_forall_ne_some]
      intro e he
      obtain ⟨q, rfl⟩ := eq_of_accepted? he
      exact ht (Option.some.inj (hp.1.1.symm.trans (State.goto?_start r)))
    simp only [Phase.result, settle_of_reduces?_eq_none hr, ha]

/-! ## Runs -/

/-- From a phase in which the invariant holds there are moves to its outcome. -/
theorem Phase.Sound.exists_isChain {p : Phase r} (h : p.Sound text) : ∃ phases,
    (p :: phases).IsChain (Move r) ∧ (p :: phases).getLast? = some (.ended p.result) := by
  -- The invariant gives the next move and is kept by it, and the budget counts the moves down.
  induction hn : p.budget using Nat.strong_induction_on generalizing p with
  | _ n ih =>
    rcases h.exists_move with ⟨result, rfl⟩ | ⟨q, hq⟩
    · exact ⟨[], .singleton _, rfl⟩
    · obtain ⟨phases, hc, hl⟩ := ih _ (hn ▸ hq.budget_lt) (hq.sound h) rfl
      refine ⟨q :: phases, List.isChain_cons_cons.2 ⟨hq, hc⟩, ?_⟩
      rw [List.getLast?_cons_cons, hl, hq.result_eq h]

/-- All moves from a phase are among those that lead from it to an end. -/
theorem prefix_of_isChain {p : Phase r} {phases others : List (Phase r)}
    {result : Except Rejection r.Expr} (h : (p :: phases).IsChain (Move r))
    (hl : (p :: phases).getLast? = some (.ended result))
    (ho : (p :: others).IsChain (Move r)) : p :: others <+: p :: phases := by
  induction others generalizing p phases with
  | nil => exact ⟨phases, rfl⟩
  | cons q others ih =>
    obtain ⟨hq, ho⟩ := List.isChain_cons_cons.1 ho
    cases phases with
    | nil =>
      obtain rfl := Option.some.inj hl
      cases hq
    | cons q' phases =>
      obtain ⟨hq', h⟩ := List.isChain_cons_cons.1 h
      obtain rfl := hq'.unique hq
      rw [List.getLast?_cons_cons] at hl
      exact (List.prefix_cons_inj p).2 (ih h hl ho)

/-- The end of a run is reached by a move. -/
theorem exists_of_getLast? {p : Phase r} {phases : List (Phase r)}
    {result : Except Rejection r.Expr} (h : (p :: phases).IsChain (Move r))
    (hl : (p :: phases).getLast? = some (.ended result)) (hn : p ≠ .ended result) :
    ∃ q ∈ p :: phases, Move r q (.ended result) := by
  obtain ⟨front, hf⟩ := List.getLast?_eq_some_iff.1 hl
  rcases front.eq_nil_or_concat with rfl | ⟨front, q, rfl⟩
  · exact absurd (List.cons.inj hf).1 hn
  · rw [hf] at h ⊢
    exact ⟨q, by simp, (List.isChain_append.1 h).2.2 q (by simp) _ rfl⟩

/-- All reductions that are due before what has been found are moves. -/
theorem reflTransGen_settle (stack : List Frame) (sight : Sight) :
    Relation.ReflTransGen (Move r) (.reducing stack sight)
      (.reducing (settle r sight.ahead stack) sight) :=
  settle_induct (P := fun s => Relation.ReflTransGen (Move r) (.reducing stack sight)
    (.reducing s sight)) (fun hp hr h => h.tail (.reduce ⟨_, hp, hr⟩)) stack .refl

/-- A step that shifts a token is made of moves. -/
theorem reflTransGen_of_step {c c' : Config} (h : step r c = .shift c') :
    Relation.ReflTransGen (Move r) (.seeking c) (.seeking c') := by
  cases hf : firstLexeme? (top r c.stack).acceptable c.skipped.text with
  | none =>
    dsimp only [Config.skipped] at hf
    by_cases hn : c.text.dropWhile Text.isSpace = []
    · simp only [step, hn, List.isEmpty_nil, if_true] at h
      split at h <;> cases h
    · simp [step, hn, hf] at h
  | some found =>
    obtain ⟨t, w, rest⟩ := found
    rw [step_of_find hf] at h
    split at h
    · rename_i stack hs
      obtain rfl := Step.shift.inj h
      obtain ⟨q, hq, rfl⟩ := Option.map_eq_some_iff.1 hs
      exact ((reflTransGen_settle c.stack _).head (.find hf)).tail (.shift hq)
    · cases h

/-- The phases that the beginning of a run on a text goes through. -/
structure IsTrace (r : StartRule) (text : List Char) (phases : List (Phase r)) : Prop where
  head : phases.head? = some (.seeking ⟨[], 0, text⟩)
  chain : phases.IsChain (Move r)

/-- A point at which the stack is reduced is a safe one. -/
structure Safe (r : StartRule) (text : List Char) (stack : List Frame) (sight : Sight) : Prop where
  /-- What has been found stands in the text, and a token has at least one character. -/
  found : sight.StandsIn text
  /-- The symbols of a rule that is due are on the stack, the state below them has a jump on its
  left side, and the reduction is made. -/
  due : ∀ p, (top r stack).reduces? sight.ahead = some p → p.rhs.length ≤ stack.length ∧
    ((stack.take p.rhs.length).map Frame.symbol).reverse = p.rhs ∧
    ((top r (stack.drop p.rhs.length)).goto? p.lhs).isSome ∧ (reduce? r p stack).isSome
  /-- There are at most five reductions before what has been found. -/
  few : ∀ others, (stack :: others).IsChain (Reduces r sight.ahead) → others.length ≤ 5

/-- The phases of a run on a text, from its start to its end. -/
structure IsRun (r : StartRule) (text : List Char) (phases : List (Phase r)) : Prop where
  trace : IsTrace r text phases
  /-- The end is the outcome of the text. -/
  last : phases.getLast? = some (.ended (read r text))
  /-- The run cannot go another way. -/
  whole : ∀ others, IsTrace r text others → others <+: phases
  length_le : phases.length ≤ 7 * (text.length + 1) + 1
  /-- The run goes through the points that the steps lead to. -/
  steps : ∀ c, Relation.ReflTransGen (fun c c' => step r c = .shift c') ⟨[], 0, text⟩ c →
    .seeking c ∈ phases
  safe : ∀ stack sight, .reducing stack sight ∈ phases → Safe r text stack sight
  /-- A text is accepted at its end, with the start symbol alone on the stack. -/
  accept : ∀ e, read r text = .ok e →
    .reducing [⟨.accepted r, .nonterminal r.nonterminal, e⟩] (.endOfText text.length) ∈ phases

theorem Phase.Sound.safe {stack : List Frame} {sight : Sight}
    (h : (Phase.reducing (r := r) stack sight).Sound text) : Safe r text stack sight where
  found := h.2
  due p hp := by
    obtain ⟨hs, hg⟩ := h.1.symbols_of_reduces? hp
    obtain ⟨q, v, -, -, hr⟩ := h.1.exists_reduce? hp
    have hl := congrArg List.length hs
    rw [List.length_reverse, List.length_map, List.length_take] at hl
    exact ⟨by omega, hs, hg, by rw [hr]; rfl⟩
  few others hc := by
    have := length_le_of_isChain (fun hr => hr.rank_lt) hc
    exact this.trans (State.rank_le _)

/-- **Every run is safe and comes to an end.** -/
theorem exists_isRun (r : StartRule) (text : List Char) : ∃ phases, IsRun r text phases := by
  have hstart : (Phase.seeking ⟨[], 0, text⟩ : Phase r).Sound text := ⟨trivial, [], rfl, rfl⟩
  obtain ⟨phases, hc, hl⟩ := hstart.exists_isChain
  change _ = some (Phase.ended (read r text)) at hl
  have hsound : ∀ p ∈ Phase.seeking ⟨[], 0, text⟩ :: phases, p.Sound text :=
    hc.induction (Phase.Sound text) _ (fun _ _ h => h.sound) fun _ => hstart
  have hwhole : ∀ others, IsTrace r text others →
      others <+: Phase.seeking ⟨[], 0, text⟩ :: phases := by
    rintro others ⟨hh, ho⟩
    obtain ⟨others, rfl⟩ := List.head?_eq_some_iff.1 hh
    exact prefix_of_isChain hc hl ho
  have hlength : phases.length ≤ 7 * (text.length + 1) :=
    length_le_of_isChain (f := Phase.budget) Move.budget_lt hc
  refine ⟨_, ⟨rfl, hc⟩, hl, hwhole, Nat.succ_le_succ hlength, fun c h => ?_,
    fun _ _ h => (hsound _ h).safe, fun e he => ?_⟩
  · have hmoves : Relation.ReflTransGen (Move r) (.seeking ⟨[], 0, text⟩) (.seeking c) :=
      Relation.ReflTransGen.lift' Phase.seeking (fun _ _ => reflTransGen_of_step) _ _ h
    obtain ⟨others, ho, hlast⟩ := List.exists_isChain_cons_of_relationReflTransGen hmoves
    exact (hwhole _ ⟨rfl, ho⟩).subset (hlast ▸ List.getLast_mem _)
  · rw [he] at hl
    obtain ⟨p, hp, hmove⟩ := exists_of_getLast? hc hl nofun
    have hs := hsound p hp
    cases hmove with
    | accept =>
      obtain rfl := hs.2
      exact hp

end TensorSig
