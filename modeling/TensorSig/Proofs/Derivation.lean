import TensorSig.Proofs.Table

/-!
# The automaton and the grammar

The grammar derives sequences of tokens, the automaton is fed with them one by one. This module
shows that the two agree, values included, for texts that have been cut into tokens already.

* `Token`, `Derives`: tokens, and the sequences of tokens that the rules derive from a sequence of
  symbols, with the values that the actions make.
* `shiftToken?`, `feed?`, `Recognizes`: the automaton on tokens.
* `Yields`: the values on a stack are derived from the tokens read so far, which every shift and
  every reduction preserves.
* `feed?_of_derives`: along a path of the table, feeding the tokens of a derivation amounts to
  pushing its values.
* `recognizes_iff_derives`: the automaton recognises what the start symbol derives.
-/

namespace TensorSig

/-! ## Derivations -/

/-- A terminal with the piece of the text that was read for it. -/
structure Token where
  terminal : Terminal
  lexeme : Lexeme

/-- `Derives symbols tokens values`: the symbols derive the tokens, and the actions of the rules
make the values. -/
inductive Derives : (symbols : List Symbol) → List Token → Values symbols → Prop
  | nil : Derives [] [] ()
  | terminal {symbols : List Symbol} {tokens : List Token} {values : Values symbols} (k : Token) :
      Derives symbols tokens values →
      Derives (.terminal k.terminal :: symbols) (k :: tokens) (k.lexeme, values)
  | rule {symbols : List Symbol} {tokens tokens' : List Token} {values' : Values symbols}
      (p : Production) {values : Values p.rhs} :
      Derives p.rhs tokens values → Derives symbols tokens' values' →
      Derives (.nonterminal p.lhs :: symbols) (tokens ++ tokens') (p.act values, values')

namespace Derives

theorem append {s : Symbol} {ss : List Symbol} {ks ls : List Token} {v : s.Value}
    {vs : Values ss} (h : Derives [s] ks (v, ())) (h' : Derives ss ls vs) :
    Derives (s :: ss) (ks ++ ls) (v, vs) := by
  cases h with
  | terminal k hn =>
    cases hn
    exact .terminal k h'
  | rule p hp hn =>
    cases hn
    rw [List.append_nil]
    exact .rule p hp h'

theorem single (p : Production) {ks : List Token} {vs : Values p.rhs} (h : Derives p.rhs ks vs) :
    Derives [.nonterminal p.lhs] ks (p.act vs, ()) := by
  simpa using Derives.rule p h .nil

/-- Tokens derived from symbols of a class that the rules do not leave are of the class. -/
theorem forall_mem {S : Symbol → Prop}
    (hS : ∀ p : Production, S (.nonterminal p.lhs) → ∀ s ∈ p.rhs, S s)
    {ss : List Symbol} {ks : List Token} {vs : Values ss} (h : Derives ss ks vs)
    (hs : ∀ s ∈ ss, S s) : ∀ k ∈ ks, S (.terminal k.terminal) := by
  induction h with
  | nil => simp
  | terminal k _ ih =>
    rw [List.forall_mem_cons] at hs ⊢
    exact ⟨hs.1, ih hs.2⟩
  | rule p _ _ ihp ih =>
    rw [List.forall_mem_cons] at hs
    intro k hk
    rcases List.mem_append.1 hk with hk | hk
    · exact ihp (hS p hs.1) k hk
    · exact ih hs.2 k hk

end Derives

/-! ## The automaton on tokens -/

/-- The stack after the reductions that are due before a token and the shift of it. -/
def shiftToken? (r : StartRule) (stack : List Frame) (k : Token) : Option (List Frame) :=
  ((top r (settle r (.token k.terminal) stack)).shift? k.terminal).map fun q =>
    ⟨q, .terminal k.terminal, k.lexeme⟩ :: settle r (.token k.terminal) stack

/-- The stack after several tokens. -/
def feed? (r : StartRule) : List Frame → List Token → Option (List Frame)
  | stack, [] => some stack
  | stack, k :: ks => (shiftToken? r stack k).bind fun stack' => feed? r stack' ks

/-- Tokens are recognised when after them, at the end of the text, the start symbol is left. -/
def Recognizes (r : StartRule) (ks : List Token) (e : r.Expr) : Prop :=
  ∃ stack, feed? r [] ks = some stack ∧ accepted? r (settle r .endOfText stack) = some e

variable {r : StartRule}

theorem feed?_append (stack : List Frame) (ks ls : List Token) :
    feed? r stack (ks ++ ls) = (feed? r stack ks).bind fun stack' => feed? r stack' ls := by
  induction ks generalizing stack with
  | nil => rfl
  | cons k ks ih =>
    rw [List.cons_append, feed?, feed?]
    cases h : shiftToken? r stack k with
    | none => rfl
    | some stack' => exact ih stack'

/-- What every reduction keeps, all reductions before a token keep. -/
theorem settle_induct {P : List Frame → Prop} {a : Ahead}
    (h : ∀ {stack stack' p}, (top r stack).reduces? a = some p →
      reduce? r p stack = some stack' → P stack → P stack') (stack : List Frame) (hs : P stack) :
    P (settle r a stack) := by
  fun_induction settle r a stack with
  | case1 => exact hs
  | case2 => exact hs
  | case3 stack p hp stack' hr ih => exact ih (h hp hr hs)

theorem exists_of_reduce? {p : Production} {stack stack' : List Frame}
    (h : reduce? r p stack = some stack') :
    ∃ vs q, collect? p.rhs (stack.take p.rhs.length).reverse = some vs ∧
      (top r (stack.drop p.rhs.length)).goto? p.lhs = some q ∧
      stack' = ⟨q, .nonterminal p.lhs, p.act vs⟩ :: stack.drop p.rhs.length := by
  unfold reduce? at h
  dsimp only at h
  split at h
  · rename_i vs q hvs hq
    exact ⟨vs, q, hvs, hq, (Option.some.inj h).symm⟩
  · cases h

/-- No reduction is due on a stack before a terminal that its top state shifts. -/
theorem settle_of_shift? {t : Terminal} {stack : List Frame} {q : State}
    (h : (top r stack).shift? t = some q) : settle r (.token t) stack = stack :=
  settle_of_reduces?_eq_none (State.reduces?_eq_none_of_shift? h)

/-- A token that is shifted, possibly after reductions, has an action in the state on top. -/
theorem acts_of_shiftToken? {k : Token} {stack stack' : List Frame}
    (h : shiftToken? r stack k = some stack') : (top r stack).acts (.token k.terminal) = true := by
  cases hr : (top r stack).reduces? (.token k.terminal) with
  | some p => exact State.acts_of_reduces? hr
  | none =>
    rw [shiftToken?, settle_of_reduces?_eq_none hr] at h
    obtain ⟨q, hq, -⟩ := Option.map_eq_some_iff.1 h
    exact State.acts_of_shift? hq

/-! ## Soundness -/

theorem Frame.eq_of_valueAs? {f : Frame} {s : Symbol} {v : s.Value} (h : f.valueAs? s = some v) :
    f = ⟨f.state, s, v⟩ := by
  obtain ⟨q, s', v'⟩ := f
  obtain rfl : s' = s := Frame.symbol_of_valueAs? h
  rw [Frame.valueAs?_mk] at h
  rw [Option.some.inj h]

/-- The values on a stack are derived from the tokens, the deepest from the first ones. -/
inductive Yields : List Frame → List Token → Prop
  | nil : Yields [] []
  | cons {f : Frame} {stack : List Frame} {ks ls : List Token} :
      Yields stack ks → Derives [f.symbol] ls (f.value, ()) → Yields (f :: stack) (ks ++ ls)

namespace Yields

/-- The values of the topmost frames are derived from the last tokens. -/
theorem pop {ss : List Symbol} {fs stack : List Frame} {ks : List Token} {vs : Values ss}
    (h : Yields (fs.reverse ++ stack) ks) (hv : collect? ss fs = some vs) :
    ∃ us ls, ks = us ++ ls ∧ Yields stack us ∧ Derives ss ls vs := by
  induction fs generalizing ss stack with
  | nil =>
    cases ss with
    | nil => exact ⟨ks, [], by simp, h, .nil⟩
    | cons s ss => simp [collect?] at hv
  | cons f fs ih =>
    cases ss with
    | nil => simp [collect?] at hv
    | cons s ss =>
      simp only [collect?] at hv
      split at hv
      · rename_i v vs' hf hfs
        obtain rfl := Option.some.inj hv
        rw [List.reverse_cons, List.append_assoc] at h
        obtain ⟨us, ls, rfl, hu, hl⟩ := ih h hfs
        rw [Frame.eq_of_valueAs? hf] at hu
        cases hu with
        | cons hu hd => exact ⟨_, _, List.append_assoc _ _ _, hu, hd.append hl⟩
      · cases hv

theorem reduce? {p : Production} {stack stack' : List Frame} {ks : List Token}
    (hr : reduce? r p stack = some stack') (h : Yields stack ks) : Yields stack' ks := by
  obtain ⟨vs, q, hvs, -, rfl⟩ := exists_of_reduce? hr
  have hs : Yields ((stack.take p.rhs.length).reverse.reverse ++ stack.drop p.rhs.length) ks := by
    rw [List.reverse_reverse, List.take_append_drop]
    exact h
  obtain ⟨us, ls, rfl, hu, hl⟩ := hs.pop hvs
  exact hu.cons (.single p hl)

theorem settle {stack : List Frame} {ks : List Token} (a : Ahead) (h : Yields stack ks) :
    Yields (settle r a stack) ks :=
  settle_induct (P := fun stack => Yields stack ks) (fun _ hr hs => hs.reduce? hr) stack h

theorem shiftToken? {k : Token} {stack stack' : List Frame} {ks : List Token}
    (hk : shiftToken? r stack k = some stack') (h : Yields stack ks) :
    Yields stack' (ks ++ [k]) := by
  obtain ⟨q, -, rfl⟩ := Option.map_eq_some_iff.1 hk
  exact (h.settle _).cons (.terminal k .nil)

theorem feed? {stack stack' : List Frame} {ks ls : List Token}
    (hf : feed? r stack ls = some stack') (h : Yields stack ks) : Yields stack' (ks ++ ls) := by
  induction ls generalizing stack ks with
  | nil =>
    obtain rfl := Option.some.inj hf
    simpa using h
  | cons l ls ih =>
    obtain ⟨stack₁, hl, hf⟩ := Option.bind_eq_some_iff.1 hf
    simpa using ih hf (h.shiftToken? hl)

end Yields

theorem eq_of_accepted? {stack : List Frame} {e : r.Expr} (h : accepted? r stack = some e) :
    ∃ q, stack = [⟨q, .nonterminal r.nonterminal, e⟩] := by
  rcases stack with _ | ⟨f, _ | ⟨g, stack⟩⟩
  · cases (show none = some e from h)
  · exact ⟨f.state, congrArg (fun f => [f]) (Frame.eq_of_valueAs? h)⟩
  · cases (show none = some e from h)

/-- What is recognised is derived from the start symbol. -/
theorem Recognizes.derives {ks : List Token} {e : r.Expr} (h : Recognizes r ks e) :
    Derives [.nonterminal r.nonterminal] ks (e, ()) := by
  obtain ⟨stack, hf, ha⟩ := h
  have hy : Yields (settle r .endOfText stack) ks := (Yields.feed? hf .nil).settle _
  obtain ⟨q, hs⟩ := eq_of_accepted? ha
  rw [hs] at hy
  cases hy with
  | cons hn hd =>
    cases hn
    exact hd

/-! ## Completeness -/

/-- What is ahead where tokens are left before what follows them. -/
def aheadOf : List Token → Ahead → Ahead
  | [], a => a
  | k :: _, _ => .token k.terminal

theorem aheadOf_append (ks ls : List Token) (a : Ahead) :
    aheadOf (ks ++ ls) a = aheadOf ks (aheadOf ls a) := by
  cases ks <;> rfl

/-- A state from which a path leads along the symbols of a derivation can go on with the first token
that is derived. -/
theorem aheadOf_mem_handled {ss : List Symbol} {ks : List Token} {vs : Values ss}
    (h : Derives ss ks vs) {s z : State} (hw : s.walk? ss = some z) {a : Ahead}
    (ha : a ∈ z.handled) : aheadOf ks a ∈ s.handled := by
  induction h generalizing s z a with
  | nil =>
    obtain rfl := Option.some.inj hw
    exact ha
  | terminal k _ _ =>
    obtain ⟨q, hq, -⟩ := Option.bind_eq_some_iff.1 hw
    exact State.mem_handled_of_acts (State.acts_of_shift? hq)
  | @rule _ ks ls _ p _ _ _ ihp ih =>
    obtain ⟨q, hq, hw⟩ := Option.bind_eq_some_iff.1 hw
    obtain ⟨y, hy, hr⟩ := State.exists_walk_of_goto? hq
    rw [aheadOf_append]
    exact ihp hy (State.mem_handled_of_acts (State.acts_of_reduces? (hr _ (ih hw ha))))

/-- The stack after symbols with given values, along the edges of the table. -/
def pushed? (r : StartRule) : List Frame → (ss : List Symbol) → Values ss → Option (List Frame)
  | stack, [], _ => some stack
  | stack, s :: ss, vs =>
    ((top r stack).next? s).bind fun q => pushed? r (⟨q, s, vs.1⟩ :: stack) ss vs.2

theorem pushed?_cons {s : Symbol} {stack : List Frame} {q : State}
    (h : (top r stack).next? s = some q) {ss : List Symbol} (v : s.Value) (vs : Values ss) :
    pushed? r stack (s :: ss) (v, vs) = pushed? r (⟨q, s, v⟩ :: stack) ss vs := by
  change ((top r stack).next? s).bind _ = _
  rw [h, Option.bind_some]

theorem exists_pushed? {ss : List Symbol} (vs : Values ss) (stack : List Frame) {z : State}
    (h : (top r stack).walk? ss = some z) : ∃ fs, fs.length = ss.length ∧
      pushed? r stack ss vs = some (fs.reverse ++ stack) ∧ collect? ss fs = some vs ∧
      top r (fs.reverse ++ stack) = z := by
  induction ss generalizing stack with
  | nil => exact ⟨[], rfl, rfl, rfl, Option.some.inj h⟩
  | cons s ss ih =>
    obtain ⟨v, vs⟩ := vs
    obtain ⟨q, hq, hw⟩ := Option.bind_eq_some_iff.1 h
    obtain ⟨fs, hl, hp, hc, ht⟩ := ih vs (⟨q, s, v⟩ :: stack) hw
    refine ⟨⟨q, s, v⟩ :: fs, by simp [hl], ?_, ?_, by simpa using ht⟩
    · rw [pushed?_cons hq, hp]
      simp
    · simp [collect?, Frame.valueAs?_mk, hc]

theorem reduce?_pushed {p : Production} {fs stack : List Frame} {vs : Values p.rhs} {q : State}
    (hl : fs.length = p.rhs.length) (hc : collect? p.rhs fs = some vs)
    (hq : (top r stack).goto? p.lhs = some q) :
    reduce? r p (fs.reverse ++ stack) = some (⟨q, .nonterminal p.lhs, p.act vs⟩ :: stack) := by
  have ht : ((fs.reverse ++ stack).take p.rhs.length).reverse = fs := by
    rw [List.take_left' (by rw [List.length_reverse, hl]), List.reverse_reverse]
  have hd : (fs.reverse ++ stack).drop p.rhs.length = stack :=
    List.drop_left' (by rw [List.length_reverse, hl])
  simp only [reduce?, ht, hd, hc, hq]

/-- Stacks that the same reductions lead to are fed alike. -/
theorem feed?_congr {stack₁ stack₂ stack : List Frame} {ks : List Token} {a : Ahead}
    (hs : settle r (aheadOf ks a) stack₁ = settle r (aheadOf ks a) stack₂)
    (h : feed? r stack₂ ks = some stack) :
    ∃ stack', feed? r stack₁ ks = some stack' ∧ settle r a stack' = settle r a stack := by
  cases ks with
  | nil =>
    obtain rfl := Option.some.inj h
    exact ⟨stack₁, rfl, hs⟩
  | cons k ks =>
    refine ⟨stack, ?_, rfl⟩
    have hk : shiftToken? r stack₁ k = shiftToken? r stack₂ k := by
      simp only [shiftToken?]
      rw [show settle r (.token k.terminal) stack₁ = settle r (.token k.terminal) stack₂ from hs]
    rw [feed?, hk]
    exact h

/-- **Feeding a derivation pushes its values.** The reductions that are due at the end are left to
what is ahead there. -/
theorem feed?_of_derives {ss : List Symbol} {ks : List Token} {vs : Values ss}
    (h : Derives ss ks vs) (stack : List Frame) {z : State}
    (hw : (top r stack).walk? ss = some z) {a : Ahead} (ha : a ∈ z.handled) :
    ∃ stack₁ stack₂, feed? r stack ks = some stack₁ ∧ pushed? r stack ss vs = some stack₂ ∧
      settle r a stack₁ = settle r a stack₂ := by
  induction h generalizing stack z a with
  | nil => exact ⟨stack, stack, rfl, rfl, rfl⟩
  | @terminal ss ks vs k _ ih =>
    obtain ⟨q, hq, hw⟩ := Option.bind_eq_some_iff.1 hw
    obtain ⟨stack₁, stack₂, h₁, h₂, he⟩ :=
      ih (⟨q, .terminal k.terminal, k.lexeme⟩ :: stack) hw ha
    have hk : shiftToken? r stack k = some (⟨q, .terminal k.terminal, k.lexeme⟩ :: stack) := by
      rw [shiftToken?, settle_of_shift? hq]
      exact Option.map_eq_some_iff.2 ⟨q, hq, rfl⟩
    refine ⟨stack₁, stack₂, ?_, ?_, he⟩
    · rw [feed?, hk, Option.bind_some, h₁]
    · exact (pushed?_cons hq _ _).trans h₂
  | @rule ss ks ls vs p us hp hs ihp ih =>
    obtain ⟨q, hq, hw⟩ := Option.bind_eq_some_iff.1 hw
    obtain ⟨y, hy, hr⟩ := State.exists_walk_of_goto? hq
    have hl : aheadOf ls a ∈ q.handled := aheadOf_mem_handled hs hw ha
    -- the tokens of the rule, up to the reduction by it
    obtain ⟨stack₁, stack₂, h₁, h₂, he⟩ := ihp stack hy
      (State.mem_handled_of_acts (State.acts_of_reduces? (hr _ hl)))
    obtain ⟨fs, hfs, hp₂, hc, ht⟩ := exists_pushed? us stack hy
    obtain rfl : fs.reverse ++ stack = stack₂ := Option.some.inj (hp₂.symm.trans h₂)
    have hred := settle_of_reduce? (by rw [ht]; exact hr _ hl) (reduce?_pushed hfs hc hq)
    -- the tokens after the rule, from the stack that the reduction leaves
    obtain ⟨stack₃, stack₄, h₃, h₄, he'⟩ :=
      ih (⟨q, .nonterminal p.lhs, p.act us⟩ :: stack) hw ha
    obtain ⟨stack₅, h₅, he''⟩ := feed?_congr (he.trans hred) h₃
    refine ⟨stack₅, stack₄, ?_, ?_, he''.trans he'⟩
    · rw [feed?_append, h₁, Option.bind_some, h₅]
    · exact (pushed?_cons hq _ _).trans h₄

/-- What is derived from the start symbol is recognised. -/
theorem Derives.recognizes {ks : List Token} {e : r.Expr}
    (h : Derives [.nonterminal r.nonterminal] ks (e, ())) : Recognizes r ks e := by
  have hq : (top r []).next? (.nonterminal r.nonterminal) = some (.accepted r) :=
    State.goto?_start r
  obtain ⟨stack₁, stack₂, h₁, h₂, he⟩ := feed?_of_derives h (r := r) []
    (State.walk?_cons hq []) (a := .endOfText) (List.mem_singleton.2 rfl)
  have hp : pushed? r [] [.nonterminal r.nonterminal] (e, ()) =
      some [⟨.accepted r, .nonterminal r.nonterminal, e⟩] := pushed?_cons hq _ _
  obtain rfl := Option.some.inj (hp.symm.trans h₂)
  refine ⟨stack₁, h₁, ?_⟩
  rw [he, settle_of_reduces?_eq_none rfl]
  exact Frame.valueAs?_mk (.accepted r) (.nonterminal r.nonterminal) e

/-- **The automaton recognises what the start symbol derives**, with the same value. -/
theorem recognizes_iff_derives {ks : List Token} {e : r.Expr} :
    Recognizes r ks e ↔ Derives [.nonterminal r.nonterminal] ks (e, ()) :=
  ⟨Recognizes.derives, Derives.recognizes⟩

end TensorSig
