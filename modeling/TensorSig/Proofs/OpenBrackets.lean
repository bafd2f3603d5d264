import TensorSig.Proofs.ErrorLexeme
import TensorSig.Proofs.ResultNames

/-!
# Open brackets

A report says that a construct is not terminated where nothing is expected but the rest of one. What
is expected is what the state on top of the stack has an action for, and some of these actions are
reductions that are there for the sake of other contexts: behind a type, say, a comma is expected
whether or not the type is in a list. When a token has been read that has no place, the reductions
have been done, and the end of the text is expected too unless a bracket is open. When no token can
be read, they have not, and the report is made behind every whole item.

* `Terminal.bracket`, `unclosed`: the brackets that tokens leave open.
* `Derives.unclosedAfter_eq`: what is derived from a nonterminal leaves no bracket open.
* `brackets`, `Yields.unclosed_eq`: the open brackets are on the stack.
* `State.isInside`, `IsPath.brackets_ne_nil`: the states in which a bracket is open.
* `parse_unterminated`: what is open where a report says so.
* `kind_of_unreadable`: the report that is made whatever is open.
-/

namespace TensorSig

/-! ## Brackets -/

namespace Terminal

/-- Whether a terminal opens a bracket. -/
def opens : Terminal → Bool
  | openParen => true
  | openSquare => true
  | openAngle => true
  | _ => false

/-- Whether a terminal closes a bracket. -/
def closes : Terminal → Bool
  | closeParen => true
  | closeSquare => true
  | closeAngle => true
  | _ => false

/-- The open brackets after a terminal, the innermost first: an opening bracket is one more, and a
closing one closes the innermost if that is of its kind. -/
def bracket : Terminal → List Terminal → List Terminal
  | openParen, outer => openParen :: outer
  | openSquare, outer => openSquare :: outer
  | openAngle, outer => openAngle :: outer
  | closeParen, openParen :: outer => outer
  | closeSquare, openSquare :: outer => outer
  | closeAngle, openAngle :: outer => outer
  | _, outer => outer

theorem bracket_of_opens {t : Terminal} (h : t.opens = true) (outer : List Terminal) :
    t.bracket outer = t :: outer := by
  cases t <;> first | rfl | cases h

theorem bracket_eq_self {t : Terminal} (h : t.opens = false) (h' : t.closes = false)
    (outer : List Terminal) : t.bracket outer = outer := by
  cases t <;> first | rfl | exact absurd h (by decide) | exact absurd h' (by decide)

end Terminal

/-- The open brackets after a symbol. What a nonterminal stands for closes what it opens. -/
def Symbol.bracket : Symbol → List Terminal → List Terminal
  | terminal t => t.bracket
  | nonterminal _ => id

/-- The open brackets after symbols. -/
def bracketsAfter (outer : List Terminal) (symbols : List Symbol) : List Terminal :=
  symbols.foldl (fun outer s => s.bracket outer) outer

/-- The open brackets after tokens, where some were open before. -/
def unclosedAfter (outer : List Terminal) (ks : List Token) : List Terminal :=
  ks.foldl (fun outer k => k.terminal.bracket outer) outer

/-- The brackets that tokens leave open, the innermost first. -/
def unclosed (ks : List Token) : List Terminal := unclosedAfter [] ks

theorem unclosedAfter_append (outer : List Terminal) (ks ls : List Token) :
    unclosedAfter outer (ks ++ ls) = unclosedAfter (unclosedAfter outer ks) ls :=
  List.foldl_append

/-- Each rule closes what it opens. -/
theorem Production.bracketsAfter_rhs (p : Production) (outer : List Terminal) :
    bracketsAfter outer p.rhs = outer := by
  cases p with
  | restFirst list => rcases list with _ | ⟨_ | _⟩ | _ <;> rfl
  | restNext list => rcases list with _ | ⟨_ | _⟩ | _ <;> rfl
  | _ => rfl

theorem Derives.unclosedAfter_eq {ss : List Symbol} {ks : List Token} {vs : Values ss}
    (h : Derives ss ks vs) (outer : List Terminal) :
    unclosedAfter outer ks = bracketsAfter outer ss := by
  induction h generalizing outer with
  | nil => rfl
  | terminal k _ ih => exact ih _
  | rule p _ _ ihp ih =>
    rw [unclosedAfter_append, ihp, p.bracketsAfter_rhs]
    exact ih outer

/-- The brackets that are open above the bottom of a stack. -/
def brackets : List Frame → List Terminal
  | [] => []
  | f :: stack => f.symbol.bracket (brackets stack)

/-- **The brackets that are open are on the stack.** -/
theorem Yields.unclosed_eq {stack : List Frame} {ks : List Token} (h : Yields stack ks) :
    unclosed ks = brackets stack := by
  induction h with
  | nil => rfl
  | cons _ hd ih =>
    rw [unclosed] at ih ⊢
    rw [unclosedAfter_append, ih]
    exact hd.unclosedAfter_eq _

/-! ## States in brackets -/

/-- The tokens that complete an item by themselves. The item need not be in brackets. -/
def Terminal.endsItem : Terminal → Bool
  | plain (.tensor .intList) => false
  | plain _ => true
  | literal _ => true
  | star => true
  | name => true
  | closeParen => true
  | closeSquare => true
  | closeAngle => true
  | _ => false

namespace State

/-- Whether a state is only ever reached in brackets. The states of a list of parameters are not
among them, since such a list is a text of its own as well. -/
def isInside : State → Bool
  | functionOpen => true
  | functionParams => true
  | intListOpen => true
  | arrayOpen => true
  | arrayElement => true
  | arrayComma => true
  | arrayLength => true
  | tupleOpen _ => true
  | listFirst list => list ≠ .params
  | listFirstComma list => list ≠ .params
  | listSecond list => list ≠ .params
  | listRest list => list ≠ .params
  | listRestComma list => list ≠ .params
  | listNext list => list ≠ .params
  | _ => false

/-- An edge into a bracket is the bracket, or it starts in one and closes none. -/
theorem bracket_of_next? {s q : State} {x : Symbol} (h : s.next? x = some q)
    (hq : q.isInside = true) (outer : List Terminal) :
    (∃ t, x.bracket outer = t :: outer) ∨ s.isInside = true ∧ x.bracket outer = outer := by
  have key : ∀ s ∈ all, ∀ t ∈ Terminal.all, ∀ q ∈ s.shift? t, q.isInside = true →
      t.opens = true ∨ s.isInside = true ∧ t.opens = false ∧ t.closes = false := by decide +kernel
  have key' : ∀ s ∈ all, ∀ n ∈ Nonterminal.all, ∀ q ∈ s.goto? n, q.isInside = true →
      s.isInside = true := by decide +kernel
  cases x with
  | terminal t =>
    refine (key s (mem_all s) t (Terminal.mem_all t) q h hq).imp (fun ho => ⟨t, ?_⟩) fun hs => ?_
    · exact Terminal.bracket_of_opens ho outer
    · exact ⟨hs.1, Terminal.bracket_eq_self hs.2.1 hs.2.2 outer⟩
  | nonterminal n => exact Or.inr ⟨key' s (mem_all s) n (Nonterminal.mem_all n) q h hq, rfl⟩

/-- A state that expects nothing but the rest of a construct is in brackets. After a whole item the
end of the text is expected too, if the item may stand alone. -/
theorem isInside_of_expected {s : State} (h : isUnterminated s.expected = true) :
    s.isInside = true := by
  have key : ∀ s ∈ all, isUnterminated s.expected = true → s.isInside = true := by decide +kernel
  exact key s (mem_all s) h

/-- Among terminals alone that is so of the states after a whole item as well. -/
theorem isInside_of_shift? {s q : State} {t : Terminal} (hs : s.shift? t = some q)
    (h : isUnterminated (q.acceptable.map .token) = true) :
    q.isInside = true ∨ t.endsItem = true := by
  have key : ∀ s ∈ all, ∀ t ∈ Terminal.all, ∀ q ∈ s.shift? t,
      isUnterminated (q.acceptable.map .token) = true → q.isInside = true ∨ t.endsItem = true := by
    decide +kernel
  exact key s (mem_all s) t (Terminal.mem_all t) q hs h

/-- A text that has not begun is no open construct. -/
theorem isUnterminated_start (r : StartRule) :
    isUnterminated ((start r).acceptable.map .token) = false := by
  cases r <;> decide +kernel

/-- After a whole item nothing is expected but the rest of a construct. Names and parentheses may be
those of a function, where more is. -/
theorem isUnterminated_of_shift? {s q : State} {t : Terminal} (hs : s.shift? t = some q)
    (ht : t.endsItem = true) (hn : t ≠ .name) (hc : t ≠ .closeParen) :
    isUnterminated (q.acceptable.map .token) = true := by
  have key : ∀ s ∈ all, ∀ t ∈ Terminal.all, ∀ q ∈ s.shift? t, t.endsItem = true → t ≠ .name →
      t ≠ .closeParen → isUnterminated (q.acceptable.map .token) = true := by decide +kernel
  exact key s (mem_all s) t (Terminal.mem_all t) q hs ht hn hc

end State

variable {r : StartRule}

/-- **In such a state a bracket is open.** -/
theorem IsPath.brackets_ne_nil {stack : List Frame} (h : IsPath r stack)
    (ht : (top r stack).isInside = true) : brackets stack ≠ [] := by
  induction stack with
  | nil => cases ht
  | cons f stack ih =>
    rcases State.bracket_of_next? h.1 ht (brackets stack) with ⟨t, hb⟩ | ⟨hs, hb⟩
    · rw [brackets, hb]
      exact List.cons_ne_nil _ _
    · rw [brackets, hb]
      exact ih h.2 hs

theorem Yields.unclosed_ne_nil {stack : List Frame} {ks : List Token} (h : Yields stack ks)
    (hp : IsPath r stack) (ht : (top r stack).isInside = true) : unclosed ks ≠ [] := by
  rw [h.unclosed_eq]
  exact hp.brackets_ne_nil ht

/-! ## The tokens of a rejected text -/

theorem tokensFrom_of_reject {c : Config} {why : Rejection} (h : step r c = .reject why) :
    tokensFrom r c = [] := by
  rw [tokensFrom]
  split <;> simp_all

theorem Reads.tokens_eq {text : List Char} {ks : List Token} {c : Config} {why : Rejection}
    (h : Reads r ⟨[], 0, text⟩ ks c) (hs : step r c = .reject why) : tokens r text = ks := by
  rw [tokens, h.tokensFrom_eq, tokensFrom_of_reject hs, List.append_nil]

/-- The tokens that are read are spelled by the text before the point of a rejection. -/
theorem Reads.spells_take {text : List Char} {ks : List Token} {c : Config} {why : Rejection}
    (h : Reads r ⟨[], 0, text⟩ ks c) (hw : Stuck r c why) :
    Spells 0 ks (text.take why.offset) := by
  obtain ⟨t, ht, hs, ho⟩ := h.spells
  obtain ⟨gap, rest, hg, hc, hoff, -⟩ := hw.exists_split
  dsimp only at ht ho
  have hlen : why.offset = (t ++ gap).length := by
    rw [hoff, ho, Nat.zero_add, List.length_append]
  rw [ht, hc, ← List.append_assoc, hlen, List.take_left]
  simpa using hs.append (.nil hg)

/-- The state on top of a stack is that after the last token. -/
theorem exists_shift?_of_feed? {stack stack' : List Frame} {ks : List Token} {k : Token}
    (h : feed? r stack ks = some stack') (hk : ks.getLast? = some k) :
    ∃ s : State, s.shift? k.terminal = some (top r stack') := by
  obtain ⟨ls, rfl⟩ := List.getLast?_eq_some_iff.1 hk
  rw [feed?_append] at h
  obtain ⟨stack₁, -, h⟩ := Option.bind_eq_some_iff.1 h
  obtain ⟨stack₂, hs, h⟩ := Option.bind_eq_some_iff.1 h
  obtain rfl := Option.some.inj h
  obtain ⟨q, hq, rfl⟩ := Option.map_eq_some_iff.1 hs
  exact ⟨_, hq⟩

/-! ## What is open where a construct is not terminated -/

theorem Rejection.isUnterminated_of_kind {why : Rejection} (h : why.kind = .unterminatedConstruct)
    (hf : why.found? ≠ none) : isUnterminated why.expected = true := by
  obtain ⟨piece, hp⟩ := Option.ne_none_iff_exists'.1 hf
  rw [kind, hp, Option.isNone_some, Bool.false_or] at h
  split at h
  · assumption
  · cases h

/-- Where no acceptable terminal comes next, a bracket is open if nothing but the rest of a
construct is expected, unless the last token completes an item. -/
theorem Reads.isInside_or_endsItem {text : List Char} {ks : List Token} {c : Config}
    (h : Reads r ⟨[], 0, text⟩ ks c)
    (hu : isUnterminated ((top r c.stack).acceptable.map .token) = true) :
    (top r c.stack).isInside = true ∨ ∃ k, ks.getLast? = some k ∧ k.terminal.endsItem = true := by
  cases hk : ks.getLast? with
  | none =>
    -- nothing has been read
    obtain rfl := List.getLast?_eq_none_iff.1 hk
    cases h
    cases (State.isUnterminated_start r).symm.trans hu
  | some k =>
    obtain ⟨s, hs⟩ := exists_shift?_of_feed? h.feed? hk
    exact (State.isInside_of_shift? hs hu).imp_right fun hi => ⟨k, rfl, hi⟩

/-- Where no acceptable terminal comes behind a token that completes an item, a construct is always
said not to be terminated, whatever is open. Names and closing parentheses are left out, since they
also end the name and the parameters of a function. -/
theorem kind_of_unreadable {text found : List Char} {o : Nat} {expected : List Terminal} {k : Token}
    (h : read r text = .error (.unreadable o found expected))
    (hk : (tokens r text).getLast? = some k) (he : k.terminal.endsItem = true)
    (hn : k.terminal ≠ .name) (hc : k.terminal ≠ .closeParen) :
    (Rejection.unreadable o found expected).kind = .unterminatedConstruct := by
  obtain ⟨ks, c, hr, hw, hstep⟩ := exists_stuck_of_read h
  rw [hr.tokens_eq hstep] at hk
  obtain ⟨s, hs⟩ := exists_shift?_of_feed? hr.feed? hk
  have hu := State.isUnterminated_of_shift? hs he hn hc
  cases hw with
  | unreadable => exact if_pos hu

/-- **A construct that is not terminated** before the end of the text is an open bracket, unless the
last token completes an item and no acceptable terminal comes behind it. The tokens are all those
before the place of the report. -/
theorem parse_unterminated {text : List Char} {error : SignatureError}
    (h : parse r text = .error (.signature error)) (hk : error.kind = .unterminatedConstruct)
    (ho : error.span.offset ≠ text.length) :
    ∃ o, error.span = .ofOffset text o ∧ Spells 0 (tokens r text) (text.take o) ∧
      (unclosed (tokens r text) ≠ [] ∨ ∃ found expected k,
        read r text = .error (.unreadable o found expected) ∧
          (tokens r text).getLast? = some k ∧ k.terminal.endsItem = true) := by
  obtain ⟨why, hread, rfl⟩ := exists_read_error_of_parse h (by rw [hk]; decide)
  obtain ⟨ks, c, hr, hw, hstep⟩ := exists_stuck_of_read hread
  rw [hr.tokens_eq hstep]
  refine ⟨why.offset, rfl, hr.spells_take hw, ?_⟩
  have hy : Yields c.stack ks := Yields.feed? hr.feed? .nil
  have hp : IsPath r c.stack := IsPath.feed? hr.feed? trivial
  cases hw with
  | incomplete =>
    -- at the end of the text
    obtain ⟨t, ht, -, hoff⟩ := hr.spells
    refine absurd ?_ ho
    change ((c.offset + c.text.length : Nat) : Int) = _
    rw [hoff, show text = t ++ c.text from ht, List.length_append, Nat.zero_add]
  | unreadable =>
    have hu := Rejection.isUnterminated_of_kind hk (by simp [Rejection.found?])
    rcases hr.isInside_or_endsItem hu with hi | ⟨k, hl, he⟩
    · exact Or.inl (hy.unclosed_ne_nil hp hi)
    · exact Or.inr ⟨_, _, k, hread, hl, he⟩
  | misplaced =>
    have hu := Rejection.isUnterminated_of_kind hk (by simp [Rejection.found?])
    exact Or.inl ((hy.settle _).unclosed_ne_nil (hp.settle _) (State.isInside_of_expected hu))

theorem parse_unterminated_dimension : ∃ error,
    parse .type "IntList[1+".toList = .error (.signature error) ∧
      error.kind = .unterminatedConstruct ∧ error.span.offset ≠ "IntList[1+".toList.length ∧
      ∃ o, error.span = .ofOffset "IntList[1+".toList o ∧
        Spells 0 (tokens .type "IntList[1+".toList) ("IntList[1+".toList.take o) ∧
        unclosed (tokens .type "IntList[1+".toList) ≠ [] := by
  obtain ⟨a, ha⟩ : ∃ f : Frame, f = ⟨.plain (.tensor .intList),
    .terminal (.plain (.tensor .intList)), (⟨"IntList".toList, 0⟩ : Lexeme)⟩ := ⟨_, rfl⟩
  obtain ⟨b, hb⟩ : ∃ f : Frame, f =
    ⟨.intListOpen, .terminal .openSquare, (⟨['['], 7⟩ : Lexeme)⟩ := ⟨_, rfl⟩
  obtain ⟨c, hc⟩ : ∃ f : Frame, f =
    ⟨.listFirst .dims, .terminal .natural, (⟨['1'], 8⟩ : Lexeme)⟩ := ⟨_, rfl⟩
  have h₁ : step .type ⟨[], 0, "IntList[1+".toList⟩ = .shift ⟨[a], 7, "[1+".toList⟩ :=
    ha ▸ step_of_shift? rfl rfl rfl
  have h₂ : step .type ⟨[a], 7, "[1+".toList⟩ = .shift ⟨[b, a], 8, "1+".toList⟩ :=
    ha ▸ hb ▸ step_of_shift? rfl rfl rfl
  have h₃ : step .type ⟨[b, a], 8, "1+".toList⟩ = .shift ⟨[c, b, a], 9, ['+']⟩ :=
    hb ▸ hc ▸ step_of_shift? rfl rfl rfl
  have h₄ : step .type ⟨[c, b, a], 9, ['+']⟩ =
    .reject (.unreadable 9 ['+'] [.comma, .closeSquare]) := hc ▸ rfl
  have hread : read .type "IntList[1+".toList =
      .error (.unreadable 9 ['+'] [.comma, .closeSquare]) := by
    rw [read, run_of_shift h₁, run_of_shift h₂, run_of_shift h₃, run_of_reject h₄]
  have ht : tokens .type "IntList[1+".toList = _ := tokensFrom_of_shift h₁
  rw [tokensFrom_of_shift h₂, tokensFrom_of_shift h₃, tokensFrom_of_reject h₄] at ht
  subst ha hb hc
  have hp := parse_of_read_error hread
  refine ⟨_, hp, by decide, by decide, ?_⟩
  obtain ⟨o, ho, hs, hu | ⟨-, -, k, -, hk, he⟩⟩ := parse_unterminated hp (by decide) (by decide)
  · exact ⟨o, ho, hs, hu⟩
  · -- the last token does not complete an item
    rw [ht] at hk
    obtain rfl := Option.some.inj hk
    cases he

/-- Behind the word of a type a comma is expected, and not the end of the text: where a type is read
by itself, nothing is open. -/
theorem parse_unterminated_plus : ∃ error,
    parse .type "Tensor +".toList = .error (.signature error) ∧
      error.kind = .unterminatedConstruct ∧ error.span.offset ≠ "Tensor +".toList.length ∧
      unclosed (tokens .type "Tensor +".toList) = [] := by
  have hshift := @step_of_shift? .type [] 0 'T' "ensor +".toList _ _ _ _ rfl rfl rfl
  have hread : read .type "Tensor +".toList = .error _ :=
    (run_of_shift hshift).trans (run_of_reject rfl)
  refine ⟨_, parse_of_read_error hread, by decide, by decide, ?_⟩
  have ht : tokens .type "Tensor +".toList = _ := tokensFrom_of_shift hshift
  rw [ht, tokensFrom_of_reject rfl]
  rfl

end TensorSig
