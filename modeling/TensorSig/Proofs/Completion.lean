import TensorSig.Proofs.Spelling

/-!
# Completions

Wherever the automaton has got to, the text can still be completed: there are tokens that lead from
the stack to the start symbol. The rule that is in progress on top of the stack is completed first,
with tokens derived from the symbols that are missing; the reduction by it leaves a shorter stack,
or one of the same length with a state of lesser height on top.

* `Spaced`, `exists_derives`: tokens with a single space before each, and that every sequence of
  symbols derives such tokens.
* `IsPath`: the stack follows the edges of the table, which shifts and reductions preserve.
* `IsPath.exists_of_item`: the symbols that have been read of a rule in progress are on top of the
  stack, and below them is a state that has a jump on its left side.
* `IsPath.exists_reduce?`: a reduction that is due can be made.
* `exists_completion`: every stack that follows the edges can be completed.
-/

namespace TensorSig

/-! ## Spaced tokens -/

/-- Tokens, each after a single space. -/
def Spaced : Nat → List Token → Prop
  | _, [] => True
  | offset, k :: ks =>
    k.lexeme.offset = offset + 1 ∧ k.lexeme.text ∈ k.terminal.words ∧ Spaced k.stop ks

/-- The offset after tokens that start at an offset. -/
def stopAfter : Nat → List Token → Nat
  | offset, [] => offset
  | _, k :: ks => stopAfter k.stop ks

theorem Spaced.append {offset : Nat} {ks ls : List Token} (h : Spaced offset ks)
    (h' : Spaced (stopAfter offset ks) ls) : Spaced offset (ks ++ ls) := by
  induction ks generalizing offset with
  | nil => exact h'
  | cons k ks ih =>
    obtain ⟨ho, hw, hs⟩ := h
    exact ⟨ho, hw, ih hs h'⟩

/-- Spaced tokens have a text, which starts with a space. -/
theorem Spaced.exists_text {offset : Nat} {ks : List Token} (h : Spaced offset ks) :
    ∃ t, Spells offset ks (' ' :: t) := by
  induction ks generalizing offset with
  | nil => exact ⟨[], .nil (by decide)⟩
  | cons k ks ih =>
    obtain ⟨ho, hw, hs⟩ := h
    obtain ⟨t, ht⟩ := ih hs
    exact ⟨_, @Spells.cons _ [' '] _ _ _ (by decide) hw ho ht⟩

theorem Spaced.apart {offset : Nat} {ks : List Token} (h : Spaced offset ks) : Apart ks := by
  induction ks generalizing offset with
  | nil => exact .nil
  | cons k ks ih =>
    obtain ⟨-, -, hs⟩ := h
    cases ks with
    | nil => exact .singleton k
    | cons l ls =>
      refine List.isChain_cons_cons.2 ⟨fun hr => ?_, ih hs⟩
      have h₁ := hs.1
      have h₂ := hr.1
      omega

theorem Terminal.exists_mem_words (t : Terminal) : ∃ w, w ∈ t.words := by
  cases hs : t.spelling? with
  | some s => exact ⟨s.toList, by rw [words_of_spelling? hs]; rfl⟩
  | none =>
    have hc := mem_classes hs
    simp only [List.mem_cons, List.not_mem_nil, or_false] at hc
    rcases hc with rfl | rfl | rfl | rfl | rfl | rfl
    · exact ⟨['0', '.', '0'], mem_words_of_scan rfl⟩
    · exact ⟨['0'], mem_words_of_scan rfl⟩
    · exact ⟨['t', 'r', 'u', 'e'], mem_words_of_scan rfl⟩
    · exact ⟨['f', 'a', 'l', 's', 'e'], mem_words_of_scan rfl⟩
    · exact ⟨['0'], mem_words_of_scan rfl⟩
    · exact ⟨['x'], mem_words_of_scan rfl⟩

/-! ## Short derivations -/

namespace Nonterminal

/-- A rule for each nonterminal by which it derives few tokens. -/
def shortest : Nonterminal → Production
  | function => .function
  | identifier => .identifier
  | params => .paramsNone
  | param => .paramStar
  | literal => .literal .noneValue
  | typed .type => .typeBase
  | typed .tupleType => .tupleEmpty .types
  | typed .baseType => .plain .string
  | typed .tensorType => .plain (.tensor .tensor)
  | typed .scalarType => .plain (.scalar .bool)
  | typed .intList => .plain (.tensor .intList)
  | typed .arrayType => .array
  | typed .returns => .returnsTuple
  | typed .returnSingle => .returnUnnamed
  | typed .returnTuple => .tupleEmpty .returns
  | rest list => .restFirst list

/-- The depth of the derivations by these rules. -/
def depth : Nonterminal → Nat
  | function => 3
  | rest _ => 3
  | typed .returns => 2
  | typed .arrayType => 2
  | typed .type => 1
  | typed .returnSingle => 1
  | _ => 0

theorem shortest_spec (n : Nonterminal) : n.shortest.lhs = n ∧
    ∀ m, .nonterminal m ∈ n.shortest.rhs → m.depth < n.depth := by
  have key : ∀ n ∈ all, n.shortest.lhs = n ∧
      ∀ m ∈ all, .nonterminal m ∈ n.shortest.rhs → m.depth < n.depth := by decide +kernel
  exact ⟨(key n (mem_all n)).1, fun m => (key n (mem_all n)).2 m (mem_all m)⟩

end Nonterminal

/-- Symbols derive spaced tokens when each nonterminal among them does. -/
theorem exists_derives_of_forall {ss : List Symbol}
    (h : ∀ n, .nonterminal n ∈ ss → ∀ o, ∃ ks v, Derives [.nonterminal n] ks (v, ()) ∧ Spaced o ks)
    (o : Nat) : ∃ ks vs, Derives ss ks vs ∧ Spaced o ks := by
  induction ss generalizing o with
  | nil => exact ⟨[], (), .nil, trivial⟩
  | cons s ss ih =>
    have ih := ih fun n hn => h n (List.mem_cons_of_mem _ hn)
    cases s with
    | terminal t =>
      obtain ⟨w, hw⟩ := t.exists_mem_words
      obtain ⟨ks, vs, hd, hs⟩ := ih (Token.stop ⟨t, ⟨w, o + 1⟩⟩)
      exact ⟨_, _, .terminal ⟨t, ⟨w, o + 1⟩⟩ hd, rfl, hw, hs⟩
    | nonterminal n =>
      obtain ⟨us, v, hu, hus⟩ := h n List.mem_cons_self o
      obtain ⟨ks, vs, hd, hs⟩ := ih (stopAfter o us)
      exact ⟨us ++ ks, _, hu.append hd, hus.append hs⟩

/-- **Every sequence of symbols derives spaced tokens**, from any offset on. -/
theorem exists_derives (ss : List Symbol) (o : Nat) : ∃ ks vs, Derives ss ks vs ∧ Spaced o ks := by
  have key : ∀ (n : Nonterminal) (o : Nat), ∃ ks v,
      Derives [.nonterminal n] ks (v, ()) ∧ Spaced o ks := by
    intro n
    induction hd : n.depth using Nat.strong_induction_on generalizing n with
    | _ d ih =>
      intro o
      obtain ⟨hl, hr⟩ := n.shortest_spec
      obtain ⟨ks, vs, hk, hs⟩ := exists_derives_of_forall
        (fun m hm => ih _ (hd ▸ hr m hm) m rfl) o
      have hn : ∃ v, Derives [.nonterminal n.shortest.lhs] ks (v, ()) := ⟨_, .single _ hk⟩
      rw [hl] at hn
      obtain ⟨v, hv⟩ := hn
      exact ⟨ks, v, hv, hs⟩
  exact exists_derives_of_forall (fun n _ => key n) o

/-! ## Paths -/

/-- A stack follows the edges of the table. -/
def IsPath (r : StartRule) : List Frame → Prop
  | [] => True
  | f :: stack => (top r stack).next? f.symbol = some f.state ∧ IsPath r stack

/-- Values can be collected from frames with the right symbols. -/
theorem exists_collect? {ss : List Symbol} {fs : List Frame} (h : fs.map Frame.symbol = ss) :
    ∃ vs, collect? ss fs = some vs := by
  induction fs generalizing ss with
  | nil =>
    obtain rfl := h
    exact ⟨(), rfl⟩
  | cons f fs ih =>
    obtain rfl := h
    obtain ⟨vs, hvs⟩ := ih rfl
    obtain ⟨q, s, v⟩ := f
    refine ⟨(v, vs), ?_⟩
    change collect? (s :: fs.map Frame.symbol) (⟨q, s, v⟩ :: fs) = some (v, vs)
    simp only [collect?, Frame.valueAs?_mk, hvs]
    rfl

theorem map_symbol_of_collect? {ss : List Symbol} {fs : List Frame} {vs : Values ss}
    (h : collect? ss fs = some vs) : fs.map Frame.symbol = ss := by
  induction ss generalizing fs with
  | nil => cases fs with
    | nil => rfl
    | cons f fs => cases h
  | cons s ss ih => cases fs with
    | nil => cases h
    | cons f fs =>
      simp only [collect?] at h
      split at h
      · rename_i v vs' hv hvs
        rw [List.map_cons, ih hvs, Frame.symbol_of_valueAs? hv]
      · cases h

namespace IsPath

variable {r : StartRule} {stack stack' : List Frame}

theorem drop (h : IsPath r stack) (n : Nat) : IsPath r (stack.drop n) := by
  induction n generalizing stack with
  | zero => exact h
  | succ n ih => cases stack with
    | nil => exact h
    | cons f stack => exact ih h.2

theorem reduce? {p : Production} (hr : reduce? r p stack = some stack') (h : IsPath r stack) :
    IsPath r stack' := by
  obtain ⟨vs, q, -, hq, rfl⟩ := exists_of_reduce? hr
  exact ⟨hq, h.drop _⟩

theorem settle (a : Ahead) (h : IsPath r stack) : IsPath r (settle r a stack) :=
  settle_induct (P := IsPath r) (fun _ hr hs => hs.reduce? hr) stack h

theorem shiftToken? {k : Token} (hk : shiftToken? r stack k = some stack') (h : IsPath r stack) :
    IsPath r stack' := by
  obtain ⟨q, hq, rfl⟩ := Option.map_eq_some_iff.1 hk
  exact ⟨hq, h.settle _⟩

/-- **The stack follows the edges of the table** whatever it is fed with. -/
theorem feed? {ks : List Token} (hf : feed? r stack ks = some stack') (h : IsPath r stack) :
    IsPath r stack' := by
  induction ks generalizing stack with
  | nil =>
    obtain rfl := Option.some.inj hf
    exact h
  | cons k ks ih =>
    obtain ⟨stack₁, hk, hf⟩ := Option.bind_eq_some_iff.1 hf
    exact ih hf (h.shiftToken? hk)

/-- The edges lead from below the topmost frames to the state on top. -/
theorem walk? (h : IsPath r stack) (n : Nat) :
    (top r (stack.drop n)).walk? ((stack.take n).map Frame.symbol).reverse =
      some (top r stack) := by
  induction n generalizing stack with
  | zero => rfl
  | succ n ih => cases stack with
    | nil => rfl
    | cons f stack =>
      rw [List.drop_succ_cons, List.take_succ_cons, List.map_cons, List.reverse_cons,
        State.walk?_append, ih h.2, Option.bind_some, State.walk?_cons h.1]
      rfl

/-- **The symbols of a rule in progress are on top of the stack**, and below them is a state that
has a jump on the left side of the rule. -/
theorem exists_of_item (h : IsPath r stack) {i : State.Item} (hi : i ∈ (top r stack).items) :
    0 < i.read ∧ i.read ≤ stack.length ∧
      ((stack.take i.read).map Frame.symbol).reverse = i.rule.rhs.take i.read ∧
      ((top r (stack.drop i.read)).goto? i.rule.lhs).isSome := by
  obtain ⟨p, n⟩ := i
  induction stack generalizing n with
  | nil => cases hi
  | cons f stack ih =>
    obtain ⟨k, rfl, hk, hb⟩ := State.item_of_next? h.1 hi
    have ht : p.rhs.take (k + 1) = p.rhs.take k ++ [f.symbol] := by
      rw [List.take_add_one, show p.rhs[k]? = some f.symbol from hk]
      rfl
    dsimp only at hb ⊢
    rw [ht, List.take_succ_cons, List.map_cons, List.reverse_cons, List.drop_succ_cons]
    split at hb
    · rename_i h₀
      subst h₀
      exact ⟨by simp, by simp, rfl, hb⟩
    · obtain ⟨-, hl, he, hg⟩ := ih h.2 k (of_decide_eq_true hb)
      exact ⟨by simp, by simpa using hl, congrArg (· ++ [f.symbol]) he, hg⟩

/-- **The symbols of a rule that is due are on top of the stack**, and below them is a state that has
a jump on its left side. -/
theorem symbols_of_reduces? {a : Ahead} {p : Production} (h : IsPath r stack)
    (hp : (top r stack).reduces? a = some p) :
    ((stack.take p.rhs.length).map Frame.symbol).reverse = p.rhs ∧
      ((top r (stack.drop p.rhs.length)).goto? p.lhs).isSome := by
  rcases State.item_of_reduces? hp with ⟨hn, hg⟩ | hi
  · rw [hn]
    exact ⟨rfl, hg⟩
  · obtain ⟨-, -, hs, hg⟩ := h.exists_of_item hi
    exact ⟨hs.trans (List.take_length ..), hg⟩

/-- **A reduction that is due can be made.** -/
theorem exists_reduce? {a : Ahead} {p : Production} (h : IsPath r stack)
    (hp : (top r stack).reduces? a = some p) : ∃ q v,
      (top r (stack.drop p.rhs.length)).goto? p.lhs = some q ∧
      (top r (stack.drop p.rhs.length)).walk? p.rhs = some (top r stack) ∧
      TensorSig.reduce? r p stack =
        some (⟨q, .nonterminal p.lhs, v⟩ :: stack.drop p.rhs.length) := by
  obtain ⟨hs, hg⟩ := h.symbols_of_reduces? hp
  obtain ⟨q, hq⟩ := Option.isSome_iff_exists.1 hg
  have hcollect : (stack.take p.rhs.length).reverse.map Frame.symbol = p.rhs := by
    rw [List.map_reverse, hs]
  obtain ⟨vs, hvs⟩ := exists_collect? hcollect
  have hw := h.walk? p.rhs.length
  rw [hs] at hw
  exact ⟨q, p.act vs, hq, hw, by simp only [TensorSig.reduce?, hvs, hq]⟩

/-- No reduction is left that is due. -/
theorem reduces?_settle (h : IsPath r stack) (a : Ahead) :
    (top r (TensorSig.settle r a stack)).reduces? a = none := by
  fun_induction TensorSig.settle r a stack with
  | case1 stack hn => exact hn
  | case2 stack p hp hn =>
    obtain ⟨q, v, -, -, hr⟩ := h.exists_reduce? hp
    rw [hr] at hn
    cases hn
  | case3 stack p hp stack' hr ih => exact ih (h.reduce? hr)

end IsPath

/-! ## Completing a stack -/

/-- The height of a nonterminal: more than that of every nonterminal which it can be the first
symbol of. -/
def Nonterminal.height : Nonterminal → Nat
  | param => 1
  | typed .type => 2
  | typed .returnSingle => 1
  | typed .returnTuple => 1
  | typed .baseType => 3
  | typed .tupleType => 3
  | typed .tensorType => 4
  | typed .scalarType => 4
  | typed .intList => 4
  | typed .arrayType => 4
  | identifier => 1
  | _ => 0

/-- The height of a state: zero unless the rule to complete there has its first symbol on top of the
stack, and then one more than the height of its left side. -/
def State.height (s : State) : Nat :=
  match s.items with
  | ⟨p, 1⟩ :: _ => p.lhs.height + 1
  | _ => 0

/-- A jump leads to a state of no greater height than the nonterminal's. -/
theorem State.height_le_of_goto? {s q : State} {n : Nonterminal} (h : s.goto? n = some q) :
    q.height ≤ n.height := by
  have key : ∀ s ∈ all, ∀ n ∈ Nonterminal.all, ∀ q ∈ s.goto? n, q.height ≤ n.height := by
    decide +kernel
  exact key s (mem_all s) n (Nonterminal.mem_all n) q h

/-- A state in which no rule is in progress is a start state or an accepting one. -/
theorem State.eq_of_items_eq_nil {s : State} (h : s.items = []) :
    (∃ r, s = .start r) ∨ ∃ r, s = .accepted r := by
  have key : ∀ s ∈ all, s.items = [] → (∃ r ∈ StartRule.all, s = .start r) ∨
      ∃ r ∈ StartRule.all, s = .accepted r := by decide +kernel
  rcases key s (mem_all s) h with ⟨r, -, hr⟩ | ⟨r, -, hr⟩
  · exact Or.inl ⟨r, hr⟩
  · exact Or.inr ⟨r, hr⟩

variable {r : StartRule}

/-- The stack of a start state is empty. -/
theorem IsPath.eq_nil {stack : List Frame} (h : IsPath r stack) {r' : StartRule}
    (ht : top r stack = .start r') : stack = [] := by
  cases stack with
  | nil => rfl
  | cons f stack => exact absurd (h.1.trans (congrArg some ht)) State.next?_ne_start

/-- The stack of an accepting state is the start symbol. -/
theorem IsPath.exists_accepted {stack : List Frame} (h : IsPath r stack) {r' : StartRule}
    (ht : top r stack = .accepted r') : ∃ e, accepted? r stack = some e := by
  cases stack with
  | nil => cases ht
  | cons f stack =>
    obtain ⟨hs, hf⟩ := State.eq_of_next?_accepted (h.1.trans (congrArg some ht))
    obtain rfl := IsPath.eq_nil h.2 hs
    obtain rfl : r = r' := State.start.inj hs
    obtain ⟨q, s, v⟩ := f
    obtain rfl : s = _ := hf
    exact ⟨v, Frame.valueAs?_mk q _ v⟩

/-- The stack can be completed: there are spaced tokens that lead from it to the start symbol, the
first of which the state on top can go on with. -/
def Completable (r : StartRule) (stack : List Frame) (o : Nat) : Prop :=
  ∃ ks, Spaced o ks ∧ aheadOf ks .endOfText ∈ (top r stack).handled ∧
    ∃ stack' e, feed? r stack ks = some stack' ∧
      accepted? r (settle r .endOfText stack') = some e

/-- A stack can be completed as the one that completing the rule in progress leaves. -/
theorem Completable.of_reduce {p : Production} {n : Nat} {stack : List Frame} {q : State}
    (hp : IsPath r stack)
    (ht : ((stack.take n).map Frame.symbol).reverse = p.rhs.take n)
    (hq : (top r (stack.drop n)).goto? p.lhs = some q)
    (h : ∀ v o, Completable r (⟨q, .nonterminal p.lhs, v⟩ :: stack.drop n) o) (o : Nat) :
    Completable r stack o := by
  obtain ⟨ks, vs, hd, hs⟩ := exists_derives (p.rhs.drop n) o
  obtain ⟨z, hz, hr⟩ := State.exists_walk_of_goto? hq
  have hw : (top r stack).walk? (p.rhs.drop n) = some z := by
    rw [← List.take_append_drop n p.rhs, State.walk?_append, ← ht, hp.walk? n,
      Option.bind_some] at hz
    exact hz
  obtain ⟨fs, hfl, hpush, hcoll, htop⟩ := exists_pushed? vs stack hw
  -- the frames of the whole rule, those that are on the stack and those of the derived tokens
  have hsym : ((stack.take n).reverse ++ fs).map Frame.symbol = p.rhs := by
    rw [List.map_append, map_symbol_of_collect? hcoll, List.map_reverse, ht,
      List.take_append_drop]
  obtain ⟨us, hus⟩ := exists_collect? hsym
  have hfs : ((stack.take n).reverse ++ fs).reverse ++ stack.drop n = fs.reverse ++ stack := by
    rw [List.reverse_append, List.reverse_reverse, List.append_assoc, List.take_append_drop]
  have hred := reduce?_pushed (by rw [← hsym, List.length_map]) hus hq
  rw [hfs] at hred
  obtain ⟨ls, hls, hah, stack', e, hf, he⟩ := h (p.act us) (stopAfter o ks)
  have hz' : aheadOf ls .endOfText ∈ z.handled :=
    State.mem_handled_of_acts (State.acts_of_reduces? (hr _ hah))
  obtain ⟨stack₁, stack₂, h₁, h₂, hse⟩ := feed?_of_derives hd stack hw hz'
  obtain rfl := Option.some.inj (hpush.symm.trans h₂)
  rw [settle_of_reduce? (by rw [htop]; exact hr _ hah) hred] at hse
  obtain ⟨stack₃, h₃, hse'⟩ := feed?_congr hse hf
  refine ⟨ks ++ ls, hs.append hls, ?_, stack₃, e, ?_, by rw [hse', he]⟩
  · rw [aheadOf_append]
    exact aheadOf_mem_handled hd hw hz'
  · rw [feed?_append, h₁, Option.bind_some, h₃]

theorem State.height_le (s : State) : s.height ≤ 5 := by
  have key : ∀ s ∈ all, s.height ≤ 5 := by decide +kernel
  exact key s (mem_all s)

/-- **Every stack can be completed.** Completing the first rule in progress makes the stack shorter,
or keeps its length and lowers the height of the state on top. -/
theorem exists_completion {stack : List Frame} (hp : IsPath r stack) (o : Nat) :
    Completable r stack o := by
  induction hm : 6 * stack.length + (top r stack).height using Nat.strong_induction_on
    generalizing stack o with
  | _ m ih =>
    cases hi : (top r stack).items with
    | nil =>
      rcases State.eq_of_items_eq_nil hi with ⟨r', ht⟩ | ⟨r', ht⟩
      · obtain rfl := hp.eq_nil ht
        obtain ⟨ks, ⟨e, _⟩, hd, hs⟩ := exists_derives [.nonterminal r.nonterminal] o
        obtain ⟨stack', hf, he⟩ := hd.recognizes
        have hn : (top r []).next? (.nonterminal r.nonterminal) = some (.accepted r) :=
          State.goto?_start r
        have hw := State.walk?_cons hn []
        exact ⟨ks, hs, aheadOf_mem_handled hd hw (List.mem_singleton.2 rfl), stack', e, hf, he⟩
      · obtain ⟨e, he⟩ := hp.exists_accepted ht
        refine ⟨[], trivial, ?_, stack, e, rfl, ?_⟩
        · rw [ht]
          exact List.mem_singleton.2 rfl
        · rw [settle_of_reduces?_eq_none (by rw [ht]; rfl), he]
    | cons i is =>
      obtain ⟨p, n⟩ := i
      obtain ⟨hpos, hl, ht, hg⟩ := hp.exists_of_item (i := ⟨p, n⟩) (by rw [hi]; simp)
      obtain ⟨q, hq⟩ := Option.isSome_iff_exists.1 hg
      refine Completable.of_reduce hp ht hq (fun v o' => ?_) o
      have hp' : IsPath r (⟨q, .nonterminal p.lhs, v⟩ :: stack.drop n) := ⟨hq, hp.drop n⟩
      refine ih _ ?_ hp' o' rfl
      change 6 * ((stack.drop n).length + 1) + q.height < m
      have hqh : q.height ≤ p.lhs.height := State.height_le_of_goto? hq
      have hq5 := q.height_le
      dsimp only at hpos hl
      rw [← hm, List.length_drop]
      by_cases h₁ : n = 1
      · subst h₁
        have hz : (top r stack).height = p.lhs.height + 1 := by
          rw [State.height, hi]
          rfl
        omega
      · omega

end TensorSig
