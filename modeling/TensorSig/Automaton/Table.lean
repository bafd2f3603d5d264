import TensorSig.Automaton.State

/-!
# The table of the automaton

What the automaton may do in each state. A shift reads a terminal, a reduction replaces the symbols
of a rule that has been read by its left side, and a jump follows it on that nonterminal. Whether a
state reduces depends on the terminal ahead: `State.reduction?` gives, with the rule, the terminals
that may follow. These are collected over all contexts in which the automaton can be in that state,
so a reduction may happen in a context in which the terminal ahead will be refused later.

* `State.shift?`, `State.reduction?`, `State.goto?`: the table.
* `State.acceptable`, `State.expected`: the terminals that a state has an action for.
* `State.rank`, `State.rank_le_of_goto?`: every reduction lowers the rank of the state on top, so
  reductions without a shift between them end.
-/

namespace TensorSig

/-- What is ahead: a terminal or the end of the text. -/
inductive Ahead
  | endOfText
  | token (t : Terminal)
  deriving DecidableEq

/-! ## Shifts -/

/-- The state after a terminal that starts an item, where `next` is the state after the whole
item. -/
def Expectation.shift? (next : State) : Expectation → Terminal → Option State
  | type, .plain w => some (.plain w)
  | type, .array => some .array
  | type, .openParen => some (.tupleOpen .types)
  | param, .plain w => some (.plain w)
  | param, .array => some .array
  | param, .openParen => some (.tupleOpen .types)
  | param, .star => some .paramStar
  | returns, .plain w => some (.plain w)
  | returns, .array => some .array
  | returns, .openParen => some (.tupleOpen .returns)
  | literal, .literal form => some (.literal form)
  | natural, .natural => some next
  | _, _ => none

/-- The state after a terminal. -/
def State.shift? (s : State) (t : Terminal) : Option State :=
  match s, t with
  | start .function, .name => some functionName
  | start .identifier, .name => some functionName
  | functionHead, .openParen => some functionOpen
  | functionParams, .closeParen => some functionClose
  | functionClose, .arrow => some functionArrow
  | plain (.tensor .intList), .openSquare => some intListOpen
  | array, .openAngle => some arrayOpen
  | arrayElement, .comma => some arrayComma
  | arrayLength, .closeAngle => some arrayClose
  | paramType, .name => some paramName
  | paramName, .equal => some paramEqual
  | returnBase, .name => some returnName
  | tupleOpen kind, .closeParen => some (tupleCloseNone kind)
  | listFirst list, .comma => some (listFirstComma list)
  | listRest list, .comma => some (listRestComma list)
  | listFirst (.tuple kind), .closeParen => some (tupleCloseOne kind)
  | listRest (.tuple kind), .closeParen => some (tupleCloseMany kind)
  | listFirst .dims, .closeSquare => some intListCloseOne
  | listRest .dims, .closeSquare => some intListCloseMany
  | s, t =>
    match s.awaits? with
    | some (e, next) => e.shift? next t
    | none => none

/-! ## Reductions -/

/-- What may follow a type. -/
def Ahead.afterType : List Ahead :=
  [.endOfText, .token .comma, .token .name, .token .closeParen]

/-- What may follow a parameter, a default or a result. -/
def Ahead.afterItem : List Ahead := [.endOfText, .token .comma, .token .closeParen]

/-- What may follow the parameters of a list that is complete. -/
def Ahead.afterParams : List Ahead := [.endOfText, .token .closeParen]

/-- What may follow a tuple. -/
def TupleKind.followers : TupleKind → List Ahead
  | types => Ahead.afterType
  | returns => Ahead.afterItem

/-- What may follow a further item of a list. -/
def ListKind.followers : ListKind → List Ahead
  | params => Ahead.afterItem
  | tuple _ => [.token .comma, .token .closeParen]
  | dims => [.token .comma, .token .closeSquare]

/-- The rule that has been read completely in a state, with what may follow it. -/
def State.reduction? : State → Option (Production × List Ahead)
  | start .params => some (.paramsNone, [.endOfText])
  | functionOpen => some (.paramsNone, [.token .closeParen])
  | functionName => some (.identifier, [.endOfText, .token .openParen])
  | functionReturns => some (.function, [.endOfText])
  | plain w => some (.plain w, Ahead.afterType)
  | literal form => some (.literal form, Ahead.afterItem)
  | base form => some (.base form, Ahead.afterType)
  | typeBase => some (.typeBase, Ahead.afterType)
  | typeTuple => some (.typeTuple, Ahead.afterType)
  | paramStar => some (.paramStar, Ahead.afterItem)
  | paramName => some (.paramPlain, Ahead.afterItem)
  | paramValue => some (.paramDefault, Ahead.afterItem)
  | returnBase => some (.returnUnnamed, Ahead.afterItem)
  | returnName => some (.returnNamed, Ahead.afterItem)
  | returnsSingle => some (.returnsSingle, Ahead.afterItem)
  | returnsTuple => some (.returnsTuple, Ahead.afterItem)
  | intListCloseOne => some (.intListOne, Ahead.afterType)
  | intListCloseMany => some (.intListMany, Ahead.afterType)
  | arrayClose => some (.array, Ahead.afterType)
  | tupleCloseNone kind => some (.tupleEmpty kind, kind.followers)
  | tupleCloseOne kind => some (.tupleOne kind, kind.followers)
  | tupleCloseMany kind => some (.tupleMany kind, kind.followers)
  | listFirst .params => some (.paramsOne, Ahead.afterParams)
  | listRest .params => some (.paramsMany, Ahead.afterParams)
  | listSecond list => some (.restFirst list, list.followers)
  | listNext list => some (.restNext list, list.followers)
  | _ => none

/-- The rule by which a state reduces before what is ahead. -/
def State.reduces? (s : State) (ahead : Ahead) : Option Production :=
  match s.reduction? with
  | some (p, followers) => if ahead ∈ followers then some p else none
  | none => none

/-! ## Jumps -/

/-- The state after a nonterminal that starts an item or is one, where `next` is the state after
the whole item. -/
def Expectation.goto? (next : State) : Expectation → Nonterminal → Option State
  | type, .typed .type => some next
  | param, .param => some next
  | param, .typed .type => some .paramType
  | returns, .typed .returns => some next
  | returns, .typed .baseType => some .returnBase
  | returns, .typed .returnSingle => some .returnsSingle
  | returns, .typed .returnTuple => some .returnsTuple
  | literal, .literal => some next
  | type, .typed .baseType => some .typeBase
  | type, .typed .tupleType => some .typeTuple
  | param, .typed .baseType => some .typeBase
  | param, .typed .tupleType => some .typeTuple
  | natural, _ => none
  | literal, _ => none
  | _, .typed .tensorType => some (.base .tensorType)
  | _, .typed .scalarType => some (.base .scalarType)
  | _, .typed .intList => some (.base .intList)
  | _, .typed .arrayType => some (.base .arrayType)
  | _, _ => none

/-- The state after a nonterminal. -/
def State.goto? (s : State) (n : Nonterminal) : Option State :=
  match s, n with
  | start .function, .function => some (accepted .function)
  | start .function, .identifier => some functionHead
  | start .identifier, .identifier => some (accepted .identifier)
  | start .params, .params => some (accepted .params)
  | functionOpen, .params => some functionParams
  | listFirst list, .rest list' => if list = list' then some (listRest list) else none
  | s, n =>
    match s.awaits? with
    | some (e, next) => e.goto? next n
    | none => none

/-! ## Expected terminals -/

/-- Whether a state has an action for what is ahead. -/
def State.acts (s : State) (ahead : Ahead) : Bool :=
  (s.reduces? ahead).isSome ||
    match ahead with
    | .endOfText => false
    | .token t => (s.shift? t).isSome

/-- The terminals that a state has an action for, in the order in which they are tried. -/
def State.acceptable (s : State) : List Terminal :=
  Terminal.ranked.filter fun t => s.acts (.token t)

/-- Everything that a state has an action for. -/
def State.expected (s : State) : List Ahead :=
  (if s.acts .endOfText then [.endOfText] else []) ++ s.acceptable.map .token

/-! ## Rank -/

/-- The rank of a nonterminal bounds the ranks of the states that a jump on it leads to. -/
def Nonterminal.rank : Nonterminal → Nat
  | function => 0
  | identifier => 0
  | params => 0
  | rest .params => 1
  | rest _ => 0
  | param => 2
  | literal => 3
  | typed .type => 1
  | typed .returns => 1
  | typed .tupleType => 2
  | typed .returnSingle => 2
  | typed .returnTuple => 2
  | typed .baseType => 3
  | typed _ => 4

/-- The rank of a state: zero unless the state reduces, and then one more than the rank of the
nonterminal that it reduces to. -/
def State.rank (s : State) : Nat :=
  match s.reduction? with
  | some (p, _) => p.lhs.rank + 1
  | none => 0

theorem Expectation.rank_le_of_goto? {e : Expectation} {next q : State} {n : Nonterminal}
    (h : e.goto? next n = some q) (hn : next.rank ≤ 1 ∨ e = .param ∧ next.rank ≤ 2 ∨
      e = .literal ∧ next.rank ≤ 3) : q.rank ≤ n.rank := by
  unfold Expectation.goto? at h
  split at h <;> simp only [Option.some.injEq, reduceCtorEq] at h
  all_goals subst h
  any_goals decide
  all_goals simp only [Nonterminal.rank, reduceCtorEq, false_and, or_false, false_or,
    true_and] at hn ⊢
  all_goals omega

theorem State.rank_le_of_awaits? {s next : State} {e : Expectation}
    (h : s.awaits? = some (e, next)) : next.rank ≤ 1 ∨ e = .param ∧ next.rank ≤ 2 ∨
      e = .literal ∧ next.rank ≤ 3 := by
  unfold State.awaits? at h
  split at h <;> simp only [Option.some.injEq, Prod.mk.injEq, reduceCtorEq] at h
  all_goals obtain ⟨rfl, rfl⟩ := h
  all_goals try decide
  · rename_i kind
    cases kind <;> decide
  · rename_i list
    rcases list with _ | ⟨_ | _⟩ | _ <;> decide
  · rename_i list
    rcases list with _ | ⟨_ | _⟩ | _ <;> decide

/-- A jump leads to a state of no greater rank than the nonterminal's. -/
theorem State.rank_le_of_goto? {s q : State} {n : Nonterminal} (h : s.goto? n = some q) :
    q.rank ≤ n.rank := by
  unfold State.goto? at h
  split at h
  · obtain rfl := Option.some.inj h; decide
  · obtain rfl := Option.some.inj h; decide
  · obtain rfl := Option.some.inj h; decide
  · obtain rfl := Option.some.inj h; decide
  · obtain rfl := Option.some.inj h; decide
  · rename_i list list'
    split at h
    · rename_i hl
      obtain rfl := Option.some.inj h
      subst hl
      rcases list with _ | ⟨_ | _⟩ | _ <;> decide
    · simp at h
  · split at h
    · rename_i ha
      exact Expectation.rank_le_of_goto? h (rank_le_of_awaits? ha)
    · simp at h

/-- A state that reduces has a greater rank than the nonterminal it reduces to. -/
theorem State.rank_of_reduces? {s : State} {ahead : Ahead} {p : Production}
    (h : s.reduces? ahead = some p) : s.rank = p.lhs.rank + 1 := by
  unfold State.reduces? at h
  unfold State.rank
  split at h
  · split at h
    · rw [Option.some.inj h]
    · simp at h
  · simp at h

end TensorSig
