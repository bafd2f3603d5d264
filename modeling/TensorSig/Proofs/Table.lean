import TensorSig.Automaton.Run
import TensorSig.Parse

/-!
# The table as a graph

Facts about the table of the automaton that concern one state, or one edge between two states. All
of them are checked over the finite lists of states, symbols and rules that are collected here; what
runs of any length do is derived from them elsewhere.

* `State.next?`, `State.walk?`: the edges, on terminals and nonterminals alike, and paths along a
  sequence of symbols.
* `State.handled`: what a state can go on with, the end of the text after a whole text included.
* `State.exists_walk_of_goto?`: where a state has a jump on the left side of a rule, it has a path
  along the right side, which ends in a state that reduces by that rule before everything that the
  target of the jump can go on with.
* `State.items`: the rules that a state is in the middle of, with the number of symbols read of
  each; `State.item_of_next?` says how an edge adds one symbol, and `State.item_of_reduces?` that a
  state reduces by rules that have been read completely.
-/

namespace TensorSig

/-! ## The finite lists -/

theorem StartRule.mem_all (r : StartRule) : r ∈ all := by cases r <;> decide

/-- The kinds of tuple. -/
def TupleKind.all : List TupleKind := [types, returns]

theorem TupleKind.mem_all (k : TupleKind) : k ∈ all := by cases k <;> decide

/-- The comma-separated lists. -/
def ListKind.all : List ListKind := params :: dims :: TupleKind.all.map tuple

theorem ListKind.mem_all (l : ListKind) : l ∈ all := by
  cases l with
  | tuple k => simp [all, TupleKind.mem_all k]
  | _ => simp [all]

/-- The nonterminals that are base types by themselves. -/
def BaseForm.all : List BaseForm := [tensorType, scalarType, intList, arrayType]

theorem BaseForm.mem_all (f : BaseForm) : f ∈ all := by cases f <;> decide

/-- The nonterminals of which the value is a type. -/
def TypeForm.all : List TypeForm :=
  [type, tupleType, baseType, tensorType, scalarType, intList, arrayType, returns, returnSingle,
    returnTuple]

theorem TypeForm.mem_all (f : TypeForm) : f ∈ all := by cases f <;> decide

/-- All nonterminals. -/
def Nonterminal.all : List Nonterminal :=
  [function, identifier, params, param, literal] ++ TypeForm.all.map typed ++
    ListKind.all.map rest

theorem Nonterminal.mem_all (n : Nonterminal) : n ∈ all := by
  cases n with
  | typed f => simp [all, TypeForm.mem_all f]
  | rest l => simp [all, ListKind.mem_all l]
  | _ => simp [all]

/-- All symbols. -/
def Symbol.all : List Symbol := Terminal.all.map terminal ++ Nonterminal.all.map nonterminal

theorem Symbol.mem_all (x : Symbol) : x ∈ all := by
  cases x with
  | terminal t => simp [all, Terminal.mem_all t]
  | nonterminal n => simp [all, Nonterminal.mem_all n]

/-- All rules. -/
def Production.all : List Production :=
  [function, identifier, paramsNone, paramsOne, paramsMany, paramStar, paramPlain, paramDefault,
    typeBase, typeTuple, intListOne, intListMany, array, returnsTuple, returnsSingle,
    returnUnnamed, returnNamed] ++ ListKind.all.map restFirst ++ ListKind.all.map restNext ++
    PlainType.all.map plain ++ BaseForm.all.map base ++ TupleKind.all.map tupleEmpty ++
    TupleKind.all.map tupleOne ++ TupleKind.all.map tupleMany ++ LiteralForm.all.map literal

theorem Production.mem_all (p : Production) : p ∈ all := by
  cases p with
  | restFirst l => simp [all, ListKind.mem_all l]
  | restNext l => simp [all, ListKind.mem_all l]
  | plain w => simp [all, PlainType.mem_all w]
  | base f => simp [all, BaseForm.mem_all f]
  | tupleEmpty k => simp [all, TupleKind.mem_all k]
  | tupleOne k => simp [all, TupleKind.mem_all k]
  | tupleMany k => simp [all, TupleKind.mem_all k]
  | literal f => simp [all, LiteralForm.mem_all f]
  | _ => simp [all]

namespace State

/-- All states. -/
def all : List State :=
  StartRule.all.map start ++ StartRule.all.map accepted ++ PlainType.all.map plain ++
    LiteralForm.all.map literal ++ BaseForm.all.map base ++ TupleKind.all.map tupleOpen ++
    TupleKind.all.map tupleCloseNone ++ TupleKind.all.map tupleCloseOne ++
    TupleKind.all.map tupleCloseMany ++ ListKind.all.map listFirst ++
    ListKind.all.map listFirstComma ++ ListKind.all.map listSecond ++ ListKind.all.map listRest ++
    ListKind.all.map listRestComma ++ ListKind.all.map listNext ++
    [functionName, functionHead, functionOpen, functionParams, functionClose, functionArrow,
      functionReturns, typeBase, typeTuple, paramStar, paramType, paramName, paramEqual,
      paramValue, returnBase, returnName, returnsSingle, returnsTuple, intListOpen,
      intListCloseOne, intListCloseMany, array, arrayOpen, arrayElement, arrayComma, arrayLength,
      arrayClose]

theorem mem_all (s : State) : s ∈ all := by
  cases s with
  | start r => simp [all, StartRule.mem_all r]
  | accepted r => simp [all, StartRule.mem_all r]
  | plain w => simp [all, PlainType.mem_all w]
  | literal f => simp [all, LiteralForm.mem_all f]
  | base f => simp [all, BaseForm.mem_all f]
  | tupleOpen k => simp [all, TupleKind.mem_all k]
  | tupleCloseNone k => simp [all, TupleKind.mem_all k]
  | tupleCloseOne k => simp [all, TupleKind.mem_all k]
  | tupleCloseMany k => simp [all, TupleKind.mem_all k]
  | listFirst l => simp [all, ListKind.mem_all l]
  | listFirstComma l => simp [all, ListKind.mem_all l]
  | listSecond l => simp [all, ListKind.mem_all l]
  | listRest l => simp [all, ListKind.mem_all l]
  | listRestComma l => simp [all, ListKind.mem_all l]
  | listNext l => simp [all, ListKind.mem_all l]
  | _ => simp [all]

/-! ## Edges and paths -/

/-- The state after a symbol. -/
def next? (s : State) : Symbol → Option State
  | .terminal t => s.shift? t
  | .nonterminal n => s.goto? n

/-- The state after a sequence of symbols. -/
def walk? : State → List Symbol → Option State
  | s, [] => some s
  | s, x :: xs => (s.next? x).bind fun q => q.walk? xs

theorem walk?_cons {s q : State} {x : Symbol} (h : s.next? x = some q) (xs : List Symbol) :
    s.walk? (x :: xs) = q.walk? xs := by
  rw [walk?, h, Option.bind_some]

theorem walk?_append (s : State) (xs ys : List Symbol) :
    s.walk? (xs ++ ys) = (s.walk? xs).bind fun q => q.walk? ys := by
  induction xs generalizing s with
  | nil => rfl
  | cons x xs ih =>
    cases h : s.next? x with
    | none => simp [walk?, h]
    | some q => rw [List.cons_append, walk?_cons h, walk?_cons h, ih]

/-! ## Actions -/

theorem mem_acceptable {s : State} {t : Terminal} :
    t ∈ s.acceptable ↔ s.acts (.token t) = true := by
  simp [acceptable, Terminal.mem_ranked]

theorem mem_expected {s : State} {a : Ahead} : a ∈ s.expected ↔ s.acts a = true := by
  cases a with
  | endOfText => by_cases h : s.acts .endOfText = true <;> simp [expected, h]
  | token t => by_cases h : s.acts .endOfText = true <;> simp [expected, h, mem_acceptable]

/-- What a state can go on with: what it has an action for, and after a whole text its end. -/
def handled : State → List Ahead
  | accepted _ => [.endOfText]
  | s => s.expected

theorem mem_handled_of_acts {s : State} {a : Ahead} (h : s.acts a = true) : a ∈ s.handled := by
  cases s with
  | accepted r => cases a <;> simp [acts, reduces?, reduction?, shift?, awaits?] at h
  | _ => exact mem_expected.2 h

theorem acts_of_shift? {s q : State} {t : Terminal} (h : s.shift? t = some q) :
    s.acts (.token t) = true := by
  simp [acts, h]

theorem acts_of_reduces? {s : State} {a : Ahead} {p : Production} (h : s.reduces? a = some p) :
    s.acts a = true := by
  simp [acts, h]

theorem acts_token_eq_false_iff {s : State} {t : Terminal} :
    s.acts (.token t) = false ↔ s.reduces? (.token t) = none ∧ s.shift? t = none := by
  simp [acts]

theorem acts_endOfText_eq_false_iff {s : State} :
    s.acts .endOfText = false ↔ s.reduces? .endOfText = none := by
  simp [acts]

/-- A state never both shifts a terminal and reduces before it. -/
theorem reduces?_eq_none_of_shift? {s q : State} {t : Terminal} (h : s.shift? t = some q) :
    s.reduces? (.token t) = none := by
  have key : ∀ s ∈ all, ∀ t ∈ Terminal.all, (s.shift? t).isSome →
      s.reduces? (.token t) = none := by decide +kernel
  exact key s (mem_all s) t (Terminal.mem_all t) (by rw [h]; rfl)

/-- **Jumps and paths agree.** From a state that has a jump on the left side of a rule, the right
side leads to a state that reduces by the rule before everything that the target of the jump can go
on with. -/
theorem exists_walk_of_goto? {s q : State} {p : Production} (h : s.goto? p.lhs = some q) :
    ∃ z, s.walk? p.rhs = some z ∧ ∀ a ∈ q.handled, z.reduces? a = some p := by
  have key : ∀ s ∈ all, ∀ p ∈ Production.all, ∀ q ∈ s.goto? p.lhs, ∃ z ∈ s.walk? p.rhs,
      ∀ a ∈ q.handled, z.reduces? a = some p := by decide +kernel
  exact key s (mem_all s) p (Production.mem_all p) q h

/-! ## Rules in progress -/

/-- A rule that is being read, with the number of its symbols that have been read. -/
structure Item where
  rule : Production
  read : Nat
  deriving DecidableEq

/-- The rules that a state is in the middle or at the end of. The first of them is the one that
takes the fewest symbols to complete. -/
def items : State → List Item
  | start _ => []
  | accepted _ => []
  | plain (.tensor .intList) =>
    [⟨.plain (.tensor .intList), 1⟩, ⟨.intListOne, 1⟩, ⟨.intListMany, 1⟩]
  | plain w => [⟨.plain w, 1⟩]
  | literal f => [⟨.literal f, 1⟩]
  | functionName => [⟨.identifier, 1⟩]
  | functionHead => [⟨.function, 1⟩]
  | functionOpen => [⟨.function, 2⟩]
  | functionParams => [⟨.function, 3⟩]
  | functionClose => [⟨.function, 4⟩]
  | functionArrow => [⟨.function, 5⟩]
  | functionReturns => [⟨.function, 6⟩]
  | base f => [⟨.base f, 1⟩]
  | typeBase => [⟨.typeBase, 1⟩]
  | typeTuple => [⟨.typeTuple, 1⟩]
  | paramStar => [⟨.paramStar, 1⟩]
  | paramType => [⟨.paramPlain, 1⟩, ⟨.paramDefault, 1⟩]
  | paramName => [⟨.paramPlain, 2⟩, ⟨.paramDefault, 2⟩]
  | paramEqual => [⟨.paramDefault, 3⟩]
  | paramValue => [⟨.paramDefault, 4⟩]
  | returnBase => [⟨.returnUnnamed, 1⟩, ⟨.returnNamed, 1⟩]
  | returnName => [⟨.returnNamed, 2⟩]
  | returnsSingle => [⟨.returnsSingle, 1⟩]
  | returnsTuple => [⟨.returnsTuple, 1⟩]
  | intListOpen => [⟨.intListOne, 2⟩, ⟨.intListMany, 2⟩]
  | intListCloseOne => [⟨.intListOne, 4⟩]
  | intListCloseMany => [⟨.intListMany, 5⟩]
  | array => [⟨.array, 1⟩]
  | arrayOpen => [⟨.array, 2⟩]
  | arrayElement => [⟨.array, 3⟩]
  | arrayComma => [⟨.array, 4⟩]
  | arrayLength => [⟨.array, 5⟩]
  | arrayClose => [⟨.array, 6⟩]
  | tupleOpen k => [⟨.tupleEmpty k, 1⟩, ⟨.tupleOne k, 1⟩, ⟨.tupleMany k, 1⟩]
  | tupleCloseNone k => [⟨.tupleEmpty k, 2⟩]
  | tupleCloseOne k => [⟨.tupleOne k, 3⟩]
  | tupleCloseMany k => [⟨.tupleMany k, 4⟩]
  | listFirst .params => [⟨.paramsOne, 1⟩, ⟨.paramsMany, 1⟩]
  | listFirst (.tuple k) => [⟨.tupleOne k, 2⟩, ⟨.tupleMany k, 2⟩]
  | listFirst .dims => [⟨.intListOne, 3⟩, ⟨.intListMany, 3⟩]
  | listFirstComma l => [⟨.restFirst l, 1⟩]
  | listSecond l => [⟨.restFirst l, 2⟩]
  | listRest .params => [⟨.paramsMany, 2⟩, ⟨.restNext .params, 1⟩]
  | listRest (.tuple k) => [⟨.tupleMany k, 3⟩, ⟨.restNext (.tuple k), 1⟩]
  | listRest .dims => [⟨.intListMany, 4⟩, ⟨.restNext .dims, 1⟩]
  | listRestComma l => [⟨.restNext l, 2⟩]
  | listNext l => [⟨.restNext l, 3⟩]

/-- **An edge reads one symbol of each rule in progress at its target.** Before the edge the rule
was in progress already, or the edge reads its first symbol and the source has a jump on its left
side. -/
theorem item_of_next? {s q : State} {x : Symbol} (h : s.next? x = some q) {i : Item}
    (hi : i ∈ q.items) : ∃ k, i.read = k + 1 ∧ i.rule.rhs[k]? = some x ∧
      if k = 0 then (s.goto? i.rule.lhs).isSome else ⟨i.rule, k⟩ ∈ s.items := by
  have key : ∀ s ∈ all, ∀ x ∈ Symbol.all, ∀ q ∈ s.next? x, ∀ i ∈ q.items,
      i.read = i.read - 1 + 1 ∧ i.rule.rhs[i.read - 1]? = some x ∧
        if i.read - 1 = 0 then (s.goto? i.rule.lhs).isSome
        else ⟨i.rule, i.read - 1⟩ ∈ s.items := by decide +kernel
  exact ⟨i.read - 1, key s (mem_all s) x (Symbol.mem_all x) q h i hi⟩

/-- A rule by which a state reduces has been read completely there, or it is empty and the state has
a jump on its left side. -/
theorem item_of_reduces? {s : State} {a : Ahead} {p : Production} (h : s.reduces? a = some p) :
    (p.rhs = [] ∧ (s.goto? p.lhs).isSome) ∨ ⟨p, p.rhs.length⟩ ∈ s.items := by
  have key : ∀ s ∈ all, ∀ found ∈ s.reduction?,
      (found.1.rhs = [] ∧ (s.goto? found.1.lhs).isSome) ∨
        ⟨found.1, found.1.rhs.length⟩ ∈ s.items := by decide +kernel
  unfold reduces? at h
  split at h
  · rename_i p' followers hp
    split at h
    · obtain rfl := Option.some.inj h
      exact key s (mem_all s) _ hp
    · cases h
  · cases h

/-- Whether an edge is none to a start state, and to an accepting state only on the start symbol. -/
def edgeTo (s : State) (x : Symbol) : State → Bool
  | start _ => false
  | accepted r => s = start r ∧ x = .nonterminal r.nonterminal
  | _ => true

theorem edgeTo_of_next? {s q : State} {x : Symbol} (h : s.next? x = some q) :
    s.edgeTo x q = true := by
  have key : ∀ s ∈ all, ∀ x ∈ Symbol.all, ∀ q ∈ s.next? x, s.edgeTo x q = true := by
    decide +kernel
  exact key s (mem_all s) x (Symbol.mem_all x) q h

/-- No edge leads to a start state. -/
theorem next?_ne_start {s : State} {x : Symbol} {r : StartRule} : s.next? x ≠ some (start r) :=
  fun h => Bool.false_ne_true (edgeTo_of_next? h)

/-- The only edge to an accepting state is that of the start symbol from the start state. -/
theorem eq_of_next?_accepted {s : State} {x : Symbol} {r : StartRule}
    (h : s.next? x = some (accepted r)) : s = start r ∧ x = .nonterminal r.nonterminal := by
  simpa [edgeTo] using edgeTo_of_next? h

theorem goto?_start (r : StartRule) : (start r).goto? r.nonterminal = some (accepted r) := by
  cases r <;> rfl

end State

end TensorSig
