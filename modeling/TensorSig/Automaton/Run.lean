import TensorSig.Automaton.Table
import TensorSig.Text.Blank

/-!
# Runs of the automaton

A run reads a text from left to right. Before each token it skips white space and looks for a
terminal that the state on top of the stack has an action for; then it reduces as long as the table
says so for that terminal, and shifts it. A text is accepted when, at its end, the reductions leave
the start symbol alone on the stack, and the run yields the expression that was computed on the way.

* `Frame`, `top`: the stack and the state on top of it.
* `reduce?`, `settle`: one reduction, and all that are due before what is ahead.
* `Rejection`: the three ways in which a text can fail to be accepted.
* `Config`, `step`, `run`, `read`: one token, and a whole text.
* `settle_of_reduce?`, `run_of_shift` and their companions: the equations of `settle` and `run`.
-/

namespace TensorSig

/-! ## The stack -/

/-- An entry of the stack: a state, the symbol that was read on the way to it and its value. -/
structure Frame where
  state : State
  symbol : Symbol
  value : symbol.Value

/-- The state on top of a stack, which is the start state when the stack is empty. -/
def top (r : StartRule) : List Frame → State
  | [] => .start r
  | f :: _ => f.state

/-- The value of a frame that carries a given symbol. -/
def Frame.valueAs? (f : Frame) (s : Symbol) : Option s.Value :=
  if h : f.symbol = s then some (h ▸ f.value) else none

theorem Frame.valueAs?_mk (q : State) (s : Symbol) (v : s.Value) :
    (Frame.mk q s v).valueAs? s = some v := by
  simp [valueAs?]

theorem Frame.symbol_of_valueAs? {f : Frame} {s : Symbol} {v : s.Value}
    (h : f.valueAs? s = some v) : f.symbol = s := by
  unfold valueAs? at h
  split at h
  · assumption
  · simp at h

/-- The values of frames that carry the given symbols, in order. -/
def collect? : (symbols : List Symbol) → List Frame → Option (Values symbols)
  | [], [] => some ()
  | s :: ss, f :: fs =>
    match f.valueAs? s, collect? ss fs with
    | some v, some vs => some (v, vs)
    | _, _ => none
  | _, _ => none

/-- The stack after the symbols of a rule on top of it have been replaced by its left side. -/
def reduce? (r : StartRule) (p : Production) (stack : List Frame) : Option (List Frame) :=
  let rest := stack.drop p.rhs.length
  match collect? p.rhs (stack.take p.rhs.length).reverse, (top r rest).goto? p.lhs with
  | some values, some q => some (⟨q, .nonterminal p.lhs, p.act values⟩ :: rest)
  | _, _ => none

theorem rank_top_of_reduce? {r : StartRule} {p : Production} {stack stack' : List Frame}
    (h : reduce? r p stack = some stack') : (top r stack').rank ≤ p.lhs.rank := by
  unfold reduce? at h
  dsimp only at h
  split at h
  · rename_i hq
    obtain rfl := Option.some.inj h
    exact State.rank_le_of_goto? hq
  · simp at h

/-- The stack after all reductions that are due before what is ahead. -/
def settle (r : StartRule) (ahead : Ahead) (stack : List Frame) : List Frame :=
  match _h : (top r stack).reduces? ahead with
  | none => stack
  | some p =>
    match _h' : reduce? r p stack with
    | none => stack
    | some stack' => settle r ahead stack'
termination_by (top r stack).rank
decreasing_by
  have := rank_top_of_reduce? _h'
  have := State.rank_of_reduces? _h
  omega

theorem settle_of_reduce? {r : StartRule} {ahead : Ahead} {p : Production}
    {stack stack' : List Frame} (h : (top r stack).reduces? ahead = some p)
    (h' : reduce? r p stack = some stack') : settle r ahead stack = settle r ahead stack' := by
  rw [settle]
  split
  · simp_all
  · rename_i p' hp
    obtain rfl : p = p' := Option.some.inj (h.symm.trans hp)
    split <;> simp_all

theorem settle_of_reduces?_eq_none {r : StartRule} {ahead : Ahead} {stack : List Frame}
    (h : (top r stack).reduces? ahead = none) : settle r ahead stack = stack := by
  rw [settle]
  split <;> simp_all

/-- The expression of a text, when its start symbol is alone on the stack. -/
def accepted? (r : StartRule) : List Frame → Option r.Expr
  | [f] => f.valueAs? (.nonterminal r.nonterminal)
  | _ => none

/-! ## Tokens -/

/-- The first of several terminals that has a lexeme at the start of a text, with the lexeme and the
rest of the text. -/
def firstLexeme? (terminals : List Terminal) (text : List Char) :
    Option (Terminal × List Char × List Char) :=
  terminals.findSome? fun t => (t.scan text).map fun (lexeme, rest) => (t, lexeme, rest)

theorem length_lt_of_firstLexeme? {terminals : List Terminal} {text lexeme rest : List Char}
    {t : Terminal} (h : firstLexeme? terminals text = some (t, lexeme, rest)) :
    rest.length < text.length := by
  obtain ⟨u, -, hu⟩ := List.exists_of_findSome?_eq_some h
  obtain ⟨⟨l, r⟩, hs, he⟩ := Option.map_eq_some_iff.1 hu
  simp only [Prod.mk.injEq] at he
  obtain ⟨-, -, rfl⟩ := he
  exact Terminal.length_lt_of_scan hs

/-- The piece of a text that is reported when no acceptable terminal starts it: the lexeme of
whatever terminal comes first in the order of trial, or else one character. -/
def strayLexeme (text : List Char) : List Char :=
  match firstLexeme? Terminal.ranked text with
  | some (_, lexeme, _) => lexeme
  | none => text.take 1

/-! ## Reading a text -/

/-- Why a text is not accepted. -/
inductive Rejection
  /-- No terminal that the state has an action for starts the rest of the text. -/
  | unreadable (offset : Nat) (found : List Char) (expected : List Terminal)
  /-- A terminal was read that, after the reductions before it, has no place. -/
  | misplaced (offset : Nat) (found : List Char) (expected : List Ahead)
  /-- The text ends too early. -/
  | incomplete (offset : Nat) (expected : List Ahead)
  deriving DecidableEq

/-- A point of a run: the stack, the offset that has been reached and the text from there on. -/
structure Config where
  stack : List Frame
  offset : Nat
  text : List Char

/-- What one step of a run leads to. -/
inductive Step (r : StartRule)
  | shift (next : Config)
  | accept (value : r.Expr)
  | reject (why : Rejection)

/-- Read one token, or the end of the text. -/
def step (r : StartRule) (c : Config) : Step r :=
  let offset := c.offset + (c.text.takeWhile Text.isSpace).length
  let text := c.text.dropWhile Text.isSpace
  if text.isEmpty then
    let stack := settle r .endOfText c.stack
    match accepted? r stack with
    | some value => .accept value
    | none => .reject (.incomplete offset (top r stack).expected)
  else
    match firstLexeme? (top r c.stack).acceptable text with
    | none => .reject (.unreadable offset (strayLexeme text) (top r c.stack).acceptable)
    | some (t, lexeme, rest) =>
      let stack := settle r (.token t) c.stack
      match (top r stack).shift? t with
      | none => .reject (.misplaced offset lexeme (top r stack).expected)
      | some q =>
        .shift
          ⟨⟨q, .terminal t, (⟨lexeme, offset⟩ : Lexeme)⟩ :: stack, offset + lexeme.length, rest⟩

/-- Every shifted token makes the rest of the text shorter. -/
theorem length_lt_of_step {r : StartRule} {c next : Config} (h : step r c = .shift next) :
    next.text.length < c.text.length := by
  unfold step at h
  dsimp only at h
  split at h
  · split at h <;> simp at h
  · split at h
    · simp at h
    · rename_i hl
      split at h
      · simp at h
      · obtain rfl := Step.shift.inj h
        exact Nat.lt_of_lt_of_le (length_lt_of_firstLexeme? hl)
          (List.dropWhile_sublist Text.isSpace).length_le

/-- Read the rest of a text. -/
def run (r : StartRule) (c : Config) : Except Rejection r.Expr :=
  match _h : step r c with
  | .accept value => .ok value
  | .reject why => .error why
  | .shift next => run r next
termination_by c.text.length
decreasing_by exact length_lt_of_step _h

theorem run_of_shift {r : StartRule} {c next : Config} (h : step r c = .shift next) :
    run r c = run r next := by
  rw [run]
  split <;> simp_all

theorem run_of_accept {r : StartRule} {c : Config} {value : r.Expr} (h : step r c = .accept value) :
    run r c = .ok value := by
  rw [run]
  split <;> simp_all

theorem run_of_reject {r : StartRule} {c : Config} {why : Rejection} (h : step r c = .reject why) :
    run r c = .error why := by
  rw [run]
  split <;> simp_all

/-- Read a whole text as an instance of a start rule. -/
def read (r : StartRule) (text : List Char) : Except Rejection r.Expr := run r ⟨[], 0, text⟩

end TensorSig
