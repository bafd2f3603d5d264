import TensorSig.Proofs.Derivation

/-!
# Syntax trees

A text can be taken apart into a tree without regard to what it denotes. The tree of a rule is a
node with a label over the trees of its symbols, except that some rules have no node of their own:
their trees stand directly under the node above. Brackets, commas and equals signs, which have no
meaning besides the structure that they show, are left out.

* `Label`, `Tree`: the trees.
* `Production.grow`: the trees of a rule, of the trees of its symbols.
* `Grows`: the trees of the tokens that are derived from symbols.
* `Grows.mem_tokens`: the tokens in the trees are those that the trees are of.
-/

namespace TensorSig

/-- The labels of nodes. -/
inductive Label
  | function
  | identifier
  | params
  | variadic
  | parameter
  | returnTuple
  | returnSingle
  | tupleType
  | tensorType
  | intList
  | scalarType
  | arrayType
  | stringType
  | deviceType
  | generatorType
  | storageType
  | literal
  deriving DecidableEq

/-- A syntax tree. A node has the offset of its first character, unless it is of no characters. -/
inductive Tree
  | token (k : Token)
  | node (label : Label) (offset? : Option Nat) (children : List Tree)

/-- The terminals that are left out of trees. -/
@[simp]
def Terminal.isPunctuation : Terminal → Bool
  | openParen => true
  | closeParen => true
  | openSquare => true
  | closeSquare => true
  | openAngle => true
  | closeAngle => true
  | comma => true
  | equal => true
  | _ => false

namespace Tree

/-- Whether a tree is more than a token. -/
def isNode : Tree → Bool
  | token _ => false
  | node .. => true

/-- The token that a tree is, if it is one. -/
def token? : Tree → Option Token
  | token k => some k
  | node .. => none

/-- The offset of the first character of a tree. -/
def offset? : Tree → Option Nat
  | token k => some k.lexeme.offset
  | node _ offset? _ => offset?

/-- The trees under the root. -/
def children : Tree → List Tree
  | token _ => []
  | node _ _ children => children

/-- Whether a tree is left out of the trees above it. -/
def isPunctuation : Tree → Bool
  | token k => k.terminal.isPunctuation
  | node .. => false

/-- The trees that are not left out. -/
def kept (ts : List Tree) : List Tree := ts.filter fun t => !t.isPunctuation

/-- A token that is somewhere in a tree. -/
inductive Has (k : Token) : Tree → Prop
  | token : Has k (token k)
  | node {label : Label} {offset? : Option Nat} {children : List Tree} {t : Tree} :
      t ∈ children → Has k t → Has k (node label offset? children)

@[simp]
theorem isNode_token (k : Token) : (token k).isNode = false := rfl

@[simp]
theorem isPunctuation_token (k : Token) : (token k).isPunctuation = k.terminal.isPunctuation := rfl

theorem exists_of_isNode {t : Tree} (h : t.isNode = true) : ∃ label offset? children,
    t = node label offset? children := by
  cases t with
  | token k => cases h
  | node label offset? children => exact ⟨label, offset?, children, rfl⟩

@[simp]
theorem kept_token (k : Token) (ts : List Tree) :
    kept (token k :: ts) = if k.terminal.isPunctuation then kept ts else token k :: kept ts := by
  simp only [kept, List.filter_cons, isPunctuation_token, Bool.not_eq_true']
  cases k.terminal.isPunctuation <;> rfl

theorem kept_cons {t : Tree} (h : t.isPunctuation = false) (ts : List Tree) :
    kept (t :: ts) = t :: kept ts :=
  List.filter_cons_of_pos (by simp [h])

@[simp]
theorem kept_nil : kept [] = [] := rfl

@[simp]
theorem kept_append (ts us : List Tree) : kept (ts ++ us) = kept ts ++ kept us :=
  List.filter_append _ _

end Tree

/-! ## Trees of rules -/

/-- The label of the word of a type. -/
def PlainType.label : PlainType → Label
  | tensor .intList => .intList
  | tensor _ => .tensorType
  | scalar _ => .scalarType
  | string => .stringType
  | device => .deviceType
  | generator => .generatorType
  | storage => .storageType

/-- The label of a tuple. -/
def TupleKind.label : TupleKind → Label
  | types => .tupleType
  | returns => .returnTuple

/-- The label of the node of a rule, if the rule has a node of its own. -/
def Production.label? : Production → Option Label
  | function => some .function
  | identifier => some .identifier
  | paramsNone => some .params
  | paramsOne => some .params
  | paramsMany => some .params
  | paramStar => some .variadic
  | paramPlain => some .parameter
  | paramDefault => some .parameter
  | restFirst _ => none
  | restNext _ => none
  | typeBase => none
  | typeTuple => none
  | plain type => some type.label
  | base _ => none
  | intListOne => some .intList
  | intListMany => some .intList
  | array => some .arrayType
  | tupleEmpty kind => some kind.label
  | tupleOne kind => some kind.label
  | tupleMany kind => some kind.label
  | returnsTuple => none
  | returnsSingle => none
  | returnUnnamed => some .returnSingle
  | returnNamed => some .returnSingle
  | literal _ => some .literal

/-- The trees that a rule makes of the trees of its symbols. The node of the rule, if it has one,
starts where the first of these starts, even if that one is left out. -/
def Production.grow (p : Production) (ts : List Tree) : List Tree :=
  match p.label? with
  | none => Tree.kept ts
  | some label => [.node label (ts.findSome? Tree.offset?) (Tree.kept ts)]

/-- `Grows symbols tokens trees`: the symbols derive the tokens, and these are the trees of the
derivation. -/
inductive Grows : List Symbol → List Token → List Tree → Prop
  | nil : Grows [] [] []
  | terminal {ss : List Symbol} {ks : List Token} {ts : List Tree} (k : Token) :
      Grows ss ks ts → Grows (.terminal k.terminal :: ss) (k :: ks) (.token k :: ts)
  | rule {ss : List Symbol} {ks ls : List Token} {ts us : List Tree} (p : Production) :
      Grows p.rhs ks ts → Grows ss ls us →
      Grows (.nonterminal p.lhs :: ss) (ks ++ ls) (p.grow ts ++ us)

/-- Whatever is derived has trees. -/
theorem Derives.exists_grows {ss : List Symbol} {ks : List Token} {vs : Values ss}
    (h : Derives ss ks vs) : ∃ ts, Grows ss ks ts := by
  induction h with
  | nil => exact ⟨[], .nil⟩
  | terminal k _ ih =>
    obtain ⟨ts, ht⟩ := ih
    exact ⟨_, .terminal k ht⟩
  | rule p _ _ ihp ih =>
    obtain ⟨ts, ht⟩ := ihp
    obtain ⟨us, hu⟩ := ih
    exact ⟨_, .rule p ht hu⟩

/-- The tokens in the trees of a rule are in the trees of its symbols. -/
theorem Production.exists_of_has_grow {p : Production} {ts : List Tree} {k : Token} {t : Tree}
    (ht : t ∈ p.grow ts) (hk : t.Has k) : ∃ u ∈ ts, u.Has k := by
  unfold grow at ht
  split at ht
  · exact ⟨t, (List.mem_filter.1 ht).1, hk⟩
  · obtain rfl := List.mem_singleton.1 ht
    cases hk with
    | node hu hk => exact ⟨_, (List.mem_filter.1 hu).1, hk⟩

/-- **The tokens in trees** are among those that the trees are of. -/
theorem Grows.mem_tokens {ss : List Symbol} {ks : List Token} {ts : List Tree}
    (h : Grows ss ks ts) {t : Tree} (ht : t ∈ ts) {k : Token} (hk : t.Has k) : k ∈ ks := by
  induction h generalizing t with
  | nil => cases ht
  | terminal l _ ih =>
    rcases List.mem_cons.1 ht with rfl | ht
    · cases hk
      exact List.mem_cons_self
    · exact List.mem_cons_of_mem _ (ih ht hk)
  | rule p _ _ ihp ih =>
    rcases List.mem_append.1 ht with ht | ht
    · obtain ⟨u, hu, hk⟩ := Production.exists_of_has_grow ht hk
      exact List.mem_append_left _ (ihp hu hk)
    · exact List.mem_append_right _ (ih ht hk)

end TensorSig
