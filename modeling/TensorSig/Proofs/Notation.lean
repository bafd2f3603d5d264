import Mathlib.Data.List.Forall2
import TensorSig.Parse
import TensorSig.Proofs.Derivation

/-!
# The notation of descriptors

How descriptors are written, as relations between values and sequences of tokens. The relations
follow the rules of the language directly and know neither expressions nor the automaton:
comma-separated lists are lists here, an array is over the word of a C scalar type, a numeral has no
more digits than are read, and the name of a result is written or not as one likes.

* `Each`: the further items of a list, each after a comma.
* `WritesType`, `WritesLiteral`, `WritesParam`, `WritesParams`, `WritesFunction`: the notation of
  each kind of value, and `StartRule.Writes`: that of the results of a start rule.
* `WritesType.induct`: induction on the notation of a type, through tuples.
* `StartRule.Writes.words_eq`: the words of types in a text, in order, are those of its value.
-/

namespace TensorSig

/-! ## Lists -/

/-- Items in order, each after a comma. -/
inductive Each {α : Type} (M : α → List Token → Prop) : List α → List Token → Prop
  | nil : Each M [] []
  | cons {x : α} {xs : List α} {ks ls : List Token} (comma : Lexeme) :
      M x ks → Each M xs ls → Each M (x :: xs) (⟨.comma, comma⟩ :: (ks ++ ls))

namespace Each

variable {α β : Type} {M : α → List Token → Prop} {N : β → List Token → Prop}

theorem append {xs ys : List α} {ks ls : List Token} (h : Each M xs ks) (h' : Each M ys ls) :
    Each M (xs ++ ys) (ks ++ ls) := by
  induction h with
  | nil => exact h'
  | cons comma hx _ ih =>
    rw [List.cons_append, List.cons_append, List.append_assoc]
    exact .cons comma hx ih

theorem single {x : α} {ks : List Token} (comma : Lexeme) (h : M x ks) :
    Each M [x] (⟨.comma, comma⟩ :: ks) := by
  have := Each.cons comma h .nil
  rwa [List.append_nil] at this

/-- Items of one kind give items of another that are related to them. -/
theorem exists_of_forall {R : β → α → Prop} (hM : ∀ x ks, M x ks → ∃ y, N y ks ∧ R y x)
    {xs : List α} {ks : List Token} (h : Each M xs ks) :
    ∃ ys, Each N ys ks ∧ List.Forall₂ R ys xs := by
  induction h with
  | nil => exact ⟨[], .nil, .nil⟩
  | cons comma hx _ ih =>
    obtain ⟨y, hy, hr⟩ := hM _ _ hx
    obtain ⟨ys, hys, hrs⟩ := ih
    exact ⟨y :: ys, .cons comma hy hys, .cons hr hrs⟩

/-- Items of one kind are, where others are related to them, items of another kind. -/
theorem map₂ {R : α → β → Prop} (hM : ∀ x y ks, M x ks → R x y → N y ks) {xs : List α}
    {ys : List β} {ks : List Token} (h : Each M xs ks) (hr : List.Forall₂ R xs ys) :
    Each N ys ks := by
  induction h generalizing ys with
  | nil =>
    cases hr
    exact .nil
  | cons comma hx _ ih =>
    cases hr with
    | cons hy hys => exact .cons comma (hM _ _ _ hx hy) (ih hys)

end Each

/-! ## Types -/

/-- A dimension or a length: a numeral that is not too long. -/
inductive WritesDim : Int → List Token → Prop
  | mk (l : Lexeme) : l.text.length ≤ digitLimit →
      WritesDim (Numeral.value l.text) [⟨.natural, l⟩]

/-- The base types: one word, an integer list with dimensions, and an array over a C scalar type. -/
inductive WritesBase : ValueType → List Token → Prop
  | word (w : PlainType) (l : Lexeme) : WritesBase w.descriptor [⟨.plain w, l⟩]
  | dims {n : Int} {ns : List Int} {ks ls : List Token} (l openSquare closeSquare : Lexeme) :
      WritesDim n ks → Each WritesDim ns ls →
      WritesBase (.tensor .intList (some (n :: ns)))
        (⟨.plain (.tensor .intList), l⟩ :: ⟨.openSquare, openSquare⟩ ::
          (ks ++ (ls ++ [⟨.closeSquare, closeSquare⟩])))
  | array {n : Int} {ks : List Token} (kind : ScalarKind)
      (l openAngle word comma closeAngle : Lexeme) : WritesDim n ks →
      WritesBase (.array kind n)
        (⟨.array, l⟩ :: ⟨.openAngle, openAngle⟩ :: ⟨.plain (.scalar kind), word⟩ ::
          ⟨.comma, comma⟩ :: (ks ++ [⟨.closeAngle, closeAngle⟩]))

/-- The types of arguments and, with a name after each that is no tuple or without, of results. -/
inductive WritesType (kind : TupleKind) : ValueType → List Token → Prop
  | base {v : ValueType} {ks : List Token} : WritesBase v ks → WritesType kind v ks
  | named {v : ValueType} {ks : List Token} (name : Lexeme) : kind = .returns → WritesBase v ks →
      WritesType kind v (ks ++ [⟨.name, name⟩])
  | empty (openParen closeParen : Lexeme) :
      WritesType kind (.tuple []) [⟨.openParen, openParen⟩, ⟨.closeParen, closeParen⟩]
  | tuple {v : ValueType} {vs : List ValueType} {ks ls : List Token}
      (openParen closeParen : Lexeme) : WritesType kind v ks → Each (WritesType kind) vs ls →
      WritesType kind (.tuple (v :: vs))
        (⟨.openParen, openParen⟩ :: (ks ++ (ls ++ [⟨.closeParen, closeParen⟩])))

/-- Induction on the notation of a type. For a tuple it is assumed of all its elements. -/
theorem WritesType.induct {kind : TupleKind} {P : ValueType → List Token → Prop}
    (base : ∀ {v ks}, WritesBase v ks → P v ks)
    (named : ∀ {v ks} (name : Lexeme), kind = .returns → WritesBase v ks →
      P v (ks ++ [⟨.name, name⟩]))
    (empty : ∀ openParen closeParen : Lexeme,
      P (.tuple []) [⟨.openParen, openParen⟩, ⟨.closeParen, closeParen⟩])
    (tuple : ∀ {v vs ks ls} (openParen closeParen : Lexeme), P v ks → Each P vs ls →
      P (.tuple (v :: vs)) (⟨.openParen, openParen⟩ :: (ks ++ (ls ++ [⟨.closeParen, closeParen⟩]))))
    {v : ValueType} {ks : List Token} (h : WritesType kind v ks) : P v ks :=
  @WritesType.rec kind (fun v ks _ => P v ks) (fun vs ls _ => Each P vs ls)
    (fun hb => base hb) (fun name hk hb => named name hk hb) (fun o c => empty o c)
    (fun o c _ _ ih ihs => tuple o c ih ihs) .nil (fun comma _ _ ih ihs => .cons comma ih ihs)
    v ks h

/-! ## Declarations -/

/-- Defaults. -/
inductive WritesLiteral : Literal → List Token → Prop
  | float (l : Lexeme) :
      WritesLiteral (.double (Decimal.ofChars l.text).toDouble) [⟨.literal .float, l⟩]
  | integer (l : Lexeme) : (Numeral.unsigned l.text).length ≤ digitLimit →
      WritesLiteral (.int (Numeral.signedValue l.text)) [⟨.literal .integer, l⟩]
  | bool (b : Bool) (l : Lexeme) : WritesLiteral (.bool b) [⟨.literal (.bool b), l⟩]
  | nullPointer (l : Lexeme) : WritesLiteral .nullPointer [⟨.literal .nullPointer, l⟩]
  | noneValue (l : Lexeme) : WritesLiteral .noneValue [⟨.literal .noneValue, l⟩]
  | constant (kind : ConstantKind) (l : Lexeme) :
      WritesLiteral (.constant kind) [⟨.literal (.constant kind), l⟩]
  | emptyDict (l : Lexeme) : WritesLiteral .emptyDict [⟨.literal .emptyDict, l⟩]
  | zeroOneDict (l : Lexeme) : WritesLiteral .emptyDict [⟨.literal .zeroOneDict, l⟩]

/-- Entries of a parameter list. -/
inductive WritesParam : ParamItem → List Token → Prop
  | variadic (l : Lexeme) : WritesParam .variadic [⟨.star, l⟩]
  | plain {v : ValueType} {ks : List Token} (name : Lexeme) : WritesType .types v ks →
      WritesParam (.parameter ⟨v, String.ofList name.text, none⟩) (ks ++ [⟨.name, name⟩])
  | default {v : ValueType} {d : Literal} {ks ls : List Token} (name equal : Lexeme) :
      WritesType .types v ks → WritesLiteral d ls →
      WritesParam (.parameter ⟨v, String.ofList name.text, some d⟩)
        (ks ++ ⟨.name, name⟩ :: ⟨.equal, equal⟩ :: ls)

/-- Parameter lists. -/
inductive WritesParams : List ParamItem → List Token → Prop
  | nil : WritesParams [] []
  | cons {p : ParamItem} {ps : List ParamItem} {ks ls : List Token} : WritesParam p ks →
      Each WritesParam ps ls → WritesParams (p :: ps) (ks ++ ls)

/-- Declarations. -/
inductive WritesFunction : Signature → List Token → Prop
  | mk {ps : List ParamItem} {v : ValueType} {ks ls : List Token}
      (name openParen closeParen arrow : Lexeme) : WritesParams ps ks → WritesType .returns v ls →
      WritesFunction ⟨String.ofList name.text, ps, v⟩
        (⟨.name, name⟩ :: ⟨.openParen, openParen⟩ ::
          (ks ++ ⟨.closeParen, closeParen⟩ :: ⟨.arrow, arrow⟩ :: ls))

/-- The notation of the results of a start rule. -/
def StartRule.Writes : (r : StartRule) → r.Result → List Token → Prop
  | function, s, ks => WritesFunction s ks
  | identifier, n, ks => ∃ l : Lexeme, n = String.ofList l.text ∧ ks = [⟨.name, l⟩]
  | type, v, ks => WritesType .types v ks
  | literal, d, ks => WritesLiteral d ks
  | param, p, ks => WritesParam p ks
  | params, ps, ks => WritesParams ps ks
  | returns, v, ks => WritesType .returns v ks

/-! ## Words of types -/

namespace ValueType

mutual

/-- The words that a type is written with, in order. -/
def words : ValueType → List PlainType
  | pointer _ => []
  | tensor kind _ => [.tensor kind]
  | device => [.device]
  | generator => [.generator]
  | storage => [.storage]
  | scalar kind => [.scalar kind]
  | array kind _ => [.scalar kind]
  | string => [.string]
  | tuple ts => wordsAll ts

/-- The words that several types are written with, in order. -/
def wordsAll : List ValueType → List PlainType
  | [] => []
  | t :: ts => t.words ++ wordsAll ts

end

end ValueType

/-- The words that an entry of a parameter list is written with. -/
def ParamItem.words : ParamItem → List PlainType
  | parameter p => p.type.words
  | variadic => []

/-- The words of types that a result of a start rule is written with, in order. -/
def StartRule.words : (r : StartRule) → r.Result → List PlainType
  | function, s =>
    (Signature.parameters s).flatMap ParamItem.words ++ (Signature.returnType s).words
  | identifier, _ => []
  | type, v => ValueType.words v
  | literal, _ => []
  | param, p => ParamItem.words p
  | params, ps => List.flatMap ParamItem.words ps
  | returns, v => ValueType.words v

/-- The words of types among tokens, in order. -/
def plainWords : List Token → List PlainType
  | [] => []
  | ⟨.plain w, _⟩ :: ks => w :: plainWords ks
  | _ :: ks => plainWords ks

theorem plainWords_append (ks ls : List Token) :
    plainWords (ks ++ ls) = plainWords ks ++ plainWords ls := by
  fun_induction plainWords ks with
  | case1 => rfl
  | case2 w l ks ih => rw [List.cons_append, plainWords, ih, List.cons_append]
  | case3 k ks hk ih => rw [List.cons_append, plainWords, ih]; exact hk

theorem PlainType.words_descriptor (w : PlainType) : w.descriptor.words = [w] := by
  cases w <;> simp [descriptor, ValueType.words]

theorem WritesDim.words_eq {n : Int} {ks : List Token} (h : WritesDim n ks) :
    plainWords ks = [] := by
  cases h
  rfl

theorem Each.words_eq {α : Type} {M : α → List Token → Prop} {f : α → List PlainType}
    (hM : ∀ x ks, M x ks → plainWords ks = f x) {xs : List α} {ks : List Token}
    (h : Each M xs ks) : plainWords ks = xs.flatMap f := by
  induction h with
  | nil => rfl
  | cons comma hx _ ih =>
    simp only [plainWords, plainWords_append, hM _ _ hx, ih, List.flatMap_cons]

theorem WritesBase.words_eq {v : ValueType} {ks : List Token} (h : WritesBase v ks) :
    plainWords ks = v.words := by
  cases h with
  | word w l => exact (PlainType.words_descriptor w).symm
  | @dims n ns ks ls l o c hn hns =>
    have hns : plainWords ls = ns.flatMap fun _ => [] :=
      hns.words_eq fun _ _ h => h.words_eq
    simp [plainWords, plainWords_append, hn.words_eq, hns, ValueType.words]
  | array kind l o w m c hn => simp [plainWords, plainWords_append, hn.words_eq, ValueType.words]

theorem ValueType.wordsAll_eq (ts : List ValueType) : wordsAll ts = ts.flatMap words := by
  induction ts with
  | nil => rfl
  | cons t ts ih => rw [wordsAll, ih, List.flatMap_cons]

theorem WritesType.words_eq {kind : TupleKind} {v : ValueType} {ks : List Token}
    (h : WritesType kind v ks) : plainWords ks = v.words := by
  refine WritesType.induct (P := fun v ks => plainWords ks = v.words) ?base ?named
    ?empty ?tuple h
  case base => exact fun h => h.words_eq
  case named =>
    intro v ks name _ h
    simp [plainWords, plainWords_append, h.words_eq]
  case empty =>
    intro o c
    simp [plainWords, ValueType.words, ValueType.wordsAll]
  case tuple =>
    intro v vs ks ls o c h hs
    have hs : plainWords ls = vs.flatMap ValueType.words :=
      hs.words_eq fun _ _ h => h
    simp [plainWords, plainWords_append, h, hs, ValueType.words, ValueType.wordsAll,
      ValueType.wordsAll_eq]

theorem WritesLiteral.words_eq {d : Literal} {ks : List Token} (h : WritesLiteral d ks) :
    plainWords ks = [] := by
  cases h <;> rfl

theorem WritesParam.words_eq {p : ParamItem} {ks : List Token} (h : WritesParam p ks) :
    plainWords ks = p.words := by
  cases h with
  | variadic l => rfl
  | plain name h => simp [plainWords, plainWords_append, h.words_eq, ParamItem.words]
  | default name equal h hd =>
    rw [plainWords_append, h.words_eq]
    simp only [plainWords, hd.words_eq, List.append_nil, ParamItem.words]

theorem WritesParams.words_eq {ps : List ParamItem} {ks : List Token} (h : WritesParams ps ks) :
    plainWords ks = ps.flatMap ParamItem.words := by
  cases h with
  | nil => rfl
  | cons h hs =>
    rw [plainWords_append, h.words_eq, hs.words_eq fun _ _ h => h.words_eq, List.flatMap_cons]

/-- **The words of types in a text**, in order, are determined by what it is a text for. -/
theorem StartRule.Writes.words_eq {r : StartRule} {v : r.Result} {ks : List Token}
    (h : r.Writes v ks) : plainWords ks = r.words v := by
  cases r with
  | function =>
    cases h with
    | mk name o c a hps hv =>
      simp only [plainWords, plainWords_append, hps.words_eq,
        hv.words_eq, words]
  | identifier =>
    obtain ⟨l, -, rfl⟩ := h
    rfl
  | type => exact WritesType.words_eq h
  | literal => exact WritesLiteral.words_eq h
  | param => exact WritesParam.words_eq h
  | params => exact WritesParams.words_eq h
  | returns => exact WritesType.words_eq h

end TensorSig
