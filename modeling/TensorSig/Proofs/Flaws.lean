import TensorSig.Proofs.ErrorOffset
import TensorSig.Proofs.Meaning

/-!
# Flaws of expressions

Two things may be wrong with a text that follows the grammar: a numeral of too many digits, and an
array over a type that it cannot hold. A text may have any number of such flaws. They are looked at
in a fixed order, which is that of the text but for defaults, which come before the type of their
parameter, and for arrays, of which the element is looked into before it is judged itself. The first
flaw in that order is what the text fails with.

* `Flaw`, `Failure.ofFlaw`: the flaws and what is reported of them.
* `TypeExpr.flaws`, `LiteralExpr.flaws`, `ParamExpr.flaws`, `SignatureExpr.flaws`: the flaws of
  expressions, in the order in which they are looked at.
* `Reports`, `StartRule.reports_denote`: an expression with flaws fails with the first one.
* `flawsIn`: the flaws of tokens in the order of the text; `Derives.perm_flaws` shows that they are
  those of the expression.
* `parse_flaws`: what comes of a text that follows the grammar.
* `exists_offset_le_of_parse`: every report names a place in the text.
-/

namespace TensorSig

/-! ## Flaws -/

/-- What may be wrong with an expression. -/
inductive Flaw
  /-- An integer numeral with more digits than are read. -/
  | oversized (digits : Nat)
  /-- An element of an array that starts at an offset and is of a form other than that of the C
  scalar types. -/
  | element (offset : Nat) (form : String)
  deriving DecidableEq

/-- The flaws of digits, or of those of a numeral. -/
def digitFlaws (digits : List Char) : List Flaw :=
  if digitLimit < digits.length then [.oversized digits.length] else []

/-- The text for an element of an array that is of a given form. -/
def elementMessage (form : String) : String :=
  "std::array element must be a C scalar type (bool, void, double, int64_t), got " ++ form

/-- The failure of a text of which a flaw is found first. -/
def Failure.ofFlaw (source : List Char) : Flaw → Failure
  | .oversized digits => .oversized ⟨digits⟩
  | .element offset form => .signature
    { message := elementMessage form
      kind := .unsupportedElement
      span := .ofOffset source offset
      source := String.ofList source
      expected := [] }

/-- A fault as a flaw. -/
def DenoteFault.flaw : DenoteFault → Flaw
  | oversized numeral => .oversized numeral.digits
  | unsupportedElement offset element => .element offset element.form

theorem Failure.ofFault_eq (source : List Char) (fault : DenoteFault) :
    ofFault source fault = ofFlaw source fault.flaw := by
  cases fault <;> rfl

/-! ## Flaws of expressions -/

namespace TypeExpr

/-- The printed word for the form of the type that an expression denotes. -/
def form : TypeExpr → String
  | plain _ type => type.descriptor.form
  | intList .. => "TensorType"
  | array .. => "FixedArrayType"
  | tuple .. => "TupleType"

/-- The flaw of a type as an element of an array. -/
def elementFlaws : TypeExpr → List Flaw
  | plain _ (.scalar _) => []
  | e => [.element e.offset e.form]

mutual

/-- The flaws of a type: those of its dimensions, of its elements, or of its element, which is then
judged itself before the length is. -/
def flaws : TypeExpr → List Flaw
  | plain _ _ => []
  | intList _ first others => (first :: others).flatMap digitFlaws
  | array _ element length => element.flaws ++ (element.elementFlaws ++ digitFlaws length)
  | tuple _ elements => flawsAll elements

/-- The flaws of several types, in order. -/
def flawsAll : List TypeExpr → List Flaw
  | [] => []
  | e :: es => e.flaws ++ flawsAll es

end

theorem flawsAll_eq (es : List TypeExpr) : flawsAll es = es.flatMap flaws := by
  induction es with
  | nil => rfl
  | cons e es ih => rw [flawsAll, ih, List.flatMap_cons]

end TypeExpr

/-- The flaws of a default: that of an integer, of which the sign does not count. -/
def LiteralExpr.flaws (e : LiteralExpr) : List Flaw :=
  match e.form with
  | .integer => digitFlaws (Numeral.unsigned e.text)
  | _ => []

/-- The flaws of an entry of a parameter list: those of its default and then those of its type. -/
def ParamExpr.flaws : ParamExpr → List Flaw
  | parameter type _ none => type.flaws
  | parameter type _ (some value) => value.flaws ++ type.flaws
  | variadic => []

/-- The flaws of a declaration: those of its parameters and then those of its result. -/
def SignatureExpr.flaws (e : SignatureExpr) : List Flaw :=
  e.parameters.flatMap ParamExpr.flaws ++ e.returnType.flaws

/-- The flaws of an item of a list. -/
def ListKind.flaws : (list : ListKind) → list.Item → List Flaw
  | params, e => ParamExpr.flaws e
  | tuple _, e => TypeExpr.flaws e
  | dims, l => digitFlaws (Lexeme.text l)

/-- The flaws of what a nonterminal carries. -/
def Nonterminal.flaws : (n : Nonterminal) → n.Value → List Flaw
  | function, e => SignatureExpr.flaws e
  | identifier, _ => []
  | params, es => List.flatMap ParamExpr.flaws es
  | param, e => ParamExpr.flaws e
  | literal, e => LiteralExpr.flaws e
  | typed _, e => TypeExpr.flaws e
  | rest list, es => List.flatMap list.flaws es

/-- The flaws of the expression that a text of a start rule stands for. -/
def StartRule.flaws (r : StartRule) (e : r.Expr) : List Flaw := r.nonterminal.flaws e

/-! ## The first flaw -/

/-- Where there are flaws the first is reported, and nothing is where there are none. -/
def Reports {α : Type} (flaws : List Flaw) (x : Except DenoteFault α) : Prop :=
  match x with
  | .ok _ => flaws = []
  | .error fault => flaws.head? = some fault.flaw

namespace Reports

variable {α β : Type} {flaws others : List Flaw}

theorem ok (a : α) : Reports [] (.ok a) := rfl

/-- The flaws of what is done first are reported first. -/
theorem bind {x : Except DenoteFault α} {f : α → Except DenoteFault β} (hx : Reports flaws x)
    (hf : ∀ a, x = .ok a → Reports others (f a)) : Reports (flaws ++ others) (x >>= f) := by
  cases x with
  | error fault =>
    have hx : flaws.head? = some fault.flaw := hx
    exact (List.head?_append_of_ne_nil _ (by rintro rfl; cases hx)).trans hx
  | ok a =>
    obtain rfl : flaws = [] := hx
    exact hf a rfl

theorem bind_ok {x : Except DenoteFault α} (hx : Reports flaws x) (f : α → β) :
    Reports flaws (x >>= fun a => .ok (f a)) := by
  rw [← List.append_nil flaws]
  exact hx.bind fun a _ => ok (f a)

theorem readNatural (digits : List Char) : Reports (digitFlaws digits) (readNatural digits) := by
  unfold TensorSig.readNatural digitFlaws
  split <;> rfl

theorem readInteger (numeral : List Char) :
    Reports (digitFlaws (Numeral.unsigned numeral)) (readInteger numeral) := by
  unfold TensorSig.readInteger digitFlaws
  split <;> rfl

theorem readDims (numerals : List (List Char)) :
    Reports (numerals.flatMap digitFlaws) (readDims numerals) := by
  induction numerals with
  | nil => exact ok _
  | cons numeral numerals ih =>
    rw [List.flatMap_cons, TensorSig.readDims]
    exact (readNatural numeral).bind fun _ _ => ih.bind_ok _

end Reports

namespace TypeExpr

/-- The flaw of an element is told by the type that it denotes: all forms but that of the C scalar
types have one, and it names the form. -/
theorem elementFlaws_eq {e : TypeExpr} {v : ValueType} (h : e.denote = .ok v) :
    e.elementFlaws =
      match v with
      | .scalar _ => []
      | v => [.element e.offset v.form] := by
  cases e with
  | plain o type =>
    obtain rfl := Except.ok.inj h
    cases type <;> rfl
  | intList o first others =>
    obtain ⟨ns, -, rfl⟩ := denote_intList_eq_ok_iff.1 h
    rfl
  | array o element length =>
    obtain ⟨kind, n, -, -, rfl⟩ := denote_array_eq_ok_iff.1 h
    rfl
  | tuple o elements =>
    obtain ⟨vs, -, rfl⟩ := denote_tuple_eq_ok_iff.1 h
    rfl

theorem reports_elementKind {e : TypeExpr} {v : ValueType} (h : e.denote = .ok v) :
    Reports e.elementFlaws (elementKind e.offset v) := by
  rw [elementFlaws_eq h]
  cases v <;> rfl

mutual

theorem reports_denote : ∀ e : TypeExpr, Reports e.flaws e.denote
  | plain _ _ => .ok _
  | intList _ first others => (Reports.readDims (first :: others)).bind_ok _
  | array _ element length =>
    (reports_denote element).bind fun _ h =>
      (reports_elementKind h).bind fun _ _ => (Reports.readNatural length).bind_ok _
  | tuple _ elements => (reports_denoteAll elements).bind_ok _

theorem reports_denoteAll : ∀ es : List TypeExpr, Reports (flawsAll es) (denoteAll es)
  | [] => .ok _
  | e :: es => (reports_denote e).bind fun _ _ => (reports_denoteAll es).bind_ok _

end

end TypeExpr

theorem LiteralExpr.reports_denote (e : LiteralExpr) : Reports e.flaws e.denote := by
  obtain ⟨form, text⟩ := e
  cases form with
  | integer => exact (Reports.readInteger text).bind_ok _
  | _ => exact .ok _

namespace ParamExpr

theorem reports_denote (e : ParamExpr) : Reports e.flaws e.denote := by
  cases e with
  | variadic => exact .ok _
  | parameter type name default? =>
    cases default? with
    | none => exact type.reports_denote.bind_ok _
    | some value =>
      exact (value.reports_denote.bind_ok some).bind fun _ _ => type.reports_denote.bind_ok _

theorem reports_denoteAll (es : List ParamExpr) :
    Reports (es.flatMap flaws) (denoteAll es) := by
  induction es with
  | nil => exact .ok _
  | cons e es ih =>
    rw [List.flatMap_cons, denoteAll]
    exact e.reports_denote.bind fun _ _ => ih.bind_ok _

end ParamExpr

/-- **An expression with flaws fails with the first of them**, and one without denotes something. -/
theorem StartRule.reports_denote (r : StartRule) (e : r.Expr) :
    Reports (r.flaws e) (r.denote e) := by
  cases r with
  | function =>
    exact (ParamExpr.reports_denoteAll _).bind fun _ _ => (TypeExpr.reports_denote _).bind_ok _
  | identifier => exact .ok _
  | type => exact TypeExpr.reports_denote e
  | literal => exact LiteralExpr.reports_denote e
  | param => exact ParamExpr.reports_denote e
  | params => exact ParamExpr.reports_denoteAll e
  | returns => exact TypeExpr.reports_denote e

/-! ## Flaws of tokens -/

/-- The printed word for the form of the types that start with a terminal. -/
def Terminal.form : Terminal → String
  | plain type => type.descriptor.form
  | array => "FixedArrayType"
  | _ => "TupleType"

namespace Token

/-- The flaws of a token as a numeral. -/
def flaws (k : Token) : List Flaw :=
  match k.terminal with
  | .natural => digitFlaws k.lexeme.text
  | .literal .integer => digitFlaws (Numeral.unsigned k.lexeme.text)
  | _ => []

/-- The flaw of the type that starts with a token as an element of an array. -/
def elementFlaws (k : Token) : List Flaw :=
  match k.terminal with
  | .plain (.scalar _) => []
  | t => [.element k.lexeme.offset t.form]

/-- The flaws of a token before another one: as a numeral, or of the element behind an angle bracket
that opens. -/
def flawsBefore (k : Token) (next? : Option Token) : List Flaw :=
  if k.terminal = .openAngle then next?.elim [] elementFlaws else k.flaws

end Token

/-- The flaws of tokens, in the order of the text. -/
def flawsIn : List Token → List Flaw
  | [] => []
  | k :: ks => k.flawsBefore ks.head? ++ flawsIn ks

/-- Tokens of which the last is no opening angle bracket. -/
def Closed (ks : List Token) : Prop := ∀ k ∈ ks.getLast?, k.terminal ≠ .openAngle

namespace Closed

variable {ks ls : List Token}

theorem append (h : Closed ks) (h' : Closed ls) : Closed (ks ++ ls) := by
  intro k hk
  rw [Option.mem_def, List.getLast?_append, Option.or_eq_some_iff] at hk
  rcases hk with hk | ⟨-, hk⟩
  · exact h' k hk
  · exact h k hk

theorem cons {k : Token} (hk : k.terminal ≠ .openAngle) (h : Closed ks) : Closed (k :: ks) := by
  refine @append [k] ks ?_ h
  intro l hl
  obtain rfl : k = l := Option.some.inj hl
  exact hk

end Closed

theorem flawsIn_cons {k : Token} (hk : k.terminal ≠ .openAngle) (ks : List Token) :
    flawsIn (k :: ks) = k.flaws ++ flawsIn ks := by
  rw [flawsIn, Token.flawsBefore, if_neg hk]

theorem flawsIn_append {ks : List Token} (h : Closed ks) (ls : List Token) :
    flawsIn (ks ++ ls) = flawsIn ks ++ flawsIn ls := by
  induction ks with
  | nil => rfl
  | cons k ks ih =>
    cases ks with
    | nil =>
      have hk := h k rfl
      rw [List.singleton_append, flawsIn_cons hk, flawsIn_cons hk, flawsIn, List.append_nil]
    | cons l ks =>
      rw [List.cons_append, flawsIn, ih h, ← List.append_assoc]
      rfl

/-- The flaws of the values of symbols, in order. -/
def valueFlaws : (symbols : List Symbol) → Values symbols → List Flaw
  | [], _ => []
  | .terminal t :: ss, vs => Token.flaws ⟨t, vs.1⟩ ++ valueFlaws ss vs.2
  | .nonterminal n :: ss, vs => n.flaws vs.1 ++ valueFlaws ss vs.2

/-- The tokens that a nonterminal stands for have the flaws of its expression. -/
def HasFlaws (n : Nonterminal) (v : n.Value) (ks : List Token) : Prop :=
  Closed ks ∧ (n.flaws v).Perm (flawsIn ks)

/-- Where no angle bracket is opened the flaws of tokens are those of the parts. -/
theorem Holds.hasFlaws {ss : List Symbol} {vs : Values ss} {ks : List Token}
    (h : Holds HasFlaws ss vs ks) (hs : .terminal .openAngle ∉ ss) :
    Closed ks ∧ (valueFlaws ss vs).Perm (flawsIn ks) := by
  induction ss generalizing ks with
  | nil =>
    obtain rfl := h
    exact ⟨nofun, .nil⟩
  | cons s ss ih =>
    simp only [List.mem_cons, not_or] at hs
    cases s with
    | terminal t =>
      obtain ⟨ls, rfl, h⟩ := h
      obtain ⟨hl, hp⟩ := ih h hs.2
      have ht : t ≠ .openAngle := fun ht => hs.1 (by rw [ht])
      refine ⟨.cons ht hl, ?_⟩
      rw [valueFlaws, flawsIn_cons ht]
      exact hp.append_left _
    | nonterminal n =>
      obtain ⟨us, ls, rfl, ⟨hu, hup⟩, h⟩ := h
      obtain ⟨hl, hp⟩ := ih h hs.2
      refine ⟨hu.append hl, ?_⟩
      rw [valueFlaws, flawsIn_append hu]
      exact hup.append hp

/-! ## Elements of arrays -/

/-- A type starts with a token at its offset, which tells whether an array can hold it. -/
def StartsType : (n : Nonterminal) → n.Value → List Token → Prop
  | .typed _, e, ks => ∃ k ls, ks = k :: ls ∧ k.elementFlaws = TypeExpr.elementFlaws e
  | _, _, _ => True

theorem startsType_act (p : Production) (vs : Values p.rhs) (ks : List Token)
    (h : Holds StartsType p.rhs vs ks) : StartsType p.lhs (p.act vs) ks := by
  cases p with
  | plain type =>
    obtain ⟨ls, rfl, -⟩ := h
    cases type <;> exact ⟨_, ls, rfl, rfl⟩
  | intListOne =>
    obtain ⟨ls, rfl, -⟩ := h
    exact ⟨_, ls, rfl, rfl⟩
  | intListMany =>
    obtain ⟨ls, rfl, -⟩ := h
    exact ⟨_, ls, rfl, rfl⟩
  | array =>
    obtain ⟨ls, rfl, -⟩ := h
    exact ⟨_, ls, rfl, rfl⟩
  | tupleEmpty kind =>
    obtain ⟨ls, rfl, -⟩ := h
    exact ⟨_, ls, rfl, rfl⟩
  | tupleOne kind =>
    obtain ⟨ls, rfl, -⟩ := h
    exact ⟨_, ls, rfl, rfl⟩
  | tupleMany kind =>
    obtain ⟨ls, rfl, -⟩ := h
    exact ⟨_, ls, rfl, rfl⟩
  | typeBase | typeTuple | base form | returnsTuple | returnsSingle | returnUnnamed | returnNamed =>
    obtain ⟨us, ms, rfl, ⟨k, ls, rfl, hk⟩, -⟩ := h
    exact ⟨k, ls ++ ms, rfl, hk⟩
  | _ => trivial

/-- The tokens of a type start with one that tells whether an array can hold it. -/
theorem Derives.exists_elementFlaws {form : TypeForm} {ks : List Token} {e : TypeExpr}
    (h : Derives [.nonterminal (.typed form)] ks (e, ())) :
    ∃ k ls, ks = k :: ls ∧ k.elementFlaws = e.elementFlaws := by
  obtain ⟨us, _, rfl, ⟨k, ls, rfl, hk⟩, rfl⟩ := h.fold startsType_act
  exact ⟨k, ls ++ [], rfl, hk⟩

/-! ## The flaws of an expression are those of its tokens -/

theorem Production.eq_array {p : Production} (h : .terminal .openAngle ∈ p.rhs) : p = array := by
  have key : ∀ p ∈ all, .terminal .openAngle ∈ p.rhs → p = array := by decide +kernel
  exact key p (mem_all p) h

theorem ListKind.flaws_itemValue (list : ListKind) (vs : Values [list.item]) :
    list.flaws (Production.itemValue list vs.1) = valueFlaws [list.item] vs := by
  rcases list with _ | ⟨_ | _⟩ | _ <;> exact (List.append_nil _).symm

/-- But for defaults and arrays, flaws are looked at in the order of the symbols. -/
theorem Production.flaws_act {p : Production} (hd : p ≠ paramDefault) (ha : p ≠ array)
    (vs : Values p.rhs) : p.lhs.flaws (p.act vs) = valueFlaws p.rhs vs := by
  cases p with
  | paramDefault => exact absurd rfl hd
  | array => exact absurd rfl ha
  | function => exact congrArg (_ ++ ·) (List.append_nil _).symm
  | paramsMany => exact congrArg (_ ++ ·) (List.append_nil _).symm
  | restFirst list => exact (List.append_nil _).trans (list.flaws_itemValue vs.2)
  | restNext list =>
    refine List.flatMap_append.trans (congrArg (_ ++ ·) ?_)
    exact (List.append_nil _).trans (list.flaws_itemValue vs.2.2)
  | intListMany =>
    obtain ⟨word, o, first, others, c, ⟨⟩⟩ := vs
    have hothers : (List.map Lexeme.text others).flatMap digitFlaws =
        List.flatMap ListKind.dims.flaws others := List.flatMap_map ..
    exact congrArg (digitFlaws (Lexeme.text first) ++ ·) (hothers.trans (List.append_nil _).symm)
  | tupleMany kind =>
    refine congrArg (_ ++ ·) (Eq.trans ?_ (List.append_nil _).symm)
    exact TypeExpr.flawsAll_eq _
  | literal form => cases form <;> first | rfl | exact (List.append_nil _).symm
  | identifier | paramsNone | paramsOne | paramStar | plain | intListOne | tupleEmpty
  | tupleOne => rfl
  | paramPlain | typeBase | typeTuple | base | returnsTuple | returnsSingle | returnUnnamed
  | returnNamed => exact (List.append_nil _).symm

/-- The flaw of an element comes in the text before those inside of it. -/
theorem HasFlaws.array {word openAngle comma length closeAngle : Lexeme} {e : TypeExpr}
    {us : List Token} (hd : Derives [.nonterminal (.typed .type)] us (e, ()))
    (h : HasFlaws (.typed .type) e us) :
    HasFlaws (.typed .arrayType) (.array word.offset e length.text : TypeExpr)
      (⟨.array, word⟩ :: ⟨.openAngle, openAngle⟩ ::
        (us ++ [⟨.comma, comma⟩, ⟨.natural, length⟩, ⟨.closeAngle, closeAngle⟩])) := by
  obtain ⟨hu, hp⟩ := h
  obtain ⟨k, ls, rfl, hk⟩ := hd.exists_elementFlaws
  constructor
  · have hend : Closed [⟨.comma, comma⟩, ⟨.natural, length⟩, ⟨.closeAngle, closeAngle⟩] := by
      simp [Closed]
    exact hu.append hend
  · have hend : flawsIn [⟨.comma, comma⟩, ⟨.natural, length⟩, ⟨.closeAngle, closeAngle⟩] =
        digitFlaws length.text := by
      simp [flawsIn, Token.flawsBefore, Token.flaws]
    rw [flawsIn_cons (by simp), flawsIn, flawsIn_append hu, hend]
    show List.Perm (e.flaws ++ (e.elementFlaws ++ digitFlaws length.text))
      (k.elementFlaws ++ (flawsIn (k :: ls) ++ digitFlaws length.text))
    rw [hk]
    exact (List.perm_append_comm_assoc _ _ _).trans ((hp.append_right _).append_left _)

theorem hasFlaws_act (p : Production) (vs : Values p.rhs) (ks : List Token)
    (h : Holds (fun n v ls => Derives [.nonterminal n] ls (v, ()) ∧ HasFlaws n v ls) p.rhs vs ks) :
    HasFlaws p.lhs (p.act vs) ks := by
  by_cases ha : p = .array
  · subst ha
    obtain ⟨_, rfl, _, rfl, us, _, rfl, ⟨hd, hu⟩, _, rfl, _, rfl, _, rfl, rfl⟩ := h
    exact hu.array hd
  have hopen : .terminal .openAngle ∉ p.rhs := fun ho => ha (Production.eq_array ho)
  obtain ⟨hc, hp⟩ := (h.imp fun _ _ _ => And.right).hasFlaws hopen
  refine ⟨hc, .trans ?_ hp⟩
  by_cases hd : p = .paramDefault
  · subst hd
    obtain ⟨type, name, equal, value, ⟨⟩⟩ := vs
    have he : valueFlaws Production.paramDefault.rhs (type, name, equal, value, ()) =
        TypeExpr.flaws type ++ LiteralExpr.flaws value :=
      congrArg (_ ++ ·) (List.append_nil _)
    rw [he]
    exact List.perm_append_comm
  · rw [p.flaws_act hd ha]

/-- **The flaws of an expression are those of its tokens**, in another order. -/
theorem Derives.perm_flaws {n : Nonterminal} {ks : List Token} {v : n.Value}
    (h : Derives [.nonterminal n] ks (v, ())) : (n.flaws v).Perm (flawsIn ks) := by
  obtain ⟨us, _, rfl, ⟨-, -, hp⟩, rfl⟩ := h.fold_and hasFlaws_act
  rw [List.append_nil]
  exact hp

/-! ## What comes of flaws -/

/-- **A text that follows the grammar fails with the first flaw in it**, if there is any. The flaws
are those of its tokens, taken in the order in which the expression is looked at. -/
theorem parse_flaws {r : StartRule} {text : List Char} (h : Accepted r text) :
    ∃ ks e, read r text = .ok e ∧ Spells 0 ks text ∧ Apart ks ∧
      Derives [.nonterminal r.nonterminal] ks (e, ()) ∧ (r.flaws e).Perm (flawsIn ks) ∧
      (r.flaws e = [] → ∃ v, parse r text = .ok v) ∧
      ∀ flaw others, r.flaws e = flaw :: others →
        parse r text = .error (.ofFlaw text flaw) := by
  obtain ⟨e, he⟩ := accepted_iff.1 h
  obtain ⟨ks, hs, ha, hd⟩ := read_eq_ok_iff.1 he
  refine ⟨ks, e, he, hs, ha, hd, hd.perm_flaws, ?_⟩
  have hr := r.reports_denote e
  rw [parse_of_read he]
  cases hv : r.denote e with
  | ok v =>
    rw [hv] at hr
    have hn : r.flaws e = [] := hr
    exact ⟨fun _ => ⟨v, rfl⟩, fun flaw others hf => absurd (hn.symm.trans hf) nofun⟩
  | error fault =>
    rw [hv] at hr
    have hf : (r.flaws e).head? = some fault.flaw := hr
    refine ⟨fun hn => ?_, fun flaw others hc => ?_⟩
    · rw [hn] at hf
      cases hf
    · rw [hc] at hf
      obtain rfl := Option.some.inj hf
      exact congrArg Except.error (Failure.ofFault_eq text fault)

/-- The inner of two arrays is looked at first, although the outer one is judged by a token that
comes before it. -/
theorem parse_flaws_nested : Accepted .type "std::array<std::array<(),1>,2>".toList ∧
    parse .type "std::array<std::array<(),1>,2>".toList =
      .error (.ofFlaw "std::array<std::array<(),1>,2>".toList (.element 22 "TupleType")) := by
  obtain ⟨ks, hks⟩ : ∃ ks : List Token, ks =
    [⟨.array, ⟨"std::array".toList, 0⟩⟩, ⟨.openAngle, ⟨['<'], 10⟩⟩,
      ⟨.array, ⟨"std::array".toList, 11⟩⟩, ⟨.openAngle, ⟨['<'], 21⟩⟩,
      ⟨.openParen, ⟨['('], 22⟩⟩, ⟨.closeParen, ⟨[')'], 23⟩⟩, ⟨.comma, ⟨[','], 24⟩⟩,
      ⟨.natural, ⟨['1'], 25⟩⟩, ⟨.closeAngle, ⟨['>'], 26⟩⟩, ⟨.comma, ⟨[','], 27⟩⟩,
      ⟨.natural, ⟨['2'], 28⟩⟩, ⟨.closeAngle, ⟨['>'], 29⟩⟩] := ⟨_, rfl⟩
  have hs : Spells 0 ks "std::array<std::array<(),1>,2>".toList := by
    subst hks
    refine @Spells.cons 0 [] _ _ _ .nil rfl rfl ?_
    refine @Spells.cons 10 [] _ _ _ .nil rfl rfl ?_
    refine @Spells.cons 11 [] _ _ _ .nil rfl rfl ?_
    refine @Spells.cons 21 [] _ _ _ .nil rfl rfl ?_
    refine @Spells.cons 22 [] _ _ _ .nil rfl rfl ?_
    refine @Spells.cons 23 [] _ _ _ .nil rfl rfl ?_
    refine @Spells.cons 24 [] _ _ _ .nil rfl rfl ?_
    refine @Spells.cons 25 [] _ _ _ .nil (Terminal.mem_words_of_scan rfl) rfl ?_
    refine @Spells.cons 26 [] _ _ _ .nil rfl rfl ?_
    refine @Spells.cons 27 [] _ _ _ .nil rfl rfl ?_
    refine @Spells.cons 28 [] _ _ _ .nil (Terminal.mem_words_of_scan rfl) rfl ?_
    exact @Spells.cons 29 [] _ _ _ .nil rfl rfl (.nil .nil)
  have ha : Apart ks := by
    subst hks
    decide
  have hunit : ∀ o c : Lexeme, Derives [.nonterminal (.typed .type)]
      [⟨.openParen, o⟩, ⟨.closeParen, c⟩] (TypeExpr.tuple o.offset [], ()) := fun o c =>
    .single .typeTuple (.single (.tupleEmpty .types) (.terminal ⟨_, o⟩ (.terminal ⟨_, c⟩ .nil)))
  have harray : ∀ {us : List Token} {e : TypeExpr} (w o c n a : Lexeme),
      Derives [.nonterminal (.typed .type)] us (e, ()) → Derives [.nonterminal (.typed .type)]
        (⟨.array, w⟩ :: ⟨.openAngle, o⟩ :: (us ++ [⟨.comma, c⟩, ⟨.natural, n⟩, ⟨.closeAngle, a⟩]))
        (TypeExpr.array w.offset e n.text, ()) := fun w o c n a he =>
    .single .typeBase (.single (.base .arrayType) (.single .array (.terminal ⟨_, w⟩ (.terminal ⟨_, o⟩
      (he.append (.terminal ⟨_, c⟩ (.terminal ⟨_, n⟩ (.terminal ⟨_, a⟩ .nil))))))))
  have hd : Derives [.nonterminal (.typed .type)] ks
      (TypeExpr.array 0 (.array 11 (.tuple 22 []) ['1']) ['2'], ()) := by
    subst hks
    exact harray _ _ _ _ _ (harray _ _ _ _ _ (hunit _ _))
  have hread : read .type "std::array<std::array<(),1>,2>".toList = .ok _ :=
    read_eq_ok_iff.2 ⟨ks, hs, ha, hd⟩
  have h : Accepted .type "std::array<std::array<(),1>,2>".toList := accepted_iff.2 ⟨_, hread⟩
  obtain ⟨-, e, he, -, -, -, -, -, hfirst⟩ := parse_flaws h
  obtain rfl := Except.ok.inj (he.symm.trans hread)
  exact ⟨h, hfirst _ [.element 11 "FixedArrayType"] rfl⟩

/-! ## Where failures are -/

theorem element_notMem_digitFlaws (digits : List Char) (offset : Nat) (form : String) :
    .element offset form ∉ digitFlaws digits := by
  unfold digitFlaws
  split <;> simp

/-- An element of which a flaw is found starts with a token. -/
theorem exists_token_of_mem_flawsIn {ks : List Token} {offset : Nat} {form : String}
    (h : .element offset form ∈ flawsIn ks) : ∃ k ∈ ks, k.lexeme.offset = offset := by
  induction ks with
  | nil => cases h
  | cons k ks ih =>
    rcases List.mem_append.1 h with h | h
    · unfold Token.flawsBefore at h
      split at h
      · cases ks with
        | nil => cases h
        | cons l ls =>
          simp only [List.head?_cons, Option.elim_some, Token.elementFlaws] at h
          split at h
          · cases h
          · obtain ⟨rfl, -⟩ := Flaw.element.inj (List.mem_singleton.1 h)
            exact ⟨l, by simp, rfl⟩
      · unfold Token.flaws at h
        split at h
        · exact absurd h (element_notMem_digitFlaws _ _ _)
        · exact absurd h (element_notMem_digitFlaws _ _ _)
        · cases h
    · obtain ⟨l, hl, ho⟩ := ih h
      exact ⟨l, List.mem_cons_of_mem _ hl, ho⟩

/-- **A report names a place in the text**, or its end. -/
theorem exists_offset_le_of_parse {r : StartRule} {text : List Char} {error : SignatureError}
    (h : parse r text = .error (.signature error)) :
    ∃ o ≤ text.length, error.span = .ofOffset text o := by
  cases he : read r text with
  | error why =>
    obtain ⟨a, b, rfl, ho, -⟩ := exists_cut_of_read_error he
    rw [parse_of_read_error he] at h
    obtain rfl := Failure.signature.inj (Except.error.inj h)
    exact ⟨why.offset, by rw [ho, List.length_append]; omega, rfl⟩
  | ok e =>
    obtain ⟨ks, hs, -, hd⟩ := read_eq_ok_iff.1 he
    have hr := r.reports_denote e
    rw [parse_of_read he] at h
    cases hv : r.denote e with
    | ok v =>
      rw [hv] at h
      cases h
    | error fault =>
      rw [hv] at h hr
      cases fault with
      | oversized numeral => cases h
      | unsupportedElement o v =>
        obtain rfl := Failure.signature.inj (Except.error.inj h)
        have hm : .element o v.form ∈ flawsIn ks :=
          hd.perm_flaws.mem_iff.1 (List.mem_of_mem_head? hr)
        obtain ⟨k, hk, rfl⟩ := exists_token_of_mem_flawsIn hm
        have hstop := hs.stop_le hk
        unfold Token.stop at hstop
        exact ⟨k.lexeme.offset, by omega, rfl⟩

end TensorSig
