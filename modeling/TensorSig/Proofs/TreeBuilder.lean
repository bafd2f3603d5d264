import Mathlib.Data.List.Forall2
import TensorSig.Parse
import TensorSig.Proofs.Relocation
import TensorSig.Proofs.SyntaxTree

/-!
# Descriptors from syntax trees

A descriptor can be built from a syntax tree by the labels of its nodes and the places and terminals
of their children. That can fail in many ways in which an expression cannot: a child may be missing,
a table may lack a terminal, a label may stand where it has no meaning, and what is built may be
refused by the rules on descriptors. On the trees of the grammar none of this happens. What is built
of them is what their expression denotes, and the only failures are those of denotation.

* `BuildFault`: all ways to fail.
* `Tree.buildType`, `Tree.buildReturns`, `Tree.buildFunction` and their companions,
  `StartRule.build`: building.
* `FitsValue`: trees of which the expression of a nonterminal is built.
* `fitsValue_grow`: each rule makes such trees of such trees.
* `Grows.exists_build`: what is built of a tree is what the expression of its tokens denotes.
-/

namespace TensorSig

/-- Why nothing is built of a tree. -/
inductive BuildFault
  /-- The tree is sound but denotes nothing. -/
  | denoted (fault : DenoteFault)
  /-- A node has some other number of tokens than one. -/
  | tokenCount (count : Nat)
  /-- A node has some other number of subtrees than three. -/
  | childCount (count : Nat)
  /-- A child is not there. -/
  | missing
  /-- A terminal is not in the table in which it is looked up. -/
  | unlisted (t : Terminal)
  /-- A node or a token that is no type. -/
  | unsupportedType
  /-- A node or a token that is no result. -/
  | unsupportedReturn
  /-- A token that is no default. -/
  | unsupportedLiteral (t : Terminal)
  /-- A node or a token that is no entry of a parameter list. -/
  | notParameter
  /-- A descriptor that is not well-formed. -/
  | malformed (fault : DescriptorFault)

/-- What an expression denotes, among the outcomes of building. -/
def lift {α : Type} (x : Except DenoteFault α) : Except BuildFault α := x.mapError .denoted

theorem lift_bind {α β : Type} (x : Except DenoteFault α) (f : α → Except DenoteFault β) :
    lift (x >>= f) = lift x >>= fun a => lift (f a) :=
  mapError_bind _ x f

/-! ## Building -/

/-- The tensor-family types that are words by themselves and take no dimensions. -/
def tensorTable : List (Terminal × TensorKind) :=
  [.tensorOptions, .optionalTensor, .tensorList, .tensor, .indexTensor, .optionalBoolTensor,
    .boolTensor, .optionalScalar, .scalarType, .scalar, .sparseTensorRef].map
    fun kind => (.plain (.tensor kind), kind)

/-- The C scalar types. -/
def scalarTable : List (Terminal × ScalarKind) :=
  [.bool, .void, .double, .optionalInt64, .int64].map fun kind => (.plain (.scalar kind), kind)

/-- The defaults that are words by themselves. -/
def literalTable : List (Terminal × Literal) :=
  [(.literal (.bool true), .bool true), (.literal (.bool false), .bool false),
    (.literal .nullPointer, .nullPointer), (.literal .noneValue, .noneValue),
    (.literal (.constant .reductionMean), .constant .reductionMean),
    (.literal (.constant .atLong), .constant .atLong), (.literal .emptyDict, .emptyDict),
    (.literal .zeroOneDict, .emptyDict)]

/-- What a table says of a terminal. -/
def lookUp {α : Type} (table : List (Terminal × α)) (t : Terminal) : Except BuildFault α :=
  match table.lookup t with
  | some a => .ok a
  | none => .error (.unlisted t)

/-- A descriptor, unless it breaks one of the rules on descriptors. -/
def checked {α : Type} (check : Except DescriptorFault Unit) (a : α) : Except BuildFault α :=
  match check with
  | .ok () => .ok a
  | .error fault => .error (.malformed fault)

/-- A type, unless it is not well-formed. -/
def make (v : ValueType) : Except BuildFault ValueType := checked v.check v

namespace Tree

/-- The trees that are more than tokens. -/
def subtrees (ts : List Tree) : List Tree := ts.filter isNode

/-- The tokens of a terminal. -/
def tokensOf (t : Terminal) (ts : List Tree) : List Token :=
  (ts.filterMap token?).filter fun k => k.terminal = t

/-- The token, where there is just one. -/
def onlyToken (ts : List Tree) : Except BuildFault Token :=
  match ts.filterMap token? with
  | [k] => .ok k
  | ks => .error (.tokenCount ks.length)

/-- The first token of a terminal. -/
def firstToken (t : Terminal) (ts : List Tree) : Except BuildFault Token :=
  match tokensOf t ts with
  | k :: _ => .ok k
  | [] => .error .missing

mutual

/-- The type that a tree stands for. -/
def buildType : Tree → Except BuildFault ValueType
  | token _ => .error .unsupportedType
  | node label _ children =>
    match label with
    | .tupleType => do
      let types ← buildTypes children
      return .tuple types
    | .tensorType => do
      let k ← onlyToken children
      let kind ← lookUp tensorTable k.terminal
      make (.tensor kind none)
    | .intList => do
      let dims ← lift (readDims ((tokensOf .natural children).map fun k => k.lexeme.text))
      make (.tensor .intList (if dims.isEmpty then none else some dims))
    | .scalarType => do
      let k ← onlyToken children
      let kind ← lookUp scalarTable k.terminal
      return .scalar kind
    | .arrayType => do
      let (element, offset) ← buildFirst children
      let kind ← lift (TypeExpr.elementKind offset element)
      let length ← firstToken .natural children
      let n ← lift (readNatural length.lexeme.text)
      make (.array kind n)
    | .stringType => return .string
    | .deviceType => return .device
    | .generatorType => return .generator
    | .storageType => return .storage
    | _ => .error .unsupportedType

/-- The types that the subtrees among several trees stand for. -/
def buildTypes : List Tree → Except BuildFault (List ValueType)
  | [] => return []
  | t :: ts =>
    if t.isNode then do
      let type ← buildType t
      let types ← buildTypes ts
      return type :: types
    else buildTypes ts

/-- The type that the first subtree among several trees stands for, and where it starts. -/
def buildFirst : List Tree → Except BuildFault (ValueType × Nat)
  | [] => .error .missing
  | t :: ts =>
    if t.isNode then do
      let type ← buildType t
      return (type, t.offset?.getD 0)
    else buildFirst ts

end

mutual

/-- The result type that a tree stands for. -/
def buildReturns : Tree → Except BuildFault ValueType
  | token _ => .error .unsupportedReturn
  | node label _ children =>
    match label with
    | .returnTuple => do
      let types ← buildAllReturns children
      return .tuple types
    | .returnSingle => do
      let (type, _) ← buildFirst children
      return type
    | _ => .error .unsupportedReturn

/-- The result types that the subtrees among several trees stand for. -/
def buildAllReturns : List Tree → Except BuildFault (List ValueType)
  | [] => return []
  | t :: ts =>
    if t.isNode then do
      let type ← buildReturns t
      let types ← buildAllReturns ts
      return type :: types
    else buildAllReturns ts

end

/-- The name that a tree stands for. -/
def buildIdentifier (t : Tree) : Except BuildFault String := do
  let k ← firstToken .name t.children
  return String.ofList k.lexeme.text

/-- The default that a tree stands for. -/
def buildLiteral (t : Tree) : Except BuildFault Literal := do
  let k ← onlyToken t.children
  match k.terminal with
  | .literal .float => return .double (Decimal.ofChars k.lexeme.text).toDouble
  | .literal .integer => do
    let n ← lift (readInteger k.lexeme.text)
    return .int n
  | terminal =>
    match literalTable.lookup terminal with
    | some literal => return literal
    | none => .error (.unsupportedLiteral terminal)

/-- The default that the first of several trees stands for, if there is any. -/
def buildDefault : List Tree → Except BuildFault (Option Literal)
  | [] => return none
  | t :: _ => do
    let literal ← buildLiteral t
    return some literal

/-- The entry of a parameter list that a tree stands for. -/
def buildParam : Tree → Except BuildFault ParamItem
  | token _ => .error .notParameter
  | node label _ children =>
    match label with
    | .variadic => return .variadic
    | .parameter =>
      match subtrees children with
      | [] => .error .missing
      | type :: others => do
        let default? ← buildDefault others
        let name ← firstToken .name children
        let valueType ← buildType type
        return .parameter ⟨valueType, String.ofList name.lexeme.text, default?⟩
    | _ => .error .notParameter

/-- The parameter list that a tree stands for. -/
def buildParams (t : Tree) : Except BuildFault (List ParamItem) :=
  (subtrees t.children).mapM buildParam

/-- The declaration that a tree stands for. -/
def buildFunction (t : Tree) : Except BuildFault Signature :=
  match subtrees t.children with
  | [name, params, returns] => do
    let name ← buildIdentifier name
    let parameters ← buildParams params
    let returnType ← buildReturns returns
    return ⟨name, parameters, returnType⟩
  | ts => .error (.childCount ts.length)

end Tree

/-- The result of a start rule that a tree stands for. -/
def StartRule.build : (r : StartRule) → Tree → Except BuildFault r.Result
  | function, t => t.buildFunction
  | identifier, t => t.buildIdentifier
  | type, t => t.buildType
  | literal, t => t.buildLiteral
  | param, t => t.buildParam
  | params, t => t.buildParams
  | returns, t => t.buildReturns

/-! ## Trees that fit expressions -/

/-- A node of which is built what an expression denotes. -/
def Fits {α : Type} (build : Tree → Except BuildFault α) (x : Except DenoteFault α) (t : Tree) :
    Prop :=
  t.isNode = true ∧ build t = lift x

/-- How the types of a nonterminal are built. -/
def TypeForm.build : TypeForm → Tree → Except BuildFault ValueType
  | .returns => Tree.buildReturns
  | .returnSingle => Tree.buildReturns
  | .returnTuple => Tree.buildReturns
  | _ => Tree.buildType

/-- A node of which the type of an expression is built, and which starts where the type does. -/
def FitsType (form : TypeForm) (e : TypeExpr) (t : Tree) : Prop :=
  Fits form.build e.denote t ∧ t.offset? = some e.offset

/-- The tree of an item of a list. -/
def FitsItem : (list : ListKind) → list.Item → Tree → Prop
  | .params, e, t => Fits Tree.buildParam (ParamExpr.denote e) t
  | .tuple kind, e, t => FitsType kind.element e t
  | .dims, l, t => t = .token ⟨.natural, l⟩

/-- The trees of a nonterminal. -/
def FitsValue : (n : Nonterminal) → n.Value → List Tree → Prop
  | .function, e, ts => ∃ t, ts = [t] ∧ Fits Tree.buildFunction (SignatureExpr.denote e) t
  | .identifier, l, ts =>
    ∃ t, ts = [t] ∧ Fits Tree.buildIdentifier (.ok (String.ofList (Lexeme.text l))) t
  | .params, es, ts => ∃ t, ts = [t] ∧ Fits Tree.buildParams (ParamExpr.denoteAll es) t
  | .param, e, ts => ∃ t, ts = [t] ∧ Fits Tree.buildParam (ParamExpr.denote e) t
  | .literal, e, ts => ∃ t, ts = [t] ∧ Fits Tree.buildLiteral (LiteralExpr.denote e) t
  | .typed form, e, ts => ∃ t, ts = [t] ∧ FitsType form e t
  | .rest list, es, ts => List.Forall₂ (FitsItem list) es ts

/-- The trees of several symbols. -/
def FitsAll : (symbols : List Symbol) → Values symbols → List Tree → Prop
  | [], _, ts => ts = []
  | .terminal t :: ss, vs, ts => ∃ us, ts = .token ⟨t, vs.1⟩ :: us ∧ FitsAll ss vs.2 us
  | .nonterminal n :: ss, vs, ts =>
    ∃ us ls, ts = us ++ ls ∧ FitsValue n vs.1 us ∧ FitsAll ss vs.2 ls

/-! ## Items of lists -/

theorem Fits.isPunctuation {α : Type} {build : Tree → Except BuildFault α}
    {x : Except DenoteFault α} {t : Tree} (h : Fits build x t) : t.isPunctuation = false := by
  obtain ⟨label, offset?, children, rfl⟩ := Tree.exists_of_isNode h.1
  rfl

theorem FitsItem.isPunctuation {list : ListKind} {e : list.Item} {t : Tree}
    (h : FitsItem list e t) : t.isPunctuation = false := by
  cases list with
  | params => exact Fits.isPunctuation h
  | tuple kind => exact h.1.isPunctuation
  | dims =>
    obtain rfl : t = .token ⟨.natural, e⟩ := h
    rfl

/-- The trees of items are not left out. -/
theorem kept_of_fitsItem {list : ListKind} {es : List list.Item} {ts : List Tree}
    (h : List.Forall₂ (FitsItem list) es ts) : Tree.kept ts = ts := by
  induction h with
  | nil => rfl
  | cons ht _ ih => rw [Tree.kept_cons ht.isPunctuation, ih]

/-- One more item of a list, behind a comma. -/
theorem fits_restNext {list : ListKind} {es : List list.Item} {e : list.Item} {ts : List Tree}
    {t : Tree} (hs : List.Forall₂ (FitsItem list) es ts) (ht : FitsItem list e t) (m : Lexeme) :
    List.Forall₂ (FitsItem list) (es ++ [e]) (Tree.kept (ts ++ [.token ⟨.comma, m⟩, t])) := by
  have hk : Tree.kept (ts ++ [.token ⟨.comma, m⟩, t]) = ts ++ [t] := by
    simp [kept_of_fitsItem hs, Tree.kept_cons ht.isPunctuation]
  rw [hk]
  exact List.rel_append hs (.cons ht .nil)

/-- What is built of trees one after the other is what expressions that they fit denote one after
the other. -/
theorem all_eq_lift {α β : Type} {build : Tree → Except BuildFault α}
    {denote : β → Except DenoteFault α} {F : List Tree → Except BuildFault (List α)}
    {D : List β → Except DenoteFault (List α)} (hF : F [] = .ok []) (hD : D [] = .ok [])
    (hFc : ∀ t ts, t.isNode = true → F (t :: ts) = build t >>= fun a => F ts >>= fun as =>
      .ok (a :: as))
    (hDc : ∀ e es, D (e :: es) = denote e >>= fun a => D es >>= fun as => .ok (a :: as))
    {es : List β} {ts : List Tree} (h : List.Forall₂ (fun e => Fits build (denote e)) es ts) :
    F ts = lift (D es) := by
  induction h with
  | nil =>
    rw [hF, hD]
    rfl
  | cons ht _ ih =>
    obtain ⟨hn, hb⟩ := ht
    rw [hFc _ _ hn, hDc, hb, ih]
    simp only [lift_bind]
    rfl

/-- The trees of parameters are built like the parameters are denoted. -/
theorem fits_params {es : List ParamExpr} {ts : List Tree} (offset? : Option Nat)
    (h : List.Forall₂ (FitsItem .params) es ts) :
    Fits Tree.buildParams (ParamExpr.denoteAll es) (.node .params offset? (Tree.kept ts)) := by
  refine ⟨rfl, ?_⟩
  rw [kept_of_fitsItem h]
  have h : List.Forall₂ (fun e => Fits Tree.buildParam (ParamExpr.denote e)) es ts := h
  refine all_eq_lift (F := fun ts => (Tree.subtrees ts).mapM Tree.buildParam)
    (D := ParamExpr.denoteAll) rfl rfl ?_ (fun e es => rfl) h
  intro t ts hn
  rw [Tree.subtrees, List.filter_cons_of_pos hn, List.mapM_cons]
  rfl

/-- The trees of types are built like the types are denoted. -/
theorem buildTypes_eq {es : List TypeExpr} {ts : List Tree}
    (h : List.Forall₂ (FitsType .type) es ts) :
    Tree.buildTypes ts = lift (TypeExpr.denoteAll es) := by
  refine all_eq_lift (by rw [Tree.buildTypes]; rfl) (by rw [TypeExpr.denoteAll]) ?_
    (fun e es => by rw [TypeExpr.denoteAll]; rfl) (h.imp fun _ _ ht => ht.1)
  intro t ts hn
  rw [Tree.buildTypes, if_pos hn]
  rfl

theorem buildAllReturns_eq {es : List TypeExpr} {ts : List Tree}
    (h : List.Forall₂ (FitsType .returns) es ts) :
    Tree.buildAllReturns ts = lift (TypeExpr.denoteAll es) := by
  refine all_eq_lift (by rw [Tree.buildAllReturns]; rfl) (by rw [TypeExpr.denoteAll]) ?_
    (fun e es => by rw [TypeExpr.denoteAll]; rfl) (h.imp fun _ _ ht => ht.1)
  intro t ts hn
  rw [Tree.buildAllReturns, if_pos hn]
  rfl

/-- A tuple is built like it is denoted. -/
theorem fitsType_tuple {kind : TupleKind} {es : List TypeExpr} {ts : List Tree}
    (h : List.Forall₂ (FitsType kind.element) es ts) (o c : Lexeme) :
    FitsType kind.form (.tuple o.offset es) (.node kind.label (some o.offset)
      (Tree.kept (.token ⟨.openParen, o⟩ :: (ts ++ [.token ⟨.closeParen, c⟩])))) := by
  have hk : Tree.kept (.token ⟨.openParen, o⟩ :: (ts ++ [.token ⟨.closeParen, c⟩])) = ts := by
    have hts : Tree.kept ts = ts := @kept_of_fitsItem (.tuple kind) es ts h
    simp [hts]
  rw [hk]
  refine ⟨⟨rfl, ?_⟩, rfl⟩
  cases kind with
  | types =>
    change (do let types ← Tree.buildTypes ts; return ValueType.tuple types) = _
    rw [buildTypes_eq h, TypeExpr.denote, lift_bind]
    rfl
  | returns =>
    change (do let types ← Tree.buildAllReturns ts; return ValueType.tuple types) = _
    rw [buildAllReturns_eq h, TypeExpr.denote, lift_bind]
    rfl

/-! ## Dimensions and lengths -/

/-- Dimensions that are read are as many as their numerals and not negative. -/
theorem spec_of_readDims {numerals : List (List Char)} {dims : List Int}
    (h : readDims numerals = .ok dims) : dims.length = numerals.length ∧ ∀ d ∈ dims, 0 ≤ d := by
  induction numerals generalizing dims with
  | nil =>
    obtain rfl := Except.ok.inj h
    simp
  | cons numeral numerals ih =>
    rw [readDims] at h
    cases hn : readNatural numeral with
    | error fault => rw [hn] at h; cases h
    | ok n =>
      cases hd : readDims numerals with
      | error fault => rw [hn, hd] at h; cases h
      | ok ds =>
        rw [hn, hd] at h
        obtain rfl := Except.ok.inj h
        obtain ⟨hl, hp⟩ := ih hd
        refine ⟨by rw [List.length_cons, List.length_cons, hl], fun d hd' => ?_⟩
        rcases List.mem_cons.1 hd' with rfl | hd'
        · exact Int.natCast_nonneg n
        · exact hp d hd'

theorem ValueType.checkDims_eq_ok {dims : List Int} (hn : dims ≠ []) (hp : ∀ d ∈ dims, 0 ≤ d) :
    checkDims .intList (some dims) = .ok () := by
  have hany : dims.any (· < 0) = false := by
    rw [List.any_eq_false]
    intro d hd
    simpa using hp d hd
  simp [checkDims, hn, hany]

theorem make_dims {dims : List Int} (hn : dims ≠ []) (hp : ∀ d ∈ dims, 0 ≤ d) :
    make (.tensor .intList (some dims)) = .ok (.tensor .intList (some dims)) := by
  rw [make, ValueType.check, ValueType.checkDims_eq_ok hn hp]
  rfl

theorem make_array (kind : ScalarKind) (n : Nat) :
    make (.array kind n) = .ok (.array kind n) := by
  have hn : ¬ (n : Int) < 0 := by omega
  simp [make, checked, ValueType.check, hn]

theorem tokensOf_natural {ls : List Lexeme} {ts : List Tree}
    (h : List.Forall₂ (FitsItem .dims) ls ts) :
    (Tree.tokensOf .natural ts).map (fun k => k.lexeme.text) = ls.map Lexeme.text := by
  induction h with
  | nil => rfl
  | @cons l t ls ts ht _ ih =>
    obtain rfl : t = .token ⟨.natural, l⟩ := ht
    exact congrArg (l.text :: ·) ih

/-- An integer list with dimensions is built like it is denoted. -/
theorem fitsType_intList {ls : List Lexeme} {ts : List Tree}
    (h : List.Forall₂ (FitsItem .dims) ls ts) (w o l c : Lexeme) :
    FitsType .intList (.intList w.offset l.text (ls.map Lexeme.text))
      (.node .intList (some w.offset) (Tree.kept (.token ⟨.plain (.tensor .intList), w⟩ ::
        .token ⟨.openSquare, o⟩ :: .token ⟨.natural, l⟩ ::
          (ts ++ [.token ⟨.closeSquare, c⟩])))) := by
  refine ⟨⟨rfl, ?_⟩, rfl⟩
  -- of the tokens that are kept, the numerals are those of the dimensions
  have htexts : (Tree.tokensOf .natural (Tree.kept (.token ⟨.plain (.tensor .intList), w⟩ ::
        .token ⟨.openSquare, o⟩ :: .token ⟨.natural, l⟩ :: (ts ++ [.token ⟨.closeSquare, c⟩])))).map
      (fun k => k.lexeme.text) = l.text :: ls.map Lexeme.text := by
    have hk := kept_of_fitsItem h
    have ht := tokensOf_natural h
    simp only [Tree.tokensOf] at ht
    simp [hk, ht, Tree.tokensOf, Tree.token?]
  change Tree.buildType _ = _
  rw [Tree.buildType, htexts, TypeExpr.denote, lift_bind]
  cases hd : readDims (l.text :: ls.map Lexeme.text) with
  | error fault => rfl
  | ok dims =>
    obtain ⟨hl, hp⟩ := spec_of_readDims hd
    have hn : dims ≠ [] := by
      rintro rfl
      simp at hl
    obtain ⟨d, ds, rfl⟩ := List.exists_cons_of_ne_nil hn
    exact make_dims hn hp

/-- An array is built like it is denoted. -/
theorem fitsType_array {e : TypeExpr} {t : Tree} (ht : FitsType .type e t)
    (w o m l c : Lexeme) : FitsType .arrayType (.array w.offset e l.text)
      (.node .arrayType (some w.offset) (Tree.kept [.token ⟨.array, w⟩, .token ⟨.openAngle, o⟩, t,
        .token ⟨.comma, m⟩, .token ⟨.natural, l⟩, .token ⟨.closeAngle, c⟩])) := by
  refine ⟨⟨rfl, ?_⟩, rfl⟩
  have hk : Tree.kept [.token ⟨.array, w⟩, .token ⟨.openAngle, o⟩, t, .token ⟨.comma, m⟩,
      .token ⟨.natural, l⟩, .token ⟨.closeAngle, c⟩] =
        [.token ⟨.array, w⟩, t, .token ⟨.natural, l⟩] := by
    simp [Tree.kept_cons ht.1.isPunctuation]
  rw [hk]
  obtain ⟨⟨hn, hb⟩, ho⟩ := ht
  have hfirst : Tree.buildFirst [.token ⟨.array, w⟩, t, .token ⟨.natural, l⟩] =
      lift e.denote >>= fun v => .ok (v, e.offset) := by
    rw [Tree.buildFirst, if_neg (by simp), Tree.buildFirst, if_pos hn,
      show Tree.buildType t = _ from hb, ho]
    rfl
  have hlength : Tree.firstToken .natural [.token ⟨.array, w⟩, t, .token ⟨.natural, l⟩] =
      .ok ⟨.natural, l⟩ := by
    obtain ⟨label, offset?, children, rfl⟩ := Tree.exists_of_isNode hn
    rfl
  change Tree.buildType _ = _
  rw [Tree.buildType, hfirst, hlength, TypeExpr.denote]
  simp only [lift_bind]
  cases e.denote with
  | error fault => rfl
  | ok v =>
    change lift (TypeExpr.elementKind e.offset v) >>= _ =
      lift (TypeExpr.elementKind e.offset v) >>= _
    cases TypeExpr.elementKind e.offset v with
    | error fault => rfl
    | ok kind =>
      change lift (readNatural l.text) >>= _ = lift (readNatural l.text) >>= _
      cases readNatural l.text with
      | error fault => rfl
      | ok n => exact make_array kind n

/-! ## Words, defaults, parameters and declarations -/

theorem fitsType_plain (w : PlainType) (l : Lexeme) :
    FitsType w.form (.plain l.offset w)
      (.node w.label (some l.offset) [.token ⟨.plain w, l⟩]) := by
  refine ⟨⟨rfl, ?_⟩, rfl⟩
  cases w with
  | tensor kind => cases kind <;> rfl
  | scalar kind => cases kind <;> rfl
  | _ => rfl

theorem fits_literal (form : LiteralForm) (l : Lexeme) (offset? : Option Nat) :
    Fits Tree.buildLiteral (LiteralExpr.denote ⟨form, l.text⟩)
      (.node .literal offset? [.token ⟨.literal form, l⟩]) := by
  refine ⟨rfl, ?_⟩
  cases form with
  | integer =>
    change lift (readInteger l.text) >>= _ = lift (readInteger l.text >>= _)
    rw [lift_bind]
    rfl
  | bool b => cases b <;> rfl
  | constant kind => cases kind <;> rfl
  | _ => rfl

/-- A parameter without a default is built like it is denoted. -/
theorem fits_paramPlain {e : TypeExpr} {t : Tree} (ht : FitsType .type e t) (name : Lexeme)
    (offset? : Option Nat) :
    Fits Tree.buildParam (ParamExpr.denote (.parameter e name.text none))
      (.node .parameter offset? (Tree.kept [t, .token ⟨.name, name⟩])) := by
  refine ⟨rfl, ?_⟩
  have hk : Tree.kept [t, .token ⟨.name, name⟩] = [t, .token ⟨.name, name⟩] := by
    simp [Tree.kept_cons ht.1.isPunctuation]
  rw [hk]
  obtain ⟨⟨hn, hb⟩, -⟩ := ht
  obtain ⟨label, offset?, children, rfl⟩ := Tree.exists_of_isNode hn
  change (do
    let valueType ← Tree.buildType _
    return ParamItem.parameter ⟨valueType, String.ofList name.text, none⟩) = _
  rw [show Tree.buildType _ = _ from hb, ParamExpr.denote]
  simp only [lift_bind]
  rfl

/-- A parameter with a default is built like it is denoted. -/
theorem fits_paramDefault {e : TypeExpr} {d : LiteralExpr} {t u : Tree} (ht : FitsType .type e t)
    (hu : Fits Tree.buildLiteral d.denote u) (name m : Lexeme) (offset? : Option Nat) :
    Fits Tree.buildParam (ParamExpr.denote (.parameter e name.text (some d))) (.node .parameter
      offset? (Tree.kept [t, .token ⟨.name, name⟩, .token ⟨.equal, m⟩, u])) := by
  refine ⟨rfl, ?_⟩
  have hk : Tree.kept [t, .token ⟨.name, name⟩, .token ⟨.equal, m⟩, u] =
      [t, .token ⟨.name, name⟩, u] := by
    simp [Tree.kept_cons ht.1.isPunctuation, Tree.kept_cons hu.isPunctuation]
  rw [hk]
  obtain ⟨⟨hn, hb⟩, -⟩ := ht
  obtain ⟨hm, hd⟩ := hu
  obtain ⟨label, offset?, children, rfl⟩ := Tree.exists_of_isNode hn
  obtain ⟨label', offset?', children', rfl⟩ := Tree.exists_of_isNode hm
  change (do
    let default? ← (do
      let literal ← Tree.buildLiteral _
      return some literal)
    let valueType ← Tree.buildType _
    return ParamItem.parameter ⟨valueType, String.ofList name.text, default?⟩) = _
  rw [show Tree.buildType _ = _ from hb, hd, ParamExpr.denote, LiteralExpr.denoteOptional]
  simp only [lift_bind]
  rfl

/-- A declaration is built like it is denoted. -/
theorem fits_function {l : Lexeme} {es : List ParamExpr} {e : TypeExpr} {t u v : Tree}
    (ht : Fits Tree.buildIdentifier (.ok (String.ofList l.text)) t)
    (hu : Fits Tree.buildParams (ParamExpr.denoteAll es) u) (hv : FitsType .returns e v)
    (o c a : Lexeme) (offset? : Option Nat) :
    Fits Tree.buildFunction (SignatureExpr.denote ⟨l.text, es, e⟩) (.node .function offset?
      (Tree.kept [t, .token ⟨.openParen, o⟩, u, .token ⟨.closeParen, c⟩, .token ⟨.arrow, a⟩, v]))
    := by
  refine ⟨rfl, ?_⟩
  have hsub : Tree.subtrees (Tree.kept [t, .token ⟨.openParen, o⟩, u, .token ⟨.closeParen, c⟩,
      .token ⟨.arrow, a⟩, v]) = [t, u, v] := by
    simp [Tree.subtrees, Tree.kept_cons ht.isPunctuation, Tree.kept_cons hu.isPunctuation,
      Tree.kept_cons hv.1.isPunctuation, ht.1, hu.1, hv.1.1]
  obtain ⟨-, hn⟩ := ht
  obtain ⟨-, hps⟩ := hu
  obtain ⟨⟨-, hr⟩, -⟩ := hv
  rw [Tree.buildFunction, Tree.children, hsub]
  dsimp only
  rw [hn, hps, show Tree.buildReturns v = _ from hr, SignatureExpr.denote]
  simp only [lift_bind]
  rfl

/-! ## Rules -/

theorem FitsAll.item {list : ListKind} {ss : List Symbol} {vs : Values (list.item :: ss)}
    {ts : List Tree} (h : FitsAll (list.item :: ss) vs ts) : ∃ t us, ts = t :: us ∧
      FitsItem list (Production.itemValue list vs.1) t ∧ FitsAll ss vs.2 us := by
  rcases list with _ | ⟨_ | _⟩ | _
  · obtain ⟨_, us, rfl, ⟨t, rfl, ht⟩, h⟩ := h
    exact ⟨t, us, rfl, ht, h⟩
  · obtain ⟨_, us, rfl, ⟨t, rfl, ht⟩, h⟩ := h
    exact ⟨t, us, rfl, ht, h⟩
  · obtain ⟨_, us, rfl, ⟨t, rfl, ht⟩, h⟩ := h
    exact ⟨t, us, rfl, ht, h⟩
  · obtain ⟨us, rfl, h⟩ := h
    exact ⟨_, us, rfl, rfl, h⟩

/-- A single result is built like its type. -/
theorem fitsType_returnSingle {e : TypeExpr} {t : Tree} (ht : FitsType .baseType e t)
    (ts : List Tree) : FitsType .returnSingle e
      (.node .returnSingle ((t :: ts).findSome? Tree.offset?) (Tree.kept (t :: ts))) := by
  rw [Tree.kept_cons ht.1.isPunctuation, List.findSome?_cons, ht.2]
  obtain ⟨⟨hn, hb⟩, ho⟩ := ht
  refine ⟨⟨rfl, ?_⟩, rfl⟩
  change Tree.buildReturns _ = _
  rw [Tree.buildReturns, Tree.buildFirst, if_pos hn, show Tree.buildType t = _ from hb]
  cases e.denote <;> rfl

/-- **Each rule makes trees that fit of trees that fit.** -/
theorem fitsValue_grow (p : Production) (vs : Values p.rhs) (ts : List Tree)
    (h : FitsAll p.rhs vs ts) : FitsValue p.lhs (p.act vs) (p.grow ts) := by
  cases p with
  | function =>
    obtain ⟨_, _, rfl, ⟨t, rfl, ht⟩, o, rfl, _, _, rfl, ⟨u, rfl, hu⟩, _, rfl, _, rfl, _, _, rfl,
      ⟨v, rfl, hv⟩, rfl⟩ := h
    exact ⟨_, rfl, fits_function ht hu hv _ _ _ _⟩
  | identifier =>
    obtain ⟨_, rfl, rfl⟩ := h
    exact ⟨_, rfl, rfl, rfl⟩
  | paramsNone =>
    obtain rfl := h
    exact ⟨_, rfl, fits_params _ .nil⟩
  | paramsOne =>
    obtain ⟨_, _, rfl, ⟨t, rfl, ht⟩, rfl⟩ := h
    exact ⟨_, rfl, fits_params _ (.cons ht .nil)⟩
  | paramsMany =>
    obtain ⟨_, _, rfl, ⟨t, rfl, ht⟩, us, _, rfl, hr, rfl⟩ := h
    rw [List.append_nil]
    exact ⟨_, rfl, fits_params _ (.cons ht hr)⟩
  | paramStar =>
    obtain ⟨_, rfl, rfl⟩ := h
    exact ⟨_, rfl, rfl, rfl⟩
  | paramPlain =>
    obtain ⟨_, _, rfl, ⟨t, rfl, ht⟩, _, rfl, rfl⟩ := h
    exact ⟨_, rfl, fits_paramPlain ht _ _⟩
  | paramDefault =>
    obtain ⟨_, _, rfl, ⟨t, rfl, ht⟩, _, rfl, _, rfl, _, _, rfl, ⟨u, rfl, hu⟩, rfl⟩ := h
    exact ⟨_, rfl, fits_paramDefault ht hu _ _ _⟩
  | restFirst list =>
    obtain ⟨_, rfl, h⟩ := h
    obtain ⟨t, us, rfl, ht, rfl⟩ := FitsAll.item h
    exact fits_restNext .nil ht _
  | restNext list =>
    obtain ⟨us, _, rfl, hr, _, rfl, h⟩ := h
    obtain ⟨t, us, rfl, ht, rfl⟩ := FitsAll.item h
    exact fits_restNext hr ht _
  | typeBase =>
    obtain ⟨_, _, rfl, ⟨t, rfl, ht⟩, rfl⟩ := h
    exact ⟨t, Tree.kept_cons ht.1.isPunctuation [], ht⟩
  | typeTuple =>
    obtain ⟨_, _, rfl, ⟨t, rfl, ht⟩, rfl⟩ := h
    exact ⟨t, Tree.kept_cons ht.1.isPunctuation [], ht⟩
  | plain w =>
    obtain ⟨_, rfl, rfl⟩ := h
    exact ⟨_, rfl, fitsType_plain w _⟩
  | base f =>
    obtain ⟨_, _, rfl, ⟨t, rfl, ht⟩, rfl⟩ := h
    refine ⟨t, Tree.kept_cons ht.1.isPunctuation [], ?_⟩
    cases f <;> exact ht
  | intListOne =>
    obtain ⟨_, rfl, _, rfl, _, rfl, _, rfl, rfl⟩ := h
    exact ⟨_, rfl, fitsType_intList .nil _ _ _ _⟩
  | intListMany =>
    obtain ⟨_, rfl, _, rfl, _, rfl, us, _, rfl, hr, _, rfl, rfl⟩ := h
    exact ⟨_, rfl, fitsType_intList hr _ _ _ _⟩
  | array =>
    obtain ⟨_, rfl, _, rfl, _, _, rfl, ⟨t, rfl, ht⟩, _, rfl, _, rfl, _, rfl, rfl⟩ := h
    exact ⟨_, rfl, fitsType_array ht _ _ _ _ _⟩
  | tupleEmpty kind =>
    obtain ⟨_, rfl, _, rfl, rfl⟩ := h
    exact ⟨_, rfl, fitsType_tuple .nil _ _⟩
  | tupleOne kind =>
    obtain ⟨_, rfl, _, _, rfl, ⟨t, rfl, ht⟩, _, rfl, rfl⟩ := h
    exact ⟨_, rfl, fitsType_tuple (.cons ht .nil) _ _⟩
  | tupleMany kind =>
    obtain ⟨_, rfl, _, _, rfl, ⟨t, rfl, ht⟩, us, _, rfl, hr, _, rfl, rfl⟩ := h
    exact ⟨_, rfl, fitsType_tuple (.cons ht hr) _ _⟩
  | returnsTuple =>
    obtain ⟨_, _, rfl, ⟨t, rfl, ht⟩, rfl⟩ := h
    exact ⟨t, Tree.kept_cons ht.1.isPunctuation [], ht⟩
  | returnsSingle =>
    obtain ⟨_, _, rfl, ⟨t, rfl, ht⟩, rfl⟩ := h
    exact ⟨t, Tree.kept_cons ht.1.isPunctuation [], ht⟩
  | returnUnnamed =>
    obtain ⟨_, _, rfl, ⟨t, rfl, ht⟩, rfl⟩ := h
    exact ⟨_, rfl, fitsType_returnSingle ht _⟩
  | returnNamed =>
    obtain ⟨_, _, rfl, ⟨t, rfl, ht⟩, _, rfl, rfl⟩ := h
    exact ⟨_, rfl, fitsType_returnSingle ht _⟩
  | literal form =>
    obtain ⟨_, rfl, rfl⟩ := h
    exact ⟨_, rfl, fits_literal form _ _⟩

/-! ## Trees of texts -/

/-- What has trees is derived, with values that the trees fit. -/
theorem Grows.exists_fitsAll {ss : List Symbol} {ks : List Token} {ts : List Tree}
    (h : Grows ss ks ts) : ∃ vs, Derives ss ks vs ∧ FitsAll ss vs ts := by
  induction h with
  | nil => exact ⟨(), .nil, rfl⟩
  | terminal k _ ih =>
    obtain ⟨vs, hd, hf⟩ := ih
    exact ⟨_, .terminal k hd, _, rfl, hf⟩
  | rule p _ _ ihp ih =>
    obtain ⟨vs, hd, hf⟩ := ihp
    obtain ⟨us, hd', hf'⟩ := ih
    exact ⟨_, .rule p hd hd', _, _, rfl, fitsValue_grow p vs _ hf, hf'⟩

theorem StartRule.exists_of_fitsValue {r : StartRule} {e : r.Expr} {ts : List Tree}
    (h : FitsValue r.nonterminal e ts) : ∃ t, ts = [t] ∧ r.build t = lift (r.denote e) := by
  cases r with
  | type =>
    obtain ⟨t, rfl, ⟨-, hb⟩, -⟩ := h
    exact ⟨t, rfl, hb⟩
  | returns =>
    obtain ⟨t, rfl, ⟨-, hb⟩, -⟩ := h
    exact ⟨t, rfl, hb⟩
  | _ =>
    obtain ⟨t, rfl, -, hb⟩ := h
    exact ⟨t, rfl, hb⟩

/-- **What is built of a tree** is what an expression denotes that the same tokens are derived
with. -/
theorem Grows.exists_build {r : StartRule} {ks : List Token} {ts : List Tree}
    (h : Grows [.nonterminal r.nonterminal] ks ts) : ∃ e t,
      Derives [.nonterminal r.nonterminal] ks (e, ()) ∧ ts = [t] ∧
        r.build t = lift (r.denote e) := by
  obtain ⟨⟨e, ⟨⟩⟩, hd, us, _, rfl, hf, rfl⟩ := h.exists_fitsAll
  obtain ⟨t, rfl, hb⟩ := StartRule.exists_of_fitsValue hf
  exact ⟨e, t, hd, rfl, hb⟩

end TensorSig
