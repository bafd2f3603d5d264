import TensorSig.Proofs.RoundTrip
import TensorSig.Proofs.TreeBuilder

/-!
# Regular descriptors

The descriptors that texts yield are fewer than those that can be built. No text is for a pointer,
only an integer list has dimensions, numbers that count something are not negative, names are
spelled like names, and no default is a NaN. Such descriptors break no rule on descriptors, so that
building one anew from its parts gives it back, and each is equal to itself.

* `ValueType.Regular`, `ParamItem.Regular`, `Signature.Regular`, `Component.Regular`: the
  descriptors, with what holds of their parts at every depth.
* `Component.rebuild`: a component built anew; `Component.rebuild_eq` says that nothing but a broken
  rule keeps it from being what it was.
* `Component.Regular.rebuild_eq`, `Component.Regular.equals_self`: regular components.
* `regular_of_parse`: what a text yields is regular.
-/

namespace TensorSig

/-- A name in full. -/
def IsName (n : String) : Prop := n ≠ "" ∧ n.toList ∈ names

/-- A type that a text can be for, with all types in it. -/
inductive ValueType.Regular : ValueType → Prop
  | device : Regular .device
  | generator : Regular .generator
  | storage : Regular .storage
  | string : Regular .string
  | scalar (kind : ScalarKind) : Regular (.scalar kind)
  | tensor (kind : TensorKind) : Regular (.tensor kind none)
  | dims {dims : List Int} : dims ≠ [] → (∀ d ∈ dims, 0 ≤ d) →
      Regular (.tensor .intList (some dims))
  | array (kind : ScalarKind) {length : Int} : 0 ≤ length → Regular (.array kind length)
  | tuple {ts : List ValueType} : (∀ t ∈ ts, Regular t) → Regular (.tuple ts)

/-- A literal that a text can be for. -/
def Literal.Regular (d : Literal) : Prop := d ≠ .double .nan

/-- An entry of a parameter list that a text can be for. -/
inductive ParamItem.Regular : ParamItem → Prop
  | variadic : Regular .variadic
  | parameter {p : Parameter} : p.type.Regular → IsName p.name →
      (∀ d ∈ p.default?, d.Regular) → Regular (.parameter p)

/-- A declaration that a text can be for. -/
structure Signature.Regular (s : Signature) : Prop where
  name : IsName s.name
  parameters : ∀ p ∈ s.parameters, p.Regular
  returnType : s.returnType.Regular

/-- A component that a text can be for. -/
def Component.Regular : Component → Prop
  | name n => IsName n
  | type t => t.Regular
  | literal d => d.Regular
  | param p => p.Regular
  | params ps => ∀ p ∈ ps, p.Regular
  | function s => s.Regular

/-! ## Building anew -/

namespace ValueType

mutual

/-- A type built anew, the types in it first. -/
def rebuild : ValueType → Except BuildFault ValueType
  | pointer t => do
    let t ← t.rebuild
    make (.pointer t)
  | tuple ts => do
    let ts ← rebuildAll ts
    make (.tuple ts)
  | t => make t

/-- Several types built anew, in order. -/
def rebuildAll : List ValueType → Except BuildFault (List ValueType)
  | [] => return []
  | t :: ts => do
    let t ← t.rebuild
    let ts ← rebuildAll ts
    return t :: ts

end

mutual

/-- Building anew is checking. -/
theorem rebuild_eq (t : ValueType) : t.rebuild = make t := by
  cases t with
  | pointer t =>
    rw [rebuild, rebuild_eq t, make, make, check]
    cases h : t.check with
    | error fault => rfl
    | ok u =>
      change make (.pointer t) = _
      rw [make, check, h]
  | tuple ts =>
    rw [rebuild, rebuildAll_eq ts, make, check]
    cases h : checkAll ts with
    | error fault => rfl
    | ok u =>
      change make (.tuple ts) = _
      rw [make, check, h]
  | _ => rw [rebuild] <;> simp

theorem rebuildAll_eq (ts : List ValueType) : rebuildAll ts = checked (checkAll ts) ts := by
  cases ts with
  | nil =>
    rw [rebuildAll, checkAll]
    rfl
  | cons t ts =>
    rw [rebuildAll, rebuild_eq t, rebuildAll_eq ts, checkAll, make]
    cases t.check with
    | error fault => rfl
    | ok u => cases checkAll ts <;> rfl

end

end ValueType

/-- An entry of a parameter list built anew. -/
def ParamItem.rebuild : ParamItem → Except BuildFault ParamItem
  | parameter p => do
    let type ← p.type.rebuild
    return .parameter { p with type := type }
  | variadic => return .variadic

/-- A declaration built anew. -/
def Signature.rebuild (s : Signature) : Except BuildFault Signature := do
  let parameters ← s.parameters.mapM ParamItem.rebuild
  let returnType ← s.returnType.rebuild
  return ⟨s.name, parameters, returnType⟩

/-- A component built anew. -/
def Component.rebuild : Component → Except BuildFault Component
  | name n => return .name n
  | type t => do
    let t ← t.rebuild
    return .type t
  | literal d => return .literal d
  | param p => do
    let p ← p.rebuild
    return .param p
  | params ps => do
    let ps ← ps.mapM ParamItem.rebuild
    return .params ps
  | function s => do
    let s ← s.rebuild
    return .function s

theorem ParamItem.rebuild_eq (p : ParamItem) : p.rebuild = checked p.check p := by
  cases p with
  | variadic => rfl
  | parameter p =>
    rw [rebuild, ValueType.rebuild_eq, check, Parameter.check, make]
    cases p.type.check <;> rfl

theorem mapM_rebuild_eq (ps : List ParamItem) :
    ps.mapM ParamItem.rebuild = checked (ps.forM ParamItem.check) ps := by
  induction ps with
  | nil => rfl
  | cons p ps ih =>
    rw [List.mapM_cons, ih, ParamItem.rebuild_eq]
    change _ = checked (p.check >>= fun _ => ps.forM ParamItem.check) _
    cases p.check with
    | error fault => rfl
    | ok u =>
      change _ = checked (ps.forM ParamItem.check) _
      cases ps.forM ParamItem.check <;> rfl

theorem Signature.rebuild_eq (s : Signature) : s.rebuild = checked s.check s := by
  rw [rebuild, mapM_rebuild_eq, ValueType.rebuild_eq, check, make]
  cases s.parameters.forM ParamItem.check with
  | error fault => rfl
  | ok u =>
    change _ = checked s.returnType.check s
    cases s.returnType.check <;> rfl

/-- **A component that breaks no rule is built anew as it was.** -/
theorem Component.rebuild_eq (c : Component) : c.rebuild = checked c.check c := by
  cases c with
  | name n => rfl
  | type t =>
    rw [rebuild, ValueType.rebuild_eq, check, make]
    cases t.check <;> rfl
  | literal d => rfl
  | param p =>
    rw [rebuild, ParamItem.rebuild_eq, check]
    cases p.check <;> rfl
  | params ps =>
    rw [rebuild, mapM_rebuild_eq, check]
    cases ps.forM ParamItem.check <;> rfl
  | function s =>
    rw [rebuild, Signature.rebuild_eq, check]
    cases s.check <;> rfl

/-! ## Regular descriptors break no rule -/

theorem ValueType.checkAll_eq_ok {ts : List ValueType} (h : ∀ t ∈ ts, t.check = .ok ()) :
    checkAll ts = .ok () := by
  induction ts with
  | nil => rw [checkAll]
  | cons t ts ih =>
    rw [checkAll, h t List.mem_cons_self]
    exact ih fun u hu => h u (List.mem_cons_of_mem _ hu)

namespace ValueType.Regular

theorem check_eq_ok {t : ValueType} (h : t.Regular) : t.check = .ok () := by
  induction h with
  | dims hn hp =>
    rw [check]
    exact checkDims_eq_ok hn hp
  | array kind hl => rw [check, if_neg (by omega)]
  | tuple _ ih =>
    rw [check]
    exact checkAll_eq_ok ih
  | tensor kind =>
    rw [check]
    rfl
  | _ => rw [check] <;> simp

end ValueType.Regular

theorem ParamItem.Regular.check_eq_ok {p : ParamItem} (h : p.Regular) : p.check = .ok () := by
  cases h with
  | variadic => rfl
  | parameter ht _ _ => exact ht.check_eq_ok

theorem forM_check_eq_ok {ps : List ParamItem} (h : ∀ p ∈ ps, p.Regular) :
    ps.forM ParamItem.check = .ok () := by
  induction ps with
  | nil => rfl
  | cons p ps ih =>
    change (p.check >>= fun _ => ps.forM ParamItem.check) = _
    rw [(h p List.mem_cons_self).check_eq_ok]
    exact ih fun q hq => h q (List.mem_cons_of_mem _ hq)

theorem Signature.Regular.check_eq_ok {s : Signature} (h : s.Regular) : s.check = .ok () := by
  rw [check, forM_check_eq_ok h.parameters]
  exact h.returnType.check_eq_ok

theorem Component.Regular.check_eq_ok {c : Component} (h : c.Regular) : c.check = .ok () := by
  cases c with
  | name n => rfl
  | type t => exact ValueType.Regular.check_eq_ok h
  | literal d => rfl
  | param p => exact ParamItem.Regular.check_eq_ok h
  | params ps => exact forM_check_eq_ok h
  | function s => exact Signature.Regular.check_eq_ok h

/-- **A regular component is built anew as it was.** -/
theorem Component.Regular.rebuild_eq {c : Component} (h : c.Regular) : c.rebuild = .ok c := by
  rw [Component.rebuild_eq, h.check_eq_ok]
  rfl

/-! ## Regular descriptors are equal to themselves -/

namespace ValueType

mutual

theorem equals_self (t : ValueType) : t.equals t = true := by
  cases t with
  | pointer t =>
    rw [equals]
    exact equals_self t
  | tuple ts =>
    rw [equals]
    exact equalsAll_self ts
  | _ => simp [equals]

theorem equalsAll_self (ts : List ValueType) : equalsAll ts ts = true := by
  cases ts with
  | nil => rw [equalsAll]
  | cons t ts => rw [equalsAll, equals_self t, equalsAll_self ts, Bool.and_self]

end

end ValueType

theorem Double.equals_self {x : Double} (h : x ≠ .nan) : x.equals x = true := by
  cases x with
  | nan => exact absurd rfl h
  | _ => simp [equals]

theorem Literal.Regular.equals_self {d : Literal} (h : d.Regular) : d.equals d = true := by
  cases d with
  | double x => exact Double.equals_self fun hx => h (hx ▸ rfl)
  | _ => simp [equals]

theorem ParamItem.Regular.equals_self {p : ParamItem} (h : p.Regular) : p.equals p = true := by
  cases h with
  | variadic => rfl
  | @parameter p ht hn hd =>
    obtain ⟨type, name, default?⟩ := p
    have hdefault : Parameter.equalsDefault default? default? = true := by
      cases default? with
      | none => rfl
      | some d => exact (hd d rfl).equals_self
    simp [equals, Parameter.equals, ValueType.equals_self, hdefault]

theorem equalsAll_self {ps : List ParamItem} (h : ∀ p ∈ ps, p.Regular) :
    ParamItem.equalsAll ps ps = true := by
  induction ps with
  | nil => rfl
  | cons p ps ih =>
    rw [ParamItem.equalsAll, (h p List.mem_cons_self).equals_self,
      ih fun q hq => h q (List.mem_cons_of_mem _ hq), Bool.and_self]

/-- **A regular component is equal to itself**, since no NaN is in it. -/
theorem Component.Regular.equals_self {c : Component} (h : c.Regular) : c.equals c = true := by
  cases c with
  | name n => exact beq_self_eq_true n
  | type t => exact ValueType.equals_self t
  | literal d => exact Literal.Regular.equals_self h
  | param p => exact ParamItem.Regular.equals_self h
  | params ps => exact TensorSig.equalsAll_self h
  | function s =>
    have hs : s.Regular := h
    simp [equals, Signature.equals, TensorSig.equalsAll_self hs.parameters, ValueType.equals_self]

/-! ## What is written is regular -/

theorem Each.forall_mem {α : Type} {M : α → List Token → Prop} {P : α → Prop} {xs : List α}
    {ks : List Token} (h : Each M xs ks) (hM : ∀ x ls, M x ls → (∀ k ∈ ls, k ∈ ks) → P x) :
    ∀ x ∈ xs, P x := by
  induction h with
  | nil => simp
  | @cons x xs ks ls comma hx _ ih =>
    intro y hy
    rcases List.mem_cons.1 hy with rfl | hy
    · exact hM _ _ hx fun k hk => List.mem_cons_of_mem _ (List.mem_append_left _ hk)
    · refine ih (fun z ms hz hms => hM z ms hz fun k hk => ?_) y hy
      exact List.mem_cons_of_mem _ (List.mem_append_right _ (hms k hk))

theorem WritesDim.nonneg {n : Int} {ks : List Token} (h : WritesDim n ks) : 0 ≤ n := by
  cases h
  exact Int.natCast_nonneg _

theorem PlainType.regular_descriptor (w : PlainType) : w.descriptor.Regular := by
  cases w with
  | tensor kind => exact .tensor kind
  | scalar kind => exact .scalar kind
  | string => exact .string
  | device => exact .device
  | generator => exact .generator
  | storage => exact .storage

theorem WritesBase.regular {v : ValueType} {ks : List Token} (h : WritesBase v ks) :
    v.Regular := by
  cases h with
  | word w l => exact w.regular_descriptor
  | @dims n ns ks ls l o c hn hns =>
    refine .dims (List.cons_ne_nil n ns) fun d hd => ?_
    rcases List.mem_cons.1 hd with rfl | hd
    · exact hn.nonneg
    · exact hns.forall_mem (fun x ms hx _ => hx.nonneg) d hd
  | array kind l o w m c hn => exact .array kind hn.nonneg

theorem WritesType.regular {kind : TupleKind} {v : ValueType} {ks : List Token}
    (h : WritesType kind v ks) : v.Regular := by
  refine WritesType.induct (P := fun v _ => v.Regular) ?base ?named ?empty ?tuple h
  case base => exact fun h => h.regular
  case named => exact fun _ _ h => h.regular
  case empty => exact fun _ _ => .tuple (by simp)
  case tuple =>
    intro v vs ks ls o c hv hvs
    refine .tuple fun t ht => ?_
    rcases List.mem_cons.1 ht with rfl | ht
    · exact hv
    · exact hvs.forall_mem (fun x ms hx _ => hx) t ht

theorem Double.ofRank_ne_nan (negative : Bool) (rank : Nat) : ofRank negative rank ≠ .nan := by
  unfold ofRank
  split <;> simp

theorem Decimal.toDouble_ne_nan (d : Decimal) : d.toDouble ≠ .nan := by
  unfold toDouble
  split
  · exact Double.ofRank_ne_nan _ _
  · split <;> split
    all_goals first | exact Double.ofRank_ne_nan _ _ | simp

theorem WritesLiteral.regular {d : Literal} {ks : List Token} (h : WritesLiteral d ks) :
    d.Regular := by
  cases h with
  | float l => exact fun h => Decimal.toDouble_ne_nan _ (Literal.double.inj h)
  | _ => simp [Literal.Regular]

/-- The word of a token for names is a name. -/
theorem isName_of_mem_words {l : Lexeme} (h : l.text ∈ Terminal.words .name) :
    IsName (String.ofList l.text) := by
  refine ⟨fun hn => Terminal.ne_nil_of_mem_words h (String.ofList_eq_empty_iff.1 hn), ?_⟩
  rw [String.toList_ofList]
  exact h

section

variable {ks : List Token} (hw : ∀ k ∈ ks, k.lexeme.text ∈ k.terminal.words)
include hw

theorem WritesParam.regular {p : ParamItem} (h : WritesParam p ks) : p.Regular := by
  cases h with
  | variadic l => exact .variadic
  | plain name ht =>
    exact .parameter ht.regular (isName_of_mem_words (hw ⟨.name, name⟩ (by simp))) (by simp)
  | default name equal ht hd =>
    refine .parameter ht.regular (isName_of_mem_words (hw ⟨.name, name⟩ (by simp))) fun d h => ?_
    obtain rfl := Option.some.inj h
    exact hd.regular

theorem WritesParams.regular {ps : List ParamItem} (h : WritesParams ps ks) :
    ∀ p ∈ ps, p.Regular := by
  cases h with
  | nil => simp
  | cons hp hps =>
    intro q hq
    rcases List.mem_cons.1 hq with rfl | hq
    · exact hp.regular fun k hk => hw k (List.mem_append_left _ hk)
    · exact hps.forall_mem
        (fun x ms hx hms => hx.regular fun k hk => hw k (List.mem_append_right _ (hms k hk))) q hq

theorem WritesFunction.regular {s : Signature} (h : WritesFunction s ks) : s.Regular := by
  cases h with
  | mk name o c a hps hv =>
    exact ⟨isName_of_mem_words (hw ⟨.name, name⟩ (by simp)),
      hps.regular fun k hk => hw k (by simp [hk]), hv.regular⟩

theorem StartRule.Writes.regular {r : StartRule} {v : r.Result} (h : r.Writes v ks) :
    (r.component v).Regular := by
  cases r with
  | function => exact WritesFunction.regular hw h
  | identifier =>
    obtain ⟨l, rfl, rfl⟩ := h
    exact isName_of_mem_words (hw ⟨.name, l⟩ (by simp))
  | type => exact WritesType.regular h
  | literal => exact WritesLiteral.regular h
  | param => exact WritesParam.regular hw h
  | params => exact WritesParams.regular hw h
  | returns => exact WritesType.regular h

end

/-- **What a text yields is regular.** -/
theorem regular_of_parse {r : StartRule} {text : List Char} {v : r.Result}
    (h : parse r text = .ok v) : (r.component v).Regular := by
  obtain ⟨ks, hs, -, hw⟩ := parse_eq_ok_iff.1 h
  exact hw.regular fun k hk => hs.mem_words hk

end TensorSig
