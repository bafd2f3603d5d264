import TensorSig.Proofs.Notation

/-!
# Derivations and the notation

The tokens that are derived from the start symbol of a start rule with an expression are those that
the value denoted by the expression is written with. Both directions go rule by rule: whatever is
closed under the rules holds of all that is derived, and each form of notation is derived.

* `bind_eq_ok_iff`, `denoteAll_eq_ok_iff` and their companions: when an expression denotes a value.
* `Holds`, `Derives.fold_and`, `Derives.fold`: induction on derivations, one rule at a time;
  `Derives.holds`: the tokens of each symbol.
* `Derives.writes`: what is derived is a notation of the value denoted.
* `StartRule.Writes.exists_derives`: every notation is derived with an expression that denotes the
  value.
-/

namespace TensorSig

/-! ## Values that are denoted -/

theorem bind_eq_ok_iff {ε α β : Type} {x : Except ε α} {f : α → Except ε β} {b : β} :
    x >>= f = .ok b ↔ ∃ a, x = .ok a ∧ f a = .ok b := by
  cases x with
  | error e =>
    constructor
    · intro h
      cases h
    · rintro ⟨a, h, -⟩
      cases h
  | ok a =>
    constructor
    · exact fun h => ⟨a, rfl, h⟩
    · rintro ⟨a', h, h'⟩
      rwa [Except.ok.inj h]

/-- What takes the items of a list one after the other succeeds where it does for each item. -/
theorem eq_ok_iff_forall₂ {ε α β : Type} {f : α → Except ε β} {F : List α → Except ε (List β)}
    (hn : F [] = .ok []) (hc : ∀ a as, F (a :: as) = f a >>= fun b => F as >>= fun bs =>
      .ok (b :: bs)) {as : List α} {bs : List β} :
    F as = .ok bs ↔ List.Forall₂ (fun a b => f a = .ok b) as bs := by
  induction as generalizing bs with
  | nil =>
    rw [List.forall₂_nil_left_iff, hn, Except.ok.injEq]
    exact eq_comm
  | cons a as ih =>
    rw [hc, List.forall₂_cons_left_iff, bind_eq_ok_iff]
    constructor
    · rintro ⟨b, hb, h⟩
      obtain ⟨bs', hbs, h⟩ := bind_eq_ok_iff.1 h
      exact ⟨b, bs', hb, ih.1 hbs, (Except.ok.inj h).symm⟩
    · rintro ⟨b, bs', hb, hbs, rfl⟩
      exact ⟨b, hb, bind_eq_ok_iff.2 ⟨bs', ih.2 hbs, rfl⟩⟩

theorem readNatural_eq_ok_iff {digits : List Char} {n : Nat} :
    readNatural digits = .ok n ↔ digits.length ≤ digitLimit ∧ Numeral.value digits = n := by
  unfold readNatural
  split
  · simp only [reduceCtorEq, false_iff, not_and]
    omega
  · simp only [Except.ok.injEq]
    exact ⟨fun h => ⟨by omega, h⟩, fun h => h.2⟩

theorem readInteger_eq_ok_iff {numeral : List Char} {n : Int} :
    readInteger numeral = .ok n ↔
      (Numeral.unsigned numeral).length ≤ digitLimit ∧ Numeral.signedValue numeral = n := by
  unfold readInteger
  split
  · simp only [reduceCtorEq, false_iff, not_and]
    omega
  · simp only [Except.ok.injEq]
    exact ⟨fun h => ⟨by omega, h⟩, fun h => h.2⟩

/-- The number that a numeral of digits denotes. -/
def DenotesDim (numeral : List Char) (n : Int) : Prop :=
  numeral.length ≤ digitLimit ∧ (Numeral.value numeral : Int) = n

theorem readDims_eq_ok_iff {numerals : List (List Char)} {ns : List Int} :
    readDims numerals = .ok ns ↔ List.Forall₂ DenotesDim numerals ns := by
  have hf : DenotesDim = fun numeral n =>
      (readNatural numeral >>= fun m => .ok (m : Int)) = .ok n := by
    funext numeral n
    apply propext
    rw [bind_eq_ok_iff]
    constructor
    · rintro ⟨hl, rfl⟩
      exact ⟨_, readNatural_eq_ok_iff.2 ⟨hl, rfl⟩, rfl⟩
    · rintro ⟨m, hm, h⟩
      obtain ⟨hl, rfl⟩ := readNatural_eq_ok_iff.1 hm
      exact ⟨hl, Except.ok.inj h⟩
  rw [hf]
  refine eq_ok_iff_forall₂ (F := readDims) rfl fun numeral numerals => ?_
  rw [readDims]
  cases readNatural numeral <;> rfl

namespace TypeExpr

theorem denoteAll_eq_ok_iff {es : List TypeExpr} {vs : List ValueType} :
    denoteAll es = .ok vs ↔ List.Forall₂ (fun e v => denote e = .ok v) es vs :=
  eq_ok_iff_forall₂ (by rw [denoteAll]) fun e es => by rw [denoteAll]; rfl

theorem denote_intList_eq_ok_iff {offset : Nat} {first : List Char} {others : List (List Char)}
    {v : ValueType} : denote (.intList offset first others) = .ok v ↔
      ∃ ns, List.Forall₂ DenotesDim (first :: others) ns ∧ v = .tensor .intList (some ns) := by
  rw [denote, bind_eq_ok_iff]
  constructor
  · rintro ⟨ns, hns, h⟩
    exact ⟨ns, readDims_eq_ok_iff.1 hns, (Except.ok.inj h).symm⟩
  · rintro ⟨ns, hns, rfl⟩
    exact ⟨ns, readDims_eq_ok_iff.2 hns, rfl⟩

theorem elementKind_eq_ok_iff {offset : Nat} {v : ValueType} {kind : ScalarKind} :
    elementKind offset v = .ok kind ↔ v = .scalar kind := by
  cases v <;> simp [elementKind]

theorem denote_array_eq_ok_iff {offset : Nat} {element : TypeExpr} {length : List Char}
    {v : ValueType} : denote (.array offset element length) = .ok v ↔
      ∃ kind n, denote element = .ok (.scalar kind) ∧ DenotesDim length n ∧ v = .array kind n := by
  rw [denote, bind_eq_ok_iff]
  constructor
  · rintro ⟨inner, hi, h⟩
    obtain ⟨kind, hk, h⟩ := bind_eq_ok_iff.1 h
    obtain ⟨n, hn, h⟩ := bind_eq_ok_iff.1 h
    obtain rfl := elementKind_eq_ok_iff.1 hk
    obtain ⟨hl, rfl⟩ := readNatural_eq_ok_iff.1 hn
    exact ⟨kind, _, hi, ⟨hl, rfl⟩, (Except.ok.inj h).symm⟩
  · rintro ⟨kind, n, hi, ⟨hl, rfl⟩, rfl⟩
    refine ⟨_, hi, bind_eq_ok_iff.2 ⟨kind, rfl, bind_eq_ok_iff.2 ⟨_, ?_, rfl⟩⟩⟩
    exact readNatural_eq_ok_iff.2 ⟨hl, rfl⟩

theorem denote_tuple_eq_ok_iff {offset : Nat} {es : List TypeExpr} {v : ValueType} :
    denote (.tuple offset es) = .ok v ↔
      ∃ vs, List.Forall₂ (fun e v => denote e = .ok v) es vs ∧ v = .tuple vs := by
  rw [denote, bind_eq_ok_iff]
  constructor
  · rintro ⟨vs, hvs, h⟩
    exact ⟨vs, denoteAll_eq_ok_iff.1 hvs, (Except.ok.inj h).symm⟩
  · rintro ⟨vs, hvs, rfl⟩
    exact ⟨vs, denoteAll_eq_ok_iff.2 hvs, rfl⟩

end TypeExpr

namespace ParamExpr

theorem denoteAll_eq_ok_iff {es : List ParamExpr} {ps : List ParamItem} :
    denoteAll es = .ok ps ↔ List.Forall₂ (fun e p => denote e = .ok p) es ps :=
  eq_ok_iff_forall₂ (by rw [denoteAll]) fun e es => by rw [denoteAll]; rfl

theorem denote_parameter_none_eq_ok_iff {type : TypeExpr} {name : List Char} {p : ParamItem} :
    denote (.parameter type name none) = .ok p ↔
      ∃ v, type.denote = .ok v ∧ p = .parameter ⟨v, String.ofList name, none⟩ := by
  rw [denote, bind_eq_ok_iff]
  constructor
  · rintro ⟨d, hd, h⟩
    obtain ⟨v, hv, h⟩ := bind_eq_ok_iff.1 h
    obtain rfl := Except.ok.inj hd
    exact ⟨v, hv, (Except.ok.inj h).symm⟩
  · rintro ⟨v, hv, rfl⟩
    exact ⟨none, rfl, bind_eq_ok_iff.2 ⟨v, hv, rfl⟩⟩

theorem denote_parameter_some_eq_ok_iff {type : TypeExpr} {name : List Char} {value : LiteralExpr}
    {p : ParamItem} : denote (.parameter type name (some value)) = .ok p ↔
      ∃ v d, type.denote = .ok v ∧ value.denote = .ok d ∧
        p = .parameter ⟨v, String.ofList name, some d⟩ := by
  rw [denote, LiteralExpr.denoteOptional, bind_eq_ok_iff]
  constructor
  · rintro ⟨d?, hd, h⟩
    obtain ⟨v, hv, h⟩ := bind_eq_ok_iff.1 h
    obtain ⟨d, hd', hs⟩ := bind_eq_ok_iff.1 hd
    obtain rfl := Except.ok.inj hs
    exact ⟨v, d, hv, hd', (Except.ok.inj h).symm⟩
  · rintro ⟨v, d, hv, hd, rfl⟩
    exact ⟨some d, bind_eq_ok_iff.2 ⟨d, hd, rfl⟩, bind_eq_ok_iff.2 ⟨v, hv, rfl⟩⟩

end ParamExpr

theorem SignatureExpr.denote_eq_ok_iff {e : SignatureExpr} {s : Signature} :
    e.denote = .ok s ↔ ∃ ps v, ParamExpr.denoteAll e.parameters = .ok ps ∧
      e.returnType.denote = .ok v ∧ s = ⟨String.ofList e.name, ps, v⟩ := by
  rw [denote, bind_eq_ok_iff]
  constructor
  · rintro ⟨ps, hps, h⟩
    obtain ⟨v, hv, h⟩ := bind_eq_ok_iff.1 h
    exact ⟨ps, v, hps, hv, (Except.ok.inj h).symm⟩
  · rintro ⟨ps, v, hps, hv, rfl⟩
    exact ⟨ps, hps, bind_eq_ok_iff.2 ⟨v, hv, rfl⟩⟩

/-! ## Induction on derivations -/

/-- Tokens in the order of the symbols, those of a nonterminal being such that `M` holds of them. -/
def Holds (M : (n : Nonterminal) → n.Value → List Token → Prop) :
    (symbols : List Symbol) → Values symbols → List Token → Prop
  | [], _, ks => ks = []
  | .terminal t :: ss, vs, ks => ∃ ls, ks = ⟨t, vs.1⟩ :: ls ∧ Holds M ss vs.2 ls
  | .nonterminal n :: ss, vs, ks => ∃ us ls, ks = us ++ ls ∧ M n vs.1 us ∧ Holds M ss vs.2 ls

theorem Holds.imp {M N : (n : Nonterminal) → n.Value → List Token → Prop}
    (h : ∀ n v ks, M n v ks → N n v ks) {ss : List Symbol} {vs : Values ss} {ks : List Token}
    (hm : Holds M ss vs ks) : Holds N ss vs ks := by
  induction ss generalizing ks with
  | nil => exact hm
  | cons s ss ih =>
    cases s with
    | terminal t =>
      obtain ⟨ls, rfl, hm⟩ := hm
      exact ⟨ls, rfl, ih hm⟩
    | nonterminal n =>
      obtain ⟨us, ls, rfl, hu, hm⟩ := hm
      exact ⟨us, ls, rfl, h n _ _ hu, ih hm⟩

/-- **Induction on derivations**: what every rule passes on from its right side to its left side
holds of all that is derived. The derivations from the symbols on the right side are at hand. -/
theorem Derives.fold_and {M : (n : Nonterminal) → n.Value → List Token → Prop}
    (h : ∀ (p : Production) (vs : Values p.rhs) (ks : List Token),
      Holds (fun n v ls => Derives [.nonterminal n] ls (v, ()) ∧ M n v ls) p.rhs vs ks →
        M p.lhs (p.act vs) ks)
    {ss : List Symbol} {ks : List Token} {vs : Values ss} (hd : Derives ss ks vs) :
    Holds (fun n v ls => Derives [.nonterminal n] ls (v, ()) ∧ M n v ls) ss vs ks := by
  induction hd with
  | nil => exact rfl
  | terminal k _ ih => exact ⟨_, rfl, ih⟩
  | rule p hp _ ihp ih => exact ⟨_, _, rfl, ⟨.single p hp, h p _ _ ihp⟩, ih⟩

/-- Induction on derivations where the derivations themselves do not matter. -/
theorem Derives.fold {M : (n : Nonterminal) → n.Value → List Token → Prop}
    (h : ∀ (p : Production) (vs : Values p.rhs) (ks : List Token), Holds M p.rhs vs ks →
      M p.lhs (p.act vs) ks)
    {ss : List Symbol} {ks : List Token} {vs : Values ss} (hd : Derives ss ks vs) :
    Holds M ss vs ks := by
  refine (hd.fold_and (M := M) fun p vs ks hp => ?_).imp fun _ _ _ => And.right
  exact h p vs ks (hp.imp fun _ _ _ => And.right)

/-- Where tokens are derived from several symbols, each symbol has its own. -/
theorem Derives.holds {ss : List Symbol} {ks : List Token} {vs : Values ss}
    (hd : Derives ss ks vs) :
    Holds (fun n v ls => Derives [.nonterminal n] ls (v, ())) ss vs ks :=
  (hd.fold_and (M := fun _ _ _ => True) fun _ _ _ _ => trivial).imp fun _ _ _ => And.left

/-! ## From derivations to the notation -/

/-- The notation of the types of a nonterminal. -/
def WritesForm : TypeForm → ValueType → List Token → Prop
  | .type => WritesType .types
  | .tupleType => WritesType .types
  | .returns => WritesType .returns
  | .returnSingle => WritesType .returns
  | .returnTuple => WritesType .returns
  | _ => WritesBase

theorem writesForm_element (kind : TupleKind) : WritesForm kind.element = WritesType kind := by
  cases kind <;> rfl

theorem writesForm_tuple (kind : TupleKind) : WritesForm kind.form = WritesType kind := by
  cases kind <;> rfl

theorem writesForm_plain (w : PlainType) : WritesForm w.form = WritesBase := by
  rcases w with ⟨_ | _ | _ | _ | _ | _ | _ | _ | _ | _ | _ | _⟩ | _ | _ | _ | _ | _ <;> rfl

theorem writesForm_base (f : BaseForm) : WritesForm f.form = WritesBase := by
  cases f <;> rfl

/-- The tokens of an item of a list are a notation of what it denotes. -/
def WritesItem : (list : ListKind) → list.Item → List Token → Prop
  | .params, e, ks => ∀ p, ParamExpr.denote e = .ok p → WritesParam p ks
  | .tuple kind, e, ks => ∀ v, TypeExpr.denote e = .ok v → WritesType kind v ks
  | .dims, l, ks => ks = [⟨.natural, l⟩]

/-- The tokens of a nonterminal are a notation of what its expression denotes. -/
def WritesValue : (n : Nonterminal) → n.Value → List Token → Prop
  | .function, e, ks => ∀ s, SignatureExpr.denote e = .ok s → WritesFunction s ks
  | .identifier, l, ks => ks = [⟨.name, l⟩]
  | .params, es, ks => ∀ ps, ParamExpr.denoteAll es = .ok ps → WritesParams ps ks
  | .param, e, ks => ∀ p, ParamExpr.denote e = .ok p → WritesParam p ks
  | .literal, e, ks => ∀ d, LiteralExpr.denote e = .ok d → WritesLiteral d ks
  | .typed f, e, ks => ∀ v, TypeExpr.denote e = .ok v → WritesForm f v ks
  | .rest list, es, ks => Each (WritesItem list) es ks

theorem WritesDim.of_denotesDim {l : Lexeme} {n : Int} (h : DenotesDim l.text n) :
    WritesDim n [⟨.natural, l⟩] := by
  obtain ⟨hl, rfl⟩ := h
  exact .mk l hl

/-- The array element that denotes a C scalar type is its word. -/
theorem WritesType.eq_of_scalar {kind : ScalarKind} {ks : List Token}
    (h : WritesType .types (.scalar kind) ks) : ∃ l, ks = [⟨.plain (.scalar kind), l⟩] := by
  generalize hv : ValueType.scalar kind = v at h
  cases h with
  | base h =>
    cases h with
    | word w l =>
      cases w with
      | scalar k =>
        obtain rfl := ValueType.scalar.inj hv
        exact ⟨l, rfl⟩
      | _ => cases hv
    | dims => cases hv
    | array => cases hv
  | named _ h => cases h
  | empty => cases hv
  | tuple => cases hv

theorem Holds.item {list : ListKind} {ss : List Symbol} {vs : Values (list.item :: ss)}
    {ks : List Token} (h : Holds WritesValue (list.item :: ss) vs ks) :
    ∃ us ls, ks = us ++ ls ∧ WritesItem list (Production.itemValue list vs.1) us ∧
      Holds WritesValue ss vs.2 ls := by
  rcases list with _ | ⟨_ | _⟩ | _
  · exact h
  · exact h
  · exact h
  · obtain ⟨ls, rfl, h⟩ := h
    exact ⟨_, ls, rfl, rfl, h⟩

/-- Dimensions in order, as the numerals of an integer list. -/
theorem Each.writesDim {ls : List Lexeme} {ks : List Token} (h : Each (WritesItem .dims) ls ks)
    {ns : List Int} (hn : List.Forall₂ DenotesDim (ls.map Lexeme.text) ns) :
    Each WritesDim ns ks := by
  rw [List.forall₂_map_left_iff] at hn
  refine h.map₂ (R := fun l n => DenotesDim (Lexeme.text l) n) ?_ hn
  rintro l n ks rfl hd
  exact .of_denotesDim hd

/-- **Each rule makes notations of notations.** -/
theorem writesValue_act (p : Production) (vs : Values p.rhs) (ks : List Token)
    (h : Holds WritesValue p.rhs vs ks) : WritesValue p.lhs (p.act vs) ks := by
  cases p with
  | function =>
    obtain ⟨us, _, rfl, hn, _, rfl, ps, _, rfl, hps, _, rfl, _, rfl, ls, _, rfl, hv, rfl⟩ := h
    obtain rfl : us = _ := hn
    intro s hs
    obtain ⟨qs, v, hqs, hv', rfl⟩ := SignatureExpr.denote_eq_ok_iff.1 hs
    rw [List.append_nil]
    exact .mk _ _ _ _ (hps _ hqs) (hv _ hv')
  | identifier =>
    obtain ⟨_, rfl, rfl⟩ := h
    exact rfl
  | paramsNone =>
    obtain rfl := h
    intro ps hps
    obtain rfl := Except.ok.inj hps
    exact .nil
  | paramsOne =>
    obtain ⟨us, _, rfl, hp, rfl⟩ := h
    intro ps hps
    cases ParamExpr.denoteAll_eq_ok_iff.1 hps with
    | cons hp' hn =>
      cases hn
      exact .cons (hp _ hp') .nil
  | paramsMany =>
    obtain ⟨us, _, rfl, hp, ls, _, rfl, hr, rfl⟩ := h
    intro ps hps
    cases ParamExpr.denoteAll_eq_ok_iff.1 hps with
    | cons hp' hps' =>
      rw [List.append_nil]
      exact .cons (hp _ hp') (Each.map₂ (fun e p ks h hp => h p hp) hr hps')
  | paramStar =>
    obtain ⟨_, rfl, rfl⟩ := h
    intro p hp
    obtain rfl := Except.ok.inj hp
    exact .variadic _
  | paramPlain =>
    obtain ⟨us, _, rfl, ht, _, rfl, rfl⟩ := h
    intro p hp
    obtain ⟨v, hv, rfl⟩ := ParamExpr.denote_parameter_none_eq_ok_iff.1 hp
    exact .plain _ (ht _ hv)
  | paramDefault =>
    obtain ⟨us, _, rfl, ht, _, rfl, _, rfl, ls, _, rfl, hl, rfl⟩ := h
    intro p hp
    obtain ⟨v, d, hv, hd, rfl⟩ := ParamExpr.denote_parameter_some_eq_ok_iff.1 hp
    rw [List.append_nil]
    exact .default _ _ (ht _ hv) (hl _ hd)
  | restFirst list =>
    obtain ⟨_, rfl, h⟩ := h
    obtain ⟨us, ls, rfl, hi, rfl⟩ := Holds.item h
    rw [List.append_nil]
    exact .single _ hi
  | restNext list =>
    obtain ⟨us, _, rfl, hr, _, rfl, h⟩ := h
    obtain ⟨us, ls, rfl, hi, rfl⟩ := Holds.item h
    rw [List.append_nil]
    exact Each.append hr (.single _ hi)
  | typeBase =>
    obtain ⟨us, _, rfl, hb, rfl⟩ := h
    rw [List.append_nil]
    exact fun v hv => .base (hb v hv)
  | typeTuple =>
    obtain ⟨us, _, rfl, ht, rfl⟩ := h
    rw [List.append_nil]
    exact ht
  | plain w =>
    obtain ⟨_, rfl, rfl⟩ := h
    intro v hv
    obtain rfl := Except.ok.inj hv
    rw [writesForm_plain]
    exact .word w _
  | base f =>
    obtain ⟨us, _, rfl, hb, rfl⟩ := h
    intro v hv
    have := hb v hv
    rw [writesForm_base] at this
    rw [List.append_nil]
    exact this
  | intListOne =>
    obtain ⟨_, rfl, _, rfl, _, rfl, _, rfl, rfl⟩ := h
    intro v hv
    obtain ⟨ns, hns, rfl⟩ := TypeExpr.denote_intList_eq_ok_iff.1 hv
    cases hns with
    | cons hn hns =>
      cases hns
      exact .dims _ _ _ (.of_denotesDim hn) .nil
  | intListMany =>
    obtain ⟨_, rfl, _, rfl, _, rfl, us, _, rfl, hr, _, rfl, rfl⟩ := h
    intro v hv
    obtain ⟨ns, hns, rfl⟩ := TypeExpr.denote_intList_eq_ok_iff.1 hv
    cases hns with
    | cons hn hns => exact .dims _ _ _ (.of_denotesDim hn) (Each.writesDim hr hns)
  | array =>
    obtain ⟨_, rfl, _, rfl, us, _, rfl, he, _, rfl, _, rfl, _, rfl, rfl⟩ := h
    intro v hv
    obtain ⟨kind, n, hk, hn, rfl⟩ := TypeExpr.denote_array_eq_ok_iff.1 hv
    obtain ⟨l, rfl⟩ := WritesType.eq_of_scalar (he _ hk)
    exact .array kind _ _ _ _ _ (.of_denotesDim hn)
  | tupleEmpty kind =>
    obtain ⟨_, rfl, _, rfl, rfl⟩ := h
    intro v hv
    obtain ⟨vs, hvs, rfl⟩ := TypeExpr.denote_tuple_eq_ok_iff.1 hv
    cases hvs
    rw [writesForm_tuple]
    exact .empty _ _
  | tupleOne kind =>
    obtain ⟨_, rfl, us, _, rfl, he, _, rfl, rfl⟩ := h
    intro v hv
    obtain ⟨vs, hvs, rfl⟩ := TypeExpr.denote_tuple_eq_ok_iff.1 hv
    cases hvs with
    | cons hv' hn =>
      cases hn
      have he := he _ hv'
      rw [writesForm_element] at he
      rw [writesForm_tuple]
      exact .tuple _ _ he .nil
  | tupleMany kind =>
    obtain ⟨_, rfl, us, _, rfl, he, ls, _, rfl, hr, _, rfl, rfl⟩ := h
    intro v hv
    obtain ⟨vs, hvs, rfl⟩ := TypeExpr.denote_tuple_eq_ok_iff.1 hv
    cases hvs with
    | cons hv' hvs =>
      have he := he _ hv'
      rw [writesForm_element] at he
      rw [writesForm_tuple]
      exact .tuple _ _ he (Each.map₂ (fun e v ks h hv => h v hv) hr hvs)
  | returnsTuple =>
    obtain ⟨us, _, rfl, ht, rfl⟩ := h
    rw [List.append_nil]
    exact ht
  | returnsSingle =>
    obtain ⟨us, _, rfl, ht, rfl⟩ := h
    rw [List.append_nil]
    exact ht
  | returnUnnamed =>
    obtain ⟨us, _, rfl, hb, rfl⟩ := h
    rw [List.append_nil]
    exact fun v hv => .base (hb v hv)
  | returnNamed =>
    obtain ⟨us, _, rfl, hb, _, rfl, rfl⟩ := h
    exact fun v hv => .named _ rfl (hb v hv)
  | literal form =>
    obtain ⟨_, rfl, rfl⟩ := h
    intro d hd
    cases form with
    | float =>
      obtain rfl := Except.ok.inj hd
      exact .float _
    | integer =>
      obtain ⟨n, hn, h⟩ := bind_eq_ok_iff.1 hd
      obtain ⟨hl, rfl⟩ := readInteger_eq_ok_iff.1 hn
      obtain rfl := Except.ok.inj h
      exact .integer _ hl
    | bool b =>
      obtain rfl := Except.ok.inj hd
      exact .bool b _
    | nullPointer =>
      obtain rfl := Except.ok.inj hd
      exact .nullPointer _
    | noneValue =>
      obtain rfl := Except.ok.inj hd
      exact .noneValue _
    | constant kind =>
      obtain rfl := Except.ok.inj hd
      exact .constant kind _
    | emptyDict =>
      obtain rfl := Except.ok.inj hd
      exact .emptyDict _
    | zeroOneDict =>
      obtain rfl := Except.ok.inj hd
      exact .zeroOneDict _

/-- **What is derived is a notation** of the value that its expression denotes. -/
theorem Derives.writes {r : StartRule} {ks : List Token} {e : r.Expr} {v : r.Result}
    (h : Derives [.nonterminal r.nonterminal] ks (e, ())) (hv : r.denote e = .ok v) :
    r.Writes v ks := by
  obtain ⟨us, _, rfl, hm, rfl⟩ := h.fold writesValue_act
  rw [List.append_nil]
  cases r with
  | function => exact hm _ hv
  | identifier => exact ⟨e, (Except.ok.inj hv).symm, hm⟩
  | type => exact hm _ hv
  | literal => exact hm _ hv
  | param => exact hm _ hv
  | params => exact hm _ hv
  | returns => exact hm _ hv

/-! ## From the notation to derivations -/

/-- The tokens of an item of a list are derived. -/
def DerivesItem (list : ListKind) (item : list.Item) (ks : List Token) : Prop :=
  ∃ x, Derives [list.item] ks (x, ()) ∧ Production.itemValue list x = item

/-- Further items of a list go on with those before. -/
theorem Derives.rest_append {list : ListKind} {items items' : List list.Item}
    {ks ls : List Token} (h : Derives [.nonterminal (.rest list)] ks (items, ()))
    (h' : Each (DerivesItem list) items' ls) :
    Derives [.nonterminal (.rest list)] (ks ++ ls) (List.append items items', ()) := by
  induction h' generalizing items ks with
  | nil =>
    rw [List.append_nil, show List.append items [] = items from List.append_nil items]
    exact h
  | @cons x xs us ls comma hx _ ih =>
    obtain ⟨y, hy, rfl⟩ := hx
    have hn := ih (.single (.restNext list) (h.append (.terminal ⟨.comma, comma⟩ hy)))
    rw [List.append_assoc] at hn
    have he : List.append (List.append items [Production.itemValue list y]) xs =
        List.append items (Production.itemValue list y :: xs) := by simp
    rw [← he]
    exact hn

/-- Further items of a list are derived, as long as there are any. -/
theorem Derives.rest {list : ListKind} {item : list.Item} {items : List list.Item}
    {ks : List Token} (h : Each (DerivesItem list) (item :: items) ks) :
    Derives [.nonterminal (.rest list)] ks (item :: items, ()) := by
  cases h with
  | cons comma hx hs =>
    obtain ⟨x, hx, rfl⟩ := hx
    exact (Derives.single (.restFirst list) (.terminal ⟨.comma, comma⟩ hx)).rest_append hs

theorem WritesDim.exists_lexeme {n : Int} {ks : List Token} (h : WritesDim n ks) :
    ∃ l : Lexeme, ks = [⟨.natural, l⟩] ∧ DenotesDim l.text n := by
  cases h with
  | mk l hl => exact ⟨l, rfl, hl, rfl⟩

theorem WritesDim.exists_item {n : Int} {ks : List Token} (h : WritesDim n ks) :
    ∃ l, DerivesItem .dims l ks ∧ DenotesDim (Lexeme.text l) n := by
  obtain ⟨l, rfl, hl⟩ := h.exists_lexeme
  exact ⟨l, ⟨l, .terminal ⟨.natural, l⟩ .nil, rfl⟩, hl⟩

/-- A word is a base type by itself, or a type of one of the forms of base types. -/
theorem PlainType.form_cases (w : PlainType) :
    w.form = .baseType ∨ ∃ f : BaseForm, w.form = f.form := by
  rcases w with ⟨_ | _ | _ | _ | _ | _ | _ | _ | _ | _ | _ | _⟩ | _ | _ | _ | _ | _
  case tensor.intList => exact Or.inr ⟨.intList, rfl⟩
  case scalar => exact Or.inr ⟨.scalarType, rfl⟩
  case string => exact Or.inl rfl
  case device => exact Or.inl rfl
  case generator => exact Or.inl rfl
  case storage => exact Or.inl rfl
  all_goals exact Or.inr ⟨.tensorType, rfl⟩

theorem Derives.of_plain (w : PlainType) (l : Lexeme) :
    Derives [.nonterminal (.typed .baseType)] [⟨.plain w, l⟩] (.plain l.offset w, ()) := by
  have hw : Derives [.nonterminal (.typed w.form)] [⟨.plain w, l⟩] (.plain l.offset w, ()) :=
    .single (.plain w) (.terminal ⟨.plain w, l⟩ .nil)
  rcases w.form_cases with hf | ⟨f, hf⟩
  · rw [hf] at hw
    exact hw
  · rw [hf] at hw
    exact .single (.base f) hw

/-- An integer list is derived by one rule for a single dimension and by another for more. -/
theorem Derives.of_dims {others : List Lexeme} {ls : List Token} (l o first c : Lexeme)
    (h : Each (DerivesItem .dims) others ls) : Derives [.nonterminal (.typed .intList)]
      (⟨.plain (.tensor .intList), l⟩ :: ⟨.openSquare, o⟩ :: ⟨.natural, first⟩ ::
        (ls ++ [⟨.closeSquare, c⟩]))
      (.intList l.offset first.text (others.map Lexeme.text), ()) := by
  cases others with
  | nil =>
    cases h
    exact .single .intListOne (.terminal ⟨_, l⟩ (.terminal ⟨_, o⟩ (.terminal ⟨_, first⟩
      (.terminal ⟨_, c⟩ .nil))))
  | cons second others =>
    exact .single .intListMany (.terminal ⟨_, l⟩ (.terminal ⟨_, o⟩ (.terminal ⟨_, first⟩
      ((Derives.rest h).append (.terminal ⟨_, c⟩ .nil)))))

theorem WritesBase.exists_derives {v : ValueType} {ks : List Token} (h : WritesBase v ks) :
    ∃ e, Derives [.nonterminal (.typed .baseType)] ks (e, ()) ∧ TypeExpr.denote e = .ok v := by
  cases h with
  | word w l => exact ⟨.plain l.offset w, .of_plain w l, by rw [TypeExpr.denote]⟩
  | @dims n ns ks ls l o c hn hns =>
    obtain ⟨first, rfl, hf⟩ := hn.exists_lexeme
    obtain ⟨others, ho, hr⟩ := hns.exists_of_forall fun n ks h => WritesDim.exists_item h
    have hr' : List.Forall₂ DenotesDim (first.text :: others.map Lexeme.text) (n :: ns) :=
      .cons hf (List.forall₂_map_left_iff.2 hr)
    exact ⟨.intList l.offset first.text (others.map Lexeme.text),
      .single (.base .intList) (.of_dims l o first c ho),
      TypeExpr.denote_intList_eq_ok_iff.2 ⟨_, hr', rfl⟩⟩
  | @array n ks kind l o w m c hn =>
    obtain ⟨length, rfl, hl⟩ := hn.exists_lexeme
    have hw : Derives [.nonterminal (.typed .type)] [⟨.plain (.scalar kind), w⟩]
        (.plain w.offset (.scalar kind), ()) := .single .typeBase (.of_plain (.scalar kind) w)
    refine ⟨.array l.offset (.plain w.offset (.scalar kind)) length.text, ?_,
      TypeExpr.denote_array_eq_ok_iff.2 ⟨kind, n, by rw [TypeExpr.denote]; rfl, hl, rfl⟩⟩
    exact .single (.base .arrayType) (.single .array (.terminal ⟨_, l⟩ (.terminal ⟨_, o⟩
      (hw.append (.terminal ⟨_, m⟩ (.terminal ⟨_, length⟩ (.terminal ⟨_, c⟩ .nil)))))))

/-- A base type is derived where an element of a tuple is. -/
theorem Derives.element_of_base {kind : TupleKind} {ks : List Token} {e : TypeExpr}
    (h : Derives [.nonterminal (.typed .baseType)] ks (e, ())) :
    Derives [.nonterminal (.typed kind.element)] ks (e, ()) := by
  cases kind with
  | types => exact .single .typeBase h
  | returns => exact .single .returnsSingle (.single .returnUnnamed h)

/-- A tuple is derived where an element of a tuple is. -/
theorem Derives.element_of_tuple {kind : TupleKind} {ks : List Token} {e : TypeExpr}
    (h : Derives [.nonterminal (.typed kind.form)] ks (e, ())) :
    Derives [.nonterminal (.typed kind.element)] ks (e, ()) := by
  cases kind with
  | types => exact .single .typeTuple h
  | returns => exact .single .returnsTuple h

theorem WritesType.exists_derives {kind : TupleKind} {v : ValueType} {ks : List Token}
    (h : WritesType kind v ks) : ∃ e, Derives [.nonterminal (.typed kind.element)] ks (e, ()) ∧
      TypeExpr.denote e = .ok v := by
  refine WritesType.induct (P := fun v ks => ∃ e,
    Derives [.nonterminal (.typed kind.element)] ks (e, ()) ∧ TypeExpr.denote e = .ok v)
    ?base ?named ?empty ?tuple h
  case base =>
    intro v ks h
    obtain ⟨e, he, hv⟩ := h.exists_derives
    exact ⟨e, he.element_of_base, hv⟩
  case named =>
    rintro v ks name rfl h
    obtain ⟨e, he, hv⟩ := h.exists_derives
    exact ⟨e, .single .returnsSingle (.single .returnNamed
      (he.append (.terminal ⟨.name, name⟩ .nil))), hv⟩
  case empty =>
    intro o c
    refine ⟨.tuple o.offset [], Derives.element_of_tuple (.single (.tupleEmpty kind)
      (.terminal ⟨_, o⟩ (.terminal ⟨_, c⟩ .nil))), ?_⟩
    exact TypeExpr.denote_tuple_eq_ok_iff.2 ⟨[], .nil, rfl⟩
  case tuple =>
    rintro v vs ks ls o c ⟨e, he, hv⟩ hs
    obtain ⟨es, hes, hvs⟩ := hs.exists_of_forall (N := DerivesItem (.tuple kind))
      (R := fun e v => TypeExpr.denote e = .ok v) (by
        rintro v ks ⟨e, he, hv⟩
        cases kind with
        | types => exact ⟨e, ⟨e, he, rfl⟩, hv⟩
        | returns => exact ⟨e, ⟨e, he, rfl⟩, hv⟩)
    refine ⟨.tuple o.offset (e :: es), Derives.element_of_tuple ?_,
      TypeExpr.denote_tuple_eq_ok_iff.2 ⟨v :: vs, .cons hv hvs, rfl⟩⟩
    cases es with
    | nil =>
      cases hes
      exact .single (.tupleOne kind) (.terminal ⟨_, o⟩ (he.append (.terminal ⟨_, c⟩ .nil)))
    | cons e' es =>
      exact .single (.tupleMany kind) (.terminal ⟨_, o⟩ (he.append
        ((Derives.rest hes).append (.terminal ⟨_, c⟩ .nil))))

theorem WritesLiteral.exists_derives {d : Literal} {ks : List Token} (h : WritesLiteral d ks) :
    ∃ e, Derives [.nonterminal .literal] ks (e, ()) ∧ LiteralExpr.denote e = .ok d := by
  have key : ∀ (form : LiteralForm) (l : Lexeme), Derives [.nonterminal .literal]
      [⟨.literal form, l⟩] ((⟨form, l.text⟩ : LiteralExpr), ()) :=
    fun form l => .single (.literal form) (.terminal ⟨_, l⟩ .nil)
  cases h with
  | integer l hl =>
    exact ⟨_, key .integer l, bind_eq_ok_iff.2 ⟨_, readInteger_eq_ok_iff.2 ⟨hl, rfl⟩, rfl⟩⟩
  | float l => exact ⟨_, key _ l, rfl⟩
  | bool b l => exact ⟨_, key _ l, rfl⟩
  | nullPointer l => exact ⟨_, key _ l, rfl⟩
  | noneValue l => exact ⟨_, key _ l, rfl⟩
  | constant kind l => exact ⟨_, key _ l, rfl⟩
  | emptyDict l => exact ⟨_, key _ l, rfl⟩
  | zeroOneDict l => exact ⟨_, key _ l, rfl⟩

theorem WritesParam.exists_derives {p : ParamItem} {ks : List Token} (h : WritesParam p ks) :
    ∃ e, Derives [.nonterminal .param] ks (e, ()) ∧ ParamExpr.denote e = .ok p := by
  cases h with
  | variadic l => exact ⟨.variadic, .single .paramStar (.terminal ⟨_, l⟩ .nil), rfl⟩
  | plain name ht =>
    obtain ⟨e, he, hv⟩ := ht.exists_derives
    exact ⟨.parameter e name.text none,
      .single .paramPlain (he.append (.terminal ⟨_, name⟩ .nil)),
      ParamExpr.denote_parameter_none_eq_ok_iff.2 ⟨_, hv, rfl⟩⟩
  | default name equal ht hl =>
    obtain ⟨e, he, hv⟩ := ht.exists_derives
    obtain ⟨d, hd, hd'⟩ := hl.exists_derives
    exact ⟨.parameter e name.text (some d),
      .single .paramDefault (he.append (.terminal ⟨_, name⟩ (.terminal ⟨_, equal⟩ hd))),
      ParamExpr.denote_parameter_some_eq_ok_iff.2 ⟨_, _, hv, hd', rfl⟩⟩

theorem WritesParams.exists_derives {ps : List ParamItem} {ks : List Token}
    (h : WritesParams ps ks) : ∃ es, Derives [.nonterminal .params] ks (es, ()) ∧
      ParamExpr.denoteAll es = .ok ps := by
  cases h with
  | nil => exact ⟨[], .single .paramsNone .nil, rfl⟩
  | cons hp hps =>
    obtain ⟨e, he, hv⟩ := hp.exists_derives
    obtain ⟨es, hes, hvs⟩ := hps.exists_of_forall (N := DerivesItem .params)
      (R := fun e p => ParamExpr.denote e = .ok p) (by
        intro p ks hp
        obtain ⟨e, he, hv⟩ := hp.exists_derives
        exact ⟨e, ⟨e, he, rfl⟩, hv⟩)
    refine ⟨e :: es, ?_, ParamExpr.denoteAll_eq_ok_iff.2 (.cons hv hvs)⟩
    cases es with
    | nil =>
      cases hes
      rw [List.append_nil]
      exact .single .paramsOne he
    | cons e' es => exact .single .paramsMany (he.append (Derives.rest hes))

/-- **Every notation is derived**, with an expression that denotes the value. -/
theorem StartRule.Writes.exists_derives {r : StartRule} {v : r.Result} {ks : List Token}
    (h : r.Writes v ks) : ∃ e, Derives [.nonterminal r.nonterminal] ks (e, ()) ∧
      r.denote e = .ok v := by
  cases r with
  | function =>
    cases h with
    | mk name o c a hps hv =>
      obtain ⟨es, hes, hps⟩ := hps.exists_derives
      obtain ⟨e, he, hv⟩ := hv.exists_derives
      have hn : Derives [.nonterminal .identifier] [⟨.name, name⟩] (name, ()) :=
        .single .identifier (.terminal ⟨_, name⟩ .nil)
      exact ⟨(⟨name.text, es, e⟩ : SignatureExpr), .single .function (hn.append
        (.terminal ⟨_, o⟩ (hes.append (.terminal ⟨_, c⟩ (.terminal ⟨_, a⟩ he))))),
        SignatureExpr.denote_eq_ok_iff.2 ⟨_, _, hps, hv, rfl⟩⟩
  | identifier =>
    obtain ⟨l, rfl, rfl⟩ := h
    exact ⟨l, .single .identifier (.terminal ⟨_, l⟩ .nil), rfl⟩
  | type => exact WritesType.exists_derives h
  | literal => exact WritesLiteral.exists_derives h
  | param => exact WritesParam.exists_derives h
  | params => exact WritesParams.exists_derives h
  | returns => exact WritesType.exists_derives h

end TensorSig
