import TensorSig.Proofs.ErrorOffset
import TensorSig.Proofs.Regular

/-!
# The outcomes of parsing

What can come of a text: a regular descriptor, a report that it is no signature, or the failure for
a numeral of too many digits, which is then somewhere in the text. Parsing by way of syntax trees
comes to the same, so that none of the other ways to fail on a tree is ever taken.

* `Blames`: a failure for a numeral that is one of certain tokens; `blames_build`: building a tree
  fails for a numeral in the tree.
* `StartRule.TreeOf`: the trees of a text, with `exists_treeOf_of_read` and `TreeOf.exists_read`.
* `parse_outcome`: the outcomes.
-/

namespace TensorSig

/-! ## Oversized numerals -/

/-- An integer numeral of so many digits; its sign does not count. -/
def Token.IsNumeral (k : Token) (digits : Nat) : Prop :=
  (k.terminal = .natural ∧ k.lexeme.text.length = digits) ∨
    (k.terminal = .literal .integer ∧ (Numeral.unsigned k.lexeme.text).length = digits)

/-- Whatever fails for an oversized numeral does so for one among certain tokens. -/
def Blames {α : Type} (S : Token → Prop) (x : Except BuildFault α) : Prop :=
  ∀ numeral, x = .error (.denoted (.oversized numeral)) →
    digitLimit < numeral.digits ∧ ∃ k, S k ∧ k.IsNumeral numeral.digits

namespace Blames

variable {α β : Type} {S : Token → Prop}

theorem ok (a : α) : Blames S (.ok a) := by
  intro numeral h
  cases h

theorem error {fault : BuildFault} (h : ∀ numeral, fault ≠ .denoted (.oversized numeral)) :
    Blames S (.error fault : Except BuildFault α) :=
  fun numeral he => absurd (Except.error.inj he) (h numeral)

theorem bind {x : Except BuildFault α} {f : α → Except BuildFault β} (hx : Blames S x)
    (hf : ∀ a, x = .ok a → Blames S (f a)) : Blames S (x >>= f) := by
  cases x with
  | error fault => exact fun numeral h => hx numeral (congrArg _ (Except.error.inj h))
  | ok a => exact hf a rfl

theorem mapM {f : α → Except BuildFault β} {as : List α} (h : ∀ a ∈ as, Blames S (f a)) :
    Blames S (as.mapM f) := by
  induction as with
  | nil => exact ok _
  | cons a as ih =>
    rw [List.mapM_cons]
    exact (h a List.mem_cons_self).bind fun _ _ =>
      (ih fun b hb => h b (List.mem_cons_of_mem _ hb)).bind fun _ _ => ok _

theorem readNatural {k : Token} (hk : k.terminal = .natural) (hs : S k) :
    Blames S (lift (readNatural k.lexeme.text)) := by
  intro numeral h
  unfold TensorSig.readNatural at h
  split at h
  case isTrue hl =>
    cases h
    exact ⟨hl, k, hs, Or.inl ⟨hk, rfl⟩⟩
  case isFalse => cases h

theorem readInteger {k : Token} (hk : k.terminal = .literal .integer) (hs : S k) :
    Blames S (lift (readInteger k.lexeme.text)) := by
  intro numeral h
  unfold TensorSig.readInteger at h
  split at h
  case isTrue hl =>
    cases h
    exact ⟨hl, k, hs, Or.inr ⟨hk, rfl⟩⟩
  case isFalse => cases h

theorem readDims {ks : List Token} (h : ∀ k ∈ ks, k.terminal = .natural ∧ S k) :
    Blames S (lift (readDims (ks.map fun k => k.lexeme.text))) := by
  induction ks with
  | nil => exact ok _
  | cons k ks ih =>
    obtain ⟨hk, hs⟩ := h k List.mem_cons_self
    rw [List.map_cons, TensorSig.readDims, lift_bind]
    refine (readNatural hk hs).bind fun _ _ => ?_
    rw [lift_bind]
    exact (ih fun l hl => h l (List.mem_cons_of_mem _ hl)).bind fun _ _ => ok _

theorem elementKind (offset : Nat) (v : ValueType) :
    Blames S (lift (TypeExpr.elementKind offset v)) := by
  intro numeral h
  cases v <;> cases h

theorem lookUp (table : List (Terminal × α)) (t : Terminal) : Blames S (lookUp table t) := by
  intro numeral h
  unfold TensorSig.lookUp at h
  split at h <;> cases h

theorem make (v : ValueType) : Blames S (make v) := by
  intro numeral h
  unfold TensorSig.make checked at h
  split at h <;> cases h

theorem onlyToken (ts : List Tree) : Blames S (Tree.onlyToken ts) := by
  intro numeral h
  unfold Tree.onlyToken at h
  split at h <;> cases h

theorem firstToken (t : Terminal) (ts : List Tree) : Blames S (Tree.firstToken t ts) := by
  intro numeral h
  unfold Tree.firstToken at h
  split at h <;> cases h

end Blames

namespace Tree

/-! ## Tokens among the children of a node -/

theorem token_mem_of_token? {ts : List Tree} {k : Token} (h : k ∈ ts.filterMap token?) :
    token k ∈ ts := by
  obtain ⟨t, ht, hk⟩ := List.mem_filterMap.1 h
  cases t with
  | token l =>
    obtain rfl := Option.some.inj hk
    exact ht
  | node label offset? children => cases hk

theorem mem_tokensOf {t : Terminal} {ts : List Tree} {k : Token} (h : k ∈ tokensOf t ts) :
    k.terminal = t ∧ token k ∈ ts := by
  obtain ⟨hk, ht⟩ := List.mem_filter.1 h
  exact ⟨of_decide_eq_true ht, token_mem_of_token? hk⟩

theorem token_mem_of_onlyToken {ts : List Tree} {k : Token} (h : onlyToken ts = .ok k) :
    token k ∈ ts := by
  unfold onlyToken at h
  split at h
  case h_1 l hl =>
    obtain rfl := Except.ok.inj h
    exact token_mem_of_token? (by simp [hl])
  case h_2 => cases h

theorem mem_of_firstToken {t : Terminal} {ts : List Tree} {k : Token}
    (h : firstToken t ts = .ok k) : k.terminal = t ∧ token k ∈ ts := by
  unfold firstToken at h
  split at h
  case h_1 l ls hl =>
    obtain rfl := Except.ok.inj h
    exact mem_tokensOf (by simp [hl])
  case h_2 => cases h

theorem Has.of_mem_children {t u : Tree} {k : Token} (hu : u ∈ t.children) (hk : u.Has k) :
    t.Has k := by
  cases t with
  | token l => cases hu
  | node label offset? children => exact .node hu hk

theorem mem_of_mem_subtrees {t : Tree} {ts : List Tree} (h : t ∈ subtrees ts) : t ∈ ts :=
  (List.mem_filter.1 h).1

/-! ## Building

A tree blames its own tokens. For the induction on trees the tokens are any that include them. -/

variable {S : Token → Prop}

mutual

theorem blames_buildType (t : Tree) (h : ∀ k, t.Has k → S k) : Blames S t.buildType := by
  cases t with
  | token k => exact .error (by simp)
  | node label offset? children =>
    have hc : ∀ t ∈ children, ∀ k, t.Has k → S k := fun t ht k hk => h k (.node ht hk)
    have hnatural : ∀ k ∈ tokensOf .natural children, k.terminal = .natural ∧ S k := fun k hk =>
      ⟨(mem_tokensOf hk).1, hc _ (mem_tokensOf hk).2 k .token⟩
    cases label with
    | tupleType =>
      rw [buildType]
      exact (blames_buildTypes children hc).bind fun _ _ => .ok _
    | tensorType =>
      rw [buildType]
      exact (Blames.onlyToken _).bind fun _ _ => (Blames.lookUp _ _).bind fun _ _ => .make _
    | intList =>
      rw [buildType]
      exact (Blames.readDims hnatural).bind fun _ _ => .make _
    | scalarType =>
      rw [buildType]
      exact (Blames.onlyToken _).bind fun _ _ => (Blames.lookUp _ _).bind fun _ _ => .ok _
    | arrayType =>
      rw [buildType]
      refine (blames_buildFirst children hc).bind fun (element, offset) _ => ?_
      refine (Blames.elementKind offset element).bind fun kind _ => ?_
      refine (Blames.firstToken _ _).bind fun length hl => ?_
      obtain ⟨hk, hm⟩ := mem_of_firstToken hl
      exact (Blames.readNatural hk (hc _ hm _ .token)).bind fun _ _ => .make _
    | stringType => exact .ok ValueType.string
    | deviceType => exact .ok ValueType.device
    | generatorType => exact .ok ValueType.generator
    | storageType => exact .ok ValueType.storage
    | _ => exact .error (by simp)

theorem blames_buildTypes (ts : List Tree) (h : ∀ t ∈ ts, ∀ k, t.Has k → S k) :
    Blames S (buildTypes ts) := by
  cases ts with
  | nil =>
    rw [buildTypes]
    exact .ok _
  | cons t ts =>
    have htail := blames_buildTypes ts fun u hu => h u (List.mem_cons_of_mem _ hu)
    rw [buildTypes]
    split
    · exact (blames_buildType t (h t List.mem_cons_self)).bind fun _ _ =>
        htail.bind fun _ _ => .ok _
    · exact htail

theorem blames_buildFirst (ts : List Tree) (h : ∀ t ∈ ts, ∀ k, t.Has k → S k) :
    Blames S (buildFirst ts) := by
  cases ts with
  | nil =>
    rw [buildFirst]
    exact .error (by simp)
  | cons t ts =>
    rw [buildFirst]
    split
    · exact (blames_buildType t (h t List.mem_cons_self)).bind fun _ _ => .ok _
    · exact blames_buildFirst ts fun u hu => h u (List.mem_cons_of_mem _ hu)

end

mutual

theorem blames_buildReturns (t : Tree) (h : ∀ k, t.Has k → S k) : Blames S t.buildReturns := by
  cases t with
  | token k => exact .error (by simp)
  | node label offset? children =>
    have hc : ∀ t ∈ children, ∀ k, t.Has k → S k := fun t ht k hk => h k (.node ht hk)
    cases label with
    | returnTuple =>
      rw [buildReturns]
      exact (blames_buildAllReturns children hc).bind fun _ _ => .ok _
    | returnSingle =>
      rw [buildReturns]
      exact (blames_buildFirst children hc).bind fun _ _ => .ok _
    | _ => exact .error (by simp)

theorem blames_buildAllReturns (ts : List Tree) (h : ∀ t ∈ ts, ∀ k, t.Has k → S k) :
    Blames S (buildAllReturns ts) := by
  cases ts with
  | nil =>
    rw [buildAllReturns]
    exact .ok _
  | cons t ts =>
    have htail := blames_buildAllReturns ts fun u hu => h u (List.mem_cons_of_mem _ hu)
    rw [buildAllReturns]
    split
    · exact (blames_buildReturns t (h t List.mem_cons_self)).bind fun _ _ =>
        htail.bind fun _ _ => .ok _
    · exact htail

end

theorem blames_buildIdentifier (t : Tree) : Blames S t.buildIdentifier :=
  (Blames.firstToken _ _).bind fun _ _ => .ok _

theorem blames_buildLiteral (t : Tree) (h : ∀ k, t.Has k → S k) : Blames S t.buildLiteral := by
  refine (Blames.onlyToken _).bind fun k hk => ?_
  have hs : S k := h k (.of_mem_children (token_mem_of_onlyToken hk) .token)
  split
  case h_1 => exact .ok _
  case h_2 hi => exact (Blames.readInteger hi hs).bind fun _ _ => .ok _
  case h_3 =>
    split
    · exact .ok _
    · exact .error (by simp)

theorem blames_buildDefault (ts : List Tree) (h : ∀ t ∈ ts, ∀ k, t.Has k → S k) :
    Blames S (buildDefault ts) := by
  cases ts with
  | nil => exact .ok _
  | cons t ts => exact (blames_buildLiteral t (h t List.mem_cons_self)).bind fun _ _ => .ok _

theorem blames_buildParam (t : Tree) (h : ∀ k, t.Has k → S k) : Blames S t.buildParam := by
  cases t with
  | token k => exact .error (by simp)
  | node label offset? children =>
    cases label with
    | variadic => exact .ok _
    | parameter =>
      have hc : ∀ t ∈ subtrees children, ∀ k, t.Has k → S k := fun t ht k hk =>
        h k (.node (mem_of_mem_subtrees ht) hk)
      rw [buildParam]
      split
      case h_1 => exact .error (by simp)
      case h_2 type others hsub =>
        rw [hsub] at hc
        refine (blames_buildDefault others fun t ht => hc t (List.mem_cons_of_mem _ ht)).bind
          fun _ _ => ?_
        exact (Blames.firstToken _ _).bind fun _ _ =>
          (blames_buildType type (hc type List.mem_cons_self)).bind fun _ _ => .ok _
    | _ => exact .error (by simp)

theorem blames_buildParams (t : Tree) (h : ∀ k, t.Has k → S k) : Blames S t.buildParams :=
  Blames.mapM fun u hu => blames_buildParam u fun k hk =>
    h k (.of_mem_children (mem_of_mem_subtrees hu) hk)

theorem blames_buildFunction (t : Tree) (h : ∀ k, t.Has k → S k) : Blames S t.buildFunction := by
  have hc : ∀ u ∈ subtrees t.children, ∀ k, u.Has k → S k := fun u hu k hk =>
    h k (.of_mem_children (mem_of_mem_subtrees hu) hk)
  unfold buildFunction
  split
  case h_1 name params returns hsub =>
    rw [hsub] at hc
    refine (blames_buildIdentifier name).bind fun _ _ => ?_
    exact (blames_buildParams params (hc params (by simp))).bind fun _ _ =>
      (blames_buildReturns returns (hc returns (by simp))).bind fun _ _ => .ok _
  case h_2 => exact .error (by simp)

end Tree

/-- **Building a tree fails for a numeral in the tree** if it does so for an oversized numeral. -/
theorem blames_build (r : StartRule) (t : Tree) : Blames t.Has (r.build t) := by
  cases r with
  | function => exact t.blames_buildFunction fun _ h => h
  | identifier => exact t.blames_buildIdentifier
  | type => exact t.blames_buildType fun _ h => h
  | literal => exact t.blames_buildLiteral fun _ h => h
  | param => exact t.blames_buildParam fun _ h => h
  | params => exact t.blames_buildParams fun _ h => h
  | returns => exact t.blames_buildReturns fun _ h => h

/-! ## The trees of texts -/

variable {r : StartRule} {text : List Char}

/-- The trees of a text. -/
def StartRule.TreeOf (r : StartRule) (text : List Char) (t : Tree) : Prop :=
  ∃ ks, Spells 0 ks text ∧ Apart ks ∧ Grows [.nonterminal r.nonterminal] ks [t]

/-- A text with a tree is read as an expression, and what is built of the tree is what the
expression denotes. -/
theorem StartRule.TreeOf.exists_read {t : Tree} (h : r.TreeOf text t) :
    ∃ e, read r text = .ok e ∧ r.build t = lift (r.denote e) := by
  obtain ⟨ks, hs, ha, hg⟩ := h
  obtain ⟨e, u, hd, hu, hb⟩ := hg.exists_build
  obtain rfl : t = u := List.head_eq_of_cons_eq hu
  exact ⟨e, read_eq_ok_iff.2 ⟨ks, hs, ha, hd⟩, hb⟩

theorem exists_treeOf_of_read {e : r.Expr} (h : read r text = .ok e) : ∃ t, r.TreeOf text t := by
  obtain ⟨ks, hs, ha, hd⟩ := read_eq_ok_iff.1 h
  obtain ⟨ts, hg⟩ := hd.exists_grows
  obtain ⟨e', t, -, rfl, -⟩ := hg.exists_build
  exact ⟨t, ks, hs, ha, hg⟩

/-- A text with trees is parsed by building any of them. -/
theorem StartRule.TreeOf.exists_parse_eq {t : Tree} (h : r.TreeOf text t) :
    ∃ x : Except DenoteFault r.Result, r.build t = lift x ∧
      parse r text = x.mapError (Failure.ofFault text) := by
  obtain ⟨e, he, hb⟩ := h.exists_read
  exact ⟨_, hb, parse_of_read he⟩

theorem accepted_iff_treeOf : Accepted r text ↔ ∃ t, r.TreeOf text t := by
  rw [accepted_iff]
  constructor
  · rintro ⟨e, he⟩
    exact exists_treeOf_of_read he
  · rintro ⟨t, ht⟩
    obtain ⟨e, he, -⟩ := ht.exists_read
    exact ⟨e, he⟩

/-! ## Outcomes -/

/-- A numeral for which parsing fails is too long and is one of the tokens of the text. -/
theorem exists_numeral_of_parse {numeral : OversizedNumeral}
    (h : parse r text = .error (.oversized numeral)) : digitLimit < numeral.digits ∧
      ∃ ks t, Spells 0 ks text ∧ Apart ks ∧ Grows [.nonterminal r.nonterminal] ks [t] ∧
        ∃ k ∈ ks, k.IsNumeral numeral.digits := by
  cases hr : read r text with
  | error why =>
    rw [parse_of_read_error hr] at h
    cases h
  | ok e =>
    obtain ⟨t, ht⟩ := exists_treeOf_of_read hr
    obtain ⟨x, hb, hp⟩ := ht.exists_parse_eq
    rw [hp] at h
    cases x with
    | ok v => cases h
    | error fault =>
      cases fault with
      | unsupportedElement offset element => cases h
      | oversized n =>
        cases h
        obtain ⟨hd, k, hk, hn⟩ := blames_build r t numeral hb
        obtain ⟨ks, hs, ha, hg⟩ := ht
        exact ⟨hd, ks, t, hs, ha, hg, k, hg.mem_tokens List.mem_cons_self hk, hn⟩

/-- **What comes of a text** is a regular component, which building it anew gives back, or a report
that the text is no signature, or the failure for a numeral of too many digits among its tokens. The
texts with trees are those that follow the grammar, and what is built of a tree of a text is what
comes of the text: building a tree never fails in a way of its own. -/
theorem parse_outcome (r : StartRule) (text : List Char) :
    ((∃ v, parse r text = .ok v ∧ (r.component v).Regular ∧
        (r.component v).rebuild = .ok (r.component v) ∧
        (r.component v).equals (r.component v) = true) ∨
      (∃ error, parse r text = .error (.signature error)) ∨
      ∃ numeral, parse r text = .error (.oversized numeral) ∧ digitLimit < numeral.digits ∧
        ∃ ks t, Spells 0 ks text ∧ Apart ks ∧ Grows [.nonterminal r.nonterminal] ks [t] ∧
          ∃ k ∈ ks, k.IsNumeral numeral.digits) ∧
    (Accepted r text ↔ ∃ t, r.TreeOf text t) ∧
    ∀ t, r.TreeOf text t → ∃ x : Except DenoteFault r.Result,
      r.build t = x.mapError .denoted ∧ parse r text = x.mapError (Failure.ofFault text) := by
  refine ⟨?_, accepted_iff_treeOf, fun t ht => ht.exists_parse_eq⟩
  cases hp : parse r text with
  | ok v =>
    have hv := regular_of_parse hp
    exact Or.inl ⟨v, rfl, hv, hv.rebuild_eq, hv.equals_self⟩
  | error failure =>
    cases failure with
    | signature error => exact Or.inr (Or.inl ⟨error, rfl⟩)
    | oversized numeral => exact Or.inr (Or.inr ⟨numeral, rfl, exists_numeral_of_parse hp⟩)

end TensorSig
