import TensorSig.Proofs.Composition

/-!
# The grammars of types and of results

Types are derived in two ways: as types of parameters and as types of results. The rules of the two
are different, since a base type among results may have a name behind it, but they go in step: what
is derived in one way is derived in the other once the names are gone, with the same expression. The
types inside of arrays are the same in both, and there are no names in types of parameters.

* `nameless`: tokens without the names.
* `NamesBehindBase`, `Derives.namesBehindBase`: where the names among the tokens of a result stand.
* `Derives.element_nameless`: both grammars derive the same tokens without names.
-/

namespace TensorSig

/-! ## Tokens without names -/

/-- Tokens without the names among them. -/
def nameless (ks : List Token) : List Token := ks.filter fun k => k.terminal ≠ .name

theorem nameless_append (ks ls : List Token) : nameless (ks ++ ls) = nameless ks ++ nameless ls :=
  List.filter_append ..

theorem nameless_cons {t : Terminal} (h : t ≠ .name) (l : Lexeme) (ks : List Token) :
    nameless (⟨t, l⟩ :: ks) = ⟨t, l⟩ :: nameless ks := List.filter_cons_of_pos (by simpa using h)

theorem nameless_name (l : Lexeme) (ks : List Token) : nameless (⟨.name, l⟩ :: ks) = nameless ks :=
  List.filter_cons_of_neg (by simp)

theorem nameless_eq_self {ks : List Token} (h : ∀ k ∈ ks, k.terminal ≠ .name) :
    nameless ks = ks := List.filter_eq_self.2 (by simpa using h)

theorem ne_name_of_mem_nameless {k : Token} {ks : List Token} (h : k ∈ nameless ks) :
    k.terminal ≠ .name := by simpa using (List.mem_filter.1 h).2

/-- The symbols of which types of parameters are made, without names. -/
def Symbol.isTypePart : Symbol → Bool
  | .terminal t => t ≠ .name
  | .nonterminal (.typed form) => form ∉ [.returns, .returnSingle, .returnTuple]
  | .nonterminal (.rest list) => list ∈ [.tuple .types, .dims]
  | _ => false

theorem Production.isTypePart (p : Production)
    (h : (Symbol.nonterminal p.lhs).isTypePart = true) : ∀ s ∈ p.rhs, s.isTypePart = true := by
  have key : ∀ p ∈ all, (Symbol.nonterminal p.lhs).isTypePart = true →
      ∀ s ∈ p.rhs, s.isTypePart = true := by decide +kernel
  exact key p (mem_all p) h

/-- **No names are in a type of a parameter.** -/
theorem Derives.ne_name {form : TypeForm} {ks : List Token} {e : TypeExpr}
    (h : Derives [.nonterminal (.typed form)] ks (e, ()))
    (hform : (Symbol.nonterminal (.typed form)).isTypePart = true) :
    ∀ k ∈ ks, k.terminal ≠ .name := by
  intro k hk
  have hpart := h.forall_mem (S := fun s => s.isTypePart = true) Production.isTypePart
    (by simpa using hform) k hk
  simpa [Symbol.isTypePart] using hpart

/-! ## Names behind base types -/

/-- Each name stands directly behind a base type. -/
def NamesBehindBase (ks : List Token) : Prop :=
  ∀ us k ls, ks = us ++ k :: ls → k.terminal = .name →
    ∃ vs bs e, us = vs ++ bs ∧ Derives [.nonterminal (.typed .baseType)] bs (e, ())

namespace NamesBehindBase

variable {ks ls : List Token}

theorem of_ne_name (h : ∀ k ∈ ks, k.terminal ≠ .name) : NamesBehindBase ks := by
  rintro us k ls rfl hk
  exact absurd hk (h k (by simp))

theorem append (h : NamesBehindBase ks) (h' : NamesBehindBase ls) :
    NamesBehindBase (ks ++ ls) := by
  intro us k ms he hk
  rcases List.append_eq_append_iff.1 he with ⟨us', rfl, hls⟩ | ⟨ms', rfl, hms⟩
  · obtain ⟨vs, bs, e, rfl, hd⟩ := h' us' k ms hls hk
    exact ⟨ks ++ vs, bs, e, (List.append_assoc ..).symm, hd⟩
  · cases ms' with
    | nil =>
      obtain ⟨vs, bs, e, hvs, hd⟩ := h' [] k ms hms.symm hk
      exact ⟨us ++ vs, bs, e, by rw [List.append_assoc, ← hvs, List.append_nil], hd⟩
    | cons m ms' =>
      obtain ⟨rfl, -⟩ := List.cons.inj hms
      exact h us k ms' rfl hk

theorem named {e : TypeExpr} (h : Derives [.nonterminal (.typed .baseType)] ks (e, ()))
    (name : Lexeme) : NamesBehindBase (ks ++ [⟨.name, name⟩]) := by
  intro us k ls he hk
  rcases List.eq_nil_or_concat ls with rfl | ⟨ls, l, rfl⟩
  · obtain ⟨rfl, -⟩ := List.append_inj' he rfl
    exact ⟨[], ks, e, rfl, h⟩
  · rw [List.concat_eq_append, ← List.cons_append, ← List.append_assoc] at he
    obtain ⟨rfl, -⟩ := List.append_inj' he rfl
    exact absurd hk (h.ne_name (by decide) k (by simp))

end NamesBehindBase

/-- The symbols of which types are made, with names nowhere but behind base types. -/
def Symbol.isResultPart : Symbol → Bool
  | .terminal t => t ≠ .name
  | .nonterminal (.typed _) => true
  | .nonterminal (.rest list) => list ≠ .params
  | _ => false

theorem Production.isResultPart (p : Production) (hp : p ≠ returnNamed)
    (h : (Symbol.nonterminal p.lhs).isResultPart = true) :
    ∀ s ∈ p.rhs, s.isResultPart = true := by
  have key : ∀ p ∈ all, p ≠ returnNamed → (Symbol.nonterminal p.lhs).isResultPart = true →
      ∀ s ∈ p.rhs, s.isResultPart = true := by decide +kernel
  exact key p (mem_all p) hp h

/-- **The names in a result** stand directly behind base types. -/
theorem Derives.namesBehindBase {ss : List Symbol} {ks : List Token} {vs : Values ss}
    (h : Derives ss ks vs) (hs : ∀ s ∈ ss, s.isResultPart = true) : NamesBehindBase ks := by
  induction h with
  | nil => exact .of_ne_name (by simp)
  | @terminal ss ks vs k _ ih =>
    rw [List.forall_mem_cons] at hs
    have hk : k.terminal ≠ .name := by simpa [Symbol.isResultPart] using hs.1
    have hsingle : NamesBehindBase [k] := .of_ne_name (by simpa using hk)
    exact hsingle.append (ih hs.2)
  | @rule _ ks _ _ p us hp _ ihp ih =>
    rw [List.forall_mem_cons] at hs
    refine NamesBehindBase.append ?_ (ih hs.2)
    by_cases hn : p = .returnNamed
    · subst hn
      obtain ⟨us, _, rfl, hb, _, rfl, rfl⟩ := hp.holds
      exact .named hb _
    · exact ihp (Production.isResultPart p hn hs.1)

/-! ## Both grammars -/

variable (kind : TupleKind)

/-- What is derived as a type, as a tuple or as further elements of one is derived without its names
in the grammar of the other kind too. -/
def DerivesNameless : (n : Nonterminal) → n.Value → List Token → Prop
  | .typed .type, e, ks => Derives [.nonterminal (.typed kind.element)] (nameless ks) (e, ())
  | .typed .returns, e, ks => Derives [.nonterminal (.typed kind.element)] (nameless ks) (e, ())
  | .typed .returnSingle, e, ks =>
    Derives [.nonterminal (.typed kind.element)] (nameless ks) (e, ())
  | .typed .tupleType, e, ks => Derives [.nonterminal (.typed kind.form)] (nameless ks) (e, ())
  | .typed .returnTuple, e, ks => Derives [.nonterminal (.typed kind.form)] (nameless ks) (e, ())
  | .rest (.tuple _), es, ks =>
    Derives [.nonterminal (.rest (.tuple kind))] (nameless ks) (es, ())
  | _, _, _ => True

variable {kind}

theorem derivesNameless_element (kind' : TupleKind) {e : TypeExpr} {ks : List Token} :
    DerivesNameless kind (.typed kind'.element) e ks ↔
      Derives [.nonterminal (.typed kind.element)] (nameless ks) (e, ()) := by
  cases kind' <;> rfl

theorem derivesNameless_form (kind' : TupleKind) {e : TypeExpr} {ks : List Token} :
    DerivesNameless kind (.typed kind'.form) e ks ↔
      Derives [.nonterminal (.typed kind.form)] (nameless ks) (e, ()) := by
  cases kind' <;> rfl

section

variable {ks ls : List Token} {e : TypeExpr} {es : List TypeExpr}

/-- A base type has no names in it. -/
theorem Derives.nameless_base (h : Derives [.nonterminal (.typed .baseType)] ks (e, ())) :
    Derives [.nonterminal (.typed kind.element)] (nameless ks) (e, ()) := by
  rw [nameless_eq_self (h.ne_name (by decide))]
  exact h.element_of_base

theorem Derives.nameless_named (h : Derives [.nonterminal (.typed .baseType)] ks (e, ()))
    (name : Lexeme) : Derives [.nonterminal (.typed kind.element)]
      (nameless (ks ++ [⟨.name, name⟩])) (e, ()) := by
  rw [nameless_append, nameless_name, show nameless [] = [] from rfl, List.append_nil]
  exact h.nameless_base

theorem Derives.nameless_tupleOne
    (h : Derives [.nonterminal (.typed kind.element)] (nameless ks) (e, ())) (o c : Lexeme) :
    Derives [.nonterminal (.typed kind.form)]
      (nameless (⟨.openParen, o⟩ :: (ks ++ [⟨.closeParen, c⟩]))) (.tuple o.offset [e], ()) := by
  simp (disch := decide) only [nameless_append, nameless_cons]
  exact .single (.tupleOne kind) (.terminal ⟨_, o⟩ (h.append (.terminal ⟨_, c⟩ .nil)))

theorem Derives.nameless_tupleMany
    (h : Derives [.nonterminal (.typed kind.element)] (nameless ks) (e, ()))
    (h' : Derives [.nonterminal (.rest (.tuple kind))] (nameless ls) (es, ())) (o c : Lexeme) :
    Derives [.nonterminal (.typed kind.form)]
      (nameless (⟨.openParen, o⟩ :: (ks ++ (ls ++ [⟨.closeParen, c⟩]))))
      (.tuple o.offset (e :: es), ()) := by
  simp (disch := decide) only [nameless_append, nameless_cons]
  exact .single (.tupleMany kind) (.terminal ⟨_, o⟩ (h.append (h'.append (.terminal ⟨_, c⟩ .nil))))

theorem Derives.nameless_restFirst
    (h : Derives [.nonterminal (.typed kind.element)] (nameless ks) (e, ())) (comma : Lexeme) :
    Derives [.nonterminal (.rest (.tuple kind))] (nameless (⟨.comma, comma⟩ :: ks)) ([e], ()) := by
  rw [nameless_cons (by decide)]
  cases kind with
  | types => exact .single (.restFirst (.tuple .types)) (.terminal ⟨_, comma⟩ h)
  | returns => exact .single (.restFirst (.tuple .returns)) (.terminal ⟨_, comma⟩ h)

theorem Derives.nameless_restNext
    (h : Derives [.nonterminal (.rest (.tuple kind))] (nameless ls) (es, ()))
    (h' : Derives [.nonterminal (.typed kind.element)] (nameless ks) (e, ())) (comma : Lexeme) :
    Derives [.nonterminal (.rest (.tuple kind))] (nameless (ls ++ ⟨.comma, comma⟩ :: ks))
      (List.append es [e], ()) := by
  rw [nameless_append, nameless_cons (by decide)]
  cases kind with
  | types => exact .single (.restNext (.tuple .types)) (h.append (.terminal ⟨_, comma⟩ h'))
  | returns => exact .single (.restNext (.tuple .returns)) (h.append (.terminal ⟨_, comma⟩ h'))

end

/-- **Each rule derives without names** what it derives. -/
theorem derivesNameless_act (p : Production) (vs : Values p.rhs) (ks : List Token)
    (h : Holds (fun n v ls => Derives [.nonterminal n] ls (v, ()) ∧ DerivesNameless kind n v ls)
      p.rhs vs ks) : DerivesNameless kind p.lhs (p.act vs) ks := by
  cases p with
  | typeBase =>
    obtain ⟨us, _, rfl, ⟨hb, -⟩, rfl⟩ := h
    rw [List.append_nil]
    exact Derives.nameless_base hb
  | returnUnnamed =>
    obtain ⟨us, _, rfl, ⟨hb, -⟩, rfl⟩ := h
    rw [List.append_nil]
    exact Derives.nameless_base hb
  | returnNamed =>
    obtain ⟨us, _, rfl, ⟨hb, -⟩, _, rfl, rfl⟩ := h
    exact Derives.nameless_named hb _
  | typeTuple =>
    obtain ⟨us, _, rfl, ⟨-, ht⟩, rfl⟩ := h
    rw [List.append_nil]
    exact Derives.element_of_tuple ht
  | returnsTuple =>
    obtain ⟨us, _, rfl, ⟨-, ht⟩, rfl⟩ := h
    rw [List.append_nil]
    exact Derives.element_of_tuple ht
  | returnsSingle =>
    obtain ⟨us, _, rfl, ⟨-, ht⟩, rfl⟩ := h
    rw [List.append_nil]
    exact ht
  | tupleEmpty kind' =>
    obtain ⟨_, rfl, _, rfl, rfl⟩ := h
    exact (derivesNameless_form kind').2
      (.single (.tupleEmpty kind) (.terminal ⟨_, _⟩ (.terminal ⟨_, _⟩ .nil)))
  | tupleOne kind' =>
    obtain ⟨_, rfl, us, _, rfl, ⟨-, he⟩, _, rfl, rfl⟩ := h
    exact (derivesNameless_form kind').2
      (Derives.nameless_tupleOne ((derivesNameless_element kind').1 he) _ _)
  | tupleMany kind' =>
    obtain ⟨_, rfl, us, _, rfl, ⟨-, he⟩, ls, _, rfl, ⟨-, hr⟩, _, rfl, rfl⟩ := h
    exact (derivesNameless_form kind').2
      (Derives.nameless_tupleMany ((derivesNameless_element kind').1 he) hr _ _)
  | restFirst list =>
    rcases list with _ | ⟨_ | _⟩ | _
    case tuple.types =>
      obtain ⟨_, rfl, us, _, rfl, ⟨-, he⟩, rfl⟩ := h
      rw [List.append_nil]
      exact Derives.nameless_restFirst he _
    case tuple.returns =>
      obtain ⟨_, rfl, us, _, rfl, ⟨-, he⟩, rfl⟩ := h
      rw [List.append_nil]
      exact Derives.nameless_restFirst he _
    all_goals trivial
  | restNext list =>
    rcases list with _ | ⟨_ | _⟩ | _
    case tuple.types =>
      obtain ⟨us, _, rfl, ⟨-, hr⟩, _, rfl, ls, _, rfl, ⟨-, he⟩, rfl⟩ := h
      rw [List.append_nil]
      exact Derives.nameless_restNext hr he _
    case tuple.returns =>
      obtain ⟨us, _, rfl, ⟨-, hr⟩, _, rfl, ls, _, rfl, ⟨-, he⟩, rfl⟩ := h
      rw [List.append_nil]
      exact Derives.nameless_restNext hr he _
    all_goals trivial
  | plain type =>
    cases type with
    | tensor k => cases k <;> trivial
    | _ => trivial
  | _ => trivial

/-- **Both grammars derive the same without names**: what is derived as an element of a tuple of one
kind is derived without its names as an element of a tuple of the other, with the same
expression. -/
theorem Derives.element_nameless (kind kind' : TupleKind) {ks : List Token} {e : TypeExpr}
    (h : Derives [.nonterminal (.typed kind'.element)] ks (e, ())) :
    Derives [.nonterminal (.typed kind.element)] (nameless ks) (e, ()) := by
  obtain ⟨us, _, rfl, ⟨-, hn⟩, rfl⟩ := h.fold_and (M := DerivesNameless kind) derivesNameless_act
  rw [List.append_nil]
  exact (derivesNameless_element kind').1 hn

end TensorSig
