import TensorSig.Parse

/-!
# Offsets renamed

Offsets go into expressions and reports, and nothing else depends on them: the automaton decides by
the characters, and what an expression denotes does not depend on where it stands. So a map `φ` on
offsets can be applied to the values on a stack before a run or to its outcome after it, as long as
the map moves all of the text that is yet to be read by the same distance.

* `Lexeme.relocated`, `TypeExpr.relocated` and their companions; `Nonterminal.relocate` and
  `Values.relocate` for the values of symbols.
* `relocate_act`: the actions of the rules.
* `reduce?_relocated`, `settle_relocated`, `step_relocated`, `run_relocated`: the automaton.
* `StartRule.denote_relocated`: what expressions denote is the same, and their faults are relocated.
-/

namespace TensorSig

/-! ## Expressions -/

/-- A lexeme with its offset renamed. -/
def Lexeme.relocated (φ : Nat → Nat) (l : Lexeme) : Lexeme := ⟨l.text, φ l.offset⟩

namespace TypeExpr

mutual

/-- A type with its offsets renamed. -/
def relocated (φ : Nat → Nat) : TypeExpr → TypeExpr
  | plain offset type => plain (φ offset) type
  | intList offset first others => intList (φ offset) first others
  | array offset element length => array (φ offset) (element.relocated φ) length
  | tuple offset elements => tuple (φ offset) (relocatedAll φ elements)

/-- Types with their offsets renamed. -/
def relocatedAll (φ : Nat → Nat) : List TypeExpr → List TypeExpr
  | [] => []
  | e :: es => e.relocated φ :: relocatedAll φ es

end

theorem relocatedAll_eq (φ : Nat → Nat) (es : List TypeExpr) :
    relocatedAll φ es = es.map (relocated φ) := by
  induction es with
  | nil => rfl
  | cons e es ih => rw [relocatedAll, ih, List.map_cons]

theorem offset_relocated (φ : Nat → Nat) (e : TypeExpr) : (e.relocated φ).offset = φ e.offset := by
  cases e <;> rfl

end TypeExpr

/-- An entry of a parameter list with its offsets renamed. -/
def ParamExpr.relocated (φ : Nat → Nat) : ParamExpr → ParamExpr
  | parameter type name default? => parameter (type.relocated φ) name default?
  | variadic => variadic

/-- A declaration with its offsets renamed. -/
def SignatureExpr.relocated (φ : Nat → Nat) (e : SignatureExpr) : SignatureExpr :=
  ⟨e.name, e.parameters.map (ParamExpr.relocated φ), e.returnType.relocated φ⟩

/-! ## Values -/

/-- An item of a list with its offsets renamed. -/
def ListKind.relocate (φ : Nat → Nat) : (list : ListKind) → list.Item → list.Item
  | params, e => ParamExpr.relocated φ e
  | tuple _, e => TypeExpr.relocated φ e
  | dims, l => Lexeme.relocated φ l

/-- The value of a nonterminal with its offsets renamed. -/
def Nonterminal.relocate (φ : Nat → Nat) : (n : Nonterminal) → n.Value → n.Value
  | function, e => SignatureExpr.relocated φ e
  | identifier, l => Lexeme.relocated φ l
  | params, es => List.map (ParamExpr.relocated φ) es
  | param, e => ParamExpr.relocated φ e
  | literal, e => e
  | typed _, e => TypeExpr.relocated φ e
  | rest list, es => List.map (list.relocate φ) es

/-- The value of a symbol with its offsets renamed. -/
def Symbol.relocate (φ : Nat → Nat) : (s : Symbol) → s.Value → s.Value
  | terminal _, l => Lexeme.relocated φ l
  | nonterminal n, v => n.relocate φ v

/-- The values of symbols with their offsets renamed. -/
def Values.relocate (φ : Nat → Nat) : (ss : List Symbol) → Values ss → Values ss
  | [], _ => ()
  | s :: ss, vs => (s.relocate φ vs.1, Values.relocate φ ss vs.2)

variable (φ : Nat → Nat)

theorem map_text_relocated (ls : List Lexeme) :
    (ls.map (Lexeme.relocated φ)).map Lexeme.text = ls.map Lexeme.text := by
  rw [List.map_map]
  rfl

theorem relocate_itemValue (list : ListKind) (item : list.item.Value) :
    list.relocate φ (Production.itemValue list item) =
      Production.itemValue list (list.item.relocate φ item) := by
  rcases list with _ | ⟨_ | _⟩ | _ <;> rfl

/-- The actions of the rules do not depend on offsets. -/
theorem relocate_act (p : Production) (vs : Values p.rhs) :
    p.lhs.relocate φ (p.act vs) = p.act (Values.relocate φ p.rhs vs) := by
  cases p with
  | restFirst list => exact congrArg (fun item => [item]) (relocate_itemValue φ list vs.2.1)
  | restNext list =>
    obtain ⟨items, c, item, ⟨⟩⟩ := vs
    change List.map (list.relocate φ) (List.append items [Production.itemValue list item]) =
      List.append (List.map (list.relocate φ) items)
        [Production.itemValue list (list.item.relocate φ item)]
    rw [← relocate_itemValue]
    exact List.map_append
  | intListMany =>
    obtain ⟨word, o, first, others, c, ⟨⟩⟩ := vs
    exact congrArg (TypeExpr.intList (φ (Lexeme.offset word)) (Lexeme.text first))
      (map_text_relocated φ others).symm
  | tupleMany kind =>
    obtain ⟨o, first, others, c, ⟨⟩⟩ := vs
    exact congrArg (TypeExpr.tuple (φ (Lexeme.offset o)))
      (TypeExpr.relocatedAll_eq φ (first :: others))
  | _ => rfl

/-! ## Stacks -/

/-- A frame with the offsets in its value renamed. -/
def Frame.relocated (f : Frame) : Frame := ⟨f.state, f.symbol, f.symbol.relocate φ f.value⟩

theorem top_relocated (r : StartRule) (stack : List Frame) :
    top r (stack.map (Frame.relocated φ)) = top r stack := by
  cases stack <;> rfl

theorem Frame.valueAs?_eq_none {f : Frame} {s : Symbol} (h : f.symbol ≠ s) :
    f.valueAs? s = none := dif_neg h

theorem Frame.valueAs?_relocated (f : Frame) (s : Symbol) :
    (f.relocated φ).valueAs? s = (f.valueAs? s).map (s.relocate φ) := by
  obtain ⟨q, s', v⟩ := f
  by_cases hs : s' = s
  · subst hs
    simp only [Frame.relocated, Frame.valueAs?_mk, Option.map_some]
  · rw [Frame.valueAs?_eq_none hs, Frame.valueAs?_eq_none hs, Option.map_none]

theorem collect?_relocated (ss : List Symbol) (fs : List Frame) :
    collect? ss (fs.map (Frame.relocated φ)) = (collect? ss fs).map (Values.relocate φ ss) := by
  induction fs generalizing ss with
  | nil => cases ss <;> rfl
  | cons f fs ih =>
    cases ss with
    | nil => rfl
    | cons s ss =>
      simp only [List.map_cons, collect?, Frame.valueAs?_relocated, ih]
      cases f.valueAs? s <;> cases collect? ss fs <;> rfl

theorem reduce?_relocated (r : StartRule) (p : Production) (stack : List Frame) :
    reduce? r p (stack.map (Frame.relocated φ)) =
      (reduce? r p stack).map (List.map (Frame.relocated φ)) := by
  simp only [reduce?, ← List.map_take, ← List.map_drop, ← List.map_reverse, collect?_relocated,
    top_relocated]
  cases collect? p.rhs (stack.take p.rhs.length).reverse with
  | none => rfl
  | some vs =>
    cases (top r (stack.drop p.rhs.length)).goto? p.lhs with
    | none => rfl
    | some q =>
      simp only [Option.map_some, List.map_cons, ← relocate_act]
      rfl

/-- No reduction is made where the one that is due fails. -/
theorem settle_of_reduce?_eq_none {r : StartRule} {ahead : Ahead} {p : Production}
    {stack : List Frame} (h : (top r stack).reduces? ahead = some p)
    (h' : reduce? r p stack = none) : settle r ahead stack = stack := by
  rw [settle]
  split
  · rfl
  · rename_i hp
    cases h.symm.trans hp
    split <;> simp_all

theorem settle_relocated (r : StartRule) (ahead : Ahead) (stack : List Frame) :
    settle r ahead (stack.map (Frame.relocated φ)) =
      (settle r ahead stack).map (Frame.relocated φ) := by
  fun_induction settle r ahead stack with
  | case1 stack h => exact settle_of_reduces?_eq_none (by rw [top_relocated, h])
  | case2 stack p h h' =>
    exact settle_of_reduce?_eq_none (by rw [top_relocated, h]) (by rw [reduce?_relocated, h']; rfl)
  | case3 stack p h stack' h' ih =>
    rw [← ih]
    exact settle_of_reduce? (by rw [top_relocated, h]) (by rw [reduce?_relocated, h']; rfl)

theorem accepted?_relocated (r : StartRule) (stack : List Frame) :
    accepted? r (stack.map (Frame.relocated φ)) =
      (accepted? r stack).map (r.nonterminal.relocate φ) := by
  rcases stack with _ | ⟨f, _ | ⟨g, stack⟩⟩
  · rfl
  · exact Frame.valueAs?_relocated φ f _
  · rfl

/-! ## Runs -/

/-- A rejection with its offset renamed. -/
def Rejection.relocated : Rejection → Rejection
  | unreadable offset found expected => unreadable (φ offset) found expected
  | misplaced offset found expected => misplaced (φ offset) found expected
  | incomplete offset expected => incomplete (φ offset) expected

/-- A point of a run with its offsets renamed. -/
def Config.relocated (c : Config) : Config :=
  ⟨c.stack.map (Frame.relocated φ), φ c.offset, c.text⟩

/-- What a step leads to, with offsets renamed. -/
def Step.relocated {r : StartRule} : Step r → Step r
  | shift next => shift (next.relocated φ)
  | accept value => accept (r.nonterminal.relocate φ value)
  | reject why => reject (why.relocated φ)

variable {φ} {r : StartRule}

/-- A step from renamed offsets, where the rest of the text is moved as a whole. -/
theorem step_relocated {c : Config} (h : ∀ i, φ (c.offset + i) = φ c.offset + i) :
    step r (c.relocated φ) = (step r c).relocated φ := by
  simp only [step, Config.relocated, settle_relocated, top_relocated, accepted?_relocated]
  split
  · cases accepted? r (settle r .endOfText c.stack) with
    | some e => rfl
    | none => simp only [Option.map_none, Step.relocated, Rejection.relocated, h]
  · cases firstLexeme? (top r c.stack).acceptable (c.text.dropWhile Text.isSpace) with
    | none => simp only [Step.relocated, Rejection.relocated, h]
    | some found =>
      obtain ⟨t, w, rest⟩ := found
      dsimp only
      cases (top r (settle r (.token t) c.stack)).shift? t with
      | none => simp only [Step.relocated, Rejection.relocated, h]
      | some q =>
        have ho := h ((c.text.takeWhile Text.isSpace).length + w.length)
        simp only [← Nat.add_assoc] at ho
        simp only [Step.relocated, Config.relocated, List.map_cons, ho, ← h]
        rfl

/-- A step never goes back. -/
theorem exists_offset_of_step {c next : Config} (h : step r c = .shift next) :
    ∃ d, next.offset = c.offset + d := by
  unfold step at h
  dsimp only at h
  split at h
  · split at h <;> cases h
  · split at h
    · cases h
    · split at h
      · cases h
      · obtain rfl := Step.shift.inj h
        exact ⟨_, Nat.add_assoc _ _ _⟩

/-- **A run from renamed offsets**, where the rest of the text is moved as a whole, has the same
outcome up to these offsets. -/
theorem run_relocated {c : Config} (h : ∀ i, φ (c.offset + i) = φ c.offset + i) :
    run r (c.relocated φ) =
      ((run r c).map (r.nonterminal.relocate φ)).mapError (Rejection.relocated φ) := by
  fun_induction run r c with
  | case1 c e hs => exact run_of_accept (by rw [step_relocated h, hs]; rfl)
  | case2 c why hs => exact run_of_reject (by rw [step_relocated h, hs]; rfl)
  | case3 c next hs ih =>
    obtain ⟨d, hd⟩ := exists_offset_of_step hs
    have hs' : step r (c.relocated φ) = .shift (next.relocated φ) := by
      rw [step_relocated h, hs]
      rfl
    rw [run_of_shift hs']
    refine ih fun i => ?_
    rw [hd, h, Nat.add_assoc, h, Nat.add_assoc]

/-! ## Denotation -/

/-- A fault of an expression with its offset renamed. -/
def DenoteFault.relocated (φ : Nat → Nat) : DenoteFault → DenoteFault
  | oversized numeral => oversized numeral
  | unsupportedElement offset element => unsupportedElement (φ offset) element

variable (φ)

theorem mapError_bind {ε ε' α β : Type} (g : ε → ε') (x : Except ε α) (f : α → Except ε β) :
    (x >>= f).mapError g = x.mapError g >>= fun a => (f a).mapError g := by
  cases x <;> rfl

theorem readNatural_mapError (digits : List Char) :
    (readNatural digits).mapError (DenoteFault.relocated φ) = readNatural digits := by
  unfold readNatural
  split <;> rfl

theorem readDims_mapError (numerals : List (List Char)) :
    (readDims numerals).mapError (DenoteFault.relocated φ) = readDims numerals := by
  induction numerals with
  | nil => rfl
  | cons numeral numerals ih =>
    simp only [readDims, mapError_bind, readNatural_mapError, ih]
    rfl

theorem TypeExpr.elementKind_relocated (offset : Nat) (v : ValueType) :
    elementKind (φ offset) v = (elementKind offset v).mapError (DenoteFault.relocated φ) := by
  cases v <;> rfl

mutual

/-- What a type denotes does not depend on where it stands, and its faults move along. -/
theorem TypeExpr.denote_relocated :
    ∀ e : TypeExpr, (e.relocated φ).denote = e.denote.mapError (DenoteFault.relocated φ)
  | .plain offset type => rfl
  | .intList offset first others => by
    simp only [relocated, denote, mapError_bind, readDims_mapError]
    rfl
  | .array offset element length => by
    simp only [relocated, denote, mapError_bind, denote_relocated element, readNatural_mapError,
      offset_relocated, elementKind_relocated]
    rfl
  | .tuple offset elements => by
    simp only [relocated, denote, mapError_bind, denoteAll_relocated elements]
    rfl

theorem TypeExpr.denoteAll_relocated : ∀ es : List TypeExpr,
    TypeExpr.denoteAll (TypeExpr.relocatedAll φ es) =
      (TypeExpr.denoteAll es).mapError (DenoteFault.relocated φ)
  | [] => rfl
  | e :: es => by
    simp only [relocatedAll, denoteAll, mapError_bind, denote_relocated e, denoteAll_relocated es]
    rfl

end

theorem LiteralExpr.denote_mapError (e : LiteralExpr) :
    e.denote.mapError (DenoteFault.relocated φ) = e.denote := by
  obtain ⟨form, text⟩ := e
  cases form with
  | integer =>
    unfold denote readInteger
    dsimp only
    split <;> rfl
  | _ => rfl

theorem ParamExpr.denote_relocated (e : ParamExpr) :
    (e.relocated φ).denote = e.denote.mapError (DenoteFault.relocated φ) := by
  cases e with
  | variadic => rfl
  | parameter type name default? =>
    have hd : (LiteralExpr.denoteOptional default?).mapError (DenoteFault.relocated φ) =
        LiteralExpr.denoteOptional default? := by
      cases default? with
      | none => rfl
      | some e =>
        simp only [LiteralExpr.denoteOptional, mapError_bind, LiteralExpr.denote_mapError]
        rfl
    simp only [relocated, denote, mapError_bind, TypeExpr.denote_relocated, hd]
    rfl

theorem ParamExpr.denoteAll_relocated (es : List ParamExpr) :
    denoteAll (es.map (relocated φ)) = (denoteAll es).mapError (DenoteFault.relocated φ) := by
  induction es with
  | nil => rfl
  | cons e es ih =>
    simp only [List.map_cons, denoteAll, mapError_bind, denote_relocated, ih]
    rfl

theorem SignatureExpr.denote_relocated (e : SignatureExpr) :
    (e.relocated φ).denote = e.denote.mapError (DenoteFault.relocated φ) := by
  simp only [relocated, denote, mapError_bind, ParamExpr.denoteAll_relocated,
    TypeExpr.denote_relocated]
  rfl

/-- **What an expression denotes does not depend on where it stands**, and its faults move along. -/
theorem StartRule.denote_relocated (r : StartRule) (e : r.Expr) :
    r.denote (r.nonterminal.relocate φ e) = (r.denote e).mapError (DenoteFault.relocated φ) := by
  cases r with
  | function => exact SignatureExpr.denote_relocated φ e
  | identifier => rfl
  | type => exact TypeExpr.denote_relocated φ e
  | literal => exact (LiteralExpr.denote_mapError φ e).symm
  | param => exact ParamExpr.denote_relocated φ e
  | params => exact ParamExpr.denoteAll_relocated φ e
  | returns => exact TypeExpr.denote_relocated φ e

end TensorSig
