import TensorSig.Proofs.Relocation
import TensorSig.Proofs.Spelling

/-!
# Texts inside of texts

A text that stands at some offset in a longer one is read there as it is read by itself, with all
offsets moved. This module moves lexemes, tokens and expressions and shows that spelling,
derivations and denotation move along.

* `Token.relocated`, `Derives.relocated`: derivations do not depend on offsets.
* `Lexeme.moved`, `Token.moved`, `TypeExpr.moved` and their companions; `Nonterminal.move` and
  `Values.move` for the values of symbols.
* `Spells.moved`, `Spells.exists_moved`: spelling, in both directions.
* `apart_moved_iff`: whether tokens run into one another does not depend on where they stand.
* `Derives.moved`, `Derives.exists_of_terminals`: derivations.
* `ParamExpr.denoteAll_moved`, `TypeExpr.denote_moved`: what expressions denote is the same, and
  their faults move.
-/

namespace TensorSig

/-! ## Tokens with renamed offsets -/

/-- A token with its offset renamed. -/
def Token.relocated (φ : Nat → Nat) (k : Token) : Token := ⟨k.terminal, k.lexeme.relocated φ⟩

/-- Derivations do not depend on offsets. -/
theorem Derives.relocated (φ : Nat → Nat) {ss : List Symbol} {ks : List Token} {vs : Values ss}
    (h : Derives ss ks vs) : Derives ss (ks.map (Token.relocated φ)) (Values.relocate φ ss vs) := by
  induction h with
  | nil => exact .nil
  | terminal k _ ih => exact .terminal (k.relocated φ) ih
  | @rule ss ks ls vs p us _ _ ihp ih =>
    rw [List.map_append]
    have := Derives.rule p ihp ih
    rw [← relocate_act] at this
    exact this

/-! ## Lexemes and expressions -/

/-- A lexeme that stands further behind. -/
def Lexeme.moved (d : Nat) (l : Lexeme) : Lexeme := ⟨l.text, l.offset + d⟩

/-- A token that stands further behind. -/
def Token.moved (d : Nat) (k : Token) : Token := ⟨k.terminal, k.lexeme.moved d⟩

namespace TypeExpr

mutual

/-- A type that stands further behind. -/
def moved (d : Nat) : TypeExpr → TypeExpr
  | plain offset type => plain (offset + d) type
  | intList offset first others => intList (offset + d) first others
  | array offset element length => array (offset + d) (element.moved d) length
  | tuple offset elements => tuple (offset + d) (movedAll d elements)

/-- Types that stand further behind. -/
def movedAll (d : Nat) : List TypeExpr → List TypeExpr
  | [] => []
  | e :: es => e.moved d :: movedAll d es

end

mutual

theorem moved_apply (d : Nat) : ∀ e : TypeExpr, e.moved d = e.relocated (· + d)
  | plain _ _ => rfl
  | intList _ _ _ => rfl
  | array offset element length => congrArg (array (offset + d) · length) (moved_apply d element)
  | tuple offset elements => congrArg (tuple (offset + d)) (movedAll_apply d elements)

theorem movedAll_apply (d : Nat) : ∀ es : List TypeExpr, movedAll d es = relocatedAll (· + d) es
  | [] => rfl
  | e :: es => by rw [movedAll, relocatedAll, moved_apply d e, movedAll_apply d es]

end

/-- To move a type is to add to its offsets. -/
theorem moved_eq (d : Nat) : moved d = relocated (· + d) := funext (moved_apply d)

end TypeExpr

/-- An entry of a parameter list that stands further behind. -/
def ParamExpr.moved (d : Nat) : ParamExpr → ParamExpr
  | parameter type name default? => parameter (type.moved d) name default?
  | variadic => variadic

theorem ParamExpr.moved_eq (d : Nat) : ParamExpr.moved d = ParamExpr.relocated (· + d) := by
  funext e
  cases e with
  | parameter type name default? => simp only [moved, relocated, TypeExpr.moved_eq]
  | variadic => rfl

/-- A declaration that stands further behind. -/
def SignatureExpr.moved (d : Nat) (e : SignatureExpr) : SignatureExpr :=
  ⟨e.name, e.parameters.map (ParamExpr.moved d), e.returnType.moved d⟩

theorem SignatureExpr.moved_eq (d : Nat) :
    SignatureExpr.moved d = SignatureExpr.relocated (· + d) := by
  funext e
  simp only [moved, relocated, ParamExpr.moved_eq, TypeExpr.moved_eq]

/-- An item of a list that stands further behind. -/
def ListKind.move (d : Nat) : (list : ListKind) → list.Item → list.Item
  | params, e => ParamExpr.moved d e
  | tuple _, e => TypeExpr.moved d e
  | dims, l => Lexeme.moved d l

/-- The value of a nonterminal that stands further behind. -/
def Nonterminal.move (d : Nat) : (n : Nonterminal) → n.Value → n.Value
  | function, e => SignatureExpr.moved d e
  | identifier, l => Lexeme.moved d l
  | params, es => List.map (ParamExpr.moved d) es
  | param, e => ParamExpr.moved d e
  | literal, e => e
  | typed _, e => TypeExpr.moved d e
  | rest list, es => List.map (list.move d) es

/-- The value of a symbol that stands further behind. -/
def Symbol.move (d : Nat) : (s : Symbol) → s.Value → s.Value
  | terminal _, l => Lexeme.moved d l
  | nonterminal n, v => n.move d v

/-- The values of symbols that stand further behind. -/
def Values.move (d : Nat) : (ss : List Symbol) → Values ss → Values ss
  | [], _ => ()
  | s :: ss, vs => (s.move d vs.1, Values.move d ss vs.2)

theorem ListKind.move_eq (d : Nat) (list : ListKind) : list.move d = list.relocate (· + d) := by
  cases list with
  | params => exact ParamExpr.moved_eq d
  | tuple kind => exact TypeExpr.moved_eq d
  | dims => rfl

theorem Nonterminal.move_eq (d : Nat) (n : Nonterminal) : n.move d = n.relocate (· + d) := by
  cases n with
  | function => exact SignatureExpr.moved_eq d
  | params => exact congrArg List.map (ParamExpr.moved_eq d)
  | param => exact ParamExpr.moved_eq d
  | typed form => exact TypeExpr.moved_eq d
  | rest list => exact congrArg List.map (list.move_eq d)
  | _ => rfl

theorem Symbol.move_eq (d : Nat) (s : Symbol) : s.move d = s.relocate (· + d) := by
  cases s with
  | terminal t => rfl
  | nonterminal n => exact n.move_eq d

theorem Values.move_eq (d : Nat) (ss : List Symbol) :
    Values.move d ss = Values.relocate (· + d) ss := by
  induction ss with
  | nil => rfl
  | cons s ss ih =>
    funext vs
    rw [move, relocate, ih, Symbol.move_eq]

/-! ## Spelling -/

theorem Token.stop_moved (d : Nat) (k : Token) : (k.moved d).stop = k.stop + d := by
  simp only [stop, moved, Lexeme.moved]
  omega

theorem Spells.moved (d : Nat) {offset : Nat} {ks : List Token} {text : List Char}
    (h : Spells offset ks text) : Spells (offset + d) (ks.map (Token.moved d)) text := by
  induction h with
  | nil hg => exact .nil hg
  | @cons offset gap rest k ks hg hw ho _ ih =>
    rw [← Token.stop_moved] at ih
    refine @Spells.cons _ gap rest (k.moved d) _ hg hw ?_ ih
    simp only [Token.moved, Lexeme.moved, ho]
    omega

/-- Tokens that stand further behind are those of the text by itself. -/
theorem Spells.exists_moved {d offset : Nat} {ks : List Token} {text : List Char}
    (h : Spells (offset + d) ks text) :
    ∃ ks', ks = ks'.map (Token.moved d) ∧ Spells offset ks' text := by
  generalize ho : offset + d = o at h
  induction h generalizing offset with
  | nil hg => exact ⟨[], rfl, .nil hg⟩
  | @cons o gap rest k ks hg hw hk _ ih =>
    obtain ⟨t, ⟨w, o'⟩⟩ := k
    dsimp only at hk
    have hstop : (Token.mk t ⟨w, offset + gap.length⟩).stop + d = Token.stop ⟨t, ⟨w, o'⟩⟩ := by
      simp only [Token.stop]
      omega
    obtain ⟨ks', rfl, hs⟩ := ih hstop
    refine ⟨⟨t, ⟨w, offset + gap.length⟩⟩ :: ks', ?_,
      @Spells.cons _ gap rest ⟨t, ⟨w, offset + gap.length⟩⟩ _ hg hw rfl hs⟩
    have he : o' = offset + gap.length + d := by omega
    rw [List.map_cons, he]
    rfl

theorem runsInto_moved_iff {d : Nat} {k l : Token} :
    (k.moved d).RunsInto (l.moved d) ↔ k.RunsInto l := by
  rw [Token.RunsInto, Token.stop_moved, Token.RunsInto]
  refine and_congr_left fun _ => ?_
  simp only [Token.moved, Lexeme.moved]
  omega

theorem apart_moved_iff {d : Nat} {ks : List Token} :
    Apart (ks.map (Token.moved d)) ↔ Apart ks := by
  rw [Apart, List.isChain_map]
  simp only [runsInto_moved_iff]
  exact Iff.rfl

/-! ## Derivations -/

theorem Derives.moved (d : Nat) {ss : List Symbol} {ks : List Token} {vs : Values ss}
    (h : Derives ss ks vs) : Derives ss (ks.map (Token.moved d)) (Values.move d ss vs) := by
  rw [Values.move_eq]
  exact h.relocated (· + d)

/-- What is derived depends on the terminals alone. -/
theorem Derives.exists_of_terminals {ss : List Symbol} {ks : List Token} {vs : Values ss}
    (h : Derives ss ks vs) {ls : List Token}
    (hl : ls.map Token.terminal = ks.map Token.terminal) : ∃ us, Derives ss ls us := by
  induction h generalizing ls with
  | nil =>
    obtain rfl := List.map_eq_nil_iff.1 hl
    exact ⟨(), .nil⟩
  | terminal k _ ih =>
    cases ls with
    | nil => cases hl
    | cons l ls =>
      rw [List.map_cons, List.map_cons, List.cons.injEq] at hl
      obtain ⟨us, hu⟩ := ih hl.2
      rw [← hl.1]
      exact ⟨_, .terminal l hu⟩
  | rule p _ _ ihp ih =>
    rw [List.map_append, List.map_eq_append_iff] at hl
    obtain ⟨ls₁, ls₂, rfl, h₁, h₂⟩ := hl
    obtain ⟨us₁, hu₁⟩ := ihp h₁
    obtain ⟨us₂, hu₂⟩ := ih h₂
    exact ⟨_, .rule p hu₁ hu₂⟩

/-! ## Denotation -/

/-- A fault of an expression that stands further behind. -/
def DenoteFault.moved (d : Nat) : DenoteFault → DenoteFault
  | oversized numeral => oversized numeral
  | unsupportedElement offset element => unsupportedElement (offset + d) element

theorem DenoteFault.moved_eq (d : Nat) : DenoteFault.moved d = DenoteFault.relocated (· + d) := by
  funext fault
  cases fault <;> rfl

/-- What a type denotes does not depend on where it stands, and its faults move along. -/
theorem TypeExpr.denote_moved (d : Nat) (e : TypeExpr) :
    (e.moved d).denote = e.denote.mapError (DenoteFault.moved d) := by
  rw [moved_eq, DenoteFault.moved_eq, denote_relocated]

theorem ParamExpr.denote_moved (d : Nat) (e : ParamExpr) :
    (e.moved d).denote = e.denote.mapError (DenoteFault.moved d) := by
  rw [moved_eq, DenoteFault.moved_eq, denote_relocated]

/-- What a parameter list denotes does not depend on where it stands, and its faults move along. -/
theorem ParamExpr.denoteAll_moved (d : Nat) (es : List ParamExpr) :
    denoteAll (es.map (moved d)) = (denoteAll es).mapError (DenoteFault.moved d) := by
  rw [moved_eq, DenoteFault.moved_eq, denoteAll_relocated]

end TensorSig
