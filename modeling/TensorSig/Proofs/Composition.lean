import TensorSig.Proofs.ErrorOffset
import TensorSig.Proofs.Moving
import TensorSig.Proofs.RoundTrip

/-!
# Texts made of texts

A declaration is a name, a parameter list between parentheses, an arrow and a result, and a
parameter list consists of parameters with commas between them. Each of these parts is the text of a
start rule of its own, and what the whole yields is made of what the parts yield, failures included.

* `Terminal.IsMark`, `Spells.exists_of_mark`: a parenthesis in a text is a token wherever it stands,
  so a text can be cut there.
* `declaration`, `read_declaration`, `exists_of_read_declaration`: a declaration is read as its
  parts are, and only if they are.
* `Failure.relocated`, `Failure.moved`: the failure of a part as that of the whole.
* `accepted_declaration_iff`, `parse_declaration`: what a declaration yields.
* `parse_params_of_forall₂`: what a parameter list yields.
* `parse_composition`: both together.
-/

namespace TensorSig

/-! ## Cutting at a parenthesis -/

namespace Terminal

/-- A character that stands in no word but that of one terminal. -/
structure IsMark (t : Terminal) (c : Char) : Prop where
  words_eq : t.words = {[c]}
  isSpace_eq_false : Text.isSpace c = false
  eq_of_mem : ∀ {u : Terminal} {w : List Char}, w ∈ u.words → c ∈ w → u = t ∧ w = [c]

theorem IsMark.of_spelling {t : Terminal} {c : Char} (ht : t.words = {[c]})
    (hs : Text.isSpace c = false) (hn : isNumeralPart c = false) (hp : isNamePart c = false)
    (h : ∀ u ∈ all, ∀ s ∈ u.spelling?, c ∈ s.toList → u = t ∧ s.toList = [c]) : t.IsMark c where
  words_eq := ht
  isSpace_eq_false := hs
  eq_of_mem := by
    intro u w hw hc
    cases hu : u.spelling? with
    | some s =>
      rw [words_of_spelling? hu] at hw
      obtain rfl := mem_singleton_language.1 hw
      exact h u (mem_all u) s hu hc
    | none =>
      rcases part_of_mem_classWords hu hw c hc with h' | h'
      · rw [hn] at h'
        cases h'
      · rw [hp] at h'
        cases h'

theorem isMark_openParen : openParen.IsMark '(' :=
  .of_spelling rfl (by decide) (by decide) (by decide) (by decide +kernel)

theorem isMark_closeParen : closeParen.IsMark ')' :=
  .of_spelling rfl (by decide) (by decide) (by decide) (by decide +kernel)

end Terminal

/-- What comes before a character in a text starts with all that the character is not in. -/
theorem exists_append_of_notMem {c : Char} {a b g x : List Char} (hg : c ∉ g)
    (h : a ++ c :: b = g ++ x) : ∃ a', a = g ++ a' ∧ x = a' ++ c :: b := by
  rcases List.append_eq_append_iff.1 h with ⟨m, rfl, hm⟩ | ⟨m, rfl, rfl⟩
  · cases m with
    | nil => exact ⟨[], by simp, hm.symm⟩
    | cons d m =>
      obtain ⟨rfl, -⟩ := List.cons.inj hm
      exact absurd (by simp) hg
  · exact ⟨m, rfl, rfl⟩

namespace Spells

variable {offset : Nat} {ks : List Token} {text : List Char}

/-- A character that is no white space is in a text exactly when it is in one of the tokens. -/
theorem mem_iff (h : Spells offset ks text) {c : Char} (hc : Text.isSpace c = false) :
    c ∈ text ↔ ∃ k ∈ ks, c ∈ k.lexeme.text := by
  induction h with
  | nil hg => simp [hg.notMem hc]
  | cons hg _ _ _ ih => simp [hg.notMem hc, ih]

/-- **A mark in a text is a token**, and the text can be cut there. -/
theorem exists_of_mark {t : Terminal} {c : Char} (hc : t.IsMark c) {a b : List Char}
    (h : Spells offset ks (a ++ c :: b)) : ∃ us ls,
      ks = us ++ ⟨t, ⟨[c], offset + a.length⟩⟩ :: ls ∧ Spells offset us a ∧
        Spells (offset + a.length + 1) ls b := by
  generalize ht : a ++ c :: b = text at h
  induction h generalizing a with
  | nil hg => exact absurd (by simp [← ht]) (hg.notMem hc.isSpace_eq_false)
  | @cons offset gap rest k ks hg hw ho hs ih =>
    obtain ⟨a, rfl, htail⟩ := exists_append_of_notMem (hg.notMem hc.isSpace_eq_false) ht
    -- the mark is behind the first token, or it is that token
    have hbehind : ∀ m, a = k.lexeme.text ++ m → rest = m ++ c :: b → ∃ us ls,
        k :: ks = us ++ ⟨t, ⟨[c], offset + (gap ++ a).length⟩⟩ :: ls ∧
          Spells offset us (gap ++ a) ∧ Spells (offset + (gap ++ a).length + 1) ls b := by
      rintro m rfl hm
      obtain ⟨us, ls, rfl, hu, hl⟩ := ih hm.symm
      rw [Token.stop_add ho] at hl ⊢
      exact ⟨k :: us, ls, rfl, .cons hg hw ho hu, hl⟩
    by_cases hm : c ∈ k.lexeme.text
    · obtain ⟨hk, hkt⟩ := hc.eq_of_mem hw hm
      rw [hkt] at htail
      cases a with
      | nil =>
        obtain rfl := (List.cons.inj htail).2
        obtain ⟨u, ⟨w, o⟩⟩ := k
        obtain rfl : u = t := hk
        obtain rfl : w = [c] := hkt
        obtain rfl : o = offset + gap.length := ho
        rw [List.append_nil]
        exact ⟨[], ks, rfl, .nil hg, hs⟩
      | cons d m =>
        obtain ⟨rfl, hm⟩ := List.cons.inj htail
        exact hbehind m (by rw [hkt]; rfl) hm
    · obtain ⟨m, hm, hr⟩ := exists_append_of_notMem hm htail.symm
      exact hbehind m hm hr

/-- Whether there are marks in a text does not depend on the tokens that it is cut into. -/
theorem terminal_ne_of_mark {t : Terminal} {c : Char} (hc : t.IsMark c) {offset' : Nat}
    {ls : List Token} (h : Spells offset ks text) (h' : Spells offset' ls text)
    (hk : ∀ k ∈ ks, k.terminal ≠ t) : ∀ l ∈ ls, l.terminal ≠ t := by
  rintro l hl rfl
  have hw := h'.mem_words hl
  rw [hc.words_eq] at hw
  have hcl : c ∈ l.lexeme.text := by simp [mem_singleton_language.1 hw]
  obtain ⟨k, hk', hck⟩ :=
    (h.mem_iff hc.isSpace_eq_false).1 ((h'.mem_iff hc.isSpace_eq_false).2 ⟨l, hl, hcl⟩)
  exact hk k hk' (hc.eq_of_mem (h.mem_words hk') hck).1

end Spells

/-! ## Arrows -/

theorem exists_digit_of_cons_mem_integers {w : List Char} (h : '-' :: w ∈ integers) :
    ∃ d v, w = d :: v ∧ d.isDigit = true := by
  obtain ⟨a, ha, b, hb, he⟩ := Language.mem_mul.1 h
  obtain ⟨hn, hd⟩ := mem_digits.1 hb
  obtain ⟨d, v, rfl⟩ := List.exists_cons_of_ne_nil hn
  rcases (Language.mem_add _ _ _).1 ha with ⟨c, -, rfl⟩ | ha
  · obtain ⟨-, rfl⟩ := List.cons.inj he
    exact ⟨d, v, rfl, hd d (by simp)⟩
  · obtain rfl := (Language.mem_one a).1 ha
    obtain ⟨rfl, -⟩ := List.cons.inj he
    exact absurd (hd '-' (by simp)) (by decide)

/-- A minus sign before an angle bracket belongs to an arrow. -/
theorem Terminal.eq_arrow {t : Terminal} {w x rest : List Char} (h : '-' :: w ∈ t.words)
    (hw : '>' :: x = w ++ rest) : t = arrow := by
  cases hs : t.spelling? with
  | some s =>
    have key : ∀ t ∈ all, ∀ s ∈ t.spelling?, '-' ∈ s.toList → t = arrow := by decide +kernel
    rw [words_of_spelling? hs] at h
    exact key t (mem_all t) s hs (by rw [← mem_singleton_language.1 h]; simp)
  | none =>
    have hstart := starts_of_cons_mem_words h
    have hc := mem_classes hs
    simp only [List.mem_cons, List.not_mem_nil, or_false] at hc
    rcases hc with rfl | rfl | rfl | rfl | rfl | rfl
    · obtain ⟨i, hi, f, -, he⟩ := Language.mem_mul.1 h
      obtain ⟨c, v, rfl, -, -⟩ := exists_of_mem_integers hi
      obtain ⟨rfl, rfl⟩ := List.cons.inj he
      obtain ⟨d, v, rfl, hd⟩ := exists_digit_of_cons_mem_integers hi
      obtain ⟨rfl, -⟩ := List.cons.inj hw
      exact absurd hd (by decide)
    · obtain ⟨d, v, rfl, hd⟩ := exists_digit_of_cons_mem_integers h
      obtain ⟨rfl, -⟩ := List.cons.inj hw
      exact absurd hd (by decide)
    · exact absurd hstart (by decide)
    · exact absurd hstart (by decide)
    · exact absurd hstart (by decide)
    · exact absurd hstart (by decide)

/-- An arrow at the start of a text is its first token. -/
theorem Spells.exists_of_arrow {offset : Nat} {ks : List Token} {b : List Char}
    (h : Spells offset ks ('-' :: '>' :: b)) : ∃ ls,
      ks = ⟨.arrow, ⟨['-', '>'], offset⟩⟩ :: ls ∧ Spells (offset + 2) ls b := by
  obtain ⟨k, ls, w, rest, rfl, hk, ht, hw, hs⟩ := h.exists_of_cons (by decide)
  obtain ⟨t, l⟩ := k
  obtain rfl : l = _ := hk
  obtain rfl : t = .arrow := Terminal.eq_arrow hw ht
  obtain rfl : w = ['>'] := (List.cons.inj (mem_singleton_language.1 hw)).2
  obtain rfl : b = rest := (List.cons.inj ht).2
  exact ⟨ls, rfl, hs⟩

/-! ## The tokens of a declaration -/

/-- What a nonterminal derives, one of its rules derives. -/
theorem Derives.exists_rule {n : Nonterminal} {ks : List Token} {v : n.Value}
    (h : Derives [.nonterminal n] ks (v, ())) : ∃ (p : Production) (hp : p.lhs = n)
      (vs : Values p.rhs), Derives p.rhs ks vs ∧ v = hp ▸ p.act vs := by
  cases h with
  | rule p hd hn =>
    cases hn
    rw [List.append_nil]
    exact ⟨p, rfl, _, hd, rfl⟩

theorem Production.eq_function {p : Production} (h : p.lhs = .function) : p = .function := by
  cases p with
  | function => rfl
  | _ => cases h

/-- The tokens of a name. -/
theorem Derives.eq_of_identifier {ks : List Token} {l : Lexeme}
    (h : Derives [.nonterminal .identifier] ks (l, ())) : ks = [⟨.name, l⟩] := by
  obtain ⟨us, _, rfl, hu, rfl⟩ := h.fold writesValue_act
  rw [List.append_nil]
  exact hu

/-- The tokens of a declaration are those of its parts. -/
theorem Derives.exists_of_function {ks : List Token} {e : SignatureExpr}
    (h : Derives [.nonterminal .function] ks (e, ())) : ∃ name o kp c a kr es er,
      ks = ⟨.name, name⟩ :: ⟨.openParen, o⟩ :: (kp ++ ⟨.closeParen, c⟩ :: ⟨.arrow, a⟩ :: kr) ∧
        Derives [.nonterminal .params] kp (es, ()) ∧
        Derives [.nonterminal (.typed .returns)] kr (er, ()) ∧ e = ⟨name.text, es, er⟩ := by
  obtain ⟨p, hp, vs, hd, rfl⟩ := h.exists_rule
  obtain rfl := Production.eq_function hp
  obtain ⟨us, _, rfl, hn, _, rfl, kp, _, rfl, hps, _, rfl, _, rfl, kr, _, rfl, hr, rfl⟩ := hd.holds
  rw [hn.eq_of_identifier, List.append_nil]
  exact ⟨_, _, kp, _, _, kr, _, _, rfl, hps, hr, rfl⟩

/-- A symbol that stands inside of declarations: neither an arrow nor a declaration. -/
def Symbol.IsInner (s : Symbol) : Prop := s ≠ .terminal .arrow ∧ s ≠ .nonterminal .function

theorem Production.isInner {p : Production} (h : p ≠ function) : ∀ s ∈ p.rhs, s.IsInner := by
  cases p with
  | function => exact absurd rfl h
  | restFirst list => rcases list with _ | ⟨_ | _⟩ | _ <;> simp [rhs, ListKind.item, Symbol.IsInner]
  | restNext list => rcases list with _ | ⟨_ | _⟩ | _ <;> simp [rhs, ListKind.item, Symbol.IsInner]
  | _ => simp [rhs, Symbol.IsInner]

/-- **No arrow is inside of a declaration.** -/
theorem Derives.ne_arrow {ss : List Symbol} {ks : List Token} {vs : Values ss}
    (h : Derives ss ks vs) (hs : ∀ s ∈ ss, s.IsInner) : ∀ k ∈ ks, k.terminal ≠ .arrow := by
  intro k hk ha
  have hinner : Symbol.IsInner (.terminal k.terminal) :=
    h.forall_mem (fun p hp => Production.isInner fun he => hp.2 (by rw [he]; rfl)) hs k hk
  exact hinner.1 (by rw [ha])

/-- The parts of a declaration are between the same tokens however they are found. -/
theorem eq_of_declaration_eq {name o c a : Lexeme} {kp kr us ms ls : List Token} {o' c' a' : Lexeme}
    (h : ⟨.name, name⟩ :: ⟨.openParen, o⟩ :: (kp ++ ⟨.closeParen, c⟩ :: ⟨.arrow, a⟩ :: kr) =
      us ++ ⟨.openParen, o'⟩ :: (ms ++ ⟨.closeParen, c'⟩ :: ⟨.arrow, a'⟩ :: ls))
    (hu : ∀ k ∈ us, k.terminal ≠ .openParen) (hp : ∀ k ∈ kp, k.terminal ≠ .arrow)
    (hr : ∀ k ∈ kr, k.terminal ≠ .arrow) : kp = ms ∧ kr = ls := by
  cases us with
  | nil => cases (List.cons.inj h).1
  | cons u us =>
    have h := (List.cons.inj h).2
    cases us with
    | cons v us => exact absurd (by rw [← (List.cons.inj h).1]) (hu v (by simp))
    | nil =>
      have h : (kp ++ [⟨.closeParen, c⟩]) ++ ⟨.arrow, a⟩ :: kr =
          (ms ++ [⟨.closeParen, c'⟩]) ++ ⟨.arrow, a'⟩ :: ls := by
        simpa using (List.cons.inj h).2
      have hp' : (⟨.arrow, a'⟩ : Token) ∉ kp ++ [⟨.closeParen, c⟩] := by
        simpa using fun hm => hp _ hm rfl
      obtain ⟨hm, -, hl⟩ := (List.append_cons_inj_of_notMem hp' fun hm => hr _ hm rfl).1 h
      exact ⟨(List.append_inj' hm rfl).1, hl⟩

/-! ## Reading declarations -/

/-- The text of a declaration: a name, a parameter list between parentheses, an arrow, a result. -/
def declaration (n ps rt : List Char) : List Char :=
  n ++ '(' :: (ps ++ ')' :: '-' :: '>' :: rt)

namespace Apart

variable {k l : Token} {ks ls : List Token}

/-- A token that is no word of a type runs into nothing. -/
theorem cons (h : Apart ks) (hk : ∀ p, k.terminal ≠ .plain p) : Apart (k :: ks) := by
  refine List.isChain_cons.2 ⟨?_, h⟩
  rintro l - ⟨-, p, -, hp, -⟩
  exact hk p hp

/-- No token runs into one that does not start like a name. -/
theorem append_cons {c : Char} {w : List Char} (h : Apart ks) (h' : Apart (l :: ls))
    (hl : l.lexeme.text = c :: w) (hc : c ∉ ['?', 'L', 'O', 'T']) : Apart (ks ++ l :: ls) := by
  refine h.append h' fun k _ m hm hr => ?_
  obtain rfl : l = m := Option.some.inj hm
  obtain ⟨d, v, hd, hm⟩ := hr.exists_cons
  rw [hl] at hd
  obtain ⟨rfl, -⟩ := List.cons.inj hd
  exact hc hm

end Apart

variable {n ps rt : List Char}

/-- **The parts make a declaration**, in which they stand further behind. -/
theorem read_declaration {l : Lexeme} {es : List ParamExpr} {e : TypeExpr}
    (hn : read .identifier n = .ok l) (hps : read .params ps = .ok es)
    (hrt : read .returns rt = .ok e) : read .function (declaration n ps rt) =
      .ok (⟨l.text, es.map (ParamExpr.moved (n.length + 1)),
        e.moved (n.length + ps.length + 4)⟩ : SignatureExpr) := by
  obtain ⟨kn, hsn, -, hdn⟩ := read_eq_ok_iff.1 hn
  obtain rfl := hdn.eq_of_identifier
  obtain ⟨kp, hsp, hap, hdp⟩ := read_eq_ok_iff.1 hps
  obtain ⟨kr, hsr, har, hdr⟩ := read_eq_ok_iff.1 hrt
  have hsp := hsp.moved (n.length + 1)
  have hsr := hsr.moved (n.length + ps.length + 4)
  rw [Nat.zero_add] at hsp hsr
  refine read_eq_ok_iff.2 ⟨[⟨.name, l⟩] ++ ⟨.openParen, ⟨['('], n.length⟩⟩ ::
    (kp.map (Token.moved (n.length + 1)) ++ ⟨.closeParen, ⟨[')'], n.length + 1 + ps.length⟩⟩ ::
      ⟨.arrow, ⟨['-', '>'], n.length + 1 + ps.length + 1⟩⟩ ::
      kr.map (Token.moved (n.length + ps.length + 4))), ?spells, ?apart, ?derives⟩
  case spells =>
    refine hsn.append ?_
    rw [Nat.zero_add]
    refine @Spells.cons _ [] _ _ _ .nil rfl rfl (hsp.append ?_)
    refine @Spells.cons _ [] _ _ _ .nil rfl rfl ?_
    refine @Spells.cons _ [] _ _ _ .nil rfl rfl ?_
    have he : Token.stop ⟨.arrow, ⟨['-', '>'], n.length + 1 + ps.length + 1⟩⟩ =
        n.length + ps.length + 4 := by
      simp only [Token.stop, List.length_cons, List.length_nil]
      omega
    rw [he]
    exact hsr
  case apart =>
    refine .cons (.cons (.append_cons (apart_moved_iff.2 hap)
      (.cons (.cons (apart_moved_iff.2 har) ?_) ?_) rfl (by decide)) ?_) ?_ <;> simp
  case derives =>
    have hdp := hdp.moved (n.length + 1)
    have hdr := hdr.moved (n.length + ps.length + 4)
    exact .single .function (hdn.append (.terminal ⟨_, _⟩ (hdp.append (.terminal ⟨_, _⟩
      (.terminal ⟨_, _⟩ hdr)))))

/-- Tokens in a text that follow a start rule are read by themselves. -/
theorem exists_read_of_moved {r : StartRule} {d : Nat} {ks : List Token} {text : List Char}
    {e : r.Expr} (hs : Spells d ks text) (ha : Apart ks)
    (hd : Derives [.nonterminal r.nonterminal] ks (e, ())) : ∃ e', read r text = .ok e' := by
  rw [← Nat.zero_add d] at hs
  obtain ⟨ls, rfl, hls⟩ := hs.exists_moved
  obtain ⟨⟨e', ⟨⟩⟩, hd'⟩ := hd.exists_of_terminals (show ls.map _ = _ by rw [List.map_map]; rfl)
  exact ⟨e', read_eq_ok_iff.2 ⟨ls, hls, apart_moved_iff.1 ha, hd'⟩⟩

/-- **The parts of a declaration are read** when it is. -/
theorem exists_of_read_declaration {l : Lexeme} {e : SignatureExpr}
    (hn : read .identifier n = .ok l) (h : read .function (declaration n ps rt) = .ok e) :
    (∃ es, read .params ps = .ok es) ∧ ∃ er, read .returns rt = .ok er := by
  obtain ⟨kn, hsn, -, hdn⟩ := read_eq_ok_iff.1 hn
  obtain rfl := hdn.eq_of_identifier
  obtain ⟨ks, hs, ha, hd⟩ := read_eq_ok_iff.1 h
  obtain ⟨name, o, kp, c, a, kr, es, er, rfl, hp, hr, -⟩ := Derives.exists_of_function hd
  obtain ⟨us, ls, hks, hsu, hs⟩ := hs.exists_of_mark Terminal.isMark_openParen
  obtain ⟨ms, ls, rfl, hsm, hs⟩ := hs.exists_of_mark Terminal.isMark_closeParen
  obtain ⟨ls, rfl, hsl⟩ := hs.exists_of_arrow
  have hu := hsn.terminal_ne_of_mark Terminal.isMark_openParen hsu (by simp)
  obtain ⟨rfl, rfl⟩ := eq_of_declaration_eq hks hu (hp.ne_arrow (by simp [Symbol.IsInner]))
    (hr.ne_arrow (by simp [Symbol.IsInner]))
  have hap := ha.tail.tail
  exact ⟨exists_read_of_moved hsm hap.left hp, exists_read_of_moved hsl hap.right.tail.tail hr⟩

/-! ## What a declaration yields -/

/-- A failure with its offset renamed, as that of another text. Only the place and the text of the
report change. -/
def Failure.relocated (source : List Char) (φ : Nat → Nat) : Failure → Failure
  | .signature error => .signature { error with
      span := .ofOffset source (φ error.span.offset.toNat)
      source := String.ofList source }
  | .oversized numeral => .oversized numeral

/-- The failures of denoting an expression with its offsets renamed are those of denoting it, as
failures of the other text. -/
theorem mapError_relocated {α : Type} (text source : List Char) (φ : Nat → Nat)
    (x : Except DenoteFault α) :
    (x.mapError (DenoteFault.relocated φ)).mapError (Failure.ofFault source) =
      (x.mapError (Failure.ofFault text)).mapError (Failure.relocated source φ) := by
  cases x with
  | ok a => rfl
  | error fault => cases fault <;> rfl

/-- The failure of a piece that stands at an offset of a text, as the failure of that text. Only the
place and the text of the report change. -/
def Failure.moved (source : List Char) (d : Nat) : Failure → Failure
  | .signature error => .signature { error with
      span := .ofOffset source (error.span.offset.toNat + d)
      source := String.ofList source }
  | .oversized numeral => .oversized numeral

theorem Failure.moved_eq (source : List Char) (d : Nat) :
    Failure.moved source d = Failure.relocated source (· + d) := by
  funext failure
  cases failure <;> rfl

/-- The failures of denoting an expression that stands further behind are those of denoting it, as
failures of the whole. -/
theorem mapError_moved {α : Type} (text source : List Char) (d : Nat) (x : Except DenoteFault α) :
    (x.mapError (DenoteFault.moved d)).mapError (Failure.ofFault source) =
      (x.mapError (Failure.ofFault text)).mapError (Failure.moved source d) := by
  rw [DenoteFault.moved_eq, Failure.moved_eq, mapError_relocated]

theorem SignatureExpr.mapError_denote {ε : Type} (f : DenoteFault → ε) (name : List Char)
    (es : List ParamExpr) (e : TypeExpr) : (denote ⟨name, es, e⟩).mapError f = do
      let parameters ← (ParamExpr.denoteAll es).mapError f
      let returnType ← e.denote.mapError f
      return ⟨String.ofList name, parameters, returnType⟩ := by
  simp only [denote, mapError_bind]
  rfl

/-- A declaration with a given name follows the grammar exactly when its parts do. -/
theorem accepted_declaration_iff {name : String} (hn : parse .identifier n = .ok name) :
    Accepted .function (declaration n ps rt) ↔ Accepted .params ps ∧ Accepted .returns rt := by
  obtain ⟨l, hl, -⟩ := parse_eq_ok_iff_read.1 hn
  rw [accepted_iff, accepted_iff, accepted_iff]
  constructor
  · rintro ⟨e, he⟩
    exact exists_of_read_declaration hl he
  · rintro ⟨⟨es, hps⟩, e, hrt⟩
    exact ⟨_, read_declaration hl hps hrt⟩

/-- **What a declaration yields** is made of what its parts yield: the failure of the parameter
list, or else that of the result, or else a signature. -/
theorem parse_declaration {name : String} (hn : parse .identifier n = .ok name)
    (hps : Accepted .params ps) (hrt : Accepted .returns rt) :
    parse .function (declaration n ps rt) = do
      let parameters ← (parse .params ps).mapError
        (Failure.moved (declaration n ps rt) (n.length + 1))
      let returnType ← (parse .returns rt).mapError
        (Failure.moved (declaration n ps rt) (n.length + ps.length + 4))
      return (⟨name, parameters, returnType⟩ : Signature) := by
  obtain ⟨l, hl, hname⟩ := parse_eq_ok_iff_read.1 hn
  obtain ⟨es, hes⟩ : ∃ es : List ParamExpr, read .params ps = .ok es := accepted_iff.1 hps
  obtain ⟨e, he⟩ : ∃ e : TypeExpr, read .returns rt = .ok e := accepted_iff.1 hrt
  obtain rfl : String.ofList l.text = name := Except.ok.inj hname
  rw [parse_of_read (read_declaration hl hes he), parse_of_read hes, parse_of_read he,
    ← mapError_moved, ← mapError_moved]
  refine (SignatureExpr.mapError_denote _ _ _ _).trans ?_
  rw [ParamExpr.denoteAll_moved, TypeExpr.denote_moved]
  rfl

/-! ## What a parameter list yields -/

/-- A parameter that stands further behind. -/
theorem WritesParam.moved (d : Nat) {p : ParamItem} {ks : List Token} (h : WritesParam p ks) :
    WritesParam p (ks.map (Token.moved d)) := by
  obtain ⟨e, hd, hv⟩ := h.exists_derives
  have hv : (ParamExpr.moved d e).denote = .ok p :=
    (ParamExpr.denote_moved d e).trans (by rw [hv]; rfl)
  exact Derives.writes (r := .param) (hd.moved d) hv

/-- No token runs into a comma. -/
theorem Apart.append_each {M : ParamItem → List Token → Prop} {xs : List ParamItem} {offset : Nat}
    {ks ls : List Token} {text : List Char} (h : Apart ks) (hl : Apart ls) (hx : Each M xs ls)
    (hs : Spells offset ls text) : Apart (ks ++ ls) := by
  cases hx with
  | nil => rwa [List.append_nil]
  | cons comma _ _ =>
    exact h.append_cons hl (mem_singleton_language.1 (hs.mem_words List.mem_cons_self))
      (by decide)

/-- Parameters, each after a comma. -/
theorem exists_each_of_forall₂ {texts : List (List Char)} {vs : List ParamItem}
    (h : List.Forall₂ (fun p v => parse .param p = .ok v) texts vs) (offset : Nat) :
    ∃ ks, Spells offset ks (texts.flatMap (',' :: ·)) ∧ Apart ks ∧ Each WritesParam vs ks := by
  induction h generalizing offset with
  | nil => exact ⟨[], .nil .nil, .nil, .nil⟩
  | @cons p v texts vs hp _ ih =>
    obtain ⟨kp, hsp, hap, hwp⟩ := parse_eq_ok_iff.1 hp
    obtain ⟨ks, hs, ha, hw⟩ := ih (offset + 1 + p.length)
    have hsp := hsp.moved (offset + 1)
    rw [Nat.zero_add] at hsp
    refine ⟨⟨.comma, ⟨[','], offset⟩⟩ :: (kp.map (Token.moved (offset + 1)) ++ ks), ?_, ?_,
      .cons _ (WritesParam.moved _ hwp) hw⟩
    · rw [List.flatMap_cons]
      exact @Spells.cons _ [] _ _ _ .nil rfl rfl (hsp.append hs)
    · exact .cons ((apart_moved_iff.2 hap).append_each ha hw hs) (by simp)

theorem intercalate_cons (p : List Char) (texts : List (List Char)) :
    [','].intercalate (p :: texts) = p ++ texts.flatMap (',' :: ·) := by
  induction texts generalizing p with
  | nil => simp
  | cons q texts ih => simp [ih q]

/-- **Parameters with commas between them** are a parameter list of what they yield. -/
theorem parse_params_of_forall₂ {texts : List (List Char)} {vs : List ParamItem}
    (h : List.Forall₂ (fun p v => parse .param p = .ok v) texts vs) :
    parse .params ([','].intercalate texts) = .ok vs := by
  cases h with
  | nil => exact parse_eq_ok_iff.2 ⟨[], .nil .nil, .nil, .nil⟩
  | @cons p v texts vs hp hps =>
    obtain ⟨kp, hsp, hap, hwp⟩ := parse_eq_ok_iff.1 hp
    obtain ⟨ks, hs, ha, hw⟩ := exists_each_of_forall₂ hps p.length
    rw [intercalate_cons]
    rw [← Nat.zero_add p.length] at hs
    exact parse_eq_ok_iff.2 ⟨kp ++ ks, hsp.append hs, hap.append_each ha hw hs, .cons hwp hw⟩

/-! ## Both together -/

/-- **Texts are composed of texts.** Behind a name, a declaration follows the grammar exactly when
its parameter list and its result do, and it yields what they yield, with the offsets of their
failures moved. Parameters with commas between them yield the list of what they yield. -/
theorem parse_composition :
    (∀ {n : List Char} {name : String} (ps rt : List Char), parse .identifier n = .ok name →
      (Accepted .function (declaration n ps rt) ↔ Accepted .params ps ∧ Accepted .returns rt) ∧
      (Accepted .params ps → Accepted .returns rt → parse .function (declaration n ps rt) = do
        let parameters ← (parse .params ps).mapError
          (Failure.moved (declaration n ps rt) (n.length + 1))
        let returnType ← (parse .returns rt).mapError
          (Failure.moved (declaration n ps rt) (n.length + ps.length + 4))
        return (⟨name, parameters, returnType⟩ : Signature))) ∧
    ∀ {texts : List (List Char)} {vs : List ParamItem},
      List.Forall₂ (fun p v => parse .param p = .ok v) texts vs →
        parse .params ([','].intercalate texts) = .ok vs :=
  ⟨fun _ _ hn => ⟨accepted_declaration_iff hn, parse_declaration hn⟩, parse_params_of_forall₂⟩

theorem parse_composition_variadic :
    parse .identifier "f".toList = .ok "f" ∧ parse .param "*".toList = .ok .variadic ∧
      parse .returns "()".toList = .ok (.tuple []) ∧
      parse .params "*,*".toList = .ok [.variadic, .variadic] ∧
      parse .function "f(*,*)->()".toList = .ok ⟨"f", [.variadic, .variadic], .tuple []⟩ := by
  have hn : parse .identifier "f".toList = .ok "f" := by
    refine parse_eq_ok_iff.2 ⟨[⟨.name, ⟨['f'], 0⟩⟩], ?_, .singleton _, _, rfl, rfl⟩
    exact @Spells.cons 0 [] _ _ _ .nil (Terminal.mem_words_of_scan rfl) rfl (.nil .nil)
  have hp : parse .param "*".toList = .ok .variadic := by
    refine parse_eq_ok_iff.2 ⟨[⟨.star, ⟨['*'], 0⟩⟩], ?_, .singleton _, .variadic _⟩
    exact @Spells.cons 0 [] _ _ _ .nil rfl rfl (.nil .nil)
  have hr : parse .returns "()".toList = .ok (.tuple []) := by
    refine parse_eq_ok_iff.2 ⟨[⟨.openParen, ⟨['('], 0⟩⟩, ⟨.closeParen, ⟨[')'], 1⟩⟩], ?_,
      by decide, .empty _ _⟩
    refine @Spells.cons 0 [] _ _ _ .nil rfl rfl ?_
    exact @Spells.cons 1 [] _ _ _ .nil rfl rfl (.nil .nil)
  have hps : parse .params "*,*".toList = .ok [.variadic, .variadic] :=
    parse_composition.2 (.cons hp (.cons hp .nil))
  have ha : ∀ {r : StartRule} {text v}, parse r text = .ok v → Accepted r text := by
    intro r text v h error he
    rw [h] at he
    cases he
  refine ⟨hn, hp, hr, hps, ?_⟩
  refine ((parse_composition.1 "*,*".toList "()".toList hn).2 (ha hps) (ha hr)).trans ?_
  rw [hps, hr]
  rfl

end TensorSig
