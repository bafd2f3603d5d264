import Mathlib.Data.Nat.Count
import TensorSig.Proofs.TypeGrammars

/-!
# Names of results

What a result is does not depend on the names in it: a text that is read as a result is one that is
read as a type once the names are erased from it, and it yields the same. A text that is read as a
type, in which there are no names, yields the same as a result.

* `tokens`, `tokens_eq`: the tokens that a text is read as.
* `erased`, `keptBefore`: what is left of a text without the characters at given offsets, and the
  number of those that are left before an offset.
* `InName`, `withoutNames`: the offsets inside of names, and a text without them.
* `Spells.erased`: what is left of a text spells the tokens that are left.
* `apart_of_feed?`: no token that is left runs into the next.
* `parse_results`: the outcomes as a type and as a result.
-/

namespace TensorSig

variable {r : StartRule}

/-! ## The tokens of a text -/

/-- The token that was shifted last, on top of a stack. -/
def lastToken? : List Frame → Option Token
  | ⟨_, .terminal t, l⟩ :: _ => some ⟨t, l⟩
  | _ => none

/-- The tokens that are shifted from a point of a run on. -/
def tokensFrom (r : StartRule) (c : Config) : List Token :=
  match _h : step r c with
  | .shift next => (lastToken? next.stack).toList ++ tokensFrom r next
  | _ => []
termination_by c.text.length
decreasing_by exact length_lt_of_step _h

/-- The tokens that a text is read as. -/
def tokens (r : StartRule) (text : List Char) : List Token := tokensFrom r ⟨[], 0, text⟩

theorem tokensFrom_of_shift {c next : Config} (h : step r c = .shift next) :
    tokensFrom r c = (lastToken? next.stack).toList ++ tokensFrom r next := by
  rw [tokensFrom]
  split <;> simp_all

theorem tokensFrom_of_accept {c : Config} {e : r.Expr} (h : step r c = .accept e) :
    tokensFrom r c = [] := by
  rw [tokensFrom]
  split <;> simp_all

theorem lastToken?_of_shiftToken? {stack stack' : List Frame} {k : Token}
    (h : shiftToken? r stack k = some stack') : lastToken? stack' = some k := by
  obtain ⟨q, -, rfl⟩ := Option.map_eq_some_iff.1 h
  rfl

theorem Reads.tokensFrom_eq {c c' : Config} {ks : List Token} (h : Reads r c ks c') :
    tokensFrom r c = ks ++ tokensFrom r c' := by
  induction h with
  | nil => rfl
  | cons ht _ ih =>
    rw [tokensFrom_of_shift ht.step_eq, lastToken?_of_shiftToken? ht.shift, ih]
    rfl

/-- The tokens of an accepted text are those that it spells and that the start symbol derives. -/
theorem tokens_eq {text : List Char} {ks : List Token} {e : r.Expr} (hs : Spells 0 ks text)
    (ha : Apart ks) (hd : Derives [.nonterminal r.nonterminal] ks (e, ())) :
    tokens r text = ks := by
  obtain ⟨c', hr, hacc⟩ := exists_reads_of_derives hs ha hd
  rw [tokens, hr.tokensFrom_eq, tokensFrom_of_accept hacc, List.append_nil]

/-! ## Erasing characters -/

section Erasing

variable (p : Nat → Prop) [DecidablePred p]

/-- A text that starts at an offset, without the characters at the offsets that are marked. -/
def erased (offset : Nat) (text : List Char) : List Char :=
  ((text.zipIdx offset).filter fun c => ¬ p c.2).map Prod.fst

/-- The number of characters before an offset that are not at the offsets that are marked. -/
def keptBefore (offset : Nat) : Nat := offset - Nat.count p offset

variable {p} {offset n : Nat} {text : List Char}

theorem erased_append (text text' : List Char) : erased p offset (text ++ text') =
    erased p offset text ++ erased p (offset + text.length) text' := by
  simp only [erased, List.zipIdx_append, List.filter_append, List.map_append]

theorem erased_eq_self (h : ∀ i, offset ≤ i → i < offset + text.length → ¬ p i) :
    erased p offset text = text := by
  rw [erased, List.filter_eq_self.2, List.zipIdx_map_fst]
  intro c hc
  exact decide_eq_true (h _ (List.le_snd_of_mem_zipIdx hc) (List.snd_lt_add_of_mem_zipIdx hc))

theorem erased_eq_nil (h : ∀ i, offset ≤ i → i < offset + text.length → p i) :
    erased p offset text = [] := by
  rw [erased, List.filter_eq_nil_iff.2, List.map_nil]
  intro c hc
  simpa using h _ (List.le_snd_of_mem_zipIdx hc) (List.snd_lt_add_of_mem_zipIdx hc)

theorem keptBefore_zero : keptBefore p 0 = 0 := Nat.zero_sub _

theorem keptBefore_add_of_not (h : ∀ i, offset ≤ i → i < offset + n → ¬ p i) :
    keptBefore p (offset + n) = keptBefore p offset + n := by
  have hn : Nat.count (fun i => p (offset + i)) n = 0 :=
    Nat.count_of_forall_not fun i hi => h _ (by omega) (by omega)
  have hle := Nat.count_le (p := p) (n := offset)
  rw [keptBefore, keptBefore, Nat.count_add, hn]
  omega

theorem keptBefore_add_of (h : ∀ i, offset ≤ i → i < offset + n → p i) :
    keptBefore p (offset + n) = keptBefore p offset := by
  have hn : Nat.count (fun i => p (offset + i)) n = n :=
    Nat.count_of_forall fun i hi => h _ (by omega) (by omega)
  rw [keptBefore, keptBefore, Nat.count_add, hn]
  omega

end Erasing

/-! ## Texts without names -/

/-- An offset is inside of a name. -/
def InName (ks : List Token) (i : Nat) : Prop :=
  ∃ k ∈ ks, k.terminal = .name ∧ k.lexeme.offset ≤ i ∧ i < k.stop

instance (ks : List Token) : DecidablePred (InName ks) := fun i =>
  inferInstanceAs (Decidable (∃ k ∈ ks, k.terminal = .name ∧ k.lexeme.offset ≤ i ∧ i < k.stop))

/-- A text of a result without the names of the result. -/
def withoutNames (text : List Char) : List Char := erased (InName (tokens .returns text)) 0 text

theorem InName.not_nil {i : Nat} : ¬ InName [] i := by
  rintro ⟨k, hk, -⟩
  cases hk

/-- Inside of the first token. -/
theorem inName_cons_iff_of_lt {k : Token} {ks : List Token} {text : List Char} {i : Nat}
    (hs : Spells k.stop ks text) (hi : i < k.stop) :
    InName (k :: ks) i ↔ k.terminal = .name ∧ k.lexeme.offset ≤ i := by
  constructor
  · rintro ⟨l, hl, hn, ho, -⟩
    rcases List.mem_cons.1 hl with rfl | hl
    · exact ⟨hn, ho⟩
    · have := hs.le_offset hl
      omega
  · exact fun h => ⟨k, List.mem_cons_self, h.1, h.2, hi⟩

/-- Behind the first token. -/
theorem inName_cons_iff_of_le {k : Token} {ks : List Token} {i : Nat} (hi : k.stop ≤ i) :
    InName (k :: ks) i ↔ InName ks i := by
  constructor
  · rintro ⟨l, hl, hn, ho, hlt⟩
    rcases List.mem_cons.1 hl with rfl | hl
    · omega
    · exact ⟨l, hl, hn, ho, hlt⟩
  · rintro ⟨l, hl, h⟩
    exact ⟨l, List.mem_cons_of_mem _ hl, h⟩

/-- **What is left of a text** when the names are erased spells the tokens that are left. -/
theorem Spells.erased {p : Nat → Prop} [DecidablePred p] {offset : Nat} {ks : List Token}
    {text : List Char} (h : Spells offset ks text) (hp : ∀ i, offset ≤ i → (p i ↔ InName ks i)) :
    Spells (keptBefore p offset) ((nameless ks).map (Token.relocated (keptBefore p)))
      (erased p offset text) := by
  induction h with
  | nil hg =>
    rw [erased_eq_self fun i hi _ => mt (hp i hi).1 InName.not_nil]
    exact .nil hg
  | @cons offset gap rest k ks hg hw ho hs ih =>
    have hstop : k.stop = k.lexeme.offset + k.lexeme.text.length := rfl
    have hgap : ∀ i, offset ≤ i → i < offset + gap.length → ¬ p i := by
      intro i hi hlt
      rw [hp i hi, inName_cons_iff_of_lt hs (by omega)]
      omega
    have hword : ∀ i, k.lexeme.offset ≤ i → i < k.lexeme.offset + k.lexeme.text.length →
        (p i ↔ k.terminal = .name) := by
      intro i hi hlt
      rw [hp i (by omega), inName_cons_iff_of_lt hs hlt, and_iff_left hi]
    have ih := ih fun i hi => (hp i (by omega)).trans (inName_cons_iff_of_le hi)
    have hφ : keptBefore p k.lexeme.offset = keptBefore p offset + gap.length := by
      rw [ho, keptBefore_add_of_not hgap]
    rw [erased_append, erased_append, erased_eq_self hgap, ← ho, ← hstop]
    by_cases hk : k.terminal = .name
    · -- the token goes, the white space before it stays
      have hin : ∀ i, k.lexeme.offset ≤ i → i < k.lexeme.offset + k.lexeme.text.length → p i :=
        fun i hi hlt => (hword i hi hlt).2 hk
      rw [erased_eq_nil hin, List.nil_append]
      rw [hstop, keptBefore_add_of hin, hφ] at ih
      obtain ⟨t, l⟩ := k
      obtain rfl : t = .name := hk
      rw [nameless_name]
      exact .gap hg ih
    · have hout : ∀ i, k.lexeme.offset ≤ i → i < k.lexeme.offset + k.lexeme.text.length → ¬ p i :=
        fun i hi hlt => mt (hword i hi hlt).1 hk
      rw [erased_eq_self hout]
      rw [hstop, keptBefore_add_of_not hout] at ih
      obtain ⟨t, l⟩ := k
      rw [nameless_cons hk, List.map_cons]
      exact .cons (k := Token.relocated (keptBefore p) ⟨t, l⟩) hg hw hφ ih

/-! ## Reading what is left -/

/-- No token runs into the next one where there are no names. -/
theorem apart_of_feed? {stack stack' : List Frame} {ks : List Token} {offset : Nat}
    {text : List Char} (hf : feed? r stack ks = some stack') (hs : Spells offset ks text)
    (hn : ∀ k ∈ ks, k.terminal ≠ .name) : Apart ks := by
  induction ks generalizing stack offset text with
  | nil => exact .nil
  | cons k ks ih =>
    obtain ⟨stack₁, hk, hf⟩ := Option.bind_eq_some_iff.1 hf
    rw [List.forall_mem_cons] at hn
    cases hs with
    | cons hg hw ho hs =>
      refine List.isChain_cons.2 ⟨?_, ih hf hs hn.2⟩
      intro l hl hr
      cases ks with
      | nil => cases hl
      | cons l' ls =>
        obtain rfl : l' = l := Option.some.inj hl
        -- the word of a type shifts to its own state, in which only a name makes it longer
        obtain ⟨c, w, hlw, hc⟩ := hr.exists_cons
        obtain ⟨-, p, q, hp, -, -⟩ := hr
        obtain ⟨stack₂, hl₂, -⟩ := Option.bind_eq_some_iff.1 hf
        obtain ⟨z, hz, rfl⟩ := Option.map_eq_some_iff.1 hk
        rw [hp] at hz
        obtain rfl := State.eq_of_shift?_plain hz
        have hword := hs.mem_words List.mem_cons_self
        rw [hlw] at hword
        have hname := State.eq_name_of_mem_acceptable_plain
          (State.mem_acceptable.2 (acts_of_shiftToken? hl₂)) hword hc
        exact hn.2 l' List.mem_cons_self hname

/-! ## Types and results -/

/-- What is read as a type is read as a result. -/
theorem read_returns_of_type {text : List Char} {e : TypeExpr} (h : read .type text = .ok e) :
    read .returns text = .ok e := by
  obtain ⟨ks, hs, ha, hd⟩ := read_eq_ok_iff.1 h
  refine read_eq_ok_iff.2 ⟨ks, hs, ha, ?_⟩
  have hn : nameless ks = ks := nameless_eq_self (Derives.ne_name hd (by decide))
  rw [← hn]
  exact Derives.element_nameless .returns .types hd

/-- The names in a text of a result stand directly behind base types. -/
theorem namesBehindBase_tokens {text : List Char} {e : TypeExpr} (h : read .returns text = .ok e) :
    NamesBehindBase (tokens .returns text) := by
  obtain ⟨ks, hs, ha, hd⟩ := read_eq_ok_iff.1 h
  rw [tokens_eq hs ha hd]
  exact hd.namesBehindBase (by decide)

/-- What is read as a result is read as a type without the names. -/
theorem read_type_withoutNames {text : List Char} {e : TypeExpr}
    (h : read .returns text = .ok e) : read .type (withoutNames text) =
      .ok (e.relocated (keptBefore (InName (tokens .returns text)))) := by
  obtain ⟨ks, hs, ha, hd⟩ := read_eq_ok_iff.1 h
  rw [withoutNames, tokens_eq hs ha hd]
  have hs' := hs.erased (p := InName ks) fun _ _ => Iff.rfl
  rw [keptBefore_zero] at hs'
  have hd' := (Derives.element_nameless .types .returns hd).relocated (keptBefore (InName ks))
  refine read_eq_ok_iff.2 ⟨_, hs', ?_, hd'⟩
  obtain ⟨stack, hf, -⟩ := Derives.recognizes (r := .type) hd'
  refine apart_of_feed? hf hs' fun k hk => ?_
  obtain ⟨l, hl, rfl⟩ := List.mem_map.1 hk
  exact show l.terminal ≠ .name from ne_name_of_mem_nameless hl

/-- **Names have no meaning in results.** A text of a type yields the same as a result. In a text of
a result the names stand directly behind base types, and without them it is the text of a type that
yields the same, up to the place of a failure: the characters erased before it no longer count. -/
theorem parse_results :
    (∀ text, Accepted .type text →
      (parse .returns text : Except Failure ValueType) = parse .type text) ∧
    ∀ text, Accepted .returns text → NamesBehindBase (tokens .returns text) ∧
      Accepted .type (withoutNames text) ∧
      (parse .type (withoutNames text) : Except Failure ValueType) =
        (parse .returns text).mapError (Failure.relocated (withoutNames text) fun o =>
          o - Nat.count (InName (tokens .returns text)) o) := by
  constructor
  · intro text h
    obtain ⟨e, he⟩ : ∃ e : TypeExpr, read .type text = .ok e := accepted_iff.1 h
    rw [parse_of_read he, parse_of_read (read_returns_of_type he)]
    rfl
  · intro text h
    obtain ⟨e, he⟩ : ∃ e : TypeExpr, read .returns text = .ok e := accepted_iff.1 h
    have he' := read_type_withoutNames he
    refine ⟨namesBehindBase_tokens he, accepted_iff.2 ⟨_, he'⟩, ?_⟩
    rw [parse_of_read he', parse_of_read he]
    refine Eq.trans ?_ (mapError_relocated _ _ _ _)
    exact congrArg _ (TypeExpr.denote_relocated _ e)

theorem parse_results_array :
    Accepted .returns "(Tensor a,std::array<Tensor,2>)".toList ∧
      withoutNames "(Tensor a,std::array<Tensor,2>)".toList =
        "(Tensor ,std::array<Tensor,2>)".toList ∧
      Accepted .type "(Tensor ,std::array<Tensor,2>)".toList ∧
      (parse .returns "(Tensor ,std::array<Tensor,2>)".toList : Except Failure ValueType) =
        parse .type "(Tensor ,std::array<Tensor,2>)".toList ∧
      ∃ error, parse .returns "(Tensor a,std::array<Tensor,2>)".toList =
          .error (.signature error) ∧
        error.span = .ofOffset "(Tensor a,std::array<Tensor,2>)".toList 21 ∧
        parse .type "(Tensor ,std::array<Tensor,2>)".toList = .error (.signature { error with
          span := .ofOffset "(Tensor ,std::array<Tensor,2>)".toList 20
          source := "(Tensor ,std::array<Tensor,2>)" }) := by
  obtain ⟨ks, hks⟩ : ∃ ks : List Token, ks =
    [⟨.openParen, ⟨['('], 0⟩⟩, ⟨.plain (.tensor .tensor), ⟨"Tensor".toList, 1⟩⟩,
      ⟨.name, ⟨['a'], 8⟩⟩, ⟨.comma, ⟨[','], 9⟩⟩, ⟨.array, ⟨"std::array".toList, 10⟩⟩,
      ⟨.openAngle, ⟨['<'], 20⟩⟩, ⟨.plain (.tensor .tensor), ⟨"Tensor".toList, 21⟩⟩,
      ⟨.comma, ⟨[','], 27⟩⟩, ⟨.natural, ⟨['2'], 28⟩⟩, ⟨.closeAngle, ⟨['>'], 29⟩⟩,
      ⟨.closeParen, ⟨[')'], 30⟩⟩] := ⟨_, rfl⟩
  have hs : Spells 0 ks "(Tensor a,std::array<Tensor,2>)".toList := by
    subst hks
    refine @Spells.cons 0 [] _ _ _ .nil rfl rfl ?_
    refine @Spells.cons 1 [] _ _ _ .nil rfl rfl ?_
    refine @Spells.cons 7 [' '] _ _ _ (by decide) (Terminal.mem_words_of_scan rfl) rfl ?_
    refine @Spells.cons 9 [] _ _ _ .nil rfl rfl ?_
    refine @Spells.cons 10 [] _ _ _ .nil rfl rfl ?_
    refine @Spells.cons 20 [] _ _ _ .nil rfl rfl ?_
    refine @Spells.cons 21 [] _ _ _ .nil rfl rfl ?_
    refine @Spells.cons 27 [] _ _ _ .nil rfl rfl ?_
    refine @Spells.cons 28 [] _ _ _ .nil (Terminal.mem_words_of_scan rfl) rfl ?_
    refine @Spells.cons 29 [] _ _ _ .nil rfl rfl ?_
    exact @Spells.cons 30 [] _ _ _ .nil rfl rfl (.nil .nil)
  have ha : Apart ks := by
    subst hks
    decide
  -- the array is over a type that it cannot hold, behind the name
  have hb : ∀ l : Lexeme, Derives [.nonterminal (.typed .baseType)]
      [⟨.plain (.tensor .tensor), l⟩] (TypeExpr.plain l.offset (.tensor .tensor), ()) := fun l =>
    .single (.base .tensorType) (.single (.plain (.tensor .tensor)) (.terminal ⟨_, l⟩ .nil))
  have hfirst : ∀ l n : Lexeme, Derives [.nonterminal (.typed .returns)]
      [⟨.plain (.tensor .tensor), l⟩, ⟨.name, n⟩]
      (TypeExpr.plain l.offset (.tensor .tensor), ()) := fun l n =>
    .single .returnsSingle (.single .returnNamed ((hb l).append (.terminal ⟨_, n⟩ .nil)))
  have harray : ∀ w o l c n a : Lexeme, Derives [.nonterminal (.typed .returns)]
      [⟨.array, w⟩, ⟨.openAngle, o⟩, ⟨.plain (.tensor .tensor), l⟩, ⟨.comma, c⟩, ⟨.natural, n⟩,
        ⟨.closeAngle, a⟩]
      (TypeExpr.array w.offset (.plain l.offset (.tensor .tensor)) n.text, ()) :=
    fun w o l c n a => .single .returnsSingle (.single .returnUnnamed (.single (.base .arrayType)
      (.single .array (.terminal ⟨_, w⟩ (.terminal ⟨_, o⟩ ((Derives.single .typeBase (hb l)).append
        (.terminal ⟨_, c⟩ (.terminal ⟨_, n⟩ (.terminal ⟨_, a⟩ .nil)))))))))
  have hd : Derives [.nonterminal (.typed .returns)] ks (TypeExpr.tuple 0
      [.plain 1 (.tensor .tensor), .array 10 (.plain 21 (.tensor .tensor)) ['2']], ()) := by
    subst hks
    exact .single .returnsTuple (.single (.tupleMany .returns) (.terminal ⟨_, _⟩
      ((hfirst _ _).append ((Derives.single (.restFirst (.tuple .returns)) (.terminal ⟨_, _⟩
        (harray _ _ _ _ _ _))).append (.terminal ⟨_, _⟩ .nil)))))
  have hread : read .returns "(Tensor a,std::array<Tensor,2>)".toList = .ok _ :=
    read_eq_ok_iff.2 ⟨ks, hs, ha, hd⟩
  have htokens : tokens .returns "(Tensor a,std::array<Tensor,2>)".toList = ks :=
    tokens_eq hs ha hd
  have herased : withoutNames "(Tensor a,std::array<Tensor,2>)".toList =
      "(Tensor ,std::array<Tensor,2>)".toList := by
    rw [withoutNames, htokens, hks]
    decide
  obtain ⟨-, ht, hp⟩ := parse_results.2 _ (accepted_iff.2 ⟨_, hread⟩)
  rw [herased] at ht hp
  refine ⟨accepted_iff.2 ⟨_, hread⟩, herased, ht, parse_results.1 _ ht, _, parse_of_read hread,
    rfl, ?_⟩
  rw [hp, parse_of_read hread, htokens, hks]
  rfl

end TensorSig
