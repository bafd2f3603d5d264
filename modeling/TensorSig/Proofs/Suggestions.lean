import TensorSig.Proofs.QuotedText
import TensorSig.Proofs.WhiteSpace

/-!
# Suggestions at the end of a text

When a text ends too early, whatever is suggested then can really come next: behind a space, any
lexeme that the suggestion describes goes on with the text towards an accepted one. The reductions
before the end of the text are made with what may follow in any context, but they undo nothing: each
of them would have been made as well before whatever the state that it leads to can go on with.

* `Describes`, `describes_description_iff`: the lexemes that a description is about.
* `mem_descriptions`, `pairwise_descriptions`: the descriptions of what was expected, in increasing
  order.
* `IsPath.settle_eq_settle`: the reductions before one thing ahead are among those before another
  that the resulting state can go on with.
* `IsPath.exists_shiftToken?`: what is expected at the end of a text is shifted.
* `parse_suggestions`: every lexeme that a suggestion describes can come next.
-/

namespace TensorSig

/-! ## Descriptions -/

/-- What a description says of a lexeme: it is the lexeme in quotes, or it names a class to which
the lexeme belongs. -/
inductive Describes : String → List Char → Prop
  | quoted (w : List Char) : Describes (String.ofList (Text.quoted w)) w
  | identifier {w : List Char} : w ∈ names → Describes "identifier" w
  | integer {w : List Char} : w ∈ integers → Describes "integer" w
  | natural {w : List Char} : w ∈ digits → Describes "non-negative integer" w
  | float {w : List Char} : w ∈ floats → Describes "floating-point literal" w
  | true {w : List Char} : w ∈ eitherCase 't' 'T' ['r', 'u', 'e'] → Describes "'true'" w
  | false {w : List Char} : w ∈ eitherCase 'f' 'F' ['a', 'l', 's', 'e'] → Describes "'false'" w

theorem quoted_inj {v w : List Char}
    (h : String.ofList (Text.quoted v) = String.ofList (Text.quoted w)) : v = w :=
  (Text.quoted_append_inj (congrArg (· ++ []) (String.ofList_injective h))).1

namespace Terminal

/-- Of the names of classes only those of the truth values are in quotes. -/
theorem className_eq_quoted {t : Terminal} (ht : t.spelling? = none) {w : List Char}
    (h : t.className = String.ofList (Text.quoted w)) :
    ∃ b : Bool, t = .literal (.bool b) ∧ w = (toString b).toList := by
  have hne : ∀ {c : Char} {cs : List Char}, c ∉ ['\'', '"'] →
      String.ofList (c :: cs) ≠ String.ofList (Text.quoted w) := by
    intro c cs hc he
    exact hc ((List.cons.inj (String.ofList_injective he)).1 ▸ Text.quoteFor_mem w)
  have hbool : ∀ b : Bool, (literal (.bool b)).className =
      String.ofList (Text.quoted (toString b).toList) := by decide +kernel
  have hc := mem_classes ht
  simp only [List.mem_cons, List.not_mem_nil, or_false] at hc
  rcases hc with rfl | rfl | rfl | rfl | rfl | rfl
  · exact absurd h (hne (by decide))
  · exact absurd h (hne (by decide))
  · exact ⟨true, rfl, quoted_inj (h.symm.trans (hbool true))⟩
  · exact ⟨false, rfl, quoted_inj (h.symm.trans (hbool false))⟩
  · exact absurd h (hne (by decide))
  · exact absurd h (hne (by decide))

/-- A description in quotes is that of a spelling, or of a truth value. -/
theorem mem_words_of_description_eq {t : Terminal} {w : List Char}
    (h : (Ahead.token t).description = String.ofList (Text.quoted w)) : w ∈ t.words := by
  cases hs : t.spelling? with
  | some s =>
    rw [Ahead.description, hs] at h
    rw [words_of_spelling? hs]
    exact (quoted_inj h).symm
  | none =>
    rw [Ahead.description, hs] at h
    obtain ⟨b, rfl, rfl⟩ := className_eq_quoted hs h
    cases b <;> exact mem_words_of_scan rfl

/-- The name of a class describes nothing else. -/
theorem eq_of_description_eq {t u : Terminal} (hu : u.spelling? = none)
    (h : (Ahead.token t).description = u.className) : t = u := by
  cases hs : t.spelling? with
  | some s =>
    rw [Ahead.description, hs] at h
    obtain ⟨b, -, hb⟩ := className_eq_quoted hu h.symm
    have key : ∀ t ∈ all, ∀ b : Bool, t.spelling? ≠ some (toString b) := by decide +kernel
    exact absurd (hs.trans (congrArg some (String.toList_inj.1 hb))) (key t (mem_all t) b)
  | none =>
    rw [Ahead.description, hs] at h
    have key : ∀ t ∈ [literal .float, literal .integer, literal (.bool true),
        literal (.bool false), natural, name], ∀ u ∈ [literal .float, literal .integer,
        literal (.bool true), literal (.bool false), natural, name],
        t.className = u.className → t = u := by decide +kernel
    exact key t (mem_classes hs) u (mem_classes hu) h

end Terminal

/-- **A description is about the words of its terminal.** -/
theorem describes_description_iff {t : Terminal} {w : List Char} :
    Describes (Ahead.token t).description w ↔ w ∈ t.words := by
  constructor
  · intro h
    generalize hd : (Ahead.token t).description = d at h
    cases h with
    | quoted => exact Terminal.mem_words_of_description_eq hd
    | identifier hw => rwa [Terminal.eq_of_description_eq (u := .name) rfl hd]
    | integer hw => rwa [Terminal.eq_of_description_eq (u := .literal .integer) rfl hd]
    | natural hw => rwa [Terminal.eq_of_description_eq (u := .natural) rfl hd]
    | float hw => rwa [Terminal.eq_of_description_eq (u := .literal .float) rfl hd]
    | true hw => rwa [Terminal.eq_of_description_eq (u := .literal (.bool .true)) rfl hd]
    | false hw => rwa [Terminal.eq_of_description_eq (u := .literal (.bool .false)) rfl hd]
  · intro hw
    cases hs : t.spelling? with
    | some s =>
      rw [Terminal.words_of_spelling? hs] at hw
      rw [mem_singleton_language.1 hw, Ahead.description, hs]
      exact .quoted s.toList
    | none =>
      have hc := Terminal.mem_classes hs
      simp only [List.mem_cons, List.not_mem_nil, or_false] at hc
      rcases hc with rfl | rfl | rfl | rfl | rfl | rfl
      · exact .float hw
      · exact .integer hw
      · exact .true hw
      · exact .false hw
      · exact .natural hw
      · exact .identifier hw

theorem mem_insertOnce {d e : String} {ds : List String} :
    d ∈ insertOnce e ds ↔ d = e ∨ d ∈ ds := by
  induction ds with
  | nil => simp [insertOnce]
  | cons d' ds ih =>
    rw [insertOnce]
    split_ifs with hlt heq
    · simp
    · simp [heq]
    · rw [List.mem_cons, ih, List.mem_cons]
      tauto

theorem pairwise_insertOnce {e : String} {ds : List String} (h : ds.Pairwise (· < ·)) :
    (insertOnce e ds).Pairwise (· < ·) := by
  induction ds with
  | nil => simp [insertOnce]
  | cons d ds ih =>
    obtain ⟨hd, hds⟩ := List.pairwise_cons.1 h
    rw [insertOnce]
    split_ifs with hlt heq
    · refine List.pairwise_cons.2 ⟨fun x hx => ?_, h⟩
      rcases List.mem_cons.1 hx with rfl | hx
      · exact hlt
      · exact String.lt_trans hlt (hd x hx)
    · exact h
    · refine List.pairwise_cons.2 ⟨fun x hx => ?_, ih hds⟩
      rcases mem_insertOnce.1 hx with rfl | hx
      · by_contra hn
        exact heq (String.le_antisymm (String.not_lt.1 hn) (String.not_lt.1 hlt))
      · exact hd x hx

theorem mem_descriptions {d : String} {expected : List Ahead} :
    d ∈ descriptions expected ↔ ∃ a ∈ expected, a.description = d := by
  induction expected with
  | nil => simp [descriptions]
  | cons a expected ih =>
    change d ∈ insertOnce a.description (descriptions expected) ↔ _
    rw [mem_insertOnce, ih]
    simp [eq_comm]

/-- The descriptions of what was expected are in increasing order. -/
theorem pairwise_descriptions (expected : List Ahead) :
    (descriptions expected).Pairwise (· < ·) := by
  induction expected with
  | nil => exact .nil
  | cons a expected ih => exact pairwise_insertOnce ih

/-! ## Reductions at the end of a text -/

/-- Where a state would reduce before a terminal, but not before the end of the text, it is the
state that the reduction leads to that shifts the terminal. -/
theorem State.isSome_shift?_of_reduces? {s q z : State} {p : Production} {t : Terminal}
    (hq : s.goto? p.lhs = some q) (hz : s.walk? p.rhs = some z)
    (hend : z.reduces? .endOfText = none) (h : z.reduces? (.token t) = some p) :
    (q.shift? t).isSome := by
  have key : ∀ s ∈ all, ∀ p ∈ Production.all, ∀ q ∈ s.goto? p.lhs, ∀ z ∈ s.walk? p.rhs,
      z.reduces? .endOfText = none → ∀ t ∈ z.acceptable, z.reduces? (.token t) = some p →
        (q.shift? t).isSome := by decide +kernel
  exact key s (mem_all s) p (Production.mem_all p) q hq z hz hend t
    (mem_acceptable.2 (acts_of_reduces? h)) h

namespace IsPath

variable {r : StartRule} {stack : List Frame}

/-- **Reductions before different things ahead.** What is reduced before one thing ahead is reduced
as well before anything that the resulting state can go on with. -/
theorem settle_eq_settle (h : IsPath r stack) (a : Ahead) {b : Ahead}
    (hb : b ∈ (top r (TensorSig.settle r a stack)).handled) :
    b ∈ (top r stack).handled ∧
      TensorSig.settle r b stack = TensorSig.settle r b (TensorSig.settle r a stack) := by
  fun_induction TensorSig.settle r a stack with
  | case1 stack hn => exact ⟨hb, rfl⟩
  | case2 stack p hp hn => exact ⟨hb, rfl⟩
  | case3 stack p hp stack' hr ih =>
    obtain ⟨hb', he⟩ := ih (h.reduce? hr) hb
    obtain ⟨q, v, hq, hw, hr'⟩ := h.exists_reduce? hp
    obtain rfl := Option.some.inj (hr.symm.trans hr')
    obtain ⟨z, hz, hreduces⟩ := State.exists_walk_of_goto? hq
    obtain rfl := Option.some.inj (hw.symm.trans hz)
    have hp' : (top r stack).reduces? b = some p := hreduces b hb'
    exact ⟨State.mem_handled_of_acts (State.acts_of_reduces? hp'),
      (settle_of_reduce? hp' hr).trans he⟩

/-- **What is expected at the end of a text is shifted**, after the reductions that are due before
it. -/
theorem exists_shiftToken? (h : IsPath r stack) {a : Ahead}
    (ha : a ∈ (top r (TensorSig.settle r .endOfText stack)).expected) :
    ∃ t, a = .token t ∧
      ∀ l : Lexeme, ∃ stack', TensorSig.shiftToken? r stack ⟨t, l⟩ = some stack' := by
  have hacts := State.mem_expected.1 ha
  have hend := h.reduces?_settle .endOfText
  have hpath := h.settle .endOfText
  cases a with
  | endOfText => simp [State.acts, hend] at hacts
  | token t =>
    refine ⟨t, rfl, fun l => ?_⟩
    obtain ⟨-, hsettle⟩ := h.settle_eq_settle .endOfText (State.mem_handled_of_acts hacts)
    have hshift : ((top r (TensorSig.settle r (.token t) stack)).shift? t).isSome := by
      rw [hsettle]
      cases hr : (top r (TensorSig.settle r .endOfText stack)).reduces? (.token t) with
      | none =>
        rw [settle_of_reduces?_eq_none hr]
        simpa [State.acts, hr] using hacts
      | some p =>
        obtain ⟨q, v, hq, hw, hr'⟩ := hpath.exists_reduce? hr
        have hs := State.isSome_shift?_of_reduces? hq hw hend hr
        obtain ⟨q', hq'⟩ := Option.isSome_iff_exists.1 hs
        have htop {below : List Frame} :
            (top r (⟨q, .nonterminal p.lhs, v⟩ :: below)).shift? t = some q' := hq'
        rw [settle_of_reduce? hr hr', settle_of_shift? htop]
        exact hs
    obtain ⟨q, hq⟩ := Option.isSome_iff_exists.1 hshift
    exact ⟨_, Option.map_eq_some_iff.2 ⟨q, hq, rfl⟩⟩

/-- Something is expected where the start symbol is not alone on the stack. -/
theorem expected_ne_nil (h : IsPath r stack) (ha : accepted? r stack = none) :
    (top r stack).expected ≠ [] := by
  obtain ⟨ks, -, hk, -⟩ := exists_completion h 0
  cases ht : top r stack with
  | accepted r' =>
    obtain ⟨e, he⟩ := h.exists_accepted ht
    rw [ha] at he
    cases he
  | _ =>
    rw [ht] at hk
    exact List.ne_nil_of_mem hk

end IsPath

/-! ## Texts that end too early -/

variable {r : StartRule}

/-- What is left of a text that ends too early, and what is expected there. -/
theorem exists_reads_of_incomplete {text : List Char} {why : Rejection}
    (h : read r text = .error why) (hend : why.found? = none) :
    ∃ ks c, Reads r ⟨[], 0, text⟩ ks c ∧ Gap c.text ∧
      accepted? r (settle r .endOfText c.stack) = none ∧
      why.expected = (top r (settle r .endOfText c.stack)).expected := by
  obtain ⟨ks, c, hks, hw, -⟩ := exists_stuck_of_read h
  cases hw with
  | incomplete hg ha => exact ⟨ks, c, hks, hg, ha, rfl⟩
  | unreadable => cases hend
  | misplaced => cases hend

/-- **A token that is shifted goes on with the text** behind a space, and the text can be completed
behind it. -/
theorem Reads.exists_accepted_append {text : List Char} {ks : List Token} {c : Config}
    (h : Reads r ⟨[], 0, text⟩ ks c) (hg : Gap c.text) {t : Terminal} {w : List Char}
    (hw : w ∈ t.words)
    (hs : ∀ l : Lexeme, ∃ stack, shiftToken? r c.stack ⟨t, l⟩ = some stack) :
    ∃ u, Accepted r (text ++ ' ' :: (w ++ ' ' :: u)) := by
  obtain ⟨z, hz, hcut⟩ := h.cut (List.append_nil c.text).symm (Detached.space w)
  obtain rfl : text = z := by rw [← List.append_nil z, ← hz]
  obtain ⟨stack, hstack⟩ := hs ⟨w, c.offset + (c.text ++ [' ']).length⟩
  have htakes : Takes r ⟨c.stack, c.offset, c.text ++ ' ' :: w⟩
      ⟨t, ⟨w, c.offset + (c.text ++ [' ']).length⟩⟩
      ⟨stack, Token.stop ⟨t, ⟨w, c.offset + (c.text ++ [' ']).length⟩⟩, []⟩ := by
    refine ⟨⟨c.text ++ [' '], ?_, by simp, rfl⟩, rfl, hw, fun u _ v _ hp => ?_, hstack⟩
    · exact List.forall_mem_append.2 ⟨hg, List.forall_mem_singleton.2 rfl⟩
    · rw [List.append_nil] at hp
      exact hp.length_le
  obtain ⟨u, hu⟩ := (hcut.append (.cons htakes .nil)).exists_accepted
    (List.append_nil (text ++ ' ' :: w)).symm .nil
  exact ⟨u, by simpa using hu⟩

/-- The step at the end of a text that ends too early. -/
theorem step_of_end {stack : List Frame} {offset : Nat}
    (h : accepted? r (settle r .endOfText stack) = none) : step r ⟨stack, offset, []⟩ =
      .reject (.incomplete offset (top r (settle r .endOfText stack)).expected) := by
  simp [step, h]

/-- The message on an element says nothing about the end of the text. -/
theorem not_prefix_unsupportedElementMessage (element : ValueType) :
    ¬"unexpected end of input".toList <+: (unsupportedElementMessage element).toList := by
  rintro ⟨rest, hrest⟩
  have hu : "unexpected end of input".toList.head? = some 'u' := by decide
  obtain ⟨s, hs, he⟩ : ∃ s : String, s.toList.head? = some 's' ∧
      unsupportedElementMessage element = s ++ element.form :=
    ⟨"std::array element must be a C scalar type (bool, void, double, int64_t), got ", by decide,
      rfl⟩
  have hhead := congrArg List.head? hrest
  rw [he, String.toList_append, List.head?_append, List.head?_append, hu, hs] at hhead
  exact absurd (Option.some.inj hhead) (by decide)

/-- **Suggestions at the end of a text can be followed.** When a text is rejected because it ends
too early, something is suggested, and every lexeme that a suggestion describes can come next behind
a space and be completed to a text that follows the grammar. -/
theorem parse_suggestions {text : List Char} {error : SignatureError}
    (h : parse r text = .error (.signature error))
    (hend : "unexpected end of input".toList <+: error.message.toList) :
    error.expected ≠ [] ∧ ∀ d ∈ error.expected, (∃ w, Describes d w) ∧
      ∀ w, Describes d w → ∃ t, Accepted r (text ++ ' ' :: (w ++ ' ' :: t)) := by
  rcases exists_report_of_parse h with ⟨why, hread, rfl⟩ | ⟨o, element, rfl⟩
  · obtain ⟨ks, c, hks, hg, ha, he⟩ :=
      exists_reads_of_incomplete hread (why.prefix_message_iff.1 hend)
    have hpath : IsPath r c.stack := IsPath.feed? hks.feed? trivial
    have hmem : ∀ d, d ∈ (SignatureError.ofRejection text why).expected ↔
        ∃ a ∈ (top r (settle r .endOfText c.stack)).expected, a.description = d := by
      intro d
      rw [← he]
      exact mem_descriptions
    constructor
    · obtain ⟨a, ha⟩ := List.exists_mem_of_ne_nil _ ((hpath.settle _).expected_ne_nil ha)
      exact List.ne_nil_of_mem ((hmem _).2 ⟨a, ha, rfl⟩)
    · intro d hd
      obtain ⟨a, ha, rfl⟩ := (hmem d).1 hd
      obtain ⟨t, rfl, hshift⟩ := hpath.exists_shiftToken? ha
      obtain ⟨w, hw⟩ := t.exists_mem_words
      exact ⟨⟨w, describes_description_iff.2 hw⟩, fun w hw =>
        hks.exists_accepted_append hg (describes_description_iff.1 hw) hshift⟩
  · exact absurd hend (not_prefix_unsupportedElementMessage element)

theorem parse_suggestions_tuple : ∃ error,
    parse .type "(Tensor".toList = .error (.signature error) ∧
      "unexpected end of input".toList <+: error.message.toList ∧
      error.expected ≠ [] ∧ ∀ d ∈ error.expected, (∃ w, Describes d w) ∧
        ∀ w, Describes d w →
          ∃ t, Accepted .type ("(Tensor".toList ++ ' ' :: (w ++ ' ' :: t)) := by
  have h₁ := @step_of_shift? .type [] 0 '(' "Tensor".toList _ _ _ _ rfl rfl rfl
  have h₂ := @step_of_shift? .type
    [⟨.tupleOpen .types, .terminal .openParen, (⟨['('], 0⟩ : Lexeme)⟩]
    1 'T' "ensor".toList _ _ _ _ rfl rfl rfl
  -- the word of a type is reduced to an item before the end of the text as before a comma
  have hs : accepted? .type (settle .type .endOfText
      [⟨.plain (.tensor .tensor), .terminal (.plain (.tensor .tensor)),
        (⟨"Tensor".toList, 1⟩ : Lexeme)⟩,
        ⟨.tupleOpen .types, .terminal .openParen, (⟨['('], 0⟩ : Lexeme)⟩]) = none := by
    rw [settle_of_reduce? rfl rfl, settle_of_reduce? rfl rfl, settle_of_reduce? rfl rfl,
      settle_of_reduces?_eq_none rfl]
    rfl
  obtain ⟨why, hread, hfound⟩ : ∃ why, read .type "(Tensor".toList = .error why ∧
      why.found? = none :=
    ⟨_, (run_of_shift h₁).trans ((run_of_shift h₂).trans (run_of_reject (step_of_end hs))), rfl⟩
  have hp := parse_of_read_error hread
  have hm := why.prefix_message_iff.2 hfound
  exact ⟨_, hp, hm, parse_suggestions hp hm⟩

end TensorSig
