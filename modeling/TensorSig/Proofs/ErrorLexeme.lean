import TensorSig.Proofs.QuotedText
import TensorSig.Proofs.WhiteSpace

/-!
# What an error depends on

A rejected text is reported with the lexeme that has no place in it, or with a single character
where no lexeme is found. The report is made when that lexeme has been read and says nothing about
the rest of the text, so it stays the same whatever follows behind white space.

* `firstLexeme?_cut`, `exists_strayLexeme`: the lexeme that is found first is found when the text is
  cut behind it.
* `Stuck.exists_lexeme`: so a step that is stuck stays so, for the same reason, and with it
  `exists_lexeme_of_read` the run that ends there.
* `SignatureError.Quotes`: the lexeme that a report quotes, which is determined by the report.
* `parse_of_lexeme`: a report on a text is a report on every text with the same beginning up to and
  with the lexeme and then white space or nothing.
-/

namespace TensorSig

/-! ## Lexemes that are cut off -/

theorem firstLexeme?_cut {ts : List Terminal} {text w rest b : List Char} {t : Terminal}
    (h : firstLexeme? ts text = some (t, w, rest)) (hb : Detached b) :
    firstLexeme? ts (w ++ b) = some (t, w, b) := by
  obtain ⟨before, u, after, rfl, hu, hbefore⟩ := List.findSome?_eq_some_iff.1 h
  obtain ⟨⟨w', rest'⟩, hs, he⟩ := Option.map_eq_some_iff.1 hu
  obtain ⟨rfl, rfl, rfl⟩ : u = t ∧ w' = w ∧ rest' = rest := by simpa using he
  obtain ⟨hw, rfl, -⟩ := Terminal.scan_eq_some_iff.1 hs
  refine List.findSome?_eq_some_iff.2 ⟨before, u, after, rfl, ?_, fun u' hu' => ?_⟩
  · have : u.scan (w' ++ b) = some (w', b) :=
      Terminal.scan_eq_some_iff.2 ⟨hw, rfl, fun v hv hp => (hb.prefix_of_word hv hp).length_le⟩
    rw [this]
    rfl
  · -- no word of a terminal tried before starts the lexeme, since it would start the whole text
    have hnone := Option.map_eq_none_iff.1 (hbefore u' hu')
    refine Option.map_eq_none_iff.2 (Terminal.scan_eq_none_iff.2 fun v hv hp => ?_)
    have hp' := (hb.prefix_of_word hv hp).trans (List.prefix_append w' rest')
    exact Terminal.scan_eq_none_iff.1 hnone v hv hp'

/-- A lexeme: a word of some terminal, or a single character. -/
def IsLexeme (w : List Char) : Prop := (∃ t : Terminal, w ∈ t.words) ∨ ∃ c, w = [c]

/-- The piece of a text that is reported as stray is found again when the text is cut behind it. -/
theorem exists_strayLexeme (c : Char) (text : List Char) : ∃ w rest, text = w ++ rest ∧
    strayLexeme (c :: text) = c :: w ∧ IsLexeme (c :: w) ∧
    ∀ b, Detached b → strayLexeme (c :: w ++ b) = c :: w := by
  cases h : firstLexeme? Terminal.ranked (c :: text) with
  | some found =>
    obtain ⟨t, v, rest⟩ := found
    obtain ⟨u, -, hu⟩ := List.exists_of_findSome?_eq_some h
    obtain ⟨⟨v', r⟩, hs, he⟩ := Option.map_eq_some_iff.1 hu
    obtain ⟨rfl, rfl, rfl⟩ : u = t ∧ v' = v ∧ r = rest := by simpa using he
    obtain ⟨hv, htext, -⟩ := Terminal.scan_eq_some_iff.1 hs
    obtain ⟨d, w, rfl⟩ := List.exists_cons_of_ne_nil (Terminal.ne_nil_of_mem_words hv)
    obtain ⟨rfl, rfl⟩ := List.cons.inj htext
    refine ⟨w, r, rfl, by rw [strayLexeme, h], Or.inl ⟨u, hv⟩, fun b hb => ?_⟩
    rw [strayLexeme, firstLexeme?_cut h hb]
  | none =>
    refine ⟨[], text, rfl, by rw [strayLexeme, h]; rfl, Or.inr ⟨c, rfl⟩, fun b hb => ?_⟩
    have hn : firstLexeme? Terminal.ranked ([c] ++ b) = none := by
      refine firstLexeme?_eq_none_iff.2 fun t ht v hv hp => ?_
      have hp' : v <+: c :: text := (hb.prefix_of_word hv hp).trans ⟨text, rfl⟩
      exact firstLexeme?_eq_none_iff.1 h t ht v hv hp'
    rw [strayLexeme, hn]
    rfl

/-! ## Steps -/

variable {r : StartRule}

/-- **A step that is stuck at a lexeme** is stuck there in the same way when the text is cut behind
the lexeme. Where there is none, only white space is left. -/
theorem Stuck.exists_lexeme {c : Config} {why : Rejection} (h : Stuck r c why) :
    (why.found? = none ∧ why.offset = c.offset + c.text.length) ∨
    ∃ gap w rest, c.text = gap ++ (w ++ rest) ∧ why.found? = some w ∧
      why.offset = c.offset + gap.length ∧ IsLexeme w ∧
      ∀ b, Detached b → step r ⟨c.stack, c.offset, gap ++ (w ++ b)⟩ = .reject why := by
  cases h with
  | incomplete _ _ => exact Or.inl ⟨rfl, rfl⟩
  | @unreadable gap rest x hg ht hx hw =>
    obtain ⟨w, rest, rfl, hstray, hl, hcut⟩ := exists_strayLexeme x rest
    refine Or.inr ⟨gap, x :: w, rest, ht, congrArg some hstray, rfl, hl, fun b hb => ?_⟩
    have hf : firstLexeme? (top r c.stack).acceptable (x :: w ++ b) = none := by
      refine firstLexeme?_eq_none_iff.2 fun u hu v hv hp => hw u hu v hv ?_
      exact (hb.prefix_of_word hv hp).trans ⟨rest, rfl⟩
    rw [hstray, step_gap hg, List.cons_append, step_cons hx, ← List.cons_append, hf, hcut b hb]
  | @misplaced gap rest k hg ht ho hw hk hs =>
    refine Or.inr ⟨gap, k.lexeme.text, rest, ht, rfl, ho, Or.inl ⟨k.terminal, hw⟩, fun b hb => ?_⟩
    have hf : firstLexeme? (top r c.stack).acceptable (k.lexeme.text ++ b) =
        some (k.terminal, k.lexeme.text, b) :=
      firstLexeme?_eq_some_iff.2 ⟨hk, hw, rfl, fun u _ v hv hp =>
        (hb.prefix_of_word hv hp).length_le⟩
    obtain ⟨x, w, hxw, -⟩ := Terminal.exists_of_mem_words hw
    have hx : Text.isSpace x = false := Terminal.isSpace_eq_false_of_mem_words hw x (by simp [hxw])
    rw [shiftToken?_eq_none_iff] at hs
    rw [step_gap hg, hxw, List.cons_append, step_cons hx, ← List.cons_append, ← hxw, hf, ho]
    dsimp only
    rw [hs]

/-! ## What a report quotes -/

/-- A report quotes a piece of the text that stands where it is placed. -/
structure SignatureError.Quotes (error : SignatureError) (text w : List Char) (o : Nat) :
    Prop where
  offset : error.span.offset = o
  standing : w <+: text.drop o
  message : error.message = "unexpected " ++ String.ofList (Text.quoted w) ++
    (if error.expected.isEmpty then "" else "; expected " ++ ", ".intercalate error.expected)

/-- The report on a rejected text quotes what was found. -/
theorem SignatureError.quotes_ofRejection {text w : List Char} {why : Rejection}
    (hfound : why.found? = some w) (hw : w <+: text.drop why.offset) :
    (ofRejection text why).Quotes text w why.offset where
  offset := rfl
  standing := hw
  message := by
    change why.message = _
    rw [Rejection.message, hfound]
    rfl

/-- **A report quotes one piece of the text only.** -/
theorem SignatureError.Quotes.unique {error : SignatureError} {text v w : List Char} {o p : Nat}
    (h : error.Quotes text v o) (h' : error.Quotes text w p) : w = v ∧ p = o := by
  obtain rfl : o = p := Int.ofNat.inj (h.offset.symm.trans h'.offset)
  have hm := congrArg String.toList (h.message.symm.trans h'.message)
  simp only [String.toList_append, String.toList_ofList, List.append_assoc] at hm
  exact ⟨(Text.quoted_append_inj (List.append_cancel_left hm)).1.symm, rfl⟩

/-- A report on a text that is no array over an unsupported type is made by the automaton. -/
theorem exists_read_error_of_parse {text : List Char} {error : SignatureError}
    (h : parse r text = .error (.signature error)) (hk : error.kind ≠ .unsupportedElement) :
    ∃ why, read r text = .error why ∧ error = .ofRejection text why := by
  rcases exists_report_of_parse h with h | ⟨o, element, rfl⟩
  · exact h
  · exact absurd rfl hk

/-- **A rejected text** is rejected in the same way when it is cut behind the lexeme that was found,
unless only the end of the text was. -/
theorem exists_lexeme_of_read {text : List Char} {why : Rejection} (h : read r text = .error why)
    (hend : why.offset ≠ text.length) : ∃ a w rest, text = a ++ w ++ rest ∧
      why.found? = some w ∧ why.offset = a.length ∧ IsLexeme w ∧
      ∀ b, Detached b → read r (a ++ w ++ b) = .error why := by
  obtain ⟨ks, c, hks, hw, -⟩ := exists_stuck_of_read h
  obtain ⟨t, ht, -, ho⟩ := hks.spells
  dsimp only at ht ho
  rw [Nat.zero_add] at ho
  rcases hw.exists_lexeme with ⟨-, hoff⟩ | ⟨gap, w, rest, hc, hfound, hoff, hl, hcut⟩
  · -- only the end of the text is left, which is excluded
    refine absurd ?_ hend
    rw [hoff, ho, ht, List.length_append]
  have htext : text = t ++ gap ++ w ++ rest := by simp only [ht, hc, List.append_assoc]
  refine ⟨t ++ gap, w, rest, htext, hfound, by rw [hoff, ho, List.length_append], hl,
    fun b hb => ?_⟩
  -- the tokens before the lexeme are read as before, and then the run is stuck as before
  obtain ⟨z, hz, hreads⟩ := hks.cut (hc.trans (List.append_assoc gap w rest).symm) hb
  obtain rfl : z = t ++ gap ++ w := List.append_cancel_right (hz.symm.trans htext)
  have hstep := hcut b hb
  rw [← List.append_assoc] at hstep
  exact hreads.run_eq.trans (run_of_reject hstep)

/-- The line and the column of an offset depend on the text before it alone. -/
theorem Span.ofOffset_congr {text text' : List Char} {o : Nat} (h : text.take o = text'.take o) :
    ofOffset text o = ofOffset text' o := by
  rw [ofOffset, ofOffset, lineOf, lineOf, columnOf, columnOf, h]

/-- **A report depends on the text up to the lexeme that it quotes.** When a text is rejected before
its end, the report quotes a token or a single character that stands in the text at its offset, and
every text that has the same characters up to there and then ends or goes on with white space yields
the same report, whatever it goes on with after that. -/
theorem parse_of_lexeme {text : List Char} {error : SignatureError}
    (h : parse r text = .error (.signature error)) (hk : error.kind ≠ .unsupportedElement)
    (hend : error.span.offset ≠ text.length) :
    ∃ w o, error.Quotes text w o ∧ IsLexeme w ∧
      (∀ v p, error.Quotes text v p → v = w ∧ p = o) ∧
      ∀ b, Detached b → parse r (text.take (o + w.length) ++ b) = .error (.signature { error with
        source := String.ofList (text.take (o + w.length) ++ b) }) := by
  obtain ⟨why, hread, rfl⟩ := exists_read_error_of_parse h hk
  have hne : why.offset ≠ text.length := fun hn => hend (congrArg Int.ofNat hn)
  obtain ⟨a, w, rest, rfl, hfound, ho, hl, hcut⟩ := exists_lexeme_of_read hread hne
  have htake : (a ++ w ++ rest).take (why.offset + w.length) = a ++ w := by
    rw [ho, ← List.length_append, List.take_left]
  have hstanding : w <+: (a ++ w ++ rest).drop why.offset := by
    rw [ho, List.append_assoc, List.drop_left]
    exact List.prefix_append w rest
  have hquotes := SignatureError.quotes_ofRejection hfound hstanding
  refine ⟨w, why.offset, hquotes, hl, fun v p hv => hquotes.unique hv, fun b hb => ?_⟩
  have hspan : Span.ofOffset (a ++ w ++ b) why.offset =
      Span.ofOffset (a ++ w ++ rest) why.offset := by
    refine Span.ofOffset_congr ?_
    rw [ho, List.append_assoc a w b, List.append_assoc a w rest, List.take_left, List.take_left]
  rw [htake, parse_of_read_error (hcut b hb), SignatureError.ofRejection, hspan]
  rfl

theorem parse_of_lexeme_name : ∃ error : SignatureError,
    parse .literal "x y".toList = .error (.signature error) ∧
    error.kind ≠ .unsupportedElement ∧ error.span.offset ≠ "x y".toList.length ∧
    ∀ b, Detached b → parse .literal ("x".toList ++ b) =
      .error (.signature { error with source := String.ofList ("x".toList ++ b) }) := by
  have hread : read .literal "x y".toList =
      .error (.unreadable 0 ['x'] (State.start .literal).acceptable) := run_of_reject rfl
  have hk : (Rejection.unreadable 0 ['x'] (State.start .literal).acceptable).kind ≠
      .unsupportedElement := by decide
  have hend : (0 : Int) ≠ "x y".toList.length := by decide
  obtain ⟨w, o, -, -, hunique, hcut⟩ := parse_of_lexeme (parse_of_read_error hread) hk hend
  obtain ⟨rfl, rfl⟩ := hunique ['x'] 0 (SignatureError.quotes_ofRejection rfl (by decide))
  exact ⟨_, parse_of_read_error hread, hk, hend, hcut⟩

end TensorSig
