import TensorSig.Proofs.Isolation
import TensorSig.Proofs.WhiteSpace

/-!
# Leads

In front of the declaration on a line stands its lead: blank characters, then a dash if the line is
an item of a list, then a keyword, the last two with blank characters behind them and both as the
line likes. A declaration is found behind any lead, unless it starts like a marker that the lead
leaves out, since that would be taken for one.

* `Text.IsTrimmed`, `Text.exists_eq_trim`: texts without blank characters at their ends.
* `Blanks`, `Lead`: blank characters, and what they make up together with the two markers.
* `Lead.Precedes`: a lead leaves no marker to the declaration behind it.
* `declaration?_eq_some_iff`: the declaration on a line is what is behind its lead.
* `Lead.Precedes.unique`: a line has one lead only.
* `parse_listing_lead`: a signature is parsed behind a lead as it is by itself.
-/

namespace TensorSig

/-! ## Trimmed texts -/

namespace Text

/-- A text that starts and ends with a character that is not blank. -/
structure IsTrimmed (text : List Char) : Prop where
  ne_nil : text ≠ []
  head : ∀ c ∈ text.head?, isBlank c = false
  last : ∀ c ∈ text.getLast?, isBlank c = false

theorem trimStart_append {ws : List Char} (h : ∀ c ∈ ws, isBlank c = true) (text : List Char) :
    trimStart (ws ++ text) = trimStart text :=
  List.dropWhile_append_of_pos h

theorem trimStart_eq_self {text : List Char} (h : ∀ c ∈ text.head?, isBlank c = false) :
    trimStart text = text := by
  cases text with
  | nil => rfl
  | cons c rest => exact List.dropWhile_cons_of_neg (by simp [h c rfl])

theorem isBlank_of_head?_trimStart {text : List Char} :
    ∀ c ∈ (trimStart text).head?, isBlank c = false := by
  intro c hc
  have hd := List.head?_dropWhile_not isBlank text
  rw [trimStart] at hc
  rwa [hc] at hd

theorem isBlank_of_mem_takeWhile {text : List Char} {c : Char}
    (h : c ∈ text.takeWhile isBlank) : isBlank c = true :=
  List.all_eq_true.1 List.all_takeWhile c h

/-- What trimming leaves of a text is trimmed, or nothing. -/
theorem isTrimmed_trim {text : List Char} (h : trim text ≠ []) : IsTrimmed (trim text) where
  ne_nil := h
  head := by
    obtain ⟨ws, hws⟩ : trim text <+: trimStart text := by
      rw [← List.reverse_suffix, trim, trimEnd, List.reverse_reverse]
      exact List.dropWhile_suffix _
    intro c hc
    refine @isBlank_of_head?_trimStart text c ?_
    rwa [← hws, List.head?_append_of_ne_nil _ h]
  last := fun _ => isBlank_of_getLast?_trim

namespace IsTrimmed

variable {text : List Char}

/-- **Trimming finds a trimmed text** between blank characters. -/
theorem trim_eq (h : IsTrimmed text) {ws ws' : List Char} (hws : ∀ c ∈ ws, isBlank c = true)
    (hws' : ∀ c ∈ ws', isBlank c = true) : trim (ws ++ (text ++ ws')) = text := by
  rw [← List.append_assoc, trim_append hws', trim, trimStart_append hws]
  exact trim_eq_self h.head h.last

/-- A trimmed text with more in front of it that starts with no blank character. -/
theorem append (h : IsTrimmed text) {w : List Char} (hw : ∀ c ∈ w.head?, isBlank c = false) :
    IsTrimmed (w ++ text) where
  ne_nil := List.append_ne_nil_of_right_ne_nil _ h.ne_nil
  head := by
    cases w with
    | nil => exact h.head
    | cons d w => exact hw
  last := by
    rw [List.getLast?_append_of_ne_nil _ h.ne_nil]
    exact h.last

/-- The blank characters behind a trimmed text are all that a text ends with. -/
theorem append_inj (h : IsTrimmed text) {p p' ws ws' : List Char}
    (hws : ∀ c ∈ ws, isBlank c = true) (hws' : ∀ c ∈ ws', isBlank c = true)
    (he : p ++ (text ++ ws) = p' ++ (text ++ ws')) : p = p' ∧ ws = ws' := by
  have hcut : ∀ {q w : List Char}, (∀ c ∈ w, isBlank c = true) →
      (q ++ (text ++ w)).reverse.takeWhile isBlank = w.reverse := by
    intro q w hw
    rw [← List.append_assoc, List.reverse_append,
      List.takeWhile_append_of_pos fun c hc => hw c (List.mem_reverse.1 hc)]
    cases hr : (q ++ text).reverse with
    | nil => simp
    | cons c rest =>
      have hc : text.getLast? = some c := by
        rw [← List.getLast?_append_of_ne_nil q h.ne_nil, ← List.head?_reverse, hr, List.head?_cons]
      rw [List.takeWhile_cons_of_neg (by simp [h.last c hc]), List.append_nil]
  have hw : ws = ws' := by
    rw [← List.reverse_inj, ← hcut hws, he, hcut hws']
  subst hw
  exact ⟨List.append_cancel_right he, rfl⟩

end IsTrimmed

end Text

/-! ## Leads -/

/-- Blank characters, or nothing at all. -/
structure Blanks where
  text : List Char
  isBlank : ∀ c ∈ text, Text.isBlank c = true

/-- The characters that trimming removes are blank. -/
theorem Text.exists_eq_trim (line : List Char) :
    ∃ ws ws' : Blanks, line = ws.text ++ (trim line ++ ws'.text) := by
  refine ⟨⟨line.takeWhile isBlank, fun c => isBlank_of_mem_takeWhile⟩,
    ⟨((trimStart line).reverse.takeWhile isBlank).reverse, fun c hc =>
      isBlank_of_mem_takeWhile (List.mem_reverse.1 hc)⟩, ?_⟩
  dsimp only
  rw [trim, trimEnd, ← List.reverse_append, List.takeWhile_append_dropWhile, List.reverse_reverse,
    trimStart, List.takeWhile_append_dropWhile]

/-- The marker of an item. -/
def itemMarker : List Char := ['-', ' ']

/-- The marker of a declaration. -/
def keywordMarker : List Char := ['f', 'u', 'n', 'c', ':']

/-- A marker with blank characters behind it, if it is there. -/
def markerText (marker : List Char) : Option Blanks → List Char
  | none => []
  | some ws => marker ++ ws.text

theorem isBlank_of_head?_markerText {marker : List Char} (hne : marker ≠ [])
    (h : ∀ c ∈ marker.head?, Text.isBlank c = false) (ws? : Option Blanks) :
    ∀ c ∈ (markerText marker ws?).head?, Text.isBlank c = false := by
  cases ws? with
  | none => nofun
  | some ws =>
    rw [markerText, List.head?_append_of_ne_nil _ hne]
    exact h

/-- Behind a marker stands what starts with no blank character. -/
theorem dropMarker_markerText {marker text : List Char} {ws? : Option Blanks}
    (hhead : ∀ c ∈ text.head?, Text.isBlank c = false) (h : ws? = none → ¬marker <+: text) :
    dropMarker marker (markerText marker ws? ++ text) = text := by
  cases ws? with
  | none => exact dropMarker_eq_self (h rfl)
  | some ws =>
    rw [dropMarker, markerText, List.append_assoc, Text.afterPrefix?_append]
    exact (Text.trimStart_append ws.isBlank text).trans (Text.trimStart_eq_self hhead)

/-- A marker that is dropped was there, with blank characters behind it. -/
theorem exists_eq_markerText {text : List Char} (marker : List Char)
    (hhead : ∀ c ∈ text.head?, Text.isBlank c = false) : ∃ ws? : Option Blanks,
      text = markerText marker ws? ++ dropMarker marker text ∧
        (ws? = none → ¬marker <+: dropMarker marker text) ∧
        ∀ c ∈ (dropMarker marker text).head?, Text.isBlank c = false := by
  by_cases hm : marker <+: text
  · obtain ⟨rest, rfl⟩ := hm
    have hd : dropMarker marker (marker ++ rest) = Text.trimStart rest := by
      rw [dropMarker, Text.afterPrefix?_append]
    rw [hd]
    refine ⟨some ⟨rest.takeWhile Text.isBlank, fun c => Text.isBlank_of_mem_takeWhile⟩, ?_,
      fun h => absurd h (Option.some_ne_none _), Text.isBlank_of_head?_trimStart⟩
    rw [markerText, List.append_assoc, Text.trimStart, List.takeWhile_append_dropWhile]
  · rw [dropMarker_eq_self hm]
    exact ⟨none, rfl, fun _ => hm, hhead⟩

/-- What stands in front of a declaration: blank characters, and each of two markers if it is there,
with blank characters behind it. -/
structure Lead where
  indent : Blanks
  item? : Option Blanks
  keyword? : Option Blanks

namespace Lead

/-- The characters of a lead. -/
def text (l : Lead) : List Char :=
  l.indent.text ++ (markerText itemMarker l.item? ++ markerText keywordMarker l.keyword?)

/-- A lead leaves no marker to the declaration behind it, and no mark of a comment. -/
structure Precedes (l : Lead) (declaration : List Char) : Prop where
  isTrimmed : Text.IsTrimmed declaration
  item : l.item? = none → l.keyword? = none → ¬itemMarker <+: declaration
  keyword : l.keyword? = none → ¬keywordMarker <+: declaration
  comment : l.item? = none → l.keyword? = none → declaration.head? ≠ some '#'

end Lead

/-! ## Lines with leads -/

variable {line text : List Char}

theorem declaration?_eq (line : List Char) : declaration? line =
    let text := dropMarker keywordMarker (dropMarker itemMarker (Text.trim line))
    if Text.trim line = [] ∨ (Text.trim line).head? = some '#' ∨ text = [] then none
    else some text := by
  unfold declaration? keywordMarker itemMarker
  dsimp only
  split <;> rename_i h
  · rw [if_pos]
    simpa [or_assoc] using Or.inl h
  · simp_all

/-- Behind the indent of a lead, a line is trimmed but for the blank characters at its end. -/
theorem Lead.Precedes.isTrimmed_markerText {l : Lead} (h : l.Precedes text) :
    Text.IsTrimmed
      (markerText itemMarker l.item? ++ (markerText keywordMarker l.keyword? ++ text)) :=
  have hkeyword : Text.IsTrimmed (markerText keywordMarker l.keyword? ++ text) :=
    h.isTrimmed.append (isBlank_of_head?_markerText (by decide) (by rintro _ ⟨⟩; rfl) _)
  hkeyword.append (isBlank_of_head?_markerText (by decide) (by rintro _ ⟨⟩; rfl) _)

/-- A marker or the declaration stands there, and neither starts like a comment. -/
theorem Lead.Precedes.head?_markerText {l : Lead} (h : l.Precedes text) :
    (markerText itemMarker l.item? ++ (markerText keywordMarker l.keyword? ++ text)).head? ≠
      some '#' := by
  cases hi : l.item? with
  | some ws => simp [markerText, itemMarker]
  | none =>
    cases hk : l.keyword? with
    | some ws => simp [markerText, keywordMarker]
    | none => exact h.comment hi hk

/-- The declaration behind a lead is found. -/
theorem Lead.Precedes.declaration?_eq {l : Lead} (h : l.Precedes text) (ws : Blanks) :
    declaration? (l.text ++ (text ++ ws.text)) = some text := by
  have htrim : Text.trim (l.text ++ (text ++ ws.text)) =
      markerText itemMarker l.item? ++ (markerText keywordMarker l.keyword? ++ text) := by
    rw [← h.isTrimmed_markerText.trim_eq l.indent.isBlank ws.isBlank]
    simp only [Lead.text, List.append_assoc]
  have hitem : dropMarker itemMarker (Text.trim (l.text ++ (text ++ ws.text))) =
      markerText keywordMarker l.keyword? ++ text := by
    rw [htrim]
    refine dropMarker_markerText (h.isTrimmed.append (isBlank_of_head?_markerText (by decide)
      (by rintro _ ⟨⟩; rfl) _)).head fun hi => ?_
    cases hk : l.keyword? with
    | none => exact h.item hi hk
    | some ws => simp [markerText, keywordMarker, itemMarker]
  rw [TensorSig.declaration?_eq, hitem, dropMarker_markerText h.isTrimmed.head h.keyword, htrim]
  refine if_neg ?_
  simp only [not_or]
  exact ⟨h.isTrimmed_markerText.ne_nil, h.head?_markerText, h.isTrimmed.ne_nil⟩

/-- A line with a declaration has a lead. -/
theorem exists_lead (h : declaration? line = some text) :
    ∃ (l : Lead) (ws : Blanks), l.Precedes text ∧ line = l.text ++ (text ++ ws.text) := by
  rw [declaration?_eq] at h
  dsimp only at h
  split at h
  · cases h
  rename_i hc
  simp only [not_or] at hc
  obtain ⟨hne, hcomment, htext⟩ := hc
  obtain rfl := Option.some.inj h
  have htrim := Text.isTrimmed_trim hne
  obtain ⟨indent, ws, hline⟩ := Text.exists_eq_trim line
  obtain ⟨item?, hi, hi', hhead⟩ := exists_eq_markerText itemMarker htrim.head
  obtain ⟨keyword?, hk, hk', hhead'⟩ := exists_eq_markerText keywordMarker hhead
  refine ⟨⟨indent, item?, keyword?⟩, ws, ⟨⟨htext, hhead', ?last⟩, ?item, hk', ?comment⟩, ?line⟩
  case last =>
    intro c hc
    refine htrim.last c ?_
    rw [hi, hk, List.getLast?_append_of_ne_nil _ (List.append_ne_nil_of_right_ne_nil _ htext),
      List.getLast?_append_of_ne_nil _ htext]
    exact hc
  case item =>
    rintro rfl rfl
    rw [hk] at hi'
    exact hi' rfl
  case comment =>
    rintro rfl rfl
    rw [hi, hk] at hcomment
    exact hcomment
  case line =>
    calc line = indent.text ++ (Text.trim line ++ ws.text) := hline
      _ = indent.text ++ ((markerText itemMarker item? ++ (markerText keywordMarker keyword? ++
            dropMarker keywordMarker (dropMarker itemMarker (Text.trim line)))) ++ ws.text) := by
        rw [← hk, ← hi]
      _ = _ := by simp only [Lead.text, List.append_assoc]

/-- **The declaration on a line is what is behind its lead.** -/
theorem declaration?_eq_some_iff : declaration? line = some text ↔
    ∃ (l : Lead) (ws : Blanks), l.Precedes text ∧ line = l.text ++ (text ++ ws.text) :=
  ⟨exists_lead, fun ⟨_, ws, hl, he⟩ => he ▸ hl.declaration?_eq ws⟩

/-- A line has one lead only, and one end. -/
theorem Lead.Precedes.unique {l l' : Lead} {ws ws' : Blanks} (h : l.Precedes text)
    (he : l.text ++ (text ++ ws.text) = l'.text ++ (text ++ ws'.text)) :
    l.text = l'.text ∧ ws.text = ws'.text :=
  h.isTrimmed.append_inj ws.isBlank ws'.isBlank he

/-! ## Signatures behind leads -/

namespace Blanks

def append (ws ws' : Blanks) : Blanks where
  text := ws.text ++ ws'.text
  isBlank := by
    intro c hc
    rcases List.mem_append.1 hc with hc | hc
    · exact ws.isBlank c hc
    · exact ws'.isBlank c hc

/-- White space between tokens is blank. -/
def ofGap {gap : List Char} (h : Gap gap) : Blanks where
  text := gap
  isBlank := fun c hc => Text.isBlank_of_isSpace (h c hc)

end Blanks

namespace Lead

/-- A lead with more blank characters at its end. -/
def extend (l : Lead) (ws : Blanks) : Lead :=
  match l.item?, l.keyword? with
  | _, some after => { l with keyword? := some (after.append ws) }
  | some after, none => { l with item? := some (after.append ws) }
  | none, none => { l with indent := l.indent.append ws }

theorem text_extend (l : Lead) (ws : Blanks) : (l.extend ws).text = l.text ++ ws.text := by
  obtain ⟨indent, item?, keyword?⟩ := l
  cases keyword? <;> cases item? <;> simp [extend, text, markerText, Blanks.append]

theorem extend_eq_none (l : Lead) (ws : Blanks) :
    ((l.extend ws).item? = none ↔ l.item? = none) ∧
      ((l.extend ws).keyword? = none ↔ l.keyword? = none) := by
  obtain ⟨indent, item?, keyword?⟩ := l
  cases keyword? <;> cases item? <;> simp [extend]

end Lead

/-- A text of tokens is trimmed but for the white space around them. -/
theorem Spells.exists_isTrimmed {offset : Nat} {k : Token} {ks : List Token}
    (h : Spells offset (k :: ks) text) : ∃ gap core gap', Gap gap ∧ Gap gap' ∧
      text = gap ++ (core ++ gap') ∧ Text.IsTrimmed core ∧ k.lexeme.text <+: core := by
  induction ks generalizing offset k text with
  | nil =>
    cases h with
    | @cons _ gap rest _ _ hg hw _ hs =>
      cases hs with
      | nil hg' =>
        refine ⟨gap, k.lexeme.text, rest, hg, hg', rfl, ⟨Terminal.ne_nil_of_mem_words hw, ?_, ?_⟩,
          List.prefix_rfl⟩
        · exact fun c hc => Terminal.isBlank_eq_false_of_mem_words hw c (List.mem_of_mem_head? hc)
        · exact fun c hc => Terminal.isBlank_eq_false_of_mem_words hw c (List.mem_of_getLast? hc)
  | cons l ls ih =>
    cases h with
    | @cons _ gap rest _ _ hg hw _ hs =>
      obtain ⟨gap₁, core, gap', -, hg', rfl, hcore, -⟩ := ih hs
      refine ⟨gap, k.lexeme.text ++ gap₁ ++ core, gap', hg, hg', by simp only [List.append_assoc],
        hcore.append fun c hc => ?_, by simp only [List.append_assoc, List.prefix_append]⟩
      rw [List.head?_append_of_ne_nil _ (Terminal.ne_nil_of_mem_words hw)] at hc
      exact Terminal.isBlank_eq_false_of_mem_words hw c (List.mem_of_mem_head? hc)

/-- A value stays the same when white space is replaced by other white space. -/
theorem parse_ok_gap {r : StartRule} {u v w w' : List Char} {value : r.Result} (hw : Gap w)
    (hw' : Gap w') (h : (w ≠ [] ∧ w' ≠ []) ∨ u = [] ∨ v = [])
    (hp : parse r (u ++ w ++ v) = .ok value) : parse r (u ++ w' ++ v) = .ok value := by
  obtain ⟨e, he, hd⟩ := parse_eq_ok_iff_read.1 hp
  have hmove := @read_gap r (fun o => if o < u.length then o else o - w.length + w'.length)
    u v w w' hw hw' h (fun i hi => if_pos hi) fun i => by rw [if_neg (by omega)]; omega
  rw [he] at hmove
  refine parse_eq_ok_iff_read.2 ⟨_, hmove, ?_⟩
  rw [StartRule.denote_relocated, hd]
  rfl

/-- White space around a text does not matter to its value. -/
theorem parse_of_parse_gap {r : StartRule} {gap core gap' : List Char} {value : r.Result}
    (hg : Gap gap) (hg' : Gap gap') (h : parse r (gap ++ (core ++ gap')) = .ok value) :
    parse r core = .ok value := by
  have hfront : parse r (core ++ gap') = .ok value :=
    @parse_ok_gap r [] (core ++ gap') gap [] value hg .nil (Or.inr (Or.inl rfl)) h
  rw [← List.append_nil (core ++ gap')] at hfront
  simpa using parse_ok_gap hg' .nil (Or.inr (Or.inr rfl)) hfront

/-- A signature starts with its name, and a parenthesis comes next. -/
theorem exists_name_of_parseFunction {s : List Char} {f : Signature}
    (h : parseFunction s = .ok f) : ∃ gap n gap' rest, Gap gap ∧ Gap gap' ∧
      n ∈ Terminal.name.words ∧ s = gap ++ (n ++ (gap' ++ '(' :: rest)) ∧
      f.name = String.ofList n := by
  obtain ⟨ks, hs, -, hw⟩ := parse_eq_ok_iff.1 h
  cases hw with
  | mk name o c a hps hv =>
    cases hs with
    | @cons _ gap _ _ _ hg hn _ hs =>
      cases hs with
      | @cons _ gap' rest _ _ hg' ho _ _ =>
        rw [mem_singleton_language.1 ho]
        exact ⟨gap, name.text, gap', rest, hg, hg', hn, rfl, rfl⟩

/-- What starts a text and has neither white space nor a parenthesis in it starts the name there. -/
theorem prefix_of_prefix_name {n gap rest w : List Char} (hg : Gap gap)
    (hw : ∀ c ∈ w, Text.isSpace c = false) (hp : '(' ∉ w)
    (h : w <+: n ++ (gap ++ '(' :: rest)) : w <+: n := by
  obtain ⟨x, hx⟩ := h
  rw [← List.append_assoc] at hx
  obtain ⟨m, hm, -⟩ := exists_append_of_notMem hp hx.symm
  exact (Detached.of_gap hg).prefix_of_append hw (hm ▸ List.prefix_append w m)

/-- A signature without the white space around it starts like its name. -/
theorem exists_core_of_parseFunction {s : List Char} {f : Signature}
    (h : parseFunction s = .ok f) : ∃ gap core gap', Gap gap ∧ Gap gap' ∧
      s = gap ++ (core ++ gap') ∧ parseFunction core = .ok f ∧ Text.IsTrimmed core ∧
        (∀ c ∈ core.head?, Terminal.isNameStart c = true) ∧
        (keywordMarker <+: core → keywordMarker <+: f.name.toList) := by
  obtain ⟨ks, hs, -, hw⟩ := parse_eq_ok_iff.1 h
  obtain ⟨k, ks, rfl⟩ : ∃ k ls, ks = k :: ls := by
    cases hw
    exact ⟨_, _, rfl⟩
  obtain ⟨gap, core, gap', hg, hg', rfl, hcore, -⟩ := hs.exists_isTrimmed
  have hparse : parseFunction core = .ok f := parse_of_parse_gap hg hg' h
  refine ⟨gap, core, gap', hg, hg', rfl, hparse, hcore, ?_⟩
  obtain ⟨gap₁, n, gap₂, rest, hg₁, hg₂, hn, rfl, hname⟩ := exists_name_of_parseFunction hparse
  obtain rfl : gap₁ = [] := by
    cases gap₁ with
    | nil => rfl
    | cons c gap₁ =>
      have hb := hcore.head c rfl
      rw [Text.isBlank_of_isSpace (hg₁ c List.mem_cons_self)] at hb
      cases hb
  refine ⟨fun c hc => ?head, fun hk => ?keyword⟩
  case head =>
    obtain ⟨d, v, rfl, hd⟩ := Terminal.exists_of_mem_words hn
    obtain rfl : d = c := Option.some.inj hc
    exact hd
  case keyword =>
    rw [hname, String.toList_ofList]
    have hspace : ∀ c ∈ keywordMarker, Text.isSpace c = false := by
      simp [keywordMarker, Text.isSpace]
    exact prefix_of_prefix_name hg₂ hspace (by decide) hk

/-- **A signature behind a lead** is parsed as it is by itself, whatever blank characters are around
it. Where the lead has no keyword, the name must not start like one. -/
theorem parse_listing_lead {s : List Char} {f : Signature} (hs : parseFunction s = .ok f)
    (file? : Option String) (l : Lead) (ws : Blanks)
    (hk : l.keyword? = none → ¬keywordMarker <+: f.name.toList) :
    Listing.parse file? [l.text ++ (s ++ ws.text)] = .ok ⟨[some f], []⟩ := by
  obtain ⟨gap, core, gap', hg, hg', rfl, hparse, hcore, hhead, hname⟩ :=
    exists_core_of_parseFunction hs
  refine Listing.parse_of_parseFunction ?_ hparse
  have hstart : ∀ c, Terminal.isNameStart c = false → core.head? ≠ some c := by
    intro c hc he
    rw [hhead c he] at hc
    cases hc
  have hl : (l.extend (.ofGap hg)).Precedes core := by
    refine ⟨hcore, fun _ _ hp => ?item, fun h hp => ?keyword, fun _ _ => hstart '#' (by decide)⟩
    case item =>
      obtain ⟨rest, rfl⟩ := hp
      exact hstart '-' (by decide) rfl
    case keyword =>
      exact hk ((l.extend_eq_none _).2.1 h) (hname hp)
  have hd := hl.declaration?_eq (Blanks.append (.ofGap hg') ws)
  simpa [Lead.text_extend, Blanks.append, Blanks.ofGap] using hd

theorem parse_listing_lead_item :
    parseFunction "f()->()".toList = .ok ⟨"f", [], .tuple []⟩ ∧ ¬keywordMarker <+: "f".toList ∧
      Listing.parse none ["\t- \xa0f()->()\x0b".toList] =
        .ok ⟨[some ⟨"f", [], .tuple []⟩], []⟩ := by
  have hs : parseFunction "f()->()".toList = .ok ⟨"f", [], .tuple []⟩ :=
    @parseFunction_unit ['f'] (Terminal.mem_words_of_scan rfl)
  have hk : ¬keywordMarker <+: "f".toList := by decide
  refine ⟨hs, hk, ?_⟩
  exact parse_listing_lead hs none ⟨⟨['\t'], List.forall_mem_singleton.2 rfl⟩,
    some ⟨['\xa0'], List.forall_mem_singleton.2 rfl⟩, none⟩
    ⟨['\x0b'], List.forall_mem_singleton.2 rfl⟩ fun _ => hk

end TensorSig
