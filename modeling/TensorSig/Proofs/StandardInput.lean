import TensorSig.Proofs.FileListings

/-!
# Standard input

A text is reported on alike whether it is read from standard input or from a file, as long as line
feeds alone end its lines. The lines of standard input keep their line feeds and those of a file do
not, and the place of a declaration is given under the name of the file or as `<stdin>`; nothing
else tells the two apart.

* `Text.NewlineMode.decode_eq_self`: a text without carriage returns comes through every stream as
  it is.
* `Text.forall₂_splitNewlines`: the lines of a text with their line feeds and without.
* `Declaration.ofLines_congr`: blank characters at the end of lines do not matter.
* `Report`: what a line on standard error says apart from the name.
* `Transcript.exists_reports`: declarations under different names lead to the same reports.
* `run_standardInput`: a run over standard input and a run over a file.
-/

namespace TensorSig

/-! ## Lines with and without their ends -/

namespace Text

theorem unifyNewlines_eq_self {text : List Char} (h : '\r' ∉ text) : unifyNewlines text = text := by
  fun_induction unifyNewlines text with
  | case1 => rfl
  | case2 rest ih => simp at h
  | case3 rest _ ih => simp at h
  | case4 c rest _ _ ih => rw [ih fun hm => h (List.mem_cons_of_mem c hm)]

/-- **A text without carriage returns** comes through every stream as it is. -/
theorem NewlineMode.decode_eq_self (newlines : NewlineMode) {text : List Char}
    (h : '\r' ∉ text) : newlines.decode text = text := by
  cases newlines with
  | kept => rfl
  | unified => exact unifyNewlines_eq_self h

/-- Where line feeds alone end lines there are no carriage returns. -/
theorem notMem_of_isLineBoundary {text : List Char}
    (h : ∀ c ∈ text, isLineBoundary c = true → c = '\n') : '\r' ∉ text :=
  fun hm => absurd (h _ hm (by decide)) (by decide)

/-- Only the characters of the text matter to where it is cut. -/
theorem splitAfter_congr {ends ends' : Char → Bool} {keep : Bool} {text : List Char}
    (h : ∀ c ∈ text, ends c = ends' c) : splitAfter ends keep text = splitAfter ends' keep text := by
  induction text with
  | nil => rfl
  | cons c rest ih =>
    rw [List.forall_mem_cons] at h
    rw [splitAfter, splitAfter, h.1, ih h.2]

/-- A text is cut into the same pieces whether they keep their final characters or not. -/
theorem forall₂_splitAfter (ends : Char → Bool) (text : List Char) :
    List.Forall₂ (fun kept piece => ∃ ws, (∀ c ∈ ws, ends c = true) ∧ kept = piece ++ ws)
      (splitAfter ends true text) (splitAfter ends false text) := by
  induction text with
  | nil => exact .nil
  | cons c rest ih =>
    rw [splitAfter, splitAfter]
    by_cases hc : ends c = true
    · rw [if_pos hc, if_pos hc]
      exact .cons ⟨[c], by simpa using hc, rfl⟩ ih
    · rw [if_neg hc, if_neg hc]
      generalize splitAfter ends true rest = kept at ih
      generalize splitAfter ends false rest = pieces at ih
      cases ih with
      | nil => exact .cons ⟨[], by simp, rfl⟩ .nil
      | cons hpiece hpieces =>
        obtain ⟨ws, hws, rfl⟩ := hpiece
        exact .cons ⟨ws, hws, rfl⟩ hpieces

/-- **The lines of a text with their line feeds and without.** -/
theorem forall₂_splitNewlines {text : List Char}
    (h : ∀ c ∈ text, isLineBoundary c = true → c = '\n') :
    List.Forall₂ (fun kept line => ∃ ws, (∀ c ∈ ws, isBlank c = true) ∧ kept = line ++ ws)
      (splitNewlines text) (splitLines text) := by
  have hends : ∀ c ∈ text, isLineBoundary c = decide (c = '\n') := by
    intro c hc
    rw [Bool.eq_iff_iff, decide_eq_true_iff]
    refine ⟨h c hc, ?_⟩
    rintro rfl
    decide
  rw [splitNewlines, splitLines, splitAfter_congr hends]
  refine (forall₂_splitAfter _ text).imp ?_
  rintro kept line ⟨ws, hws, rfl⟩
  refine ⟨ws, fun c hc => ?_, rfl⟩
  obtain rfl : c = '\n' := by simpa using hws c hc
  decide

end Text

/-- A place on a line of a listing that has a name, as it is written. -/
theorem Span.text_eq {file : String} (h : file ≠ "") (offset line column : Int) :
    (Span.mk offset (some line) (some column) (some file)).text =
      file ++ ":" ++ numberText line ++ ":" ++ numberText column := by
  have hempty : file.isEmpty = false := by simpa using h
  unfold text
  simp only [hempty]
  rfl

namespace Command

/-- **Blank characters at the end of lines** do not matter to the declarations on them. -/
theorem Declaration.ofLines_congr (label : List Char) (n : Nat) {kept lines : List (List Char)}
    (h : List.Forall₂ (fun kept line => ∃ ws, (∀ c ∈ ws, Text.isBlank c = true) ∧ kept = line ++ ws)
      kept lines) : ofLines label n kept = ofLines label n lines := by
  induction h generalizing n with
  | nil => rfl
  | @cons _ line _ _ hline _ ih =>
    obtain ⟨ws, hws, rfl⟩ := hline
    rw [ofLines, ofLines, declaration?_append hws, ih]
    cases hd : declaration? line with
    | none => rfl
    | some text => simp only [columnShift_append hws hd]

/-! ## Declarations under different names -/

/-- A declaration in a place with another name. -/
def Declaration.relabelled (label : List Char) (d : Declaration) : Declaration :=
  { d with label := label }

theorem Declaration.ofLines_relabelled (label label' : List Char) (n : Nat)
    (lines : List (List Char)) :
    ofLines label' n lines = (ofLines label n lines).map (relabelled label') := by
  induction lines generalizing n with
  | nil => rfl
  | cons line lines ih =>
    rw [ofLines, ofLines, ih]
    cases declaration? line <;> rfl

/-- What a line on standard error says apart from the name of the place. -/
structure Report where
  line : Int
  column : Int
  message : String

/-- The line on standard error for a report, with the name of the place. -/
def Report.text (label : List Char) (report : Report) : String :=
  "[parse error] " ++ (String.ofList label ++ ":" ++ Span.numberText report.line ++ ":" ++
    Span.numberText report.column) ++ ": " ++ report.message

/-- What is written about a declaration that does not parse. -/
theorem exists_failureLine {r : StartRule} {text : List Char} {e : SignatureError}
    (h : parse r text = .error (.signature e)) (d : Declaration) :
    ∃ report : Report, ∀ label ≠ [], failureLine (d.relabelled label) e = report.text label := by
  obtain ⟨o, ho⟩ := exists_ofOffset_of_parse h
  refine ⟨⟨d.line, (Span.columnOf text o : Int) + d.shift, e.message⟩, fun label hlabel => ?_⟩
  have hname : String.ofList label ≠ "" := by
    simpa using hlabel
  have hspan : (e.span.relocate d.line (some (String.ofList label)) d.shift).text =
      String.ofList label ++ ":" ++ Span.numberText d.line ++ ":" ++
        Span.numberText ((Span.columnOf text o : Int) + d.shift) := by
    rw [ho]
    exact Span.text_eq hname _ _ _
  exact congrArg (fun place => "[parse error] " ++ place ++ ": " ++ e.message) hspan

/-- **A declaration under different names** leads to the same lines on standard output, the same
reports and the same end. -/
theorem Transcript.exists_reports_singleton (start? : Option StartRule) (dump : Bool)
    (d : Declaration) : ∃ (out : List String) (reports : List Report)
      (why? : Option Interruption), ∀ label ≠ [],
        ofDeclarations start? dump [d.relabelled label] =
          ⟨out, reports.map (Report.text label), why?⟩ := by
  have htext : ∀ label, (d.relabelled label).text? = d.text? := fun _ => rfl
  cases start? with
  | none => exact ⟨[], [], some .missingStart, fun _ _ => rfl⟩
  | some start =>
    cases ht : d.text? with
    | none =>
      refine ⟨[], [], some .missingText, fun label _ => ?_⟩
      simp only [ofDeclarations, htext, ht, List.map_nil]
    | some text =>
      cases hp : parse start text with
      | ok v =>
        have hc : parseComponent start text = .ok (start.component v) := congrArg _ hp
        refine ⟨successLines dump text (start.component v), [], none, fun label _ => ?_⟩
        simp only [ofDeclarations, htext, ht, hc, List.append_nil, List.map_nil]
      | error failure =>
        have hc : parseComponent start text = .error failure := congrArg _ hp
        cases failure with
        | oversized numeral =>
          refine ⟨[], [], some (.oversized numeral), fun label _ => ?_⟩
          simp only [ofDeclarations, htext, ht, hc, List.map_nil]
        | signature e =>
          obtain ⟨report, hreport⟩ := exists_failureLine hp d
          refine ⟨[], [report], none, fun label hlabel => ?_⟩
          simp only [ofDeclarations, htext, ht, hc, hreport label hlabel, List.map_cons,
            List.map_nil]

/-- **Declarations under different names** lead to the same lines on standard output, the same
reports and the same end. -/
theorem Transcript.exists_reports (start? : Option StartRule) (dump : Bool)
    (ds : List Declaration) : ∃ (out : List String) (reports : List Report)
      (why? : Option Interruption), ∀ label ≠ [],
        ofDeclarations start? dump (ds.map (Declaration.relabelled label)) =
          ⟨out, reports.map (Report.text label), why?⟩ := by
  induction ds with
  | nil => exact ⟨[], [], none, fun _ _ => rfl⟩
  | cons d ds ih =>
    obtain ⟨out, reports, why?, h⟩ := exists_reports_singleton start? dump d
    obtain ⟨out', reports', why'?, ih⟩ := ih
    cases why? with
    | some why =>
      refine ⟨out, reports, some why, fun label hlabel => ?_⟩
      rw [List.map_cons, ofDeclarations_cons, h label hlabel]
      rfl
    | none =>
      refine ⟨out ++ out', reports ++ reports', why'?, fun label hlabel => ?_⟩
      rw [List.map_cons, ofDeclarations_cons, h label hlabel, ih label hlabel, List.map_append]
      rfl

/-! ## Both runs -/

theorem normalPath_ne_nil (path : List Char) : normalPath path ≠ [] := by
  unfold normalPath
  dsimp only
  split
  · simp
  · rename_i h
    exact fun hn => h (List.isEmpty_iff.2 hn)

/-- Two runs end alike and leave the same behind, but for the names of the places on standard
error. -/
structure Outcome.AlikeBut (label label' : List Char) (o o' : Outcome) : Prop where
  ending : o.ending = o'.ending
  stdout : o.stdout = o'.stdout
  stderr : ∃ reports : List Report, o.stderr = linesText (reports.map (Report.text label)) ∧
    o'.stderr = linesText (reports.map (Report.text label'))

/-- **Declarations under different names** leave the same behind. -/
theorem Transcript.alikeBut (start? : Option StartRule) (dump : Bool) (ds : List Declaration)
    {label label' : List Char} (h : label ≠ []) (h' : label' ≠ []) :
    Outcome.AlikeBut label label'
      (ofDeclarations start? dump (ds.map (Declaration.relabelled label))).outcome
      (ofDeclarations start? dump (ds.map (Declaration.relabelled label'))).outcome := by
  obtain ⟨out, reports, why?, hreports⟩ := exists_reports start? dump ds
  rw [hreports label h, hreports label' h']
  refine ⟨?ending, rfl, reports, rfl, rfl⟩
  case ending =>
    simp only [outcome, List.isEmpty_map]

/-- Standard input and a file with the same text hold the same declarations. -/
theorem ofLines_splitNewlines {content : List Char}
    (h : ∀ c ∈ content, Text.isLineBoundary c = true → c = '\n') (label : List Char) :
    Declaration.ofLines label 1 (Text.splitNewlines content) =
      Declaration.ofLines label 1 (fileLines content) := by
  rw [fileLines, Text.unifyNewlines_eq_self (Text.notMem_of_isLineBoundary h)]
  exact Declaration.ofLines_congr _ _ (Text.forall₂_splitNewlines h)

/-- **Standard input and a file are read alike.** A start rule and the wish for printed forms are
given before the paths. Whatever they are, a run that reads a text from standard input, since there
is no path or the only one is a hyphen, and a run that reads the same text from a file end alike and
leave the same behind but for the name, as long as line feeds alone end the lines of the text. It
does not matter what the streams would do with carriage returns. -/
theorem run_standardInput :
    (∀ (r : StartRule) (dump : Bool) (paths : List (List Char)),
      (∀ path ∈ paths, IsOperand path) → Request.ofArguments (usualArguments r dump paths) =
        .ok (.run { paths := paths, start? := some r, dump := dump })) ∧
    ∀ (arguments arguments' paths : List (List Char)) (path content stdin : List Char)
      (options : Options) (files files' : FileSystem) (newlines newlines' : Text.NewlineMode),
      (∀ c ∈ content, Text.isLineBoundary c = true → c = '\n') → options.exprs = [] →
      Request.ofArguments arguments = .ok (.run { options with paths := paths }) →
      (paths = [] ∨ paths.map normalPath = [['-']]) →
      Request.ofArguments arguments' = .ok (.run { options with paths := [path] }) →
      normalPath path ≠ ['-'] → files' (normalPath path) = .ok content →
        Outcome.AlikeBut "<stdin>".toList (normalPath path) (run arguments files content newlines)
          (run arguments' files' stdin newlines') := by
  refine ⟨fun r dump paths h => Request.ofArguments_usual r dump h, ?_⟩
  intro arguments arguments' paths path content stdin options files files' newlines newlines'
    hends hexprs hstdin hpaths hfile hpath hcontent
  have hsource : Options.source { options with paths := paths } = .stdin :=
    Options.source_eq_stdin hexprs hpaths
  have hsource' : Options.source { options with paths := [path] } = .files [normalPath path] :=
    Options.source_eq_files hexprs (by simp) (by simpa using hpath)
  have hread : declarations files (newlines.decode content)
      (Options.source { options with paths := paths }) =
        .ok (Declaration.ofLines "<stdin>".toList 1 (fileLines content)) := by
    rw [hsource, newlines.decode_eq_self (Text.notMem_of_isLineBoundary hends),
      ← ofLines_splitNewlines hends]
    rfl
  have hread' : declarations files' (newlines'.decode stdin)
      (Options.source { options with paths := [path] }) =
        .ok (Declaration.ofLines (normalPath path) 1 (fileLines content)) := by
    rw [hsource', declarations, readFiles, hcontent]
    exact congrArg Except.ok (List.append_nil _)
  rw [run_of_declarations hstdin hread, run_of_declarations hfile hread',
    Declaration.ofLines_relabelled [] "<stdin>".toList,
    Declaration.ofLines_relabelled [] (normalPath path)]
  exact Transcript.alikeBut _ _ _ (by decide) (normalPath_ne_nil path)

theorem run_standardInput_types :
    (∀ c ∈ "Tensor\n+".toList, Text.isLineBoundary c = true → c = '\n') ∧
      normalPath "./a".toList = ['a'] ∧
      Outcome.AlikeBut "<stdin>".toList ['a']
        (run (usualArguments .type true []) (fun _ => .error .missing) "Tensor\n+".toList .kept)
        (run (usualArguments .type true ["./a".toList]) (fun _ => .ok "Tensor\n+".toList) []
          .kept) := by
  have hall : ("Tensor\n+".toList.all
      fun c => decide (Text.isLineBoundary c = true → c = '\n')) = true := by decide
  have hends : ∀ c ∈ "Tensor\n+".toList, Text.isLineBoundary c = true → c = '\n' :=
    fun c hc => of_decide_eq_true (List.all_eq_true.1 hall c hc)
  have hpath : normalPath "./a".toList = ['a'] := by decide
  obtain ⟨harguments, halike⟩ := run_standardInput
  have h := halike _ _ [] "./a".toList "Tensor\n+".toList [] { start? := some .type, dump := true }
    (fun _ => .error .missing) (fun _ => .ok "Tensor\n+".toList) .kept .kept hends rfl
    (harguments .type true [] (by simp)) (.inl rfl)
    (harguments .type true ["./a".toList] (by simp [IsOperand])) (by decide) rfl
  rw [hpath] at h
  exact ⟨hends, hpath, h⟩

end Command

end TensorSig
