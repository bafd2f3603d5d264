import TensorSig.Command.Options

/-!
# Arguments and requests

What the usual ways of calling the command ask for. Paths alone ask for a run over them with the
default options, and options before the paths change what they name and nothing else.

* `IsOperand`: the arguments that are taken for paths wherever they stand.
* `Request.ofArguments_operands`: paths alone.
* `usualArguments`, `Request.ofArguments_usual`: a start rule and the wish for printed forms before
  the paths.
-/

namespace TensorSig

theorem StartRule.ofName?_name (r : StartRule) : ofName? r.name = some r := by
  cases r <;> decide

theorem StartRule.head?_name_ne (r : StartRule) : r.name.toList.head? ≠ some '-' := by
  cases r <;> decide

namespace Command

/-- An argument that is taken for a path before the separator too: a hyphen, or a text that does not
start with one. -/
def IsOperand (text : List Char) : Prop := text.head? ≠ some '-' ∨ text = ['-']

theorem Word.ofArgument_operand {text : List Char} (h : IsOperand text) :
    ofArgument text = .ok (.operand text) := by
  unfold ofArgument
  rcases h with h | rfl
  · rw [if_pos h]
  · rfl

theorem IsOperand.ne_separator {text : List Char} (h : IsOperand text) : text ≠ ['-', '-'] := by
  rintro rfl
  rcases h with h | h
  · exact h rfl
  · cases h

namespace Word

theorem ofArguments_cons {text : List Char} {word : Word} (hne : text ≠ ['-', '-'])
    (h : ofArgument text = .ok word) {texts : List (List Char)} {words : List Word}
    (hs : ofArguments texts = .ok words) : ofArguments (text :: texts) = .ok (word :: words) := by
  rw [ofArguments, if_neg hne, h, hs]
  rfl

theorem ofArguments_operands {texts : List (List Char)} (h : ∀ text ∈ texts, IsOperand text) :
    ofArguments texts = .ok (texts.map .operand) := by
  induction texts with
  | nil => rfl
  | cons text texts ih =>
    rw [List.forall_mem_cons] at h
    exact ofArguments_cons h.1.ne_separator (ofArgument_operand h.1) (ih h.2)

end Word

/-- The long spelling of an option is the option. -/
theorem Word.ofArgument_long (s : Switch) : ofArgument s.long = .ok (.option s .long none) := by
  cases s <;> rfl

theorem Switch.long_ne_separator (s : Switch) : s.long ≠ ['-', '-'] := by
  cases s <;> decide

namespace Request

/-- Operands at the end of the arguments are the paths, unless a group of paths has ended before. -/
theorem ofWords_operands (p : Progress) (hg : p.group ≠ .closed) (hu : p.unrecognized = [])
    (texts : List (List Char)) : ofWords p (texts.map .operand) =
      .ok (.run { p.options with paths := p.options.paths ++ texts }) := by
  induction texts generalizing p with
  | nil =>
    rw [List.map_nil, ofWords, Progress.finish, hu, List.append_nil]
    rfl
  | cons text texts ih =>
    have hp : p.operand text = { p with
        group := .within
        options := { p.options with paths := p.options.paths ++ [text] } } := if_neg hg
    have hgroup : (p.operand text).group ≠ .closed := by
      rw [hp]
      exact nofun
    have hrest := ih (p.operand text) hgroup (by rw [hp]; exact hu)
    rw [List.map_cons, ofWords, hrest, hp, List.append_assoc]
    rfl

/-- **Paths alone** ask for a run over them. -/
theorem ofArguments_operands {paths : List (List Char)} (h : ∀ path ∈ paths, IsOperand path) :
    ofArguments paths = .ok (.run { paths := paths }) := by
  rw [ofArguments, Word.ofArguments_operands h]
  exact ofWords_operands {} nofun rfl paths

end Request

/-- The arguments for a start rule, with the wish for printed forms or without, and paths. -/
def usualArguments (r : StartRule) (dump : Bool) (paths : List (List Char)) : List (List Char) :=
  Switch.start.long :: r.name.toList :: ((if dump then [Switch.dump.long] else []) ++ paths)

/-- The words of the usual arguments. -/
theorem Word.ofArguments_usual (r : StartRule) (dump : Bool) {paths : List (List Char)}
    (h : ∀ path ∈ paths, IsOperand path) : ofArguments (usualArguments r dump paths) =
      .ok (.option .start .long none :: .operand r.name.toList ::
        ((if dump then [.option .dump .long none] else []) ++ paths.map .operand)) := by
  have hname : IsOperand r.name.toList := .inl r.head?_name_ne
  refine ofArguments_cons (Switch.long_ne_separator _) (ofArgument_long _)
    (ofArguments_cons hname.ne_separator (ofArgument_operand hname) ?_)
  cases dump with
  | false => exact ofArguments_operands h
  | true =>
    exact ofArguments_cons (Switch.long_ne_separator _) (ofArgument_long _) (ofArguments_operands h)

/-- **Options before the paths** ask for a run over the paths with these options. -/
theorem Request.ofArguments_usual (r : StartRule) (dump : Bool) {paths : List (List Char)}
    (h : ∀ path ∈ paths, IsOperand path) : ofArguments (usualArguments r dump paths) =
      .ok (.run { paths := paths, start? := some r, dump := dump }) := by
  have hstart : Progress.setStart {} (some r.name.toList) =
      .ok { options := { start? := some r } } := by
    simp [Progress.setStart, StartRule.ofName?_name]
  rw [ofArguments, Word.ofArguments_usual r dump h]
  change (Progress.setStart {} (some r.name.toList) >>= fun p => ofWords p _) = _
  rw [hstart]
  cases dump with
  | false => exact ofWords_operands { options := { start? := some r } } nofun rfl paths
  | true =>
    exact ofWords_operands { options := { start? := some r, dump := true } } nofun rfl paths

end Command

end TensorSig
