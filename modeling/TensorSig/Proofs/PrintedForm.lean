import TensorSig.Command.Run
import TensorSig.Proofs.DoubleText
import TensorSig.Proofs.QuotedText

/-!
# Printed forms determine what they print

Components with the same printed form are the same, part by part. A printed value that stands in a
record or in a tuple is followed by a comma or by a closing parenthesis, so it is enough that it can
be told from every other value in front of such a text: a value without either of them by its
characters, a record by its form and then by its fields one after the other, a tuple by its items.

* `Dump.Ends`, `Dump.Tells`: what may follow a printed value, and two printed values that are told
  apart in front of it.
* `Dump.Closes`: the same of the fields that are left of a record.
* `Dump.HasForm`: a text that starts with the name of a form.
* `ValueType.tells_dump`, `Literal.tells_dump`, `ParamItem.tells_dump`, `Signature.tells_dump`: the
  values of each sort.
* `Component.dump_injective`: components, and the lines in which they are listed.
-/

namespace TensorSig

/-- Words of one class of characters, each in front of a character that is not in it. -/
theorem append_inj_of_class {p : Char → Bool} {v w s t : List Char} (hv : ∀ c ∈ v, p c = true)
    (hw : ∀ c ∈ w, p c = true) (hs : ∀ c ∈ s.head?, p c = false)
    (ht : ∀ c ∈ t.head?, p c = false) (h : v ++ s = w ++ t) : v = w ∧ s = t := by
  have he : v = w := by
    rw [← takeWhile_append_class hv hs, h, takeWhile_append_class hw ht]
  exact ⟨he, List.append_cancel_left (he ▸ h)⟩

namespace Dump

/-! ## What follows a printed value -/

/-- A text that may follow a printed value: it is empty or starts with a comma or a closing
parenthesis. -/
def Ends (s : List Char) : Prop := ∀ c ∈ s.head?, c = ',' ∨ c = ')'

theorem ends_nil : Ends [] := nofun

/-- Two printed values with anything that may follow them: where the whole texts agree, `P` holds
and so do the texts that follow. -/
def Tells (P : Prop) (v w : List Char) : Prop :=
  ∀ ⦃s t : List Char⦄, Ends s → Ends t → v ++ s = w ++ t → P ∧ s = t

variable {P Q : Prop} {v w s t : List Char}

theorem Tells.imp (h : Tells P v w) (hpq : P → Q) : Tells Q v w :=
  fun _ _ hs ht he => (h hs ht he).imp_left hpq

theorem Tells.symm (h : Tells P v w) : Tells P w v :=
  fun _ _ hs ht he => (h ht hs he.symm).imp_right Eq.symm

theorem Tells.eq (h : Tells P v w) (he : v = w) : P :=
  (h ends_nil ends_nil (congrArg (· ++ []) he)).1

/-! ## Values without commas and parentheses -/

/-- Whether a character is neither a comma nor a closing parenthesis. -/
def isInner (c : Char) : Bool := c != ',' && c != ')'

theorem Ends.isInner_eq_false (h : Ends s) : ∀ c ∈ s.head?, isInner c = false := by
  intro c hc
  rcases h c hc with rfl | rfl <;> rfl

theorem isInner_of_class {p : Char → Bool} (hcomma : p ',' = false) (hclose : p ')' = false)
    {c : Char} (hc : p c = true) : isInner c = true := by
  have h : c ≠ ',' ∧ c ≠ ')' := by
    constructor
    · rintro rfl
      exact absurd hc (hcomma ▸ Bool.false_ne_true)
    · rintro rfl
      exact absurd hc (hclose ▸ Bool.false_ne_true)
  simp [isInner, h]

/-- Values are told apart by their characters, none of which is a comma or a closing parenthesis. -/
theorem tells_of_injective {α : Type} {f : α → List Char} (hf : Function.Injective f)
    (hi : ∀ a, ∀ c ∈ f a, isInner c = true) (a b : α) : Tells (a = b) (f a) (f b) := by
  intro s t hs ht h
  obtain ⟨he, hst⟩ := append_inj_of_class (hi a) (hi b) hs.isInner_eq_false ht.isInner_eq_false h
  exact ⟨hf he, hst⟩

/-- The same for the values in a list that holds all of them. -/
theorem tells_of_all {α : Type} {f : α → List Char} (all : List α)
    (hall : ∀ a, a ∈ all) (hf : ∀ a ∈ all, ∀ b ∈ all, f a = f b → a = b)
    (hi : ∀ a ∈ all, (f a).all isInner = true) (a b : α) : Tells (a = b) (f a) (f b) :=
  tells_of_injective (fun a b => hf a (hall a) b (hall b))
    (fun a => List.all_eq_true.1 (hi a (hall a))) a b

theorem tells_quoted (v w : List Char) : Tells (v = w) (Text.quoted v) (Text.quoted w) :=
  fun _ _ _ _ h => Text.quoted_append_inj h

/-! ## Items and fields -/

/-- What is left of a record or a tuple behind one of its items. -/
def closing : List (List Char) → List Char
  | [] => [')']
  | item :: items => ',' :: ' ' :: (item ++ closing items)

theorem ends_closing (items : List (List Char)) : Ends (closing items ++ s) := by
  cases items with
  | nil => exact fun c hc => .inr (Option.some.inj hc).symm
  | cons item items => exact fun c hc => .inl (Option.some.inj hc).symm

theorem joined_append (item : List Char) (items : List (List Char)) :
    joined (item :: items) ++ [')'] = item ++ closing items := by
  induction items generalizing item with
  | nil => simp [joined, closing]
  | cons next items ih =>
    rw [closing, ← ih, joined, List.intercalate_cons_cons]
    simp [joined]

/-- A field with its key. -/
def field : String × List Char → List Char
  | (key, value) => key.toList ++ '=' :: value

/-- The fields that are left of two records: where the whole texts agree, `P` holds, and so do the
texts that follow. -/
def Closes (P : Prop) (fields fields' : List (String × List Char)) : Prop :=
  ∀ ⦃s t : List Char⦄,
    closing (fields.map field) ++ s = closing (fields'.map field) ++ t → P ∧ s = t

theorem Closes.nil : Closes True [] [] :=
  fun _ _ h => ⟨trivial, (List.cons.inj h).2⟩

variable {fields fields' : List (String × List Char)}

theorem Tells.append_closing (h : Tells P v w) (hc : Closes Q fields fields') {s t : List Char}
    (he : v ++ (closing (fields.map field) ++ s) = w ++ (closing (fields'.map field) ++ t)) :
    (P ∧ Q) ∧ s = t := by
  obtain ⟨hp, he⟩ := h (ends_closing _) (ends_closing _) he
  obtain ⟨hq, hst⟩ := hc he
  exact ⟨⟨hp, hq⟩, hst⟩

/-- One more field. -/
theorem Closes.cons {key : String} (h : Tells P v w) (hc : Closes Q fields fields') :
    Closes (P ∧ Q) ((key, v) :: fields) ((key, w) :: fields') := by
  intro s t he
  simp only [List.map_cons, closing, field, List.append_assoc, List.cons_append, List.cons.injEq,
    true_and, List.append_cancel_left_eq] at he
  exact h.append_closing hc he

/-! ## Records -/

theorem record_cons (form key : String) (value : List Char) (fields : List (String × List Char)) :
    record form ((key, value) :: fields) =
      form.toList ++ '(' :: (key.toList ++ '=' :: (value ++ closing (fields.map field))) := by
  have h := joined_append (field (key, value)) (fields.map field)
  rw [field, List.append_assoc, List.cons_append] at h
  rw [← h]
  rfl

theorem tells_record_nil (form : String) : Tells True (record form []) (record form []) :=
  fun _ _ _ _ h => ⟨trivial, List.append_cancel_left h⟩

/-- Records of one form are told apart by their fields. -/
theorem Tells.record {form key : String} (h : Tells P v w) (hc : Closes Q fields fields') :
    Tells (P ∧ Q) (record form ((key, v) :: fields)) (record form ((key, w) :: fields')) := by
  intro s t _ _ he
  simp only [record_cons, List.append_assoc, List.cons_append, List.cons.injEq, true_and,
    List.append_cancel_left_eq] at he
  exact h.append_closing hc he

/-! ## Forms -/

/-- What an item of a tuple may start with: anything but the parenthesis that closes the tuple. -/
def Opens (v : List Char) : Prop := ∃ c rest, v = c :: rest ∧ c ≠ ')'

theorem opens_of_isInner (hne : v ≠ []) (hi : ∀ c ∈ v, isInner c = true) : Opens v := by
  obtain ⟨c, v, rfl⟩ := List.exists_cons_of_ne_nil hne
  refine ⟨c, v, rfl, ?_⟩
  rintro rfl
  exact absurd (hi ')' (by simp)) (by decide)

/-- A text that starts with the name of a form, which consists of letters, and an opening
parenthesis. -/
def HasForm (v : List Char) (form : String) : Prop :=
  (∀ c ∈ form.toList, c.isAlpha = true) ∧ ∃ rest, v = form.toList ++ '(' :: rest

variable {form form' : String}

theorem hasForm_record (h : form.toList.all Char.isAlpha = true) :
    HasForm (record form fields) form :=
  ⟨List.all_eq_true.1 h, _, rfl⟩

theorem HasForm.takeWhile (h : HasForm v form) : v.takeWhile Char.isAlpha = form.toList := by
  obtain ⟨hf, rest, rfl⟩ := h
  exact takeWhile_append_class hf fun c hc => by rw [← Option.some.inj hc]; rfl

theorem HasForm.opens (h : HasForm v form) : Opens v := by
  obtain ⟨hf, rest, rfl⟩ := h
  rcases hl : form.toList with - | ⟨c, cs⟩
  · exact ⟨'(', rest, rfl, by decide⟩
  · refine ⟨c, _, rfl, ?_⟩
    rintro rfl
    exact absurd (hf ')' (by simp [hl])) (by decide)

/-- Different forms are told apart by their names. -/
theorem HasForm.tells_of_ne (h : HasForm v form) (h' : HasForm w form') (hne : form ≠ form') :
    Tells P v w := by
  intro s t _ _ he
  obtain ⟨hf, rest, rfl⟩ := h
  obtain ⟨hf', rest', rfl⟩ := h'
  rw [List.append_assoc, List.append_assoc] at he
  obtain ⟨hl, -⟩ := append_inj_of_class hf hf' (by simp) (by simp) he
  exact absurd (String.toList_inj.1 hl) hne

/-! ## Missing values -/

/-- A form is followed by a parenthesis, a missing value is not. -/
theorem HasForm.tells_none (h : HasForm v form) : Tells P (optional none) v := by
  intro s t hs _ he
  obtain ⟨hf, rest, rfl⟩ := h
  rw [List.append_assoc] at he
  have hsep : ∀ c ∈ s.head?, c.isAlpha = false := by
    intro c hc
    rcases hs c hc with rfl | rfl <;> rfl
  obtain ⟨-, rfl⟩ := append_inj_of_class (List.all_eq_true.1 rfl) hf hsep (by simp) he
  rcases hs '(' rfl with h | h <;> exact absurd h (by decide)

theorem tells_none_tuple (items : List (List Char)) : Tells P (optional none) (tuple items) := by
  intro s t _ _ h
  obtain ⟨rest, hr⟩ : ∃ rest, tuple items = '(' :: rest := by
    unfold tuple
    split <;> exact ⟨_, rfl⟩
  rw [hr] at h
  exact absurd (List.cons.inj h).1 (by decide)

variable {α : Type} {f : α → List Char}

theorem tells_optional (hn : ∀ a, Tells False (optional none) (f a)) {o o' : Option α}
    (h : ∀ a ∈ o, ∀ b, Tells (a = b) (f a) (f b)) :
    Tells (o = o') (optional (o.map f)) (optional (o'.map f)) := by
  cases o with
  | none =>
    cases o' with
    | none => exact fun _ _ _ _ he => ⟨rfl, List.append_cancel_left he⟩
    | some b => exact (hn b).imp False.elim
  | some a =>
    cases o' with
    | none => exact (hn a).symm.imp False.elim
    | some b => exact (h a rfl b).imp (congrArg some)

/-! ## Tuples -/

/-- The items that are left of a tuple. -/
theorem closing_append_inj {as bs : List α} (h : ∀ a ∈ as, ∀ b, Tells (a = b) (f a) (f b))
    {s t : List Char} (he : closing (as.map f) ++ s = closing (bs.map f) ++ t) :
    as = bs ∧ s = t := by
  induction as generalizing bs with
  | nil =>
    cases bs with
    | nil => exact ⟨rfl, (List.cons.inj he).2⟩
    | cons b bs => exact absurd (List.cons.inj he).1 (by decide)
  | cons a as ih =>
    cases bs with
    | nil => exact absurd (List.cons.inj he).1 (by decide)
    | cons b bs =>
      simp only [List.map_cons, closing, List.cons_append, List.append_assoc, List.cons.injEq,
        true_and] at he
      obtain ⟨rfl, hrest⟩ := h a (by simp) b (ends_closing _) (ends_closing _) he
      obtain ⟨rfl, hst⟩ := ih (fun a ha => h a (by simp [ha])) hrest
      exact ⟨rfl, hst⟩

/-- What is behind the first item of a tuple. -/
def behind : List (List Char) → List Char
  | [] => [',', ')']
  | items => closing items

theorem ends_behind (items : List (List Char)) : Ends (behind items ++ s) := by
  cases items with
  | nil => exact fun c hc => .inl (Option.some.inj hc).symm
  | cons item items => exact ends_closing _

theorem tuple_cons (item : List Char) (items : List (List Char)) :
    tuple (item :: items) = '(' :: (item ++ behind items) := by
  cases items with
  | nil => rfl
  | cons next items =>
    rw [tuple, joined_append, behind]
    · simp
    · simp

theorem behind_append_inj {as bs : List α} (h : ∀ a ∈ as, ∀ b, Tells (a = b) (f a) (f b))
    {s t : List Char} (he : behind (as.map f) ++ s = behind (bs.map f) ++ t) :
    as = bs ∧ s = t := by
  cases as with
  | nil =>
    cases bs with
    | nil => exact ⟨rfl, List.append_cancel_left he⟩
    | cons b bs => exact absurd (List.cons.inj (List.cons.inj he).2).1 (by decide)
  | cons a as =>
    cases bs with
    | nil => exact absurd (List.cons.inj (List.cons.inj he).2).1 (by decide)
    | cons b bs => exact closing_append_inj h he

/-- Tuples are told apart by their items. -/
theorem tells_tuple (ho : ∀ a, Opens (f a)) {as bs : List α}
    (h : ∀ a ∈ as, ∀ b, Tells (a = b) (f a) (f b)) :
    Tells (as = bs) (tuple (as.map f)) (tuple (bs.map f)) := by
  intro s t _ _ he
  cases as with
  | nil =>
    cases bs with
    | nil => exact ⟨rfl, List.append_cancel_left he⟩
    | cons b bs =>
      obtain ⟨c, rest, hb, hc⟩ := ho b
      rw [List.map_cons, tuple_cons, hb] at he
      exact absurd (List.cons.inj (List.cons.inj he).2).1.symm hc
  | cons a as =>
    rw [List.map_cons, tuple_cons] at he
    cases bs with
    | nil =>
      obtain ⟨c, rest, ha, hc⟩ := ho a
      rw [ha] at he
      exact absurd (List.cons.inj (List.cons.inj he).2).1 hc
    | cons b bs =>
      simp only [List.map_cons, tuple_cons, List.cons_append, List.append_assoc, List.cons.injEq,
        true_and] at he
      obtain ⟨rfl, hrest⟩ := h a (by simp) b (ends_behind _) (ends_behind _) he
      obtain ⟨rfl, hst⟩ := behind_append_inj (fun a ha => h a (by simp [ha])) hrest
      exact ⟨rfl, hst⟩

end Dump

/-! ## Numbers, truth values and kinds -/

open Dump

namespace Numeral

theorem ofNat_ne_cons_minus (m : ℕ) (cs : List Char) : ofNat m ≠ '-' :: cs := by
  intro h
  have hd : '-'.isDigit = true := isDigit_of_mem_ofNat (n := m) (by simp [h])
  exact absurd hd (by decide)

theorem ofNat_injective : Function.Injective ofNat :=
  Function.LeftInverse.injective value_ofNat

theorem ofInt_injective : Function.Injective ofInt := by
  intro m n h
  cases m with
  | ofNat m =>
    cases n with
    | ofNat n => rw [ofNat_injective h]
    | negSucc n => exact absurd h (ofNat_ne_cons_minus m _)
  | negSucc m =>
    cases n with
    | ofNat n => exact absurd h.symm (ofNat_ne_cons_minus n _)
    | negSucc n => rw [Nat.succ_injective (ofNat_injective (List.cons.inj h).2)]

theorem isInner_of_mem_ofInt (n : ℤ) : ∀ c ∈ ofInt n, isInner c = true := by
  have hd : ∀ n : ℕ, ∀ c ∈ ofNat n, isInner c = true :=
    fun n c hc => isInner_of_class rfl rfl (isDigit_of_mem_ofNat hc)
  cases n with
  | ofNat n => exact hd n
  | negSucc n => exact List.forall_mem_cons.2 ⟨rfl, hd (n + 1)⟩

theorem ofInt_ne_nil (n : ℤ) : ofInt n ≠ [] := by
  cases n with
  | ofNat n => exact Nat.toDigits_ne_nil
  | negSucc n => exact List.cons_ne_nil _ _

theorem tells_ofInt (m n : ℤ) : Tells (m = n) (ofInt m) (ofInt n) :=
  tells_of_injective ofInt_injective isInner_of_mem_ofInt m n

end Numeral

theorem Double.tells_text (x y : Double) : Tells (x = y) x.text y.text :=
  tells_of_injective text_injective
    (fun x c hc => isInner_of_class (by decide) (by decide) (isTextPart_text x c hc)) x y

theorem Dump.tells_bool (a b : Bool) : Tells (a = b) (bool a) (bool b) :=
  tells_of_all [false, true] (by decide) (by decide) (by decide) a b

theorem TensorKind.tells_dump (k l : TensorKind) : Tells (k = l) k.dump l.dump :=
  tells_of_all all mem_all (by decide +kernel) (by decide +kernel) k l

theorem ScalarKind.tells_dump (k l : ScalarKind) : Tells (k = l) k.dump l.dump :=
  tells_of_all all mem_all (by decide +kernel) (by decide +kernel) k l

theorem ConstantKind.tells_dump (k l : ConstantKind) : Tells (k = l) k.dump l.dump :=
  tells_of_all all mem_all (by decide +kernel) (by decide +kernel) k l

/-! ## Types -/

namespace ValueType

/-- The names of the forms of types. -/
def forms : List String :=
  ["PointerType", "TensorType", "DeviceType", "GeneratorType", "StorageType", "CType",
    "FixedArrayType", "StringType", "TupleType"]

theorem form_mem_forms (t : ValueType) : t.form ∈ forms := by
  cases t <;> simp [form, forms]

theorem hasForm_dump (t : ValueType) : HasForm t.dump t.form := by
  cases t <;> (rw [dump]; exact hasForm_record (by decide))

theorem tells_dump_of_form_ne {P : Prop} {a b : ValueType} (h : a.form ≠ b.form) :
    Tells P a.dump b.dump :=
  a.hasForm_dump.tells_of_ne b.hasForm_dump h

theorem dumpAll_eq_map (ts : List ValueType) : dumpAll ts = ts.map dump := by
  induction ts with
  | nil => rfl
  | cons t ts ih => rw [dumpAll, ih, List.map_cons]

theorem tells_dims (ds es : Option (List ℤ)) :
    Tells (ds = es) (Dump.optional (ds.map fun ds => Dump.tuple (ds.map Numeral.ofInt)))
      (Dump.optional (es.map fun es => Dump.tuple (es.map Numeral.ofInt))) := by
  have ho : ∀ n : ℤ, Opens (Numeral.ofInt n) := fun n =>
    opens_of_isInner (Numeral.ofInt_ne_nil n) (Numeral.isInner_of_mem_ofInt n)
  exact tells_optional (fun ds => tells_none_tuple _)
    fun ds _ es => tells_tuple ho fun m _ n => Numeral.tells_ofInt m n

mutual

/-- **Types** are told apart by their printed forms. -/
theorem tells_dump (a b : ValueType) : Tells (a = b) a.dump b.dump := by
  cases a with
  | pointer a =>
    cases b with
    | pointer b =>
      rw [dump, dump]
      exact ((tells_dump a b).record .nil).imp (by rintro ⟨rfl, -⟩; rfl)
    | _ => exact tells_dump_of_form_ne (by simp [form])
  | tensor k ds =>
    cases b with
    | tensor l es =>
      rw [dump, dump]
      exact ((k.tells_dump l).record (.cons (tells_dims ds es) .nil)).imp
        (by rintro ⟨rfl, rfl, -⟩; rfl)
    | _ => exact tells_dump_of_form_ne (by simp [form])
  | device =>
    cases b with
    | device => exact (tells_record_nil _).imp fun _ => rfl
    | _ => exact tells_dump_of_form_ne (by simp [form])
  | generator =>
    cases b with
    | generator => exact (tells_record_nil _).imp fun _ => rfl
    | _ => exact tells_dump_of_form_ne (by simp [form])
  | storage =>
    cases b with
    | storage => exact (tells_record_nil _).imp fun _ => rfl
    | _ => exact tells_dump_of_form_ne (by simp [form])
  | scalar k =>
    cases b with
    | scalar l => exact ((k.tells_dump l).record .nil).imp (by rintro ⟨rfl, -⟩; rfl)
    | _ => exact tells_dump_of_form_ne (by simp [form])
  | array k m =>
    cases b with
    | array l n =>
      exact ((k.tells_dump l).record (.cons (Numeral.tells_ofInt m n) .nil)).imp
        (by rintro ⟨rfl, rfl, -⟩; rfl)
    | _ => exact tells_dump_of_form_ne (by simp [form])
  | string =>
    cases b with
    | string => exact (tells_record_nil _).imp fun _ => rfl
    | _ => exact tells_dump_of_form_ne (by simp [form])
  | tuple as =>
    cases b with
    | tuple bs =>
      rw [dump, dump, dumpAll_eq_map, dumpAll_eq_map]
      exact ((tells_tuple (fun t => t.hasForm_dump.opens) (tells_dumpAll as)).record .nil).imp
        (by rintro ⟨rfl, -⟩; rfl)
    | _ => exact tells_dump_of_form_ne (by simp [form])

theorem tells_dumpAll (as : List ValueType) : ∀ a ∈ as, ∀ b, Tells (a = b) a.dump b.dump := by
  cases as with
  | nil => simp
  | cons a as => exact List.forall_mem_cons.2 ⟨tells_dump a, tells_dumpAll as⟩

end

end ValueType

/-! ## Literals -/

namespace Literal

/-- The name of the form of a literal. -/
def form : Literal → String
  | bool _ => "BoolValue"
  | int _ => "IntValue"
  | double _ => "DoubleValue"
  | emptyDict => "EmptyDict"
  | constant _ => "EnumConstant"
  | nullPointer => "NullPointer"
  | noneValue => "NoneValue"

/-- The names of the forms of literals. -/
def forms : List String :=
  ["BoolValue", "IntValue", "DoubleValue", "EmptyDict", "EnumConstant", "NullPointer", "NoneValue"]

theorem form_mem_forms (v : Literal) : v.form ∈ forms := by
  cases v <;> simp [form, forms]

theorem hasForm_dump (v : Literal) : HasForm v.dump v.form := by
  cases v <;> exact hasForm_record (by decide)

theorem tells_dump_of_form_ne {P : Prop} {a b : Literal} (h : a.form ≠ b.form) :
    Tells P a.dump b.dump :=
  a.hasForm_dump.tells_of_ne b.hasForm_dump h

/-- **Literals** are told apart by their printed forms. -/
theorem tells_dump (a b : Literal) : Tells (a = b) a.dump b.dump := by
  cases a with
  | bool x =>
    cases b with
    | bool y => exact ((tells_bool x y).record .nil).imp (by rintro ⟨rfl, -⟩; rfl)
    | _ => exact tells_dump_of_form_ne (by simp [form])
  | int m =>
    cases b with
    | int n => exact ((Numeral.tells_ofInt m n).record .nil).imp (by rintro ⟨rfl, -⟩; rfl)
    | _ => exact tells_dump_of_form_ne (by simp [form])
  | double x =>
    cases b with
    | double y => exact ((x.tells_text y).record .nil).imp (by rintro ⟨rfl, -⟩; rfl)
    | _ => exact tells_dump_of_form_ne (by simp [form])
  | emptyDict =>
    cases b with
    | emptyDict => exact (tells_record_nil _).imp fun _ => rfl
    | _ => exact tells_dump_of_form_ne (by simp [form])
  | constant k =>
    cases b with
    | constant l => exact ((k.tells_dump l).record .nil).imp (by rintro ⟨rfl, -⟩; rfl)
    | _ => exact tells_dump_of_form_ne (by simp [form])
  | nullPointer =>
    cases b with
    | nullPointer => exact (tells_record_nil _).imp fun _ => rfl
    | _ => exact tells_dump_of_form_ne (by simp [form])
  | noneValue =>
    cases b with
    | noneValue => exact (tells_record_nil _).imp fun _ => rfl
    | _ => exact tells_dump_of_form_ne (by simp [form])

/-- A missing default is not taken for a literal, and `NoneValue()` not for a missing one. -/
theorem tells_optional_dump (d e : Option Literal) :
    Tells (d = e) (Dump.optional (d.map dump)) (Dump.optional (e.map dump)) :=
  tells_optional (fun v => v.hasForm_dump.tells_none) fun v _ w => v.tells_dump w

end Literal

/-! ## Parameters and declarations -/

theorem Parameter.tells_dump (p q : Parameter) : Tells (p = q) p.dump q.dump := by
  obtain ⟨type, name, default?⟩ := p
  obtain ⟨type', name', default?'⟩ := q
  refine ((type.tells_dump type').record (.cons (tells_quoted _ _)
    (.cons (Literal.tells_optional_dump default? default?') .nil))).imp ?_
  rintro ⟨rfl, hn, rfl, -⟩
  obtain rfl := String.toList_inj.1 hn
  rfl

namespace ParamItem

/-- The name of the form of an entry. -/
def form : ParamItem → String
  | parameter _ => "Parameter"
  | variadic => "VariadicMarker"

/-- The names of the forms of entries. -/
def forms : List String := ["Parameter", "VariadicMarker"]

theorem form_mem_forms (p : ParamItem) : p.form ∈ forms := by
  cases p <;> simp [form, forms]

theorem hasForm_dump (p : ParamItem) : HasForm p.dump p.form := by
  cases p <;> exact hasForm_record (by decide)

/-- **Entries** are told apart by their printed forms. -/
theorem tells_dump (p q : ParamItem) : Tells (p = q) p.dump q.dump := by
  cases p with
  | parameter p =>
    cases q with
    | parameter q => exact (p.tells_dump q).imp (congrArg parameter)
    | variadic => exact (hasForm_dump _).tells_of_ne (hasForm_dump _) (by simp [form])
  | variadic =>
    cases q with
    | parameter q => exact (hasForm_dump _).tells_of_ne (hasForm_dump _) (by simp [form])
    | variadic => exact (tells_record_nil _).imp fun _ => rfl

theorem tells_tuple_dump (ps qs : List ParamItem) :
    Tells (ps = qs) (Dump.tuple (ps.map dump)) (Dump.tuple (qs.map dump)) :=
  tells_tuple (fun p => p.hasForm_dump.opens) fun p _ q => p.tells_dump q

end ParamItem

/-- **Declarations** are told apart by their printed forms. -/
theorem Signature.tells_dump (a b : Signature) : Tells (a = b) a.dump b.dump := by
  obtain ⟨name, parameters, returnType⟩ := a
  obtain ⟨name', parameters', returnType'⟩ := b
  refine ((tells_quoted _ _).record (.cons (ParamItem.tells_tuple_dump parameters parameters')
    (.cons (returnType.tells_dump returnType') .nil))).imp ?_
  rintro ⟨hn, rfl, rfl, -⟩
  obtain rfl := String.toList_inj.1 hn
  rfl

/-! ## Components -/

namespace Component

/-- The sort of component that a printed form belongs to, by what it starts with. -/
def sort (text : List Char) : ℕ :=
  let form := String.ofList (text.takeWhile Char.isAlpha)
  if form ∈ ValueType.forms then 1
  else if form ∈ Literal.forms then 2
  else if form ∈ ParamItem.forms then 3
  else if form = "FunctionDescriptor" then 5
  else if text.head? = some '(' then 4
  else 0

/-- Components of different sorts start differently. -/
theorem sort_dump (c : Component) : sort c.dump = c.ctorIdx := by
  cases c with
  | name n =>
    have hq : sort (Text.quoted n.toList) = 0 := by
      unfold Text.quoted
      rcases List.mem_pair.1 (Text.quoteFor_mem n.toList) with h | h <;> rw [h] <;> rfl
    exact hq
  | type t =>
    have h := t.form_mem_forms
    simp only [sort, dump, t.hasForm_dump.takeWhile, String.ofList_toList, if_pos h]
    rfl
  | literal v =>
    have hd : ∀ form ∈ Literal.forms, form ∉ ValueType.forms := by decide
    have h := v.form_mem_forms
    simp only [sort, dump, v.hasForm_dump.takeWhile, String.ofList_toList, if_neg (hd _ h),
      if_pos h]
    rfl
  | param p =>
    have hd : ∀ form ∈ ParamItem.forms, form ∉ ValueType.forms ∧ form ∉ Literal.forms := by decide
    have h := p.form_mem_forms
    simp only [sort, dump, p.hasForm_dump.takeWhile, String.ofList_toList, if_neg (hd _ h).1,
      if_neg (hd _ h).2, if_pos h]
    rfl
  | params ps =>
    have ht : sort (Dump.tuple (ps.map ParamItem.dump)) = 4 := by
      unfold Dump.tuple
      split <;> rfl
    exact ht
  | function s =>
    have hf : HasForm s.dump "FunctionDescriptor" := hasForm_record (by decide)
    simp only [sort, dump, hf.takeWhile, String.ofList_toList]
    rfl

theorem eq_of_dump_eq {c d : Component} (h : c.dump = d.dump) : c = d := by
  have hs := congrArg sort h
  rw [sort_dump, sort_dump] at hs
  cases c with
  | name m =>
    cases d with
    | name n => rw [String.toList_inj.1 ((tells_quoted _ _).eq h)]
    | _ => cases hs
  | type a =>
    cases d with
    | type b => rw [(a.tells_dump b).eq h]
    | _ => cases hs
  | literal v =>
    cases d with
    | literal w => rw [(v.tells_dump w).eq h]
    | _ => cases hs
  | param p =>
    cases d with
    | param q => rw [(p.tells_dump q).eq h]
    | _ => cases hs
  | params ps =>
    cases d with
    | params qs => rw [(ParamItem.tells_tuple_dump ps qs).eq h]
    | _ => cases hs
  | function a =>
    cases d with
    | function b => rw [(a.tells_dump b).eq h]
    | _ => cases hs

/-- **The printed form of a component determines it**, and so does the line in which it is listed.
-/
theorem dump_injective : Function.Injective dump ∧
    ∀ {text text' : List Char} {c d : Component},
      (Command.successLines true text c).getLast? = (Command.successLines true text' d).getLast? →
        c = d := by
  refine ⟨fun _ _ => eq_of_dump_eq, fun {text text' c d} h => eq_of_dump_eq ?_⟩
  have hl : "  " ++ String.ofList c.dump = "  " ++ String.ofList d.dump := Option.some.inj h
  simpa using congrArg String.toList hl

end Component

end TensorSig
