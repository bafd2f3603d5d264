import Mathlib.Algebra.Group.Nat.Defs
import Mathlib.Data.List.Basic
import TensorSig.Text.Quoted

/-!
# Quoted text reads back

A quoted text determines the text between its quotes and shows where it ends: the closing quote is
the first one that no backslash precedes. So quoted texts stay apart whatever is written behind
them.

* `hexadecimal_inj`: numbers of one width have different digits.
* `escaped_append_inj`: the character that an escape stands for, and where the escape ends.
* `quoted_append_inj`: the same for a whole text between quotes.
-/

namespace TensorSig.Text

/-! ## Hexadecimal digits -/

theorem digitChar_inj {m n : Nat} (hm : m < 16) (hn : n < 16) (h : m.digitChar = n.digitChar) :
    m = n := by
  have key : ∀ m < 16, ∀ n < 16, m.digitChar = n.digitChar → m = n := by decide
  exact key m hm n hn h

theorem length_hexadecimal {width n : Nat} (hw : 0 < width) (hn : n < 16 ^ width) :
    (hexadecimal width n).length = width := by
  have hl : (Nat.toDigits 16 n).length ≤ width :=
    (Nat.length_toDigits_le_iff (by decide) hw).2 hn
  simp only [hexadecimal, List.length_append, List.length_replicate]
  omega

/-- The last digit of a number and the digits before it. -/
theorem hexadecimal_succ {width : Nat} (hw : 0 < width) (n : Nat) :
    hexadecimal (width + 1) n = hexadecimal width (n / 16) ++ [(n % 16).digitChar] := by
  by_cases hn : n < 16
  · have hd : n / 16 = 0 := by omega
    have hz : width = width - 1 + 1 := by omega
    rw [hexadecimal, hexadecimal, Nat.toDigits_of_lt_base hn, hd, Nat.toDigits_zero,
      Nat.mod_eq_of_lt hn]
    simp only [List.length_singleton, Nat.add_sub_cancel]
    rw [← List.replicate_succ', ← hz]
  · have hd := Nat.toDigits_of_base_le (b := 16) (by decide) (Nat.le_of_not_lt hn)
    rw [hexadecimal, hexadecimal, hd, List.length_append, List.length_singleton,
      Nat.add_sub_add_right, List.append_assoc]

theorem hexadecimal_inj {width m n : Nat} (hw : 0 < width) (hm : m < 16 ^ width)
    (hn : n < 16 ^ width) (h : hexadecimal width m = hexadecimal width n) : m = n := by
  induction hw generalizing m n with
  | refl =>
    simp only [hexadecimal, Nat.toDigits_of_lt_base (show m < 16 from hm),
      Nat.toDigits_of_lt_base (show n < 16 from hn)] at h
    exact digitChar_inj hm hn (by simpa using h)
  | step hw ih =>
    rw [hexadecimal_succ hw, hexadecimal_succ hw] at h
    obtain ⟨h₁, h₂⟩ := List.append_inj' h rfl
    have hq : m / 16 = n / 16 := by
      rw [Nat.pow_succ] at hm hn
      exact ih (by omega) (by omega) h₁
    have hr : m % 16 = n % 16 :=
      digitChar_inj (Nat.mod_lt _ (by decide)) (Nat.mod_lt _ (by decide)) (by simpa using h₂)
    omega

/-- Digits of one width with something behind them. -/
theorem hexadecimal_append_inj {width m n : Nat} {s t : List Char} (hw : 0 < width)
    (hm : m < 16 ^ width) (hn : n < 16 ^ width)
    (h : hexadecimal width m ++ s = hexadecimal width n ++ t) : m = n ∧ s = t := by
  obtain ⟨h₁, h₂⟩ := List.append_inj h
    ((length_hexadecimal hw hm).trans (length_hexadecimal hw hn).symm)
  exact ⟨hexadecimal_inj hw hm hn h₁, h₂⟩

/-! ## Escapes -/

variable {quote c d : Char} {s t : List Char}

/-- The letter of an escape gives the number of digits behind it. -/
theorem exists_codePointEscape {n : Nat} (hn : n < 16 ^ 8) :
    ∃ e width, codePointEscape n = '\\' :: e :: hexadecimal width n ∧ 0 < width ∧
      n < 16 ^ width ∧ (e, width) ∈ [('x', 2), ('u', 4), ('U', 8)] := by
  unfold codePointEscape
  split
  · exact ⟨'x', 2, rfl, by decide, by omega, by simp⟩
  · split
    · exact ⟨'u', 4, rfl, by decide, by omega, by simp⟩
    · exact ⟨'U', 8, rfl, by decide, hn, by simp⟩

theorem codePointEscape_append_inj {m n : Nat} (hm : m < 16 ^ 8) (hn : n < 16 ^ 8)
    (h : codePointEscape m ++ s = codePointEscape n ++ t) : m = n ∧ s = t := by
  obtain ⟨e, w, he, hw, hmw, hm'⟩ := exists_codePointEscape hm
  obtain ⟨e', w', he', -, hnw, hn'⟩ := exists_codePointEscape hn
  rw [he, he'] at h
  simp only [List.cons_append, List.cons.injEq, true_and] at h
  obtain ⟨rfl, h⟩ := h
  obtain rfl : w = w' := by
    simp only [List.mem_cons, Prod.mk.injEq, List.not_mem_nil, or_false] at hm' hn'
    rcases hm' with ⟨rfl, rfl⟩ | ⟨rfl, rfl⟩ | ⟨rfl, rfl⟩ <;> simp_all
  exact hexadecimal_append_inj hw hmw hnw h

theorem toNat_lt (c : Char) : c.toNat < 16 ^ 8 := by
  have : c.toNat < 2 ^ 32 := c.val.toNat_lt
  omega

/-- The character that a backslash and a letter stand for. -/
def unescaped : Char → Char
  | 't' => '\t'
  | 'n' => '\n'
  | 'r' => '\r'
  | e => e

/-- A character between quotes stands for itself, or behind a backslash there is a letter, or the
letter and the digits of a code point. -/
theorem escaped_cases (hq : quote ∈ ['\'', '"']) (c : Char) :
    (escaped quote c = [c] ∧ c ≠ quote ∧ c ≠ '\\') ∨
    (∃ e, escaped quote c = ['\\', e] ∧ unescaped e = c ∧ e ∉ ['x', 'u', 'U']) ∨
    escaped quote c = codePointEscape c.toNat := by
  unfold escaped
  split
  · rename_i hc
    refine Or.inr (Or.inl ⟨c, rfl, ?_⟩)
    simp only [List.mem_cons, List.not_mem_nil, or_false] at hq
    rcases hc with rfl | rfl
    · rcases hq with rfl | rfl <;> decide
    · decide
  · rename_i hc
    rw [not_or] at hc
    split
    · rename_i hc; exact Or.inr (Or.inl ⟨'t', rfl, hc.symm, by decide⟩)
    · split
      · rename_i hc; exact Or.inr (Or.inl ⟨'n', rfl, hc.symm, by decide⟩)
      · split
        · rename_i hc; exact Or.inr (Or.inl ⟨'r', rfl, hc.symm, by decide⟩)
        · split
          · exact Or.inl ⟨rfl, hc⟩
          · exact Or.inr (Or.inr rfl)

/-- No character between quotes is written with the quote in front. -/
theorem head?_escaped_ne (hq : quote ∈ ['\'', '"']) (c : Char) :
    (escaped quote c ++ s).head? ≠ some quote := by
  have hb : '\\' ≠ quote := by
    rintro rfl
    simp at hq
  rcases escaped_cases hq c with ⟨he, hc, -⟩ | ⟨e, he, -, -⟩ | he
  · simpa [he] using hc
  · simpa [he] using hb
  · obtain ⟨e, w, hw, -⟩ := exists_codePointEscape (toNat_lt c)
    simpa [he, hw] using hb

/-- **Escapes read back**: what an escape stands for, and what is behind it. -/
theorem escaped_append_inj (hq : quote ∈ ['\'', '"'])
    (h : escaped quote c ++ s = escaped quote d ++ t) : c = d ∧ s = t := by
  obtain ⟨a, w, ha, -, -, ham⟩ := exists_codePointEscape (toNat_lt c)
  obtain ⟨b, w', hb, -, -, hbm⟩ := exists_codePointEscape (toNat_lt d)
  have hxu : ∀ {e width}, (e, width) ∈ [('x', 2), ('u', 4), ('U', 8)] → e ∈ ['x', 'u', 'U'] := by
    intro e width he
    simp only [List.mem_cons, Prod.mk.injEq, List.not_mem_nil, or_false] at he ⊢
    tauto
  rcases escaped_cases hq c with ⟨hc, -, hc'⟩ | ⟨e, hc, rfl, he⟩ | hc <;>
    rcases escaped_cases hq d with ⟨hd, -, hd'⟩ | ⟨f, hd, rfl, hf⟩ | hd <;> rw [hc, hd] at h
  case inl.inl => simpa using h
  case inl.inr.inl => exact absurd (List.cons.inj h).1 hc'
  case inl.inr.inr => rw [hb] at h; exact absurd (List.cons.inj h).1 hc'
  case inr.inl.inl => exact absurd (List.cons.inj h).1.symm hd'
  case inr.inl.inr.inl =>
    obtain ⟨rfl, rfl⟩ : e = f ∧ s = t := by simpa using h
    exact ⟨rfl, rfl⟩
  case inr.inl.inr.inr =>
    rw [hb] at h
    obtain ⟨rfl, -⟩ : e = b ∧ s = _ := by simpa using h
    exact absurd (hxu hbm) he
  case inr.inr.inl => rw [ha] at h; exact absurd (List.cons.inj h).1.symm hd'
  case inr.inr.inr.inl =>
    rw [ha] at h
    obtain ⟨rfl, -⟩ : a = f ∧ _ = t := by simpa using h
    exact absurd (hxu ham) hf
  case inr.inr.inr.inr =>
    obtain ⟨hn, hs⟩ := codePointEscape_append_inj (toNat_lt c) (toNat_lt d) h
    exact ⟨Char.toNat_inj.1 hn, hs⟩

/-! ## Texts between quotes -/

theorem quoteFor_mem (text : List Char) : quoteFor text ∈ ['\'', '"'] := by
  unfold quoteFor
  split <;> decide

/-- Escapes up to the closing quote. -/
theorem flatMap_escaped_append_inj (hq : quote ∈ ['\'', '"']) {v w : List Char}
    (h : v.flatMap (escaped quote) ++ quote :: s = w.flatMap (escaped quote) ++ quote :: t) :
    v = w ∧ s = t := by
  induction v generalizing w with
  | nil =>
    cases w with
    | nil => exact ⟨rfl, (List.cons.inj h).2⟩
    | cons d w =>
      rw [List.flatMap_cons, List.append_assoc] at h
      exact absurd (congrArg List.head? h).symm (head?_escaped_ne hq d)
  | cons c v ih =>
    rw [List.flatMap_cons, List.append_assoc] at h
    cases w with
    | nil => exact absurd (congrArg List.head? h) (head?_escaped_ne hq c)
    | cons d w =>
      rw [List.flatMap_cons, List.append_assoc] at h
      obtain ⟨rfl, hv⟩ := escaped_append_inj hq h
      obtain ⟨rfl, hs⟩ := ih hv
      exact ⟨rfl, hs⟩

/-- **Quoted text reads back**: the text between the quotes, and what is behind them. -/
theorem quoted_append_inj {v w : List Char} (h : quoted v ++ s = quoted w ++ t) :
    v = w ∧ s = t := by
  simp only [quoted, List.cons_append, List.append_assoc, List.nil_append, List.cons.injEq] at h
  obtain ⟨hq, h⟩ := h
  rw [← hq] at h
  exact flatMap_escaped_append_inj (quoteFor_mem v) h

end TensorSig.Text
