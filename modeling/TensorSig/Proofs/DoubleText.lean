import Mathlib.Data.List.TakeWhile
import TensorSig.Double.Text
import TensorSig.Proofs.Rounding

/-!
# Reading the text of a double

The text of a double is read back as that double, so it tells doubles apart, signed zeros included.
In either notation the text of a magnitude denotes its shortest decimal, without the zeros at the
end of its digits and with the point shifted for them.

* `Decimal.ofChars_fraction`, `Decimal.ofChars_whole`, `Decimal.ofChars_neg`: what a numeral denotes
  by its parts.
* `magnitude_positional`, `ofChars_scientific`: the value of digits in either notation.
* `rank_magnitudeText`: the text of a magnitude denotes that magnitude.
* `ofText?_text`, `text_injective`: the text of a double is read back.
* `isTextPart_text`: the characters of such a text.
-/

namespace TensorSig

/-! ## Words of a class of characters -/

section

variable {p : Char → Bool} {word tail : List Char}

theorem takeWhile_append_class (hw : ∀ c ∈ word, p c = true) (ht : ∀ c ∈ tail.head?, p c = false) :
    (word ++ tail).takeWhile p = word := by
  rw [List.takeWhile_append_of_pos hw]
  cases tail with
  | nil => simp
  | cons c tail => simp [ht c rfl]

theorem dropWhile_append_class (hw : ∀ c ∈ word, p c = true) (ht : ∀ c ∈ tail.head?, p c = false) :
    (word ++ tail).dropWhile p = tail := by
  rw [List.dropWhile_append_of_pos hw]
  cases tail with
  | nil => rfl
  | cons c tail => simp [ht c rfl]

end

/-! ## Digits -/

namespace Numeral

theorem isDigit_of_mem_ofNat {n : ℕ} {c : Char} (h : c ∈ ofNat n) : c.isDigit = true :=
  Nat.isDigit_of_mem_toDigits (by decide) (by decide) h

theorem value_append (ds es : List Char) :
    value (ds ++ es) = 10 ^ es.length * value ds + value es := by
  unfold value
  rw [Nat.ofDigitChars_append, Nat.ofDigitChars_eq_ofDigitChars_zero]

@[simp]
theorem value_replicate_zero (n : ℕ) : value (List.replicate n '0') = 0 :=
  Nat.ofDigitChars_replicate_zero

theorem isDigit_of_mem_replicate_zero {n : ℕ} {c : Char} (h : c ∈ List.replicate n '0') :
    c.isDigit = true := by
  rw [List.eq_of_mem_replicate h]
  decide

/-- Digits without the zeros at their end. -/
theorem exists_eq_append_zeros (ds : List Char) :
    ∃ n, ds = (ds.reverse.dropWhile (· == '0')).reverse ++ List.replicate n '0' := by
  refine ⟨(ds.reverse.takeWhile (· == '0')).length, ?_⟩
  have hz : ds.reverse.takeWhile (· == '0') =
      List.replicate (ds.reverse.takeWhile (· == '0')).length '0' :=
    List.eq_replicate_iff.2 ⟨rfl, fun c hc => by
      simpa using List.mem_takeWhile_imp (p := (· == '0')) hc⟩
  rw [← List.reverse_replicate, ← hz, ← List.reverse_append, List.takeWhile_append_dropWhile,
    List.reverse_reverse]

theorem unsigned_of_isDigit {c : Char} {cs : List Char} (h : c.isDigit = true) :
    unsigned (c :: cs) = c :: cs := by
  unfold unsigned
  split
  · rename_i he
    rw [(List.cons.inj he).1] at h
    exact absurd h (by decide)
  · rfl

theorem isNegative_of_isDigit {c : Char} {cs : List Char} (h : c.isDigit = true) :
    isNegative (c :: cs) = false := by
  unfold isNegative
  split
  · rename_i he
    rw [(List.cons.inj he).1] at h
    exact absurd h (by decide)
  · rfl

end Numeral

/-! ## Numerals by their parts -/

namespace Decimal

open Numeral

variable {w f s : List Char}

/-- A numeral with a fraction. -/
theorem ofChars_fraction (hne : w ≠ []) (hw : ∀ c ∈ w, c.isDigit = true)
    (hf : ∀ c ∈ f, c.isDigit = true) (hs : ∀ c ∈ s.head?, c.isDigit = false) :
    ofChars (w ++ '.' :: (f ++ s)) = ⟨false, value (w ++ f), exponentPart s - f.length⟩ := by
  have hdot : ∀ c ∈ ('.' :: (f ++ s)).head?, c.isDigit = false := by
    intro c hc
    obtain rfl := Option.some.inj hc
    decide
  have hu : unsigned (w ++ '.' :: (f ++ s)) = w ++ '.' :: (f ++ s) ∧
      isNegative (w ++ '.' :: (f ++ s)) = false := by
    obtain ⟨c, cs, rfl⟩ := List.exists_cons_of_ne_nil hne
    exact ⟨unsigned_of_isDigit (hw c (by simp)), isNegative_of_isDigit (hw c (by simp))⟩
  simp only [ofChars, hu, takeWhile_append_class hw hdot, dropWhile_append_class hw hdot,
    takeWhile_append_class hf hs, dropWhile_append_class hf hs]

/-- A numeral without a fraction. -/
theorem ofChars_whole (hne : w ≠ []) (hw : ∀ c ∈ w, c.isDigit = true)
    (hs : ∀ c ∈ s.head?, c.isDigit = false ∧ c ≠ '.') :
    ofChars (w ++ s) = ⟨false, value w, exponentPart s⟩ := by
  have hd : ∀ c ∈ s.head?, c.isDigit = false := fun c hc => (hs c hc).1
  have hu : unsigned (w ++ s) = w ++ s ∧ isNegative (w ++ s) = false := by
    obtain ⟨c, cs, rfl⟩ := List.exists_cons_of_ne_nil hne
    exact ⟨unsigned_of_isDigit (hw c (by simp)), isNegative_of_isDigit (hw c (by simp))⟩
  simp only [ofChars, hu, takeWhile_append_class hw hd, dropWhile_append_class hw hd]
  split
  · exact absurd rfl (hs '.' rfl).2
  · rfl

theorem negative_ofChars (cs : List Char) : (ofChars cs).negative = isNegative cs := by
  unfold ofChars
  dsimp only
  split <;> rfl

/-- A minus sign before a numeral. -/
theorem ofChars_neg {c : Char} {cs : List Char} (h : c.isDigit = true) :
    ofChars ('-' :: c :: cs) = { ofChars (c :: cs) with negative := true } := by
  have hu : unsigned ('-' :: c :: cs) = c :: cs := rfl
  have hn : isNegative ('-' :: c :: cs) = true := rfl
  simp only [ofChars, hu, hn, unsigned_of_isDigit h]
  split <;> rfl

end Decimal

/-! ## The two notations -/

namespace Double

open Numeral Decimal

/-- An exponent is read back. -/
theorem exponentPart_exponentText (k : ℤ) : exponentPart ('e' :: exponentText k) = k := by
  have hv : value (List.replicate (2 - (ofNat k.natAbs).length) '0' ++ ofNat k.natAbs) =
      k.natAbs := by
    rw [value_append, value_replicate_zero, value_ofNat, Nat.mul_zero, Nat.zero_add]
  by_cases hk : k < 0
  · have he : exponentPart ('e' :: exponentText k) = -(k.natAbs : ℤ) := by
      simp only [exponentText, if_pos hk]
      exact congrArg (fun n : ℕ => -(n : ℤ)) hv
    omega
  · have he : exponentPart ('e' :: exponentText k) = (k.natAbs : ℤ) := by
      simp only [exponentText, if_neg hk]
      exact congrArg Int.ofNat hv
    omega

variable {ds : List Char}

/-- Digits in scientific notation. -/
theorem ofChars_scientific (hne : ds ≠ []) (hd : ∀ c ∈ ds, c.isDigit = true) (k : ℤ) :
    ofChars (scientific ds k) = ⟨false, value ds, k + 1 - ds.length⟩ := by
  obtain ⟨c, ds, rfl⟩ := List.exists_cons_of_ne_nil hne
  have hc : ∀ d ∈ [c], d.isDigit = true := by simpa using hd c (by simp)
  have he : ∀ d ∈ ('e' :: exponentText k).head?, d.isDigit = false := by
    intro d h
    obtain rfl := Option.some.inj h
    decide
  cases ds with
  | nil =>
    have h := ofChars_whole (by simp) hc (s := 'e' :: exponentText k) (by simp)
    simpa [scientific, exponentPart_exponentText] using h
  | cons d ds =>
    have h := ofChars_fraction (by simp) hc (List.forall_mem_of_forall_mem_cons hd) he
    rw [exponentPart_exponentText] at h
    simp only [scientific, List.take, List.drop, List.isEmpty_cons, Bool.false_eq_true, if_false,
      List.append_assoc, List.cons_append] at h ⊢
    rw [h]
    simp only [List.length_cons]
    congr 1
    push_cast
    ring

/-- Digits in positional notation. -/
theorem magnitude_positional (hne : ds ≠ []) (hd : ∀ c ∈ ds, c.isDigit = true) (point : ℤ) :
    (ofChars (positional ds point)).magnitude = value ds * 10 ^ (point - ds.length) := by
  have hz {n : ℕ} : ∀ c ∈ List.replicate n '0', c.isDigit = true :=
    fun c hc => isDigit_of_mem_replicate_zero hc
  unfold positional
  split
  · -- zeros stand between the point and the digits
    have h := ofChars_fraction (w := ['0']) (s := []) (by simp) (List.forall_mem_singleton.2 rfl)
      (List.forall_mem_append.2 ⟨hz (n := (-point).toNat), hd⟩) (by simp)
    have hv : value (['0'] ++ (List.replicate (-point).toNat '0' ++ ds)) = value ds := by
      rw [value_append, value_append, value_replicate_zero]
      simp [value, Nat.ofDigitChars_cons]
    have hl : (0 : ℤ) - (List.replicate (-point).toNat '0' ++ ds).length = point - ds.length := by
      rw [List.length_append, List.length_replicate]
      omega
    rw [hv, exponentPart, hl, List.append_nil, List.singleton_append] at h
    rw [h, magnitude]
  split
  · -- zeros stand between the digits and the point, and one after it
    rename_i hp hl
    have h := ofChars_fraction (w := ds ++ List.replicate (point.toNat - ds.length) '0')
      (f := ['0']) (s := []) (by simp [hne]) (List.forall_mem_append.2 ⟨hd, hz⟩)
      (List.forall_mem_singleton.2 rfl) (by simp)
    have he : point - ds.length = (point.toNat - ds.length : ℕ) := by omega
    have h0 : value ['0'] = 0 := rfl
    rw [value_append, value_append, value_replicate_zero, h0] at h
    rw [List.append_nil] at h
    rw [h, magnitude, he, zpow_natCast]
    simp only [exponentPart, List.length_replicate, List.length_singleton]
    push_cast
    norm_num
    ring
  · -- the point stands among the digits
    rename_i hp hl
    have h := ofChars_fraction (w := ds.take point.toNat) (f := ds.drop point.toNat)
      (s := []) (by simp [hne]; omega) (fun c hc => hd c (List.mem_of_mem_take hc))
      (fun c hc => hd c (List.mem_of_mem_drop hc)) (by simp)
    have he : (0 : ℤ) - (ds.drop point.toNat).length = point - ds.length := by
      rw [List.length_drop]
      omega
    rw [List.append_nil, List.take_append_drop, exponentPart, he] at h
    rw [h, magnitude]

/-- Either notation starts with a digit. -/
theorem exists_cons_positional (hne : ds ≠ []) (hd : ∀ c ∈ ds, c.isDigit = true) (point : ℤ) :
    ∃ c cs, positional ds point = c :: cs ∧ c.isDigit = true := by
  obtain ⟨c, ds, rfl⟩ := List.exists_cons_of_ne_nil hne
  unfold positional
  split
  · exact ⟨'0', _, rfl, by decide⟩
  split
  · exact ⟨c, _, rfl, hd c (by simp)⟩
  · obtain ⟨n, hn⟩ : ∃ n, point.toNat = n + 1 := ⟨point.toNat - 1, by omega⟩
    rw [hn]
    exact ⟨c, _, rfl, hd c (by simp)⟩

theorem exists_cons_scientific (hne : ds ≠ []) (hd : ∀ c ∈ ds, c.isDigit = true) (k : ℤ) :
    ∃ c cs, scientific ds k = c :: cs ∧ c.isDigit = true := by
  obtain ⟨c, ds, rfl⟩ := List.exists_cons_of_ne_nil hne
  exact ⟨c, _, rfl, hd c (by simp)⟩

/-! ## Magnitudes -/

/-- The digits of the text of a positive magnitude, which are those of its shortest decimal without
the zeros at their end. -/
theorem exists_magnitudeText {rank : ℕ} (hpos : 0 < rank) (h : rank < magnitudes) :
    ∃ ds point, ds ≠ [] ∧ (∀ c ∈ ds, c.isDigit = true) ∧
      (magnitudeText rank = positional ds point ∨ magnitudeText rank = scientific ds (point - 1)) ∧
        ∀ d : Decimal, d.magnitude = value ds * 10 ^ (point - ds.length) → d.rank = rank := by
  generalize hs : Shortest.decimal rank = shortest
  obtain ⟨digits, e⟩ := shortest
  have hr : Decimal.rank ⟨false, digits, e⟩ = rank := by
    have := Shortest.rank_decimal hpos h false
    rwa [hs] at this
  have hdigits : digits ≠ 0 := by
    rintro rfl
    exact hpos.ne hr
  obtain ⟨n, hn⟩ := exists_eq_append_zeros (ofNat digits)
  generalize hk : ((ofNat digits).reverse.dropWhile (· == '0')).reverse = ds at hn
  have hv : digits = 10 ^ n * value ds := by
    have := congrArg value hn
    rwa [value_ofNat, value_append, List.length_replicate, value_replicate_zero,
      Nat.add_zero] at this
  have hl : (ofNat digits).length = ds.length + n := by
    rw [hn, List.length_append, List.length_replicate]
  refine ⟨ds, (ofNat digits).length + e, ?_, fun c hc => ?_, ?_, fun d hd => ?_⟩
  · rintro rfl
    exact hdigits hv
  · exact isDigit_of_mem_ofNat (hn ▸ List.mem_append_left _ hc)
  · rw [magnitudeText, if_neg hpos.ne', hs]
    dsimp only
    rw [hk]
    split
    · exact .inl rfl
    · exact .inr rfl
  · have hp : ((ofNat digits).length : ℤ) + e - ds.length = n + e := by
      rw [hl]
      omega
    have hm : d.magnitude = Decimal.magnitude ⟨false, digits, e⟩ := by
      rw [hd, hp, magnitude, hv, zpow_add₀ (by norm_num), zpow_natCast]
      push_cast
      ring
    rw [rank_congr hm, hr]

/-- **The text of a magnitude** starts with a digit and denotes that magnitude. -/
theorem rank_magnitudeText {rank : ℕ} (h : rank < magnitudes) :
    ∃ c cs, magnitudeText rank = c :: cs ∧ c.isDigit = true ∧ (ofChars (c :: cs)).rank = rank := by
  rcases Nat.eq_zero_or_pos rank with rfl | hpos
  · exact ⟨'0', ['.', '0'], rfl, by decide, rfl⟩
  obtain ⟨ds, point, hne, hd, ht | ht, hr⟩ := exists_magnitudeText hpos h
  · obtain ⟨c, cs, hc, hdigit⟩ := exists_cons_positional hne hd point
    refine ⟨c, cs, ht.trans hc, hdigit, ?_⟩
    rw [← hc]
    exact hr _ (magnitude_positional hne hd point)
  · obtain ⟨c, cs, hc, hdigit⟩ := exists_cons_scientific hne hd (point - 1)
    refine ⟨c, cs, ht.trans hc, hdigit, ?_⟩
    rw [← hc]
    apply hr
    rw [ofChars_scientific hne hd, magnitude, sub_add_cancel]

/-! ## Doubles -/

/-- **The text of a double is read back** as that double. -/
theorem ofText?_text (x : Double) : ofText? x.text = some x := by
  cases x with
  | nan => rfl
  | infinite negative => cases negative <;> rfl
  | finite negative rank =>
    obtain ⟨c, cs, ht, hc, hr⟩ := rank_magnitudeText rank.isLt
    have hn : c ≠ 'n' := by
      rintro rfl
      exact absurd hc (by decide)
    have hi : c ≠ 'i' := by
      rintro rfl
      exact absurd hc (by decide)
    have hm : c ≠ '-' := by
      rintro rfl
      exact absurd hc (by decide)
    have hd : (ofChars (c :: cs)).toDouble = finite false rank := by
      rw [toDouble_eq, hr, negative_ofChars, isNegative_of_isDigit hc, ofRank, dif_pos rank.isLt]
    have hd' : (ofChars ('-' :: c :: cs)).toDouble = finite true rank := by
      rw [ofChars_neg hc, toDouble_eq]
      change ofRank true (ofChars (c :: cs)).rank = _
      rw [hr, ofRank, dif_pos rank.isLt]
    cases negative with
    | false => simp [ofText?, text, ht, hn, hi, hm, unsigned_of_isDigit hc, hc, hd]
    | true => simp [ofText?, text, ht, hi, unsigned, hc, hd']

/-- **The text of a double determines it**, the sign of a zero included. -/
theorem text_injective : Function.Injective text := by
  intro x y h
  have hx := ofText?_text x
  rw [h, ofText?_text y] at hx
  exact (Option.some.inj hx).symm

example : text (finite true 0) = "-0.0".toList := rfl

/-! ## Characters -/

/-- Whether a character occurs in the texts of doubles. -/
def isTextPart (c : Char) : Bool := c.isDigit || "+-.aefin".toList.contains c

theorem isTextPart_of_isDigit {c : Char} (h : c.isDigit = true) : isTextPart c = true := by
  rw [isTextPart, h, Bool.true_or]

theorem isTextPart_replicate_zero (n : ℕ) : ∀ c ∈ List.replicate n '0', isTextPart c = true :=
  fun _ hc => isTextPart_of_isDigit (isDigit_of_mem_replicate_zero hc)

theorem isTextPart_positional (hd : ∀ c ∈ ds, isTextPart c = true) (point : ℤ) :
    ∀ c ∈ positional ds point, isTextPart c = true := by
  unfold positional
  split
  · simp only [List.forall_mem_cons, List.forall_mem_append]
    exact ⟨by decide, by decide, isTextPart_replicate_zero _, hd⟩
  split
  · simp only [List.forall_mem_append]
    exact ⟨⟨hd, isTextPart_replicate_zero _⟩, List.all_eq_true.1 rfl⟩
  · simp only [List.forall_mem_append, List.forall_mem_cons]
    exact ⟨fun c hc => hd c (List.mem_of_mem_take hc), by decide,
      fun c hc => hd c (List.mem_of_mem_drop hc)⟩

theorem isTextPart_scientific (hd : ∀ c ∈ ds, isTextPart c = true) (k : ℤ) :
    ∀ c ∈ scientific ds k, isTextPart c = true := by
  have hfraction : ∀ c ∈ (if (ds.drop 1).isEmpty then [] else '.' :: ds.drop 1),
      isTextPart c = true := by
    split
    · simp
    · exact List.forall_mem_cons.2 ⟨by decide, fun c hc => hd c (List.mem_of_mem_drop hc)⟩
  have hsign : isTextPart (if k < 0 then '-' else '+') = true := by
    split <;> decide
  simp only [scientific, exponentText, List.forall_mem_append, List.forall_mem_cons]
  exact ⟨⟨fun c hc => hd c (List.mem_of_mem_take hc), hfraction⟩, by decide, hsign,
    isTextPart_replicate_zero _, fun c hc => isTextPart_of_isDigit (isDigit_of_mem_ofNat hc)⟩

/-- The characters of the text of a double. -/
theorem isTextPart_text (x : Double) : ∀ c ∈ x.text, isTextPart c = true := by
  have hmagnitude : ∀ rank : Fin magnitudes, ∀ c ∈ magnitudeText rank, isTextPart c = true := by
    intro rank
    rcases Nat.eq_zero_or_pos rank with hz | hpos
    · rw [hz]
      exact List.all_eq_true.1 rfl
    obtain ⟨ds, point, -, hd, ht | ht, -⟩ := exists_magnitudeText hpos rank.isLt
    · rw [ht]
      exact isTextPart_positional (fun c hc => isTextPart_of_isDigit (hd c hc)) point
    · rw [ht]
      exact isTextPart_scientific (fun c hc => isTextPart_of_isDigit (hd c hc)) (point - 1)
  cases x with
  | nan => exact List.all_eq_true.1 rfl
  | infinite negative => cases negative <;> exact List.all_eq_true.1 rfl
  | finite negative rank =>
    cases negative with
    | false => exact hmagnitude rank
    | true => exact List.forall_mem_cons.2 ⟨by decide, hmagnitude rank⟩

end Double

end TensorSig
