import ContestGrading.Proofs.Decimal.Numeral
import ContestGrading.Proofs.Decimal.Value
/-!
# Plain numerals

A plain numeral is a sign, digits, and digits after a point if there are
any. It is lean if it has no zero too many, in front or at the end, and no
sign of zero. Every other numeral of its value is then longer.

Results:
* `Plain.ofText?_text`: a plain numeral reads as its value.
* `Plain.length_text_lt`: a lean one is the shortest of its value.
* `Plain.fixedNotation_text`: digits to a number of places are a plain numeral,
  and a lean one less the zeros at the end.
-/
namespace ContestGrading.Decimal

theorem ofDigits_lt {ds : List Nat} (h : AreDigits ds) : ofDigits ds < 10 ^ ds.length := by
  induction ds using List.reverseRecOn with
  | nil => decide
  | append_singleton ds d ih =>
    have hd := h d (by simp)
    have := ih fun e he => h e (by simp [he])
    rw [ofDigits_concat, List.length_append, List.length_singleton, Nat.pow_succ]
    omega

theorem ofDigits_singleton (d : Nat) : ofDigits [d] = d := by
  rw [ofDigits, List.foldl_cons, List.foldl_nil, Nat.mul_zero, Nat.zero_add]

/-- Digits that do not start with a zero. -/
theorem pow_le_ofDigits {ds : List Nat} (hne : ds ≠ []) (h : ds.head? ≠ some 0) :
    10 ^ (ds.length - 1) ≤ ofDigits ds := by
  obtain ⟨d, ds, rfl⟩ := List.exists_cons_of_ne_nil hne
  have hd : 0 < d := Nat.pos_of_ne_zero fun h0 => h (by rw [h0]; rfl)
  calc 10 ^ ((d :: ds).length - 1) = 10 ^ ds.length := rfl
    _ ≤ d * 10 ^ ds.length := Nat.le_mul_of_pos_left _ hd
    _ ≤ d * 10 ^ ds.length + ofDigits ds := Nat.le_add_right _ _
    _ = ofDigits (d :: ds) := by
        rw [← List.singleton_append, ofDigits_append, ofDigits_singleton]

/-- As many digits of the same number are the same. -/
theorem ofDigits_injective {ds es : List Nat} (hd : AreDigits ds) (he : AreDigits es)
    (hlen : ds.length = es.length) (h : ofDigits ds = ofDigits es) : ds = es := by
  induction ds using List.reverseRecOn generalizing es with
  | nil => exact (List.length_eq_zero_iff.mp hlen.symm).symm
  | append_singleton ds d ih =>
    obtain ⟨es, e, rfl⟩ : ∃ es' e, es = es' ++ [e] := by
      have hne : es ≠ [] := by
        rintro rfl
        simp at hlen
      exact ⟨_, _, (List.dropLast_concat_getLast hne).symm⟩
    have hd' := hd d (by simp)
    have he' := he e (by simp)
    rw [ofDigits_concat, ofDigits_concat] at h
    have hlen : ds.length = es.length := by simpa using hlen
    have hrest := ih (fun c hc => hd c (by simp [hc])) (fun c hc => he c (by simp [hc])) hlen
      (by omega)
    rw [hrest, show d = e by omega]

theorem getLast?_stripped (ds : List Nat) : (stripped ds).getLast? ≠ some 0 := by
  intro h
  by_cases hne : stripped ds = []
  · rw [hne] at h
    cases h
  · rw [List.getLast?_eq_some_getLast hne, Option.some.injEq] at h
    exact List.rdropWhile_last_not (· == 0) ds hne (beq_iff_eq.mpr h)

/-- A sign, digits, and digits after the point, which stands only before a digit. -/
structure Plain where
  negative : Bool
  whole : List Nat
  fraction : List Nat
  areDigits_whole : AreDigits whole
  areDigits_fraction : AreDigits fraction
  whole_ne_nil : whole ≠ []

namespace Plain

def text (n : Plain) : Text :=
  signText n.negative ++ (digitText n.whole ++ pointed n.fraction)

/-- The magnitude that the numeral denotes. -/
def size (n : Plain) : ℚ := ofDigits (n.whole ++ n.fraction) / 10 ^ n.fraction.length

/-- The number itself. -/
def value (n : Plain) : ℚ := if n.negative then -n.size else n.size

theorem size_nonneg (n : Plain) : 0 ≤ n.size := by
  unfold size
  positivity

theorem abs_value (n : Plain) : |n.value| = n.size := by
  rw [value]
  split
  · rw [abs_neg, abs_of_nonneg n.size_nonneg]
  · exact abs_of_nonneg n.size_nonneg

theorem not_mem_text {u : UInt16} (hu : ∀ d < 10, digitUnit d ≠ u) (hminus : u ≠ 45)
    (hpoint : u ≠ 46) (n : Plain) : u ∉ n.text := by
  have hwhole := not_mem_digitText hu n.areDigits_whole
  have hfraction := not_mem_digitText hu n.areDigits_fraction
  rw [text]
  cases n.negative <;> cases hf : n.fraction <;>
    simp_all [signText, minus, pointed]

/-! ## Reading -/

/-- Read back, a plain numeral denotes its value. -/
theorem ofText?_text (n : Plain) :
    ∃ d, ofText? n.text = some d ∧ d.negative = n.negative ∧ d.size = n.size := by
  have hread := ofText?_numeral n.negative n.areDigits_whole n.areDigits_fraction n.whole_ne_nil
    ends_nil rfl
  rw [List.append_nil] at hread
  refine ⟨_, hread, rfl, ?_⟩
  rw [Decimal.size, size, div_eq_mul_inv, ← zpow_natCast, ← zpow_neg]
  simp [readExponent]

theorem value_of_ofText? (n : Plain) {d : Decimal} (h : ofText? n.text = some d) :
    d.value = n.value := by
  obtain ⟨d', hd, hsign, hsize⟩ := n.ofText?_text
  cases h.symm.trans hd
  rw [Decimal.value, hsign, hsize]
  rfl

/-! ## No zero too many -/

/-- No zero in front of another digit, none at the end of the fraction, and
no sign of a zero. -/
structure IsLean (n : Plain) : Prop where
  whole : n.whole.head? = some 0 → n.whole.length = 1
  fraction : n.fraction.getLast? ≠ some 0
  sign : n.negative = true → n.value ≠ 0

variable {n m : Plain}

theorem coefficients_of_size_eq (h : n.size = m.size) :
    ofDigits (n.whole ++ n.fraction) * 10 ^ m.fraction.length =
      ofDigits (m.whole ++ m.fraction) * 10 ^ n.fraction.length := by
  rw [size, size, div_eq_div_iff (by positivity) (by positivity)] at h
  exact_mod_cast h

/-- The digits before the point are the integer part. -/
theorem ofDigits_whole (n : Plain) :
    ofDigits n.whole = ofDigits (n.whole ++ n.fraction) / 10 ^ n.fraction.length := by
  rw [ofDigits_append, Nat.mul_comm, Nat.mul_add_div (Nat.pow_pos (by decide)),
    Nat.div_eq_of_lt (ofDigits_lt n.areDigits_fraction), Nat.add_zero]

theorem ofDigits_whole_eq (h : n.size = m.size) : ofDigits n.whole = ofDigits m.whole := by
  have hn : 0 < 10 ^ n.fraction.length := Nat.pow_pos (by decide)
  have hm : 0 < 10 ^ m.fraction.length := Nat.pow_pos (by decide)
  rw [ofDigits_whole, ofDigits_whole m, ← Nat.mul_div_mul_right _ _ hm,
    coefficients_of_size_eq h, Nat.mul_comm (10 ^ n.fraction.length),
    Nat.mul_div_mul_right _ _ hn]

theorem length_whole_le (hn : n.IsLean) (h : n.size = m.size) :
    n.whole.length ≤ m.whole.length := by
  have hm : 0 < m.whole.length := List.length_pos_iff.mpr m.whole_ne_nil
  by_cases hzero : n.whole.head? = some 0
  · rw [hn.whole hzero]
    exact hm
  · have hlt : 10 ^ (n.whole.length - 1) < 10 ^ m.whole.length :=
      calc 10 ^ (n.whole.length - 1) ≤ ofDigits n.whole := pow_le_ofDigits n.whole_ne_nil hzero
        _ = ofDigits m.whole := ofDigits_whole_eq h
        _ < 10 ^ m.whole.length := ofDigits_lt m.areDigits_whole
    have := (Nat.pow_lt_pow_iff_right (by decide)).mp hlt
    omega

theorem length_fraction_le (hn : n.IsLean) (h : n.size = m.size) :
    n.fraction.length ≤ m.fraction.length := by
  by_contra hlt
  obtain ⟨k, hk⟩ : ∃ k, n.fraction.length = m.fraction.length + (k + 1) :=
    ⟨n.fraction.length - m.fraction.length - 1, by omega⟩
  -- with fewer places, the coefficient would have to be a multiple of ten
  have hten : ofDigits (n.whole ++ n.fraction) =
      10 * (10 ^ k * ofDigits (m.whole ++ m.fraction)) := by
    have hm : 0 < 10 ^ m.fraction.length := Nat.pow_pos (by decide)
    refine Nat.eq_of_mul_eq_mul_right hm ?_
    rw [coefficients_of_size_eq h, hk, Nat.pow_add, Nat.pow_succ]
    ring
  obtain ⟨ds, d, hds⟩ : ∃ ds d, n.fraction = ds ++ [d] :=
    ⟨_, _, (List.dropLast_concat_getLast (List.ne_nil_of_length_eq_add_one hk)).symm⟩
  have hd : d < 10 := n.areDigits_fraction d (by simp [hds])
  rw [hds, ← List.append_assoc, ofDigits_concat] at hten
  refine hn.fraction ?_
  rw [hds, List.getLast?_concat]
  congr 1
  omega

/-- A sign that a lean numeral has is one that its value needs. -/
theorem negative_of_negative (hn : n.IsLean) (h : n.value = m.value) (hneg : n.negative = true) :
    m.negative = true := by
  have hvalue := hn.sign hneg
  by_contra hm
  rw [value, if_pos hneg, value, if_neg hm] at h
  rw [value, if_pos hneg] at hvalue
  have := n.size_nonneg
  have := m.size_nonneg
  exact hvalue (by linarith)

theorem length_text (n : Plain) :
    n.text.length = n.negative.toNat + n.whole.length +
      if n.fraction.length = 0 then 0 else n.fraction.length + 1 := by
  have hsign : (signText n.negative).length = n.negative.toNat := by cases n.negative <;> rfl
  have hpointed : (pointed n.fraction).length =
      if n.fraction.length = 0 then 0 else n.fraction.length + 1 := by
    cases n.fraction with
    | nil => rfl
    | cons d ds => rw [pointed, List.length_cons, length_digitText, if_neg (by simp)]
  rw [text, List.length_append, List.length_append, length_digitText, hsign, hpointed,
    Nat.add_assoc]

/-- Two numerals of one value that differ only in their digits do not differ. -/
theorem eq_of_lengths (hsign : n.negative = m.negative)
    (hwhole : n.whole.length = m.whole.length)
    (hfraction : n.fraction.length = m.fraction.length) (h : n.size = m.size) : n = m := by
  have hvalue := coefficients_of_size_eq h
  rw [hfraction] at hvalue
  have hvalue := Nat.eq_of_mul_eq_mul_right (Nat.pow_pos (by decide)) hvalue
  have hdigits : n.whole ++ n.fraction = m.whole ++ m.fraction := by
    refine ofDigits_injective ?_ ?_ (by simp [hwhole, hfraction]) hvalue
    · exact List.forall_mem_append.mpr ⟨n.areDigits_whole, n.areDigits_fraction⟩
    · exact List.forall_mem_append.mpr ⟨m.areDigits_whole, m.areDigits_fraction⟩
  obtain ⟨e1, e2⟩ := List.append_inj hdigits hwhole
  cases n
  cases m
  simp_all

/-- **A lean numeral is the shortest:** every other one of its value is longer. -/
theorem length_text_lt (hn : n.IsLean) (h : m.value = n.value) (hne : m ≠ n) :
    n.text.length < m.text.length := by
  have hsize : n.size = m.size := by rw [← abs_value, ← abs_value, h]
  have hwhole := length_whole_le hn hsize
  have hfraction := length_fraction_le hn hsize
  have hsign : n.negative.toNat ≤ m.negative.toNat := by
    cases hneg : n.negative with
    | false => exact Nat.zero_le _
    | true => rw [negative_of_negative hn h.symm hneg]
  rw [length_text, length_text]
  by_contra hle
  have hequal : n.negative.toNat = m.negative.toNat ∧ n.whole.length = m.whole.length ∧
      n.fraction.length = m.fraction.length := by
    split at hle <;> split at hle <;> omega
  obtain ⟨hsign, hwhole, hfraction⟩ := hequal
  have hnegative : n.negative = m.negative := by
    revert hsign
    cases n.negative <;> cases m.negative <;> decide
  exact hne (eq_of_lengths hnegative hwhole hfraction hsize).symm

/-- A value has one lean numeral. -/
theorem eq_of_value_eq (hn : n.IsLean) (hm : m.IsLean) (h : n.value = m.value) : n = m := by
  by_contra hne
  have h1 := length_text_lt hn h.symm (Ne.symm hne)
  have h2 := length_text_lt hm h hne
  omega

def zero : Plain := ⟨false, [0], [], by simp [AreDigits], by simp [AreDigits], by simp⟩

theorem text_zero : zero.text = [48] := rfl

theorem value_zero : zero.value = 0 := by
  simp [value, size, zero, ofDigits]

theorem isLean_zero : zero.IsLean := ⟨fun _ => rfl, by simp [zero], by simp [zero]⟩

/-! ## Digits to a number of places -/

/-- The numeral without the zeros at the end of its fraction. -/
def strip (n : Plain) : Plain :=
  { n with
    fraction := stripped n.fraction
    areDigits_fraction := areDigits_stripped n.areDigits_fraction }

theorem dropTrailingZeros_text (n : Plain) : dropTrailingZeros n.text = n.strip.text := by
  have hfront : 46 ∉ signText n.negative ++ digitText n.whole := by
    rw [List.mem_append, not_or]
    refine ⟨?_, point_not_mem_digitText n.areDigits_whole⟩
    cases n.negative <;> decide
  rw [text, ← List.append_assoc, dropTrailingZeros_numeral hfront n.areDigits_fraction,
    List.append_assoc]
  rfl

theorem size_strip (n : Plain) : n.strip.size = n.size := by
  obtain ⟨k, hlength, hvalue⟩ := ofDigits_append_stripped n.whole n.fraction
  have : n.size = ofDigits (n.strip.whole ++ n.strip.fraction) * 10 ^ k /
      10 ^ (n.strip.fraction.length + k) := by
    rw [size, hvalue, hlength]
    push_cast
    rfl
  rw [this, size, pow_add, mul_div_mul_right _ _ (by positivity)]

/-- Digits to a number of places are a plain numeral, and a lean one without
the zeros at the end. -/
theorem fixedNotation_text (d : Decimal) (places : Nat) :
    ∃ n : Plain, d.fixedNotation places = n.text ∧ n.negative = d.negative ∧
      n.size = d.coefficient / 10 ^ places ∧ (n.size ≠ 0 → n.strip.IsLean) := by
  obtain ⟨whole, fraction, hw, hf, hne, hhead, hlen, hvalue, htext⟩ := fixedNotation_eq d places
  let n : Plain := ⟨d.negative, whole, fraction, hw, hf, hne⟩
  refine ⟨n, htext, rfl, by rw [size, hvalue, hlen], fun h0 => ?_⟩
  refine ⟨hhead, getLast?_stripped fraction, fun _ hzero => h0 ?_⟩
  rw [← size_strip, ← abs_value, hzero, abs_zero]

end Plain

end ContestGrading.Decimal
