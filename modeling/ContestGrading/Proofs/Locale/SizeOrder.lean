import ContestGrading.Proofs.Locale.Size
/-!
# Sizes keep their order

A text of a size denotes a number of bytes: its number times its unit. Of two
sizes the lesser one never has the text of more bytes. In one unit rounding
keeps the order; and what is shown in a smaller unit is at most 999 of it, or
less than 1024 bytes, which is not more than 0.976 of the next unit or one
kibibyte, the least that is shown there.

Results:
* `DenotesSize.unique`: a text denotes one number of bytes.
* `IsShownIn.power_le`: the greater size has no smaller unit.
* `sizeText_mono`: the texts keep the order of the sizes.
-/
namespace ContestGrading

open Binary64 (zero)
open Decimal

namespace Size

variable {x y : Binary64} {u v : Unit} {s t : Text} {m n : ℚ}

/-! ## What a text of a size denotes -/

/-- The text `s` is a number and a unit, which make `q` bytes. -/
def DenotesSize (s : Text) (q : ℚ) : Prop :=
  ∃ t unit m, s = t ++ 32 :: Unit.symbol unit ∧ Denotes t m ∧ m * unit.bytes = q

/-- The unit is what stands behind the last blank. -/
theorem split_unique {a : UInt16} {front back : Text} (hs : a ∉ s) (ht : a ∉ t)
    (h : front ++ a :: s = back ++ a :: t) : front = back ∧ s = t := by
  rcases List.append_eq_append_iff.mp h with ⟨between, hback, hrest⟩ | ⟨between, hfront, hrest⟩
  · cases between with
    | nil => exact ⟨(hback.trans (List.append_nil _)).symm, (List.cons.inj hrest).2⟩
    | cons w between =>
      refine absurd ?_ hs
      rw [(List.cons.inj hrest).2]
      exact List.mem_append_right _ (List.mem_cons_self ..)
  · cases between with
    | nil => exact ⟨hfront.trans (List.append_nil _), (List.cons.inj hrest).2.symm⟩
    | cons w between =>
      refine absurd ?_ ht
      rw [(List.cons.inj hrest).2]
      exact List.mem_append_right _ (List.mem_cons_self ..)

theorem DenotesSize.unique {a b : ℚ} (ha : DenotesSize s a) (hb : DenotesSize s b) : a = b := by
  have hblank : ∀ unit : Unit, 32 ∉ unit.symbol := by
    intro unit
    cases unit <;> decide
  have hsymbol : ∀ u v : Unit, u.symbol = v.symbol → u = v := by
    intro u v
    cases u <;> cases v <;> decide
  obtain ⟨t, u, m, rfl, hm, rfl⟩ := ha
  obtain ⟨t', v, n, heq, hn, rfl⟩ := hb
  obtain ⟨rfl, hunit⟩ := split_unique (hblank u) (hblank v) heq
  rw [hm.unique hn, hsymbol u v hunit]

/-! ## Two sizes -/

theorem Unit.power_lt (unit : Unit) : unit.power < 5 := by
  cases unit <;> decide

/-- A larger unit is at least 1024 of the smaller one. -/
theorem Unit.bytes_mul_le (h : u.power < v.power) : u.bytes * 1024 ≤ v.bytes := by
  rw [bytes, bytes, ← pow_succ]
  exact pow_le_pow_right₀ (by norm_num) h

/-- The greater size has no smaller unit. -/
theorem IsShownIn.power_le (hx : IsShownIn x u s m) (hy : IsShownIn y v t n)
    (h : x.value ≤ y.value) : u.power ≤ v.power := by
  by_contra hlt
  have hexceeded := hx.passed v (not_le.mp hlt)
  have hlast : v ≠ .tebibyte := by
    rintro rfl
    exact hlt (Nat.le_of_lt_succ u.power_lt)
  by_cases hbyte : v = .byte
  · subst hbyte
    have hlimit : 1024 ≤ x.value := hexceeded
    exact hy.fits hlast (hlimit.trans h)
  · obtain ⟨r, hr, hlimit⟩ := (Unit.isExceeded_of_ne hbyte).mp hexceeded
    have hrounded := hr.mono (hy.rounded hbyte) (div_le_div_of_nonneg_right h v.bytes_pos.le)
    linarith [hy.below hbyte hlast]

/-- A kibibyte is the only larger unit than the byte in which one is the least. -/
theorem IsShownIn.larger_cases (hy : IsShownIn y v t n) (h : 0 < v.power) :
    v = .kibibyte ∧ 1 ≤ n ∨ 1 < v.power ∧ 976 / 1000 ≤ n := by
  by_cases hkibibyte : v = .kibibyte
  · exact .inl ⟨hkibibyte, hy.one_le hkibibyte⟩
  · have hpower : 1 < v.power := by
      refine lt_of_le_of_ne h fun hone => hkibibyte ?_
      exact Unit.eq_of_power_eq hone.symm
    exact .inr ⟨hpower, hy.low hpower⟩

/-- No less than 1024 bytes are shown in a larger unit. -/
theorem IsShownIn.le_of_power_pos (hy : IsShownIn y v t n) (h : 0 < v.power) :
    1024 ≤ n * v.bytes := by
  rcases hy.larger_cases h with ⟨rfl, hone⟩ | ⟨hpower, hlow⟩
  · rw [Unit.bytes, Unit.power, pow_one]
    linarith
  · have hbytes : (1024 : ℚ) ^ 2 ≤ v.bytes := pow_le_pow_right₀ (by norm_num) hpower
    calc (1024 : ℚ) ≤ 976 / 1000 * 1024 ^ 2 := by norm_num
      _ ≤ n * v.bytes := by gcongr

/-- What is shown in a smaller unit is no more than the least in a larger one. -/
theorem IsShownIn.le_of_power_lt (hx : IsShownIn x u s m) (hy : IsShownIn y v t n)
    (h : u.power < v.power) : m * u.bytes ≤ n * v.bytes := by
  by_cases hbyte : u = .byte
  · subst hbyte
    have hlt := hx.below_byte rfl
    have hle := hy.le_of_power_pos h
    rw [Unit.bytes, Unit.power, pow_zero, mul_one]
    linarith
  · have hlast : u ≠ .tebibyte := by
      rintro rfl
      exact absurd h (Nat.not_lt.mpr (Nat.le_of_lt_succ v.power_lt))
    have hbelow := hx.below hbyte hlast
    have hgap : m ≤ 10 ^ 3 - 1 := (hx.rounded hbyte).nearest.1.le_pred (by norm_num; exact hbelow)
    have hlow : 976 / 1000 ≤ n := by
      rcases hy.larger_cases (Nat.zero_lt_of_lt h) with ⟨-, hone⟩ | ⟨-, hlow⟩ <;> linarith
    have hpos := u.bytes_pos
    have hbytes := Unit.bytes_mul_le h
    calc m * u.bytes ≤ (976 / 1000 * 1024) * u.bytes := by
          gcongr
          exact hgap.trans (by norm_num)
      _ = 976 / 1000 * (u.bytes * 1024) := by ring
      _ ≤ n * v.bytes := by gcongr

/-- In one unit the numbers keep the order. -/
theorem IsShownIn.le_of_unit_eq (hx : IsShownIn x u s m) (hy : IsShownIn y u t n)
    (fx : x.isFinite = true) (fy : y.isFinite = true) (h : x.value ≤ y.value) : m ≤ n := by
  by_cases hbyte : u = .byte
  · obtain ⟨hs, -⟩ := hx.whole hbyte
    obtain ⟨ht, -⟩ := hy.whole hbyte
    have hm := hx.denotes
    have hn := hy.denotes
    rw [hs] at hm
    rw [ht] at hn
    rw [hm.unique (denotes_toText fx), hn.unique (denotes_toText fy)]
    exact written_mono fx fy h
  · exact (hx.rounded hbyte).mono (hy.rounded hbyte)
      (div_le_div_of_nonneg_right h u.bytes_pos.le)

theorem IsShownIn.le (hx : IsShownIn x u s m) (hy : IsShownIn y v t n) (fx : x.isFinite = true)
    (fy : y.isFinite = true) (h : x.value ≤ y.value) : m * u.bytes ≤ n * v.bytes := by
  rcases Nat.lt_or_eq_of_le (hx.power_le hy h) with hlt | heq
  · exact hx.le_of_power_lt hy hlt
  · obtain rfl := Unit.eq_of_power_eq heq
    exact mul_le_mul_of_nonneg_right (hx.le_of_unit_eq hy fx fy h) u.bytes_pos.le

end Size

open Size

/-- **Sizes keep their order.** -/
theorem sizeText_mono {x y : Binary64} (hx : zero ≤ x) (h : x ≤ y) (fy : y.isFinite = true) :
    ∃ (s t : Text) (a b : ℚ), sizeText .default x = .ok s ∧ sizeText .default y = .ok t ∧
      DenotesSize s a ∧ DenotesSize t b ∧ a ≤ b := by
  have fx := Binary64.isFinite_of_le hx h fy
  have hy := Binary64.le_trans hx h
  obtain ⟨m, hm⟩ := isShownIn_ofBytes hx fx
  obtain ⟨n, hn⟩ := isShownIn_ofBytes hy fy
  exact ⟨_, _, _, _, sizeText_eq x, sizeText_eq y, ⟨_, _, m, rfl, hm.denotes, rfl⟩,
    ⟨_, _, n, rfl, hn.denotes, rfl⟩,
    hm.le hn fx fy ((Binary64.le_iff_value hx hy fx fy).mp h)⟩

/-- Where one byte more takes the next unit, its number is as small as it gets. -/
theorem sizeText_mono_nextUnit :
    zero ≤ Binary64.ofNat 1023487 ∧ Binary64.ofNat 1023487 ≤ .ofNat 1023488 ∧
      (Binary64.ofNat 1023488).isFinite = true ∧
      sizeText .default (.ofNat 1023487) = .ok ("999 KiB" : Text) ∧
      sizeText .default (.ofNat 1023488) = .ok ("0.976 MiB" : Text) ∧
      ∃ (s t : Text) (a b : ℚ), sizeText .default (.ofNat 1023487) = .ok s ∧
        sizeText .default (.ofNat 1023488) = .ok t ∧ DenotesSize s a ∧ DenotesSize t b ∧
        a ≤ b := by
  have hnonneg : zero ≤ Binary64.ofNat 1023487 := by decide +kernel
  have hle : Binary64.ofNat 1023487 ≤ .ofNat 1023488 := by decide +kernel
  have hfinite : (Binary64.ofNat 1023488).isFinite = true := by decide +kernel
  exact ⟨hnonneg, hle, hfinite, by decide +kernel, by decide +kernel,
    sizeText_mono hnonneg hle hfinite⟩

end ContestGrading
