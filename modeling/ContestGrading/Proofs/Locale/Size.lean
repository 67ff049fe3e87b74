import ContestGrading.Locale.Measure
import ContestGrading.Proofs.Decimal.Written
import ContestGrading.Proofs.Template.Numbers
/-!
# Sizes in a readable unit

A size is divided by 1024 until the number shown stays below the limit of its
unit. Where that happens the value is far above the smallest magnitudes, so
every division is exact and the value is the size in that unit. What is shown
of it is the number itself in bytes, and the nearest number of three digits
in the other units; that number is a double in between, but its three digits
are also those that are written.

Results:
* `div_two_pow`: a division by 1024 is exact.
* `Reached`: what holds at each unit that is tried; `Reached.next`,
  `reached_settle`: one division, and all of them.
* `sizeText_eq`: the text of a size.
* `sizeText_shows`: which unit is taken, and how accurate the number is.
-/
namespace ContestGrading

namespace Binary64

open Decimal

/-! ## Exact divisions -/

/-- A magnitude that is not among the smallest ones is a multiple of a power of two. -/
theorem exists_mul_pow {u k : Nat} (hu : Representable u) (h : 2 ^ (53 + k) ≤ u) :
    ∃ v, Representable v ∧ u = v * 2 ^ k := by
  obtain ⟨m, hm, hmu⟩ := exists_mul_spacing hu
  have hpos := Nat.two_pow_pos (53 + k)
  have hlog : 53 + k ≤ u.log2 := (Nat.le_log2 (by omega)).mpr h
  obtain ⟨j, hj⟩ : ∃ j, u.log2 - 52 = j + k := ⟨u.log2 - 52 - k, by omega⟩
  rw [spacing_eq, hj, Nat.pow_add, ← Nat.mul_assoc] at hmu
  refine ⟨m * 2 ^ j, representable_mul_pow hm.le ?_, hmu⟩
  exact Nat.lt_of_le_of_lt (hmu ▸ Nat.le_mul_of_pos_right _ (Nat.two_pow_pos k)) hu.1

/-- Such a number is divided by the power without rounding. -/
theorem div_two_pow {k : Nat} (hk : 2 ^ k ≤ 2 ^ 53) {x : Binary64} (hx : zero ≤ x)
    (fx : x.isFinite = true) (h : 2 ^ (53 + k) ≤ x.magnitude) :
    zero ≤ x / ofNat (2 ^ k) ∧ (x / ofNat (2 ^ k)).isFinite = true ∧
      (x / ofNat (2 ^ k)).value * 2 ^ k = x.value := by
  obtain ⟨s, u, hu, rfl⟩ := exists_of_isFinite fx
  obtain ⟨v, hv, rfl⟩ := exists_mul_pow hu h
  have hpow := Nat.two_pow_pos k
  have hden : 0 < 2 ^ k * unitsPerOne := Nat.mul_pos hpow unitsPerOne_pos
  have hmagnitude := magnitude_ofNat_of_le hk
  obtain ⟨hpos, hquotient⟩ := magnitude_div hx (zero_le_ofNat _) fx (isFinite_ofNat hk)
    (hmagnitude ▸ hden)
  rw [hmagnitude, magnitude_finite, Nat.mul_assoc, rounded_mul_self hden (.inl hv)] at hquotient
  have hle : finite s (v * 2 ^ k) hu / ofNat (2 ^ k) ≤ finite s (v * 2 ^ k) hu := by
    rw [le_iff_magnitude hpos hx, hquotient, magnitude_finite]
    exact Nat.le_mul_of_pos_right _ hpow
  have hfinite := isFinite_of_le hpos hle fx
  refine ⟨hpos, hfinite, ?_⟩
  rw [value_of_nonneg hpos hfinite, value_of_nonneg hx fx, hquotient, magnitude_finite]
  push_cast
  ring

end Binary64

open Binary64 (zero unitsPerOne)
open Decimal

namespace Size

variable {x y value : Binary64} {unit larger : Unit} {m : ℚ}

/-! ## Units -/

namespace Unit

def power : Unit → Nat
  | .byte => 0
  | .kibibyte => 1
  | .mebibyte => 2
  | .gibibyte => 3
  | .tebibyte => 4

/-- The number of bytes in the unit. -/
def bytes (unit : Unit) : ℚ := 1024 ^ unit.power

/-- Of `q` bytes the number shown in the unit reaches its limit. -/
def IsExceeded : Unit → ℚ → Prop
  | .byte, q => 1024 ≤ q
  | unit, q => ∃ m, IsRoundedUp 3 (q / unit.bytes) m ∧ 1000 ≤ m

theorem bytes_pos (unit : Unit) : 0 < unit.bytes := by
  unfold bytes
  positivity

theorem power_next (h : unit.next? = some larger) : larger.power = unit.power + 1 := by
  cases unit <;> cases h <;> rfl

theorem bytes_next (h : unit.next? = some larger) : larger.bytes = unit.bytes * 1024 := by
  rw [bytes, bytes, power_next h, pow_succ]

theorem bytes_ge (h : unit ≠ .byte) : 1024 ≤ unit.bytes := by
  cases unit with
  | byte => exact absurd rfl h
  | _ => norm_num [bytes, power]

theorem ne_byte_of_next (h : unit.next? = some larger) : larger ≠ .byte := by
  cases unit <;> cases h <;> decide

theorem exists_next (h : unit ≠ .byte) : ∃ smaller : Unit, smaller.next? = some unit := by
  cases unit with
  | byte => exact absurd rfl h
  | kibibyte => exact ⟨.byte, rfl⟩
  | mebibyte => exact ⟨.kibibyte, rfl⟩
  | gibibyte => exact ⟨.mebibyte, rfl⟩
  | tebibyte => exact ⟨.gibibyte, rfl⟩

theorem eq_of_power_eq {u v : Unit} (h : u.power = v.power) : u = v := by
  cases u <;> cases v <;> first | rfl | cases h

theorem isExceeded_of_ne (h : unit ≠ .byte) {q : ℚ} :
    unit.IsExceeded q ↔ ∃ m, IsRoundedUp 3 (q / unit.bytes) m ∧ 1000 ≤ m := by
  cases unit with
  | byte => exact absurd rfl h
  | _ => exact Iff.rfl

/-- Half of the last digit is missing from the limit at most. -/
theorem IsExceeded.le {q : ℚ} (h : unit.IsExceeded q) : 1999 / 2 * unit.bytes ≤ q := by
  by_cases hbyte : unit = .byte
  · subst hbyte
    have h : 1024 ≤ q := h
    have hbytes : bytes .byte = 1 := pow_zero _
    rw [hbytes]
    linarith
  · obtain ⟨m, hm, hlimit⟩ := (isExceeded_of_ne hbyte).mp h
    have hdigits : HasDigits 3 999 := ⟨999, 0, by norm_num, by norm_num⟩
    have hmiddle := hm.middle_le hdigits (by linarith)
    rw [← le_div_iff₀ unit.bytes_pos]
    linarith

end Unit

/-! ## One unit after another -/

/-- What holds of the value in a unit that is tried: it is the size in that
unit, and the smaller units have been exceeded. -/
structure Reached (x : Binary64) (unit : Unit) (value : Binary64) : Prop where
  nonneg : zero ≤ value
  isFinite : value.isFinite = true
  whole : unit = .byte → value = x
  exact : value.value * unit.bytes = x.value
  passed : ∀ u : Unit, u.power < unit.power → u.IsExceeded x.value

namespace Reached

theorem start (hx : zero ≤ x) (fx : x.isFinite = true) : Reached x .byte x :=
  ⟨hx, fx, fun _ => rfl, mul_one _, fun _ h => absurd h (Nat.not_lt_zero _)⟩

theorem value_eq (h : Reached x unit value) : value.value = x.value / unit.bytes :=
  eq_div_of_mul_eq unit.bytes_pos.ne' h.exact

/-- The unit before has been exceeded, so the value is nearly one at least. -/
theorem low (h : Reached x unit value) (hne : unit ≠ .byte) : 1999 / 2048 ≤ value.value := by
  obtain ⟨smaller, hnext⟩ := Unit.exists_next hne
  have hpower := Unit.power_next hnext
  have hle := (h.passed smaller (by omega)).le
  have hpos := smaller.bytes_pos
  rw [← h.exact, Unit.bytes_next hnext, ← mul_assoc, mul_right_comm,
    mul_le_mul_iff_of_pos_right hpos] at hle
  linarith

theorem units_pos (h : Reached x unit value) (hne : unit ≠ .byte) : 0 < value.units := by
  have hlow := h.low hne
  rw [Binary64.value_of_nonneg h.nonneg h.isFinite] at hlow
  rw [units_eq_magnitude h.isFinite]
  by_contra h0
  rw [Nat.eq_zero_of_not_pos h0, Nat.cast_zero, zero_div] at hlow
  norm_num at hlow

theorem negative (h : Reached x unit value) (hne : unit ≠ .byte) :
    (value.toSignificant 3).negative = false := by
  rw [toSignificant_negative (h.units_pos hne)]
  exact Binary64.negative_eq_false h.nonneg (units_eq_magnitude h.isFinite ▸ h.units_pos hne)

theorem inOnes_eq (h : Reached x unit value) : inOnes value.units = x.value / unit.bytes := by
  rw [← h.value_eq, Binary64.value_of_nonneg h.nonneg h.isFinite, units_eq_magnitude h.isFinite]
  rfl

/-- Its three digits are those of the size in the unit. -/
theorem isRoundedUp (h : Reached x unit value) (hne : unit ≠ .byte) :
    IsRoundedUp 3 (x.value / unit.bytes) (value.toSignificant 3).size := by
  rw [← h.inOnes_eq]
  exact isRoundedUp_size (h.units_pos hne) 2

theorem error (h : Reached x unit value) (hne : unit ≠ .byte) :
    |(value.toSignificant 3).size - x.value / unit.bytes| ≤ x.value / unit.bytes / 200 := by
  rw [← h.inOnes_eq]
  refine (error_toSignificant (h.units_pos hne) 2).trans_eq ?_
  norm_num

theorem low_size (h : Reached x unit value) (hne : unit ≠ .byte) :
    976 / 1000 ≤ (value.toSignificant 3).size := by
  have hdigits : HasDigits 3 (976 / 1000) := ⟨976, -3, by norm_num, by norm_num⟩
  refine (h.isRoundedUp hne).le_of_le hdigits ?_
  rw [← h.value_eq]
  linarith [h.low hne]

theorem size_le (h : Reached x unit value) (hne : unit ≠ .byte) :
    (value.toSignificant 3).size ≤ x.value := by
  have herror := (abs_le.mp (h.error hne)).2
  have hlow := h.low hne
  have hbytes := Unit.bytes_ge hne
  rw [← h.value_eq] at herror
  calc (value.toSignificant 3).size ≤ value.value * 1024 := by linarith
    _ ≤ value.value * unit.bytes := by gcongr
    _ = x.value := h.exact

/-! ## The number shown -/

theorem shown_of_ne (h : Reached x unit value) (hne : unit ≠ .byte) :
    shown unit value = (value.toSignificant 3).toBinary64 := by
  rw [shown, if_neg hne, if_pos h.isFinite]

/-- The number shown is in range again. -/
theorem isFinite_shown (h : Reached x unit value) (hx : zero ≤ x) (fx : x.isFinite = true) :
    zero ≤ shown unit value ∧ (shown unit value).isFinite = true := by
  by_cases hne : unit = .byte
  · rw [shown, if_pos hne]
    exact ⟨h.nonneg, h.isFinite⟩
  · rw [h.shown_of_ne hne]
    have hpos := zero_le_toBinary64 (h.negative hne)
    have hsize := h.size_le hne
    rw [Binary64.value_of_nonneg hx fx] at hsize
    exact ⟨hpos, Binary64.isFinite_of_le hpos (toBinary64_le (h.negative hne) hx hsize) fx⟩

/-- Its text denotes the three digits. -/
theorem written_shown (h : Reached x unit value) (hne : unit ≠ .byte) (hx : zero ≤ x)
    (fx : x.isFinite = true) : (shown unit value).written = (value.toSignificant 3).size := by
  obtain ⟨-, hfinite⟩ := h.isFinite_shown hx fx
  rw [h.shown_of_ne hne] at hfinite ⊢
  have htenth : Decimal.size ⟨false, 1, -1⟩ ≤ (value.toSignificant 3).size := by
    refine le_trans ?_ (h.low_size hne)
    norm_num [Decimal.size]
  have hunits : 2 ^ 53 ≤ (value.toSignificant 3).toBinary64.units := by
    rw [units_eq_magnitude hfinite]
    exact Nat.le_trans (by decide +kernel) (magnitude_toBinary64_mono htenth)
  have hdigits : (value.toSignificant 3).coefficient < 10 ^ 15 :=
    Nat.lt_trans (toSignificant_bounds (h.units_pos hne) 2).2 (by decide)
  rw [written_toBinary64 hunits hdigits, Decimal.value, h.negative hne]
  rfl

/-- The double between is a thousand only if the three digits are. -/
theorem thousand_le_shown_iff (h : Reached x unit value) (hne : unit ≠ .byte) :
    .ofNat 1000 ≤ shown unit value ↔ 1000 ≤ (value.toSignificant 3).size := by
  have hthousand := Binary64.magnitude_ofNat_of_le (by decide : 1000 ≤ 2 ^ 53)
  have hbelow := Binary64.magnitude_ofNat_of_le (by decide : 999 ≤ 2 ^ 53)
  rw [h.shown_of_ne hne]
  constructor
  · intro hle
    by_contra hlt
    have hsize := (h.isRoundedUp hne).nearest.1.le_pred (by norm_num; linarith)
    have hread : (value.toSignificant 3).toBinary64 ≤ .ofNat 999 := by
      refine toBinary64_le (h.negative hne) (Binary64.zero_le_ofNat 999) ?_
      rw [hbelow, inOnes_mul_unitsPerOne]
      exact hsize.trans (by norm_num)
    have hle := Binary64.le_trans hle hread
    rw [Binary64.le_iff_magnitude (Binary64.zero_le_ofNat _) (Binary64.zero_le_ofNat _),
      hthousand, hbelow] at hle
    exact absurd (Nat.le_of_mul_le_mul_right hle Binary64.unitsPerOne_pos) (by decide)
  · intro hsize
    refine le_toBinary64 (h.negative hne) (Binary64.zero_le_ofNat 1000) ?_
    rw [hthousand, inOnes_mul_unitsPerOne]
    exact_mod_cast hsize

/-- The loop compares the number shown with the limit. -/
theorem limit_le_shown_iff (h : Reached x unit value) :
    unit.limit ≤ shown unit value ↔ unit.IsExceeded x.value := by
  by_cases hne : unit = .byte
  · subst hne
    have hbyte : value = x := h.whole rfl
    subst hbyte
    show .ofNat 1024 ≤ value ↔ 1024 ≤ value.value
    rw [Binary64.le_iff_value (Binary64.zero_le_ofNat _) h.nonneg
      (Binary64.isFinite_ofNat (by decide)) h.isFinite, Binary64.value_ofNat (by decide),
      Nat.cast_ofNat]
  · have hlimit : unit.limit = .ofNat 1000 := by
      cases unit with
      | byte => exact absurd rfl hne
      | _ => rfl
    rw [hlimit, h.thousand_le_shown_iff hne, Unit.isExceeded_of_ne hne]
    constructor
    · exact fun hsize => ⟨_, h.isRoundedUp hne, hsize⟩
    · rintro ⟨m, hm, hsize⟩
      rwa [(h.isRoundedUp hne).unique hm]

/-! ## The loop -/

/-- One division leads to the next unit. -/
theorem next (h : Reached x unit value) (hnext : unit.next? = some larger)
    (hexceeded : unit.IsExceeded x.value) : Reached x larger (value / .ofNat 1024) := by
  have hhigh : 2 ^ 63 ≤ value.magnitude := by
    have hle := hexceeded.le
    rw [← h.exact, mul_le_mul_iff_of_pos_right unit.bytes_pos] at hle
    have hone : inOnes unitsPerOne ≤ inOnes value.magnitude := by
      rw [Binary64.value_of_nonneg h.nonneg h.isFinite] at hle
      rw [inOnes, div_self unitsPerOne_cast_pos.ne']
      exact le_trans (by norm_num) hle
    exact Nat.le_trans (by decide +kernel) (inOnes_le_inOnes.mp hone)
  obtain ⟨hpos, hfinite, hexact⟩ :=
    Binary64.div_two_pow (k := 10) (by decide) h.nonneg h.isFinite hhigh
  have hexact : (value / .ofNat 1024).value * 1024 = value.value := by
    rw [← hexact]
    norm_num
  refine ⟨hpos, hfinite, fun heq => absurd heq (Unit.ne_byte_of_next hnext), ?_, fun u hu => ?_⟩
  · rw [Unit.bytes_next hnext, mul_comm unit.bytes, ← mul_assoc, hexact, h.exact]
  · rw [Unit.power_next hnext] at hu
    rcases Nat.lt_succ_iff_lt_or_eq.mp hu with hlt | heq
    · exact h.passed u hlt
    · rwa [Unit.eq_of_power_eq heq]

end Reached

/-- The loop ends at a unit that it has reached. -/
theorem reached_settle (h : Reached x unit value) :
    ∃ last, Reached x (settle unit value).1 last ∧
      (settle unit value).2 = shown (settle unit value).1 last := by
  induction unit, value using settle.induct with
  | case1 unit value hnext =>
    have hstop : settle unit value = (unit, shown unit value) := by
      rw [settle]
      split
      · rfl
      next hsome => rw [hnext] at hsome; cases hsome
    rw [hstop]
    exact ⟨value, h, rfl⟩
  | case2 unit value larger hnext hlimit ih =>
    have hgo : settle unit value = settle larger (value / .ofNat 1024) := by
      rw [settle]
      split
      next hnone => rw [hnext] at hnone; cases hnone
      next hsome => cases hnext.symm.trans hsome; exact if_pos hlimit
    rw [hgo]
    exact ih (h.next hnext (h.limit_le_shown_iff.mp hlimit))
  | case3 unit value larger hnext hlimit =>
    have hstop : settle unit value = (unit, shown unit value) := by
      rw [settle]
      split
      · rfl
      next hsome => cases hnext.symm.trans hsome; exact if_neg hlimit
    rw [hstop]
    exact ⟨value, h, rfl⟩

/-- Only the largest unit may be exceeded at the end. -/
theorem not_isExceeded_ofBytes {last : Binary64} (h : Reached x (ofBytes x).1 last)
    (hshown : (ofBytes x).2 = shown (ofBytes x).1 last) (hne : (ofBytes x).1 ≠ .tebibyte) :
    ¬ (ofBytes x).1.IsExceeded x.value := by
  have hlimit := (settle_limit .byte x).resolve_left hne
  rw [← ofBytes, hshown] at hlimit
  rwa [← h.limit_le_shown_iff]

/-! ## The number in the text -/

/-- The text `t` denotes the number `m`, which is what `x` bytes are in the
unit, as they are or to three digits; and it is the unit to take. -/
structure IsShownIn (x : Binary64) (unit : Unit) (t : Text) (m : ℚ) : Prop where
  denotes : Denotes t m
  whole : unit = .byte → t = x.toText ∧ x.IsNearest m ∧ (x.isInteger = true → m = x.value)
  rounded : unit ≠ .byte → IsRoundedUp 3 (x.value / unit.bytes) m
  error : unit ≠ .byte → |m - x.value / unit.bytes| ≤ x.value / unit.bytes / 200
  below_byte : unit = .byte → m < 1024
  below : unit ≠ .byte → unit ≠ .tebibyte → m < 1000
  one_le : unit = .kibibyte → 1 ≤ m
  low : 1 < unit.power → 976 / 1000 ≤ m
  passed : ∀ u : Unit, u.power < unit.power → u.IsExceeded x.value
  fits : unit ≠ .tebibyte → ¬ unit.IsExceeded x.value

/-- What is written of less than 1024 bytes is less than 1024. -/
theorem written_lt (fx : x.isFinite = true) (h : x.value < 1024) : x.written < 1024 := by
  have fbound : (Binary64.ofNat 1024).isFinite = true := Binary64.isFinite_ofNat (by decide)
  have hbound : (Binary64.ofNat 1024).value = 1024 := Binary64.value_ofNat (by decide)
  have hwritten : (Binary64.ofNat 1024).written = 1024 := by
    rw [written_of_isInteger (Binary64.isInteger_ofNat (by decide)) (by rw [hbound]; norm_num),
      hbound]
  refine lt_of_le_of_ne ?_ fun heq => ?_
  · rw [← hwritten]
    exact written_mono fx fbound (by rw [hbound]; exact h.le)
  · have hnearest := (isNearest_written fx).nearest _ fbound
    rw [heq, hbound, sub_self, abs_zero, abs_nonpos_iff] at hnearest
    linarith

theorem isShownIn_byte (hx : zero ≤ x) (fx : x.isFinite = true)
    (hfits : ¬ Unit.byte.IsExceeded x.value) : IsShownIn x .byte x.toText x.written := by
  have hlt : x.value < 1024 := not_le.mp hfits
  have hnonneg : 0 ≤ x.value := by
    rw [Binary64.value_of_nonneg hx fx]
    positivity
  constructor
  case denotes => exact denotes_toText fx
  case whole =>
    refine fun _ => ⟨rfl, isNearest_written fx, fun hinteger => ?_⟩
    refine written_of_isInteger hinteger ?_
    rw [abs_of_nonneg hnonneg]
    exact hlt.trans (by norm_num)
  case below_byte => exact fun _ => written_lt fx hlt
  case passed => exact fun u hu => absurd hu (Nat.not_lt_zero _)
  case fits => exact fun _ => hfits
  all_goals exact fun h => absurd h (by decide)

theorem Reached.isShownIn (h : Reached x unit value) (hne : unit ≠ .byte) (hx : zero ≤ x)
    (fx : x.isFinite = true) (hfits : unit ≠ .tebibyte → ¬ unit.IsExceeded x.value) :
    IsShownIn x unit (shown unit value).toText (value.toSignificant 3).size := by
  constructor
  case denotes =>
    rw [← h.written_shown hne hx fx]
    exact denotes_toText (h.isFinite_shown hx fx).2
  case rounded => exact h.isRoundedUp
  case error => exact h.error
  case below =>
    intro _ hlast
    by_contra hlimit
    exact hfits hlast ((Unit.isExceeded_of_ne hne).mpr ⟨_, h.isRoundedUp hne, not_lt.mp hlimit⟩)
  case one_le =>
    rintro rfl
    have hexceeded : 1024 ≤ x.value := h.passed .byte (by decide)
    have hdigits : HasDigits 3 1 := ⟨1, 0, by norm_num, by norm_num⟩
    refine (h.isRoundedUp hne).le_of_le hdigits ?_
    rw [one_le_div (Unit.bytes_pos _)]
    exact le_trans (by norm_num [Unit.bytes, Unit.power]) hexceeded
  case low => exact fun _ => h.low_size hne
  case passed => exact h.passed
  case fits => exact hfits
  all_goals exact fun heq => absurd heq hne

/-- The number and the unit that the loop ends with. -/
theorem isShownIn_ofBytes (hx : zero ≤ x) (fx : x.isFinite = true) :
    ∃ m, IsShownIn x (ofBytes x).1 (ofBytes x).2.toText m := by
  obtain ⟨last, hreached, hshown⟩ := reached_settle (Reached.start hx fx)
  have hfits := not_isExceeded_ofBytes hreached hshown
  rw [ofBytes] at hfits ⊢
  rw [hshown]
  generalize (settle .byte x).1 = unit at hreached hfits ⊢
  by_cases hne : unit = .byte
  · subst hne
    obtain rfl := hreached.whole rfl
    exact ⟨_, isShownIn_byte hx fx (hfits nofun)⟩
  · exact ⟨_, hreached.isShownIn hne hx fx hfits⟩

/-! ## The text -/

theorem parse_message (unit : Unit) :
    Template.parse (("%s " : Text) ++ unit.symbol) =
      .ok [.placeholder Template.mantissaPlaceholder, .literal (32 :: unit.symbol)] := by
  cases unit <;> decide

end Size

/-- In the default translation a size is its number, a blank and its unit. -/
theorem sizeText_eq (x : Binary64) :
    sizeText .default x = .ok ((Size.ofBytes x).2.toText ++ 32 :: (Size.ofBytes x).1.symbol) := by
  generalize hbytes : Size.ofBytes x = shown
  obtain ⟨unit, number⟩ := shown
  have hnumber : Template.fillPiece [.number number] 0 (.placeholder Template.mantissaPlaceholder) =
      .ok (number.toText, 1) := by
    refine Template.fillPiece_next rfl ?_
    exact congrArg Except.ok (Template.pad_of_le (Nat.zero_le _))
  rw [sizeText, hbytes]
  dsimp only
  rw [Translation.gettext_default, Template.format_of_parse (Size.parse_message unit),
    Template.fill, Template.fillFrom_cons hnumber, Template.fillFrom_cons rfl]
  show Except.ok (number.toText ++ (32 :: unit.symbol ++ [])) = _
  rw [List.append_nil]

/-- **Sizes are readable and accurate.** -/
theorem sizeText_shows {x : Binary64} (hx : zero ≤ x) (fx : x.isFinite = true) :
    ∃ (t : Text) (unit : Size.Unit) (m : ℚ),
      sizeText .default x = .ok (t ++ 32 :: unit.symbol) ∧ Size.IsShownIn x unit t m := by
  obtain ⟨m, hm⟩ := Size.isShownIn_ofBytes hx fx
  exact ⟨_, _, m, sizeText_eq x, hm⟩

/-- One byte less than a mebibyte is 1020 kibibytes to three digits, so the
mebibyte is taken, of which it is one to three digits. -/
theorem sizeText_shows_nearMebibyte :
    zero ≤ Binary64.ofNat 1048575 ∧ (Binary64.ofNat 1048575).isFinite = true ∧
      sizeText .default (.ofNat 1048575) = .ok ("1 MiB" : Text) ∧
      ∃ (t : Text) (unit : Size.Unit) (m : ℚ),
        sizeText .default (.ofNat 1048575) = .ok (t ++ 32 :: unit.symbol) ∧
          Size.IsShownIn (.ofNat 1048575) unit t m := by
  have hnonneg : zero ≤ Binary64.ofNat 1048575 := by decide +kernel
  have hfinite : (Binary64.ofNat 1048575).isFinite = true := by decide +kernel
  exact ⟨hnonneg, hfinite, by decide +kernel, sizeText_shows hnonneg hfinite⟩

end ContestGrading
