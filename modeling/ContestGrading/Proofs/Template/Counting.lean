import ContestGrading.Proofs.Template.Reading
/-!
# What the count of placeholders counts

The count reads placeholders by a grammar of its own. Along the pieces of a
template it stays in step with the reading: every placeholder that takes the
next argument is counted, unless its filling is a line end. One with a
position is not recognised, and where a percent sign is its filling, the
count takes what follows for a placeholder.

Results:
* `countPlaceholders_step`: the count step by step.
* `skipPlaceholder?_of_readFill`, `countPlaceholders_lineEnd`,
  `countPlaceholders_position`: the count behind one percent sign.
* `countPlaceholders_eq`: the count of a template that can be read.
-/
namespace ContestGrading

/-- The count finds a placeholder here: one that takes the next argument,
unless its filling is a line end, or the one that seems to stand behind a
position where the filling is a percent sign. -/
def Placeholder.isCounted (p : Placeholder) : Bool :=
  match p.source with
  | .next => !Text.isLineEnd p.fill
  | .position _ => p.fill = 37
  | .path _ => false

namespace Piece

/-- A placeholder that takes its value by a name. -/
def isNamed : Piece → Bool
  | .placeholder p =>
    match p.source with
    | .path _ => true
    | _ => false
  | .literal _ => false

def isCounted : Piece → Bool
  | .placeholder p => p.isCounted
  | .literal _ => false

end Piece

namespace Template

theorem skipPlaceholder?_eq (t : Text) : skipPlaceholder? t = skipBody? (skipFill (skipSign t)) :=
  rfl

theorem skipFill_length_le (t : Text) : (skipFill t).length ≤ t.length := by
  unfold skipFill
  split
  · exact Nat.le_succ _
  · split
    · exact Nat.le_refl _
    · exact Nat.le_add_right _ 2
  · exact Nat.le_refl _

theorem skipSign_length_le (t : Text) : (skipSign t).length ≤ t.length := by
  unfold skipSign
  split
  · exact Nat.le_succ _
  · exact Nat.le_succ _
  · exact Nat.le_refl _

theorem skipPlaceholder?_length_le {t rest : Text} (h : skipPlaceholder? t = some rest) :
    rest.length ≤ t.length :=
  calc rest.length ≤ (skipFill (skipSign t)).length := (PlainTo.skipBody? h).length_le
    _ ≤ (skipSign t).length := skipFill_length_le _
    _ ≤ t.length := skipSign_length_le t

/-! ## The count step by step -/

/-- What the next step counts, and the text it leaves. -/
def countStep : Text → Nat × Text
  | [] => (0, [])
  | 37 :: 37 :: rest => (0, rest)
  | 37 :: rest =>
    match skipPlaceholder? rest with
    | some rest => (1, rest)
    | none => (0, rest)
  | _ :: rest => (0, rest)

theorem countFrom_nil (fuel : Nat) : countFrom fuel [] = 0 := by
  cases fuel <;> rfl

theorem countFrom_succ (fuel : Nat) (t : Text) :
    countFrom (fuel + 1) t = (countStep t).1 + countFrom fuel (countStep t).2 := by
  fun_cases countStep t with
  | case1 => simp [countFrom, countFrom_nil]
  | case2 rest => simp [countFrom]
  | case3 rest hne r hr => simp [countFrom, hr, Nat.add_comm]
  | case4 rest hne hr => simp [countFrom, hr]
  | case5 u rest hne hne' => simp [countFrom]

theorem countStep_length_lt {t : Text} (h : t ≠ []) : (countStep t).2.length < t.length := by
  fun_cases countStep t with
  | case1 => exact absurd rfl h
  | case2 rest => exact Nat.lt_add_of_pos_right Nat.two_pos
  | case3 rest _ r hr => exact Nat.lt_succ_of_le (skipPlaceholder?_length_le hr)
  | case4 rest => exact Nat.lt_succ_self _
  | case5 u rest => exact Nat.lt_succ_self _

/-- Any bound from the length on gives the same count. -/
theorem countFrom_congr {fuel fuel' : Nat} {t : Text} (h : t.length ≤ fuel)
    (h' : t.length ≤ fuel') : countFrom fuel t = countFrom fuel' t := by
  induction fuel generalizing fuel' t with
  | zero =>
    obtain rfl : t = [] := List.eq_nil_of_length_eq_zero (Nat.le_zero.mp h)
    cases fuel' <;> rfl
  | succ fuel ih =>
    cases fuel' with
    | zero =>
      obtain rfl : t = [] := List.eq_nil_of_length_eq_zero (Nat.le_zero.mp h')
      rfl
    | succ fuel' =>
      rcases eq_or_ne t [] with rfl | ht
      · rfl
      · have hlt := countStep_length_lt ht
        rw [countFrom_succ, countFrom_succ, @ih fuel' _ (by omega) (by omega)]

theorem countPlaceholders_step (t : Text) :
    countPlaceholders t = (countStep t).1 + countPlaceholders (countStep t).2 := by
  rcases eq_or_ne t [] with rfl | ht
  · rfl
  · have hlt := countStep_length_lt ht
    rw [countPlaceholders, countFrom_congr (Nat.le_refl _) (Nat.le_succ _), countFrom_succ,
      countPlaceholders, countFrom_congr (Nat.le_of_lt hlt) (Nat.le_refl _)]

theorem countPlaceholders_percent_percent (rest : Text) :
    countPlaceholders (37 :: 37 :: rest) = countPlaceholders rest := by
  rw [countPlaceholders_step]
  exact Nat.zero_add _

theorem countPlaceholders_cons_of_ne {u : UInt16} (hu : u ≠ 37) (rest : Text) :
    countPlaceholders (u :: rest) = countPlaceholders rest := by
  have hstep : countStep (u :: rest) = (0, rest) := by
    unfold countStep
    split <;> simp_all
  rw [countPlaceholders_step, hstep]
  exact Nat.zero_add _

theorem skipPlaceholder?_percent (rest : Text) : skipPlaceholder? (37 :: rest) = none := by
  rw [skipPlaceholder?_eq]
  exact @skipBody?_breaksOff 37 (by decide) (by decide) rest

theorem countStep_percent {t : Text} (ht : t.head? ≠ some 37) :
    countStep (37 :: t) =
      match skipPlaceholder? t with
      | some rest => (1, rest)
      | none => (0, t) := by
  cases t with
  | nil => rfl
  | cons u t =>
    have hu : u ≠ 37 := fun hu => ht (congrArg some hu)
    unfold countStep
    split <;> simp_all

theorem countPlaceholders_placeholder {t rest : Text} (h : skipPlaceholder? t = some rest) :
    countPlaceholders (37 :: t) = countPlaceholders rest + 1 := by
  have ht : t.head? ≠ some 37 := by
    cases t with
    | nil => exact nofun
    | cons u t =>
      intro hu
      rw [Option.some.inj hu, skipPlaceholder?_percent] at h
      cases h
  rw [countPlaceholders_step, countStep_percent ht, h, Nat.add_comm]

theorem countPlaceholders_no_placeholder {t : Text} (ht : t.head? ≠ some 37)
    (h : skipPlaceholder? t = none) : countPlaceholders (37 :: t) = countPlaceholders t := by
  rw [countPlaceholders_step, countStep_percent ht, h]
  exact Nat.zero_add _

theorem PlainTo.countPlaceholders {t rest : Text} (h : PlainTo t rest) :
    countPlaceholders t = countPlaceholders rest := by
  obtain ⟨w, rfl, hw⟩ := h
  induction w with
  | nil => rfl
  | cons u w ih =>
    obtain ⟨hu, hw⟩ := List.forall_mem_cons.mp hw
    rw [List.cons_append, countPlaceholders_cons_of_ne hu, ih hw]

/-! ## Placeholders that are read -/

theorem skipBody?_of_skipEnd? {t rest : Text} (h : skipEnd? t = some rest) :
    skipBody? t = some rest := by
  cases t with
  | nil => exact h
  | cons u t =>
    rcases eq_or_ne u 45 with rfl | hu
    · rw [skipEnd?_breaksOff (by decide)] at h
      cases h
    · rw [skipBody?, readFlag_of_ne hu, h]

theorem skipBody?_skipFill {t rest : Text} (h : skipEnd? t = some rest) :
    skipBody? (skipFill t) = some rest := by
  fun_cases skipFill t with
  | case1 r =>
    rw [skipEnd?_digit (by decide)] at h
    exact skipBody?_of_skipEnd? h
  | case2 u r =>
    rw [skipEnd?_breaksOff (by decide)] at h
    cases h
  | case3 u r =>
    rw [skipEnd?_breaksOff (by decide)] at h
    cases h
  | case4 => exact skipBody?_of_skipEnd? h

theorem skipPlaceholder?_of_skipBody? {t rest : Text} (h : skipBody? t = some rest) :
    skipPlaceholder? t = some rest := by
  rw [skipPlaceholder?_eq]
  fun_cases skipSign t with
  | case1 r =>
    rw [skipBody?_breaksOff (by decide) (by decide)] at h
    cases h
  | case2 r => exact skipBody?_skipFill h
  | case3 _ _ hm =>
    refine skipBody?_skipFill ?_
    cases t with
    | nil => exact h
    | cons u t =>
      have hu : u ≠ 45 := by
        rintro rfl
        exact hm t rfl
      rwa [skipBody?, readFlag_of_ne hu] at h

theorem skipFill_eq_readFill {t rest : Text} (h : skipBody? (readFill t).2 = some rest)
    (hl : Text.isLineEnd (readFill t).1 = false) : skipFill t = (readFill t).2 := by
  fun_cases readFill t with
  | case1 r => rfl
  | case2 r =>
    have hr : readFill (39 :: 36 :: r) = (32, 39 :: 36 :: r) := rfl
    rw [hr, skipBody?_breaksOff (by decide) (by decide)] at h
    cases h
  | case3 u r hu =>
    have hr : readFill (39 :: u :: r) = (u, r) := if_neg hu
    rw [hr] at hl
    simp [skipFill, hl]
  | case4 => simp_all [skipFill]

/-- A placeholder that takes the next argument is counted, unless its filling
is a line end. -/
theorem skipPlaceholder?_of_readFill {t rest : Text}
    (h : skipBody? (readFill (readFlag 43 t).2).2 = some rest)
    (hl : Text.isLineEnd (readFill (readFlag 43 t).2).1 = false) :
    skipPlaceholder? t = some rest := by
  rw [skipPlaceholder?_eq]
  fun_cases skipSign t with
  | case1 r =>
    change skipBody? (readFill r).2 = some rest at h
    change Text.isLineEnd (readFill r).1 = false at hl
    rwa [skipFill_eq_readFill h hl]
  | case2 r => exact skipPlaceholder?_of_skipBody? h
  | case3 _ hp _ =>
    have ht : (readFlag 43 t).2 = t := by
      fun_cases readFlag 43 t with
      | case1 r => exact absurd rfl (hp r)
      | case2 => rfl
      | case3 => rfl
    rw [ht] at h hl
    rwa [skipFill_eq_readFill h hl]

/-- A placeholder whose filling is a line end is passed over. -/
theorem countPlaceholders_lineEnd {t rest : Text}
    (h : skipBody? (readFill (readFlag 43 t).2).2 = some rest)
    (hl : Text.isLineEnd (readFill (readFlag 43 t).2).1 = true) :
    countPlaceholders (37 :: t) = countPlaceholders rest := by
  generalize hs : (readFlag 43 t).2 = s at h hl
  rcases readFill_cases s with ⟨r, -, hr⟩ | ⟨u, r, rfl, -, hr⟩ | hr <;> rw [hr] at h hl
  · exact absurd hl Bool.false_ne_true
  · have hu : u ≠ 37 := by
      rintro rfl
      exact absurd hl Bool.false_ne_true
    have hfill : skipFill (39 :: u :: r) = 39 :: u :: r := if_pos hl
    -- neither the sign nor what stands behind it is the start of a counted placeholder
    have hcut : t.head? ≠ some 37 ∧ skipSign t = 39 :: u :: r ∧ PlainTo t (39 :: u :: r) := by
      rcases readFlag_cases 43 t with ⟨r', rfl, hr'⟩ | hr' <;> rw [hr'] at hs
      · obtain rfl : r' = _ := hs
        exact ⟨by simp, rfl, .cons (by decide) _⟩
      · obtain rfl : t = _ := hs
        exact ⟨by simp, rfl, .refl _⟩
    obtain ⟨hhead, hsign, hplain⟩ := hcut
    rw [countPlaceholders_no_placeholder hhead, hplain.countPlaceholders]
    · exact (((PlainTo.cons (by decide) _).trans (.cons hu r)).trans (.skipBody? h)).countPlaceholders
    · rw [skipPlaceholder?_eq, hsign, hfill]
      exact skipBody?_breaksOff (by decide) (by decide) _
  · exact absurd hl Bool.false_ne_true

/-- Behind a position the count finds a placeholder if a percent sign is the
filling, and else nothing. -/
theorem countPlaceholders_position {t rest : Text}
    (h : skipBody? (readFill (readFlag 43 t).2).2 = some rest) :
    countPlaceholders t =
      countPlaceholders rest + if (readFill (readFlag 43 t).2).1 = 37 then 1 else 0 := by
  have hflag : countPlaceholders t = countPlaceholders (readFlag 43 t).2 :=
    (PlainTo.readFlag (by decide) t).countPlaceholders
  rw [hflag]
  generalize (readFlag 43 t).2 = s at h
  rcases readFill_cases s with ⟨r, rfl, hr⟩ | ⟨u, r, rfl, -, hr⟩ | hr <;> rw [hr] at h ⊢ <;>
    dsimp only
  · rw [if_neg (by decide)]
    exact ((PlainTo.cons (by decide) r).trans (.skipBody? h)).countPlaceholders
  · rw [countPlaceholders_cons_of_ne (by decide)]
    split
    next hu => rw [hu, countPlaceholders_placeholder (skipPlaceholder?_of_skipBody? h)]
    next hu => exact ((PlainTo.cons hu r).trans (.skipBody? h)).countPlaceholders
  · rw [if_neg (by decide)]
    exact (PlainTo.skipBody? h).countPlaceholders

/-- No placeholder is counted where a position stands. -/
theorem skipPlaceholder?_position {u : UInt16} {ds : Text} (hu : 49 ≤ u)
    (hds : ∀ v ∈ u :: ds, Text.isDigit v = true) (s : Text) :
    skipPlaceholder? (u :: ds ++ 36 :: s) = none := by
  have hne : ∀ v : UInt16, v < 49 → u ≠ v := by
    rintro v hv rfl
    exact UInt16.not_le.mpr hv hu
  have hsign : skipSign (u :: ds ++ 36 :: s) = u :: ds ++ 36 :: s := by
    unfold skipSign
    split
    next heq => exact absurd (List.cons.inj heq).1 (hne 43 (by decide))
    next heq => exact absurd (List.cons.inj heq).1 (hne 45 (by decide))
    next => rfl
  have hfill : skipFill (u :: ds ++ 36 :: s) = u :: ds ++ 36 :: s := by
    unfold skipFill
    split
    next heq => exact absurd (List.cons.inj heq).1 (hne 48 (by decide))
    next heq => exact absurd (List.cons.inj heq).1 (hne 39 (by decide))
    next => rfl
  rw [skipPlaceholder?_eq, hsign, hfill, skipBody?, List.cons_append,
    readFlag_of_ne (hne 45 (by decide)), ← List.cons_append, skipEnd?_digits hds]
  exact skipEnd?_breaksOff (by decide) s

/-! ## Whole templates -/

theorem countPlaceholders_next {t rest : Text} {p : Source → Placeholder}
    (h : readPlaceholder? t = some (.next, p, rest)) :
    countPlaceholders (37 :: t) =
      countPlaceholders rest + if (p .next).isCounted then 1 else 0 := by
  obtain ⟨hwritten, hbody, hp⟩ := readPlaceholder?_eq_some h
  obtain ⟨hsource, hfill⟩ := hp .next
  rw [readSource_eq_next hwritten] at hbody hfill
  have hcounted : (p .next).isCounted = !Text.isLineEnd (readFill (readFlag 43 t).2).1 := by
    rw [Placeholder.isCounted, hsource, hfill]
  rw [hcounted]
  cases hl : Text.isLineEnd (readFill (readFlag 43 t).2).1 with
  | false => exact countPlaceholders_placeholder (skipPlaceholder?_of_readFill hbody hl)
  | true => exact countPlaceholders_lineEnd hbody hl

theorem countPlaceholders_behind_position {t rest : Text} {p : Source → Placeholder} {index : Nat}
    (h : readPlaceholder? t = some (.position index, p, rest)) :
    countPlaceholders (37 :: t) =
      countPlaceholders rest + if (p (.position index)).isCounted then 1 else 0 := by
  obtain ⟨hwritten, hbody, hp⟩ := readPlaceholder?_eq_some h
  obtain ⟨hsource, hfill⟩ := hp (.position index)
  obtain ⟨u, ds, s, rfl, hu, hds, hs⟩ := readSource_eq_position hwritten
  rw [hs] at hbody hfill
  have hcounted : (p (.position index)).isCounted =
      decide ((readFill (readFlag 43 s).2).1 = 37) := by
    rw [Placeholder.isCounted, hsource, hfill]
  have hplain : PlainTo (u :: ds ++ 36 :: s) s :=
    (PlainTo.digits hds (36 :: s)).trans (.cons (by decide) s)
  have hhead : (u :: ds ++ 36 :: s).head? ≠ some 37 := by
    rintro heq
    obtain rfl : u = 37 := Option.some.inj heq
    exact absurd (hds 37 (List.mem_cons_self ..)) Bool.false_ne_true
  rw [hcounted, countPlaceholders_no_placeholder hhead (skipPlaceholder?_position hu hds s),
    hplain.countPlaceholders, countPlaceholders_position hbody]
  simp

/-- The count of a text along its pieces. -/
theorem Parsed.countPlaceholders_eq {t : Text} {pieces : List Piece} (h : Parsed t pieces)
    (hn : ∀ piece ∈ pieces, piece.isNamed = false) :
    countPlaceholders t = pieces.countP (·.isCounted) := by
  induction h with
  | nil => rfl
  | percent h ih =>
    obtain ⟨-, hn⟩ := List.forall_mem_cons.mp hn
    rw [countPlaceholders_percent_percent, ih hn]
    exact (List.countP_cons_of_neg Bool.false_ne_true).symm
  | @placeholder t rest written p source pieces hp hs h ih =>
    obtain ⟨hname, hn⟩ := List.forall_mem_cons.mp hn
    rw [List.countP_cons, ← ih hn]
    cases hs with
    | next => exact countPlaceholders_next hp
    | position index => exact countPlaceholders_behind_position hp
    | name name keys =>
      obtain ⟨-, -, hsource⟩ := readPlaceholder?_eq_some hp
      simp [Piece.isNamed, (hsource (.path keys)).1] at hname
  | literal ht h ih =>
    obtain ⟨-, hn⟩ := List.forall_mem_cons.mp hn
    rw [PlainTo.countPlaceholders ⟨_, rfl, ht⟩, ih hn]
    exact (List.countP_cons_of_neg Bool.false_ne_true).symm

/-- **What is counted.** The count of a template that can be read and names
no argument is that of its placeholders that the count recognises. -/
theorem countPlaceholders_eq {t : Text} {pieces : List Piece} (h : parse t = .ok pieces)
    (hn : ∀ piece ∈ pieces, piece.isNamed = false) :
    countPlaceholders t = pieces.countP (·.isCounted) :=
  (parsed_of_parse h).countPlaceholders_eq hn

end Template

end ContestGrading
