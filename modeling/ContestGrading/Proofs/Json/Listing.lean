import ContestGrading.Proofs.Json.Keys
import Mathlib.Data.List.Induction
/-!
# What the text of an object lists

The text of an object lists members one after the other, and may list a key
more than once. Of each key the object has the value that is listed last, and
the keys have an order of their own: those that are array indices come first,
from the least to the greatest, and the others as they are first listed.

Results:
* `get?_ofList`: the value of a key is the one listed last.
* `pairwise_ofList`: the order of the members.
* `parse?_eq_object_iff`: which texts are objects, and what these list.
-/
namespace ContestGrading

namespace Members

variable {α : Type} {members : Members α} {entries : List (Text × α)} {key k l : Text} {value : α}

/-! ## Values -/

theorem get?_cons (m : Text × α) (members : Members α) (key : Text) :
    get? (m :: members) key = if m.1 == key then some m.2 else get? members key := by
  unfold get?
  rw [List.find?_cons]
  cases m.1 == key <;> rfl

theorem get?_append (before after : Members α) (key : Text) :
    get? (before ++ after) key = (get? before key).or (get? after key) := by
  unfold get?
  rw [List.find?_append]
  cases before.find? fun m => m.1 == key <;> rfl

theorem get?_eq_some_iff (h : (members.map (·.1)).Nodup) :
    get? members key = some value ↔ (key, value) ∈ members := by
  unfold get?
  rw [Option.map_eq_some_iff]
  constructor
  · rintro ⟨m, hm, rfl⟩
    obtain ⟨hmem, rfl⟩ := (find?_key_eq_some_iff h).mp hm
    exact hmem
  · intro hmem
    exact ⟨(key, value), (find?_key_eq_some_iff h).mpr ⟨hmem, rfl⟩, rfl⟩

theorem get?_of_perm {members' : Members α} (h : (members.map (·.1)).Nodup)
    (hp : members.Perm members') (key : Text) : get? members key = get? members' key := by
  refine Option.ext fun value => ?_
  rw [get?_eq_some_iff h, get?_eq_some_iff ((hp.map _).nodup_iff.mp h), hp.mem_iff]

/-- Of what is put one after the other, the last is found. -/
theorem get?_foldl_put (entries : List (Text × α)) (members : Members α) (key : Text) :
    get? (entries.foldl (fun members e => put e.1 e.2 members) members) key =
      (get? entries.reverse key).or (get? members key) := by
  induction entries generalizing members with
  | nil => rfl
  | cons e rest ih =>
    rw [List.foldl_cons, ih, List.reverse_cons, get?_append, Option.or_assoc]
    congr 1
    by_cases h : key = e.1
    · subst h
      simp [get?_put_self, get?_cons]
    · have hne : (e.1 == key) = false := beq_false_of_ne (Ne.symm h)
      rw [get?_put_of_ne h, get?_cons, hne]
      rfl

/-- The value that is listed last under a key. -/
def last? (entries : List (Text × α)) (key : Text) : Option α := get? entries.reverse key

theorem get?_ofList (entries : List (Text × α)) (key : Text) :
    get? (ofList entries) key = last? entries key := by
  rw [get?_of_perm (nodup_keys_ofList entries) (arrange_perm _), get?_foldl_put]
  exact Option.or_none

theorem ofList_nil : ofList ([] : List (Text × α)) = [] := by
  simp [ofList, arrange]

/-! ## Order -/

/-- Where a key is first listed. -/
def place (entries : List (Text × α)) (key : Text) : Nat := (entries.map (·.1)).idxOf key

/-- The order of the keys of an object: array indices first, in ascending
order, then the others as they are first listed. -/
inductive ComesBefore (entries : List (Text × α)) (k l : Text) : Prop where
  | indices {i j : Nat} (hk : arrayIndex? k = some i) (hl : arrayIndex? l = some j) (h : i < j)
  | index {i : Nat} (hk : arrayIndex? k = some i) (hl : arrayIndex? l = none)
  | others (hk : arrayIndex? k = none) (hl : arrayIndex? l = none)
    (h : place entries k < place entries l)

theorem ComesBefore.asymm (h : ComesBefore entries k l) : ¬ ComesBefore entries l k := by
  intro h'
  cases h with
  | indices hk hl hij =>
    cases h' with
    | indices hl' hk' hji =>
      rw [hl] at hl'
      rw [hk] at hk'
      cases hl'
      cases hk'
      omega
    | index _ hk' => simp [hk] at hk'
    | others hl' _ _ => simp [hl] at hl'
  | index hk hl =>
    cases h' with
    | indices hl' _ _ => simp [hl] at hl'
    | index hl' _ => simp [hl] at hl'
    | others _ hk' _ => simp [hk] at hk'
  | others hk hl hplace =>
    cases h' with
    | indices hl' _ _ => simp [hl] at hl'
    | index hl' _ => simp [hl] at hl'
    | others _ _ hplace' => omega

theorem ComesBefore.ne (h : ComesBefore entries k l) : k ≠ l := by
  rintro rfl
  exact h.asymm h

/-- An array index is written in one way only. -/
theorem eq_natText_of_arrayIndex? {n : Nat} (h : arrayIndex? key = some n) :
    key = Decimal.natText n := by
  unfold arrayIndex? at h
  dsimp only at h
  split at h
  next hindex =>
    cases h
    simp only [Bool.and_eq_true, beq_iff_eq] at hindex
    exact hindex.1.2.symm
  next => cases h

theorem keys_put (key : Text) (value : α) (members : Members α) :
    (put key value members).map (·.1) =
      if key ∈ members.map (·.1) then members.map (·.1) else members.map (·.1) ++ [key] := by
  induction members with
  | nil => rfl
  | cons m rest ih =>
    rw [put]
    split
    next heq => simp [eq_of_beq heq]
    next hne =>
      have hne : key ≠ m.1 := fun h => hne (beq_iff_eq.mpr h.symm)
      simp only [List.map_cons, List.mem_cons, hne, false_or, ih]
      split <;> rfl

theorem place_concat_of_mem (e : Text × α) (h : key ∈ entries.map (·.1)) :
    place (entries ++ [e]) key = place entries key := by
  rw [place, List.map_append, List.idxOf_append_of_mem h, place]

theorem place_concat_self {e : Text × α} (h : e.1 ∉ entries.map (·.1)) :
    place (entries ++ [e]) e.1 = entries.length := by
  rw [place, List.map_append, List.idxOf_append_of_notMem h, List.length_map]
  simp

/-- What is put one after the other keeps the order in which it is first put. -/
theorem keys_foldl_put (entries : List (Text × α)) :
    let keys := (entries.foldl (fun members e => put e.1 e.2 members) []).map (·.1)
    (∀ key, key ∈ keys ↔ key ∈ entries.map (·.1)) ∧
      keys.Pairwise fun k l => place entries k < place entries l := by
  induction entries using List.reverseRecOn with
  | nil => exact ⟨fun _ => Iff.rfl, .nil⟩
  | append_singleton front e ih =>
    obtain ⟨hmem, hpairs⟩ := ih
    have hkept : ((front.foldl (fun members e => put e.1 e.2 members) []).map (·.1)).Pairwise
        fun k l => place (front ++ [e]) k < place (front ++ [e]) l := by
      refine hpairs.imp_of_mem fun {k l} hk hl h => ?_
      rwa [place_concat_of_mem e ((hmem k).mp hk), place_concat_of_mem e ((hmem l).mp hl)]
    rw [List.foldl_append]
    dsimp only [List.foldl_cons, List.foldl_nil]
    rw [keys_put]
    split
    next hold =>
      refine ⟨fun key => ?_, hkept⟩
      rw [hmem, List.map_append, List.mem_append, List.map_singleton, List.mem_singleton]
      constructor
      · exact .inl
      · rintro (h | rfl)
        · exact h
        · exact (hmem _).mp hold
    next hnew =>
      refine ⟨fun key => ?_, List.pairwise_append.mpr ⟨hkept, List.pairwise_singleton _ _, ?_⟩⟩
      · rw [List.mem_append, hmem, List.map_append, List.mem_append]
        rfl
      · intro k hk l hl
        rw [List.mem_singleton.mp hl, place_concat_self (mt (hmem _).mpr hnew),
          place_concat_of_mem e ((hmem k).mp hk), place, ← List.length_map (·.1)]
        exact List.idxOf_lt_length_of_mem ((hmem k).mp hk)

/-- The array indices among the keys, in ascending order. -/
theorem pairwise_indices (hnodup : (members.map (·.1)).Nodup) :
    (((members.filterMap fun m => (arrayIndex? m.1).map (·, m)).mergeSort
        fun a b => a.1 ≤ b.1).map (·.2)).Pairwise fun m n => ∃ i j,
          arrayIndex? m.1 = some i ∧ arrayIndex? n.1 = some j ∧ i < j := by
  have hkeys : ((arrange members).map (·.1)).Nodup :=
    ((arrange_perm members).map _).nodup_iff.mpr hnodup
  rw [arrange, List.map_append] at hkeys
  have hkeys := List.pairwise_map.mp (List.pairwise_map.mp hkeys.of_append_left)
  rw [List.pairwise_map]
  generalize hindexed : (members.filterMap fun m => (arrayIndex? m.1).map (·, m)) = indexed at hkeys
  have hindex : ∀ a ∈ indexed, arrayIndex? a.2.1 = some a.1 := by
    intro a ha
    rw [← hindexed] at ha
    obtain ⟨m, -, hm⟩ := List.mem_filterMap.mp ha
    obtain ⟨i, hi, rfl⟩ := Option.map_eq_some_iff.mp hm
    exact hi
  have hsorted : (indexed.mergeSort fun a b => decide (a.1 ≤ b.1)).Pairwise
      fun a b => decide (a.1 ≤ b.1) = true :=
    List.pairwise_mergeSort (fun a b c => by simpa using Nat.le_trans)
      (fun a b => by simpa using Nat.le_total a.1 b.1) indexed
  refine (hsorted.and hkeys).imp_of_mem fun {a b} ha hb h => ?_
  obtain ⟨hle, hne⟩ := h
  have ha := hindex a (List.mem_mergeSort.mp ha)
  have hb := hindex b (List.mem_mergeSort.mp hb)
  refine ⟨a.1, b.1, ha, hb, Nat.lt_of_le_of_ne (of_decide_eq_true hle) fun heq => hne ?_⟩
  rw [eq_natText_of_arrayIndex? ha, eq_natText_of_arrayIndex? hb, heq]

/-- The members of an object are in its order. -/
theorem pairwise_ofList (entries : List (Text × α)) :
    (ofList entries).Pairwise fun m n => ComesBefore entries m.1 n.1 := by
  have hnodup : ((entries.foldl (fun members e => put e.1 e.2 members) []).map (·.1)).Nodup :=
    nodup_keys_foldl_put entries List.nodup_nil
  obtain ⟨-, hplaces⟩ := keys_foldl_put entries
  rw [ofList]
  generalize entries.foldl (fun members e => put e.1 e.2 members) [] = members at hnodup hplaces
  have hplaces := List.pairwise_map.mp hplaces
  refine List.pairwise_append.mpr ⟨?_, ?_, ?_⟩
  · refine (pairwise_indices hnodup).imp fun {m n} h => ?_
    obtain ⟨i, j, hi, hj, hij⟩ := h
    exact .indices hi hj hij
  · refine (hplaces.sublist List.filter_sublist).imp_of_mem fun {m n} hm hn h => ?_
    exact .others (Option.isNone_iff_eq_none.mp (List.mem_filter.mp hm).2)
      (Option.isNone_iff_eq_none.mp (List.mem_filter.mp hn).2) h
  · intro m hm n hn
    obtain ⟨a, ha, rfl⟩ := List.mem_map.mp hm
    obtain ⟨m, -, hindex⟩ := List.mem_filterMap.mp (List.mem_mergeSort.mp ha)
    obtain ⟨i, hi, rfl⟩ := Option.map_eq_some_iff.mp hindex
    exact .index hi (Option.isNone_iff_eq_none.mp (List.mem_filter.mp hn).2)

end Members

/-! ## The texts of objects -/

namespace Json

/-- The members that an object at the start of a text lists, and what is
behind it. -/
def readListed (fuel : Nat) (t : Text) : Option (List (Text × Json) × Text) :=
  match skipBlanks t with
  | 123 :: rest =>
    match skipBlanks rest with
    | 125 :: rest => some ([], rest)
    | rest => readMembers fuel [] rest
  | _ => none

/-- The members that the text of an object lists; other texts are none. -/
def listed? (t : Text) : Option (List (Text × Json)) :=
  match readListed (2 * t.length + 1) t with
  | some (entries, rest) => if (skipBlanks rest).isEmpty then some entries else none
  | none => none

theorem readNumber_ne_object (t rest : Text) (members : Members Json) :
    readNumber t ≠ some (.object members, rest) := by
  intro h
  unfold readNumber at h
  dsimp only at h
  -- with and without a hyphen in front
  split at h <;> split at h
  all_goals cases h

theorem eq_of_readWord {word t rest : Text} {value read : Json}
    (h : readWord word value t = some (read, rest)) : read = value := by
  unfold readWord at h
  split at h
  next =>
    cases h
    rfl
  next => cases h

theorem readAtom_ne_object (t rest : Text) (members : Members Json) :
    readAtom t ≠ some (.object members, rest) := by
  intro h
  unfold readAtom at h
  split at h
  next =>
    obtain ⟨⟨s, rest'⟩, -, heq⟩ := Option.map_eq_some_iff.mp h
    cases heq
  next => cases eq_of_readWord h
  next => cases eq_of_readWord h
  next => cases eq_of_readWord h
  next => exact readNumber_ne_object _ _ _ h

theorem readListed_of_not_object {fuel : Nat} {t : Text} (h : ∀ rest, skipBlanks t ≠ 123 :: rest) :
    readListed fuel t = none := by
  unfold readListed
  split
  next rest heq => exact absurd heq (h rest)
  next => rfl

theorem readListed_empty {fuel : Nat} {t inner rest : Text} (h : skipBlanks t = 123 :: inner)
    (hinner : skipBlanks inner = 125 :: rest) : readListed fuel t = some ([], rest) := by
  simp only [readListed, h, hinner]

theorem readListed_members {fuel : Nat} {t inner : Text} (h : skipBlanks t = 123 :: inner)
    (hinner : ∀ rest, skipBlanks inner ≠ 125 :: rest) :
    readListed fuel t = readMembers fuel [] (skipBlanks inner) := by
  simp only [readListed, h]

/-- An object has what it lists, in its order. -/
theorem readValue_eq_object_iff {fuel : Nat} {t rest : Text} {members : Members Json} :
    readValue (fuel + 1) t = some (.object members, rest) ↔
      ∃ entries, readListed fuel t = some (entries, rest) ∧ members = Members.ofList entries := by
  rw [readValue]
  split
  next inner hlist =>
    have hnone : readListed fuel t = none := readListed_of_not_object fun rest h => by
      rw [hlist] at h
      cases h
    rw [hnone]
    constructor
    · intro h
      split at h
      next => cases h
      next =>
        obtain ⟨⟨items, rest⟩, -, heq⟩ := Option.map_eq_some_iff.mp h
        cases heq
    · rintro ⟨entries, h, -⟩
      cases h
  next inner hobject =>
    split
    next after hempty =>
      rw [readListed_empty hobject hempty]
      constructor
      · intro h
        cases h
        exact ⟨[], rfl, Members.ofList_nil.symm⟩
      · rintro ⟨entries, h, rfl⟩
        cases h
        rw [Members.ofList_nil]
    next hmembers =>
      rw [readListed_members hobject hmembers]
      simp only [Option.map_eq_some_iff]
      constructor
      · rintro ⟨⟨entries, rest'⟩, h, heq⟩
        cases heq
        exact ⟨entries, h, rfl⟩
      · rintro ⟨entries, h, rfl⟩
        exact ⟨(entries, rest), h, rfl⟩
  next hobject =>
    rw [readListed_of_not_object hobject]
    refine iff_of_false (readAtom_ne_object _ _ _) ?_
    rintro ⟨entries, h, -⟩
    cases h

theorem parse?_eq_object_iff {t : Text} {members : Members Json} :
    parse? t = some (.object members) ↔
      ∃ entries, listed? t = some entries ∧ members = Members.ofList entries := by
  unfold parse? listed?
  constructor
  · intro h
    split at h
    next value rest hvalue =>
      split at h
      next hblank =>
        cases h
        obtain ⟨entries, hlisted, rfl⟩ := readValue_eq_object_iff.mp hvalue
        exact ⟨entries, by simp only [hlisted, if_pos hblank], rfl⟩
      next => cases h
    next => cases h
  · rintro ⟨entries, h, rfl⟩
    split at h
    next entries' rest hlisted =>
      split at h
      next hblank =>
        cases h
        have hvalue := readValue_eq_object_iff.mpr ⟨entries, hlisted, rfl⟩
        simp only [hvalue, if_pos hblank]
      next => cases h
    next => cases h

end Json

end ContestGrading
