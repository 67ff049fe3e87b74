import ContestGrading.Json.Parser
import Mathlib.Data.List.Nodup
import Mathlib.Data.List.Perm.Basic
/-!
# The keys of objects that are read

A text may repeat the keys of an object. What is read from it does not: a
repeated key is put in the place of the earlier one, and bringing the
members into their order moves them only.

Results:
* `nodup_keys_ofList`: members put one after the other have distinct keys.
* `distinctKeys_of_parse?`: so do all objects in what is read from a text.
-/
namespace ContestGrading

/-- Where no key occurs twice, the element of a key is the one that is found. -/
theorem find?_key_eq_some_iff {α : Type} {key : α → Text} {as : List α} (h : (as.map key).Nodup)
    {k : Text} {a : α} : (as.find? fun b => key b == k) = some a ↔ a ∈ as ∧ key a = k := by
  constructor
  · intro hf
    exact ⟨List.mem_of_find?_eq_some hf, by simpa using List.find?_some hf⟩
  · rintro ⟨ha, rfl⟩
    have hsome : (as.find? fun b => key b == key a).isSome = true :=
      List.find?_isSome.mpr ⟨a, ha, beq_self_eq_true _⟩
    obtain ⟨b, hb⟩ := Option.isSome_iff_exists.mp hsome
    have hkey : key b = key a := by simpa using List.find?_some hb
    rw [hb, List.inj_on_of_nodup_map h (List.mem_of_find?_eq_some hb) ha hkey]

/-! ## Members one after the other -/

namespace Members

variable {α : Type} {members : Members α} {key : Text} {value : α}

theorem mem_put {m : Text × α} (h : m ∈ put key value members) : m = (key, value) ∨ m ∈ members := by
  induction members with
  | nil => exact .inl (List.mem_singleton.mp h)
  | cons first rest ih =>
    rw [put] at h
    split at h
    · rcases List.mem_cons.mp h with h | h
      · exact .inl h
      · exact .inr (List.mem_cons_of_mem _ h)
    · rcases List.mem_cons.mp h with rfl | h
      · exact .inr (List.mem_cons_self ..)
      · exact (ih h).imp_right (List.mem_cons_of_mem _)

theorem nodup_keys_put (h : (members.map (·.1)).Nodup) :
    ((put key value members).map (·.1)).Nodup := by
  induction members with
  | nil => exact List.nodup_singleton key
  | cons first rest ih =>
    obtain ⟨hfirst, hrest⟩ := List.nodup_cons.mp h
    rw [put]
    split
    next heq => rwa [← eq_of_beq heq]
    next hne =>
      refine List.nodup_cons.mpr ⟨fun hmem => ?_, ih hrest⟩
      obtain ⟨m, hm, hkey⟩ := List.mem_map.mp hmem
      rcases mem_put hm with rfl | hm
      · exact hne (beq_iff_eq.mpr hkey.symm)
      · exact hfirst (List.mem_map.mpr ⟨m, hm, hkey⟩)

/-- Bringing members into their order only moves them. -/
theorem arrange_perm (members : Members α) : (arrange members).Perm members := by
  have hindexed : (members.filterMap fun m => (arrayIndex? m.1).map (·, m)).map (·.2) =
      members.filter fun m => (arrayIndex? m.1).isSome := by
    induction members with
    | nil => rfl
    | cons m rest ih => cases h : arrayIndex? m.1 <;> simp [h, ih]
  have hothers : members.filter (fun m => (arrayIndex? m.1).isNone) =
      members.filter fun m => !(arrayIndex? m.1).isSome := by simp
  have hfront : (((members.filterMap fun m => (arrayIndex? m.1).map (·, m)).mergeSort
      fun a b => a.1 ≤ b.1).map (·.2)).Perm
        (members.filter fun m => (arrayIndex? m.1).isSome) :=
    ((List.mergeSort_perm _ _).map _).trans (.of_eq hindexed)
  rw [arrange, hothers]
  exact (hfront.append_right _).trans (List.filter_append_perm _ _)

/-- Members that are put one after the other are among those there were. -/
theorem mem_foldl_put {entries : List (Text × α)} {m : Text × α}
    (h : m ∈ entries.foldl (fun members e => put e.1 e.2 members) members) :
    m ∈ entries ∨ m ∈ members := by
  induction entries generalizing members with
  | nil => exact .inr h
  | cons e rest ih =>
    rcases ih h with h | h
    · exact .inl (List.mem_cons_of_mem _ h)
    · rcases mem_put h with rfl | h
      · exact .inl (List.mem_cons_self ..)
      · exact .inr h

theorem nodup_keys_foldl_put (entries : List (Text × α)) (h : (members.map (·.1)).Nodup) :
    ((entries.foldl (fun members e => put e.1 e.2 members) members).map (·.1)).Nodup := by
  induction entries generalizing members with
  | nil => exact h
  | cons e rest ih => exact ih (nodup_keys_put h)

theorem nodup_keys_ofList (entries : List (Text × α)) : ((ofList entries).map (·.1)).Nodup :=
  ((arrange_perm _).map _).nodup_iff.mpr (nodup_keys_foldl_put entries List.nodup_nil)

theorem mem_of_mem_ofList {entries : List (Text × α)} {m : Text × α} (h : m ∈ ofList entries) :
    m ∈ entries := by
  rcases mem_foldl_put ((arrange_perm _).mem_iff.mp h) with h | h
  · exact h
  · cases h

end Members

/-! ## Values that are read -/

namespace Json

/-- No object in the value has a key twice. -/
inductive DistinctKeys : Json → Prop where
  | null : DistinctKeys .null
  | bool (value : Bool) : DistinctKeys (.bool value)
  | number (value : Binary64) : DistinctKeys (.number value)
  | string (value : Text) : DistinctKeys (.string value)
  | list {items : List Json} (hitems : ∀ item ∈ items, DistinctKeys item) :
    DistinctKeys (.list items)
  | object {members : List (Text × Json)} (hkeys : (members.map (·.1)).Nodup)
    (hmembers : ∀ m ∈ members, DistinctKeys m.2) : DistinctKeys (.object members)

theorem distinctKeys_of_readNumber {t rest : Text} {value : Json}
    (h : readNumber t = some (value, rest)) : value.DistinctKeys := by
  unfold readNumber at h
  dsimp only at h
  -- with and without a hyphen in front
  split at h <;> split at h
  all_goals cases h
  all_goals exact .number _

theorem distinctKeys_of_readWord {word t rest : Text} {value read : Json}
    (hvalue : value.DistinctKeys) (h : readWord word value t = some (read, rest)) :
    read.DistinctKeys := by
  unfold readWord at h
  split at h
  next =>
    cases h
    exact hvalue
  next => cases h

theorem distinctKeys_of_readAtom {t rest : Text} {value : Json}
    (h : readAtom t = some (value, rest)) : value.DistinctKeys := by
  unfold readAtom at h
  split at h
  next =>
    obtain ⟨⟨s, rest'⟩, -, heq⟩ := Option.map_eq_some_iff.mp h
    cases heq
    exact .string s
  next => exact distinctKeys_of_readWord (.bool true) h
  next => exact distinctKeys_of_readWord (.bool false) h
  next => exact distinctKeys_of_readWord .null h
  next => exact distinctKeys_of_readNumber h

/-- What the readers keep, whatever number of steps they are given. -/
structure ReadsDistinct (fuel : Nat) : Prop where
  value : ∀ {t value rest}, readValue fuel t = some (value, rest) → value.DistinctKeys
  items : ∀ {done t items rest}, (∀ item ∈ done, item.DistinctKeys) →
    readItems fuel done t = some (items, rest) → ∀ item ∈ items, item.DistinctKeys
  members : ∀ {done t members rest}, (∀ m ∈ done, m.2.DistinctKeys) →
    readMembers fuel done t = some (members, rest) → ∀ m ∈ members, m.2.DistinctKeys

theorem readsDistinct (fuel : Nat) : ReadsDistinct fuel := by
  induction fuel with
  | zero =>
    refine ⟨fun h => ?_, fun _ h => ?_, fun _ h => ?_⟩
    · rw [readValue] at h; cases h
    · rw [readItems] at h; cases h
    · rw [readMembers] at h; cases h
  | succ fuel ih =>
    refine ⟨fun h => ?_, fun hdone h => ?_, fun hdone h => ?_⟩
    · rw [readValue] at h
      split at h
      next =>
        split at h
        next =>
          cases h
          exact .list nofun
        next =>
          obtain ⟨⟨items, rest⟩, hitems, heq⟩ := Option.map_eq_some_iff.mp h
          cases heq
          exact .list (ih.items (List.forall_mem_nil _) hitems)
      next =>
        split at h
        next =>
          cases h
          exact .object List.nodup_nil nofun
        next =>
          obtain ⟨⟨entries, rest⟩, hentries, heq⟩ := Option.map_eq_some_iff.mp h
          cases heq
          exact .object (Members.nodup_keys_ofList entries) fun m hm =>
            ih.members (List.forall_mem_nil _) hentries m (Members.mem_of_mem_ofList hm)
      next => exact distinctKeys_of_readAtom h
    · rw [readItems] at h
      split at h
      next => cases h
      next item rest hitem =>
        have hitems : ∀ item' ∈ item :: _, item'.DistinctKeys :=
          List.forall_mem_cons.mpr ⟨ih.value hitem, hdone⟩
        split at h
        next => exact ih.items hitems h
        next =>
          cases h
          exact fun item' hitem' => hitems item' (List.mem_reverse.mp hitem')
        next => cases h
    · rw [readMembers] at h
      split at h
      next =>
        split at h
        next => cases h
        next key rest hkey =>
          split at h
          next =>
            split at h
            next => cases h
            next value rest hvalue =>
              have hmembers : ∀ m ∈ (key, value) :: _, m.2.DistinctKeys :=
                List.forall_mem_cons.mpr ⟨ih.value hvalue, hdone⟩
              split at h
              next => exact ih.members hmembers h
              next =>
                cases h
                exact fun m hm => hmembers m (List.mem_reverse.mp hm)
              next => cases h
          next => cases h
      next => cases h

/-- No object in what is read from a text has a key twice. -/
theorem distinctKeys_of_parse? {t : Text} {value : Json} (h : parse? t = some value) :
    value.DistinctKeys := by
  unfold parse? at h
  split at h
  next value' rest hvalue =>
    split at h
    next =>
      cases h
      exact (readsDistinct _).value hvalue
    next => cases h
  next => cases h

end Json

end ContestGrading
