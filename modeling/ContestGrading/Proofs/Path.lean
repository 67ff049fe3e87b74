import ContestGrading.Path
/-!
# Paths and where they lead

A path can be written in many ways, but its shortest form leads to the same
place. A file that is joined to a directory by an ordinary name is found in
that directory, under that name, however the directory is written.

Results:
* `locate_normalize`: the shortest form of a path leads where the path does.
* `locate_join`, `join_eq`: where an ordinary name in a directory leads, and
  how the path to it is written.
-/
namespace ContestGrading

namespace Path

/-! ## The names of a path -/

theorem namesOf_append_slash (path rest : Text) :
    namesOf (path ++ 47 :: rest) = namesOf path ++ namesOf rest :=
  List.splitOnP_append_cons path rest rfl

theorem namesOf_of_notMem {name : Text} (h : 47 ∉ name) : namesOf name = [name] :=
  List.splitOnP_eq_singleton fun _ hu => decide_eq_false fun e => h (e ▸ hu)

theorem namesOf_intercalate {names : List Text} (hne : names ≠ []) (h : ∀ name ∈ names, 47 ∉ name) :
    namesOf ([47].intercalate names) = names :=
  List.splitOn_intercalate 47 h hne

/-- A name has units of the path, and no slash. -/
theorem mem_of_mem_namesOf {path name : Text} (h : name ∈ namesOf path) {u : UInt16}
    (hu : u ∈ name) : u ∈ path ∧ u ≠ 47 := by
  induction path generalizing name with
  | nil =>
    cases List.mem_singleton.mp h
    exact absurd hu List.not_mem_nil
  | cons v rest ih =>
    have hrest : ∀ {other : Text}, other ∈ namesOf rest → u ∈ other → u ∈ v :: rest ∧ u ≠ 47 :=
      fun hother hu => (ih hother hu).imp (List.mem_cons_of_mem v) id
    rw [namesOf, List.splitOnP_cons_eq_if_modifyHead] at h
    split at h
    next =>
      rcases List.mem_cons.mp h with rfl | h
      · exact absurd hu List.not_mem_nil
      · exact hrest h hu
    next hv =>
      -- the unit goes in front of the first name
      obtain ⟨first, others, hnames⟩ :=
        List.exists_cons_of_ne_nil (List.splitOnP_ne_nil (· = (47 : UInt16)) rest)
      rw [hnames, List.modifyHead_cons, List.mem_cons] at h
      rw [namesOf, hnames] at hrest
      rcases h with rfl | h
      · rcases List.mem_cons.mp hu with rfl | hu
        · exact ⟨List.mem_cons_self .., by simpa using hv⟩
        · exact hrest (List.mem_cons_self ..) hu
      · exact hrest (List.mem_cons_of_mem _ h) hu

theorem notMem_of_mem_namesOf {path name : Text} (h : name ∈ namesOf path) : 47 ∉ name :=
  fun hu => (mem_of_mem_namesOf h hu).2 rfl

theorem isOrdinary_iff {name : Text} :
    isOrdinary name = true ↔ staysAt name = false ∧ goesUp name = false ∧ 47 ∉ name := by
  simp [isOrdinary, and_assoc]

theorem notMem_of_isOrdinary {name : Text} (h : isOrdinary name = true) : 47 ∉ name :=
  (isOrdinary_iff.mp h).2.2

theorem ne_nil_of_isOrdinary {name : Text} (h : isOrdinary name = true) : name ≠ [] := by
  rintro rfl
  cases h

/-- The name that goes up. -/
abbrev dots : Text := ".."

theorem staysAt_dots : staysAt dots = false := by decide

theorem goesUp_dots : goesUp dots = true := by decide

/-! ## Resolved names -/

/-- No name comes about but the dots. -/
theorem mem_resolve {absolute : Bool} {done names : List Text} {name : Text}
    (h : name ∈ resolve absolute done names) : name ∈ done ∨ name ∈ names ∨ name = dots := by
  induction names generalizing done with
  | nil => exact .inl (List.mem_reverse.mp h)
  | cons first rest ih =>
    have hbehind : ∀ {done'}, name ∈ resolve absolute done' rest →
        (name ∈ done' → name ∈ done ∨ name = first ∨ name = dots) →
        name ∈ done ∨ name ∈ first :: rest ∨ name = dots := by
      intro done' h hdone
      rw [List.mem_cons]
      rcases ih h with h | h | h
      · rcases hdone h with h | h | h
        · exact .inl h
        · exact .inr (.inl (.inl h))
        · exact .inr (.inr h)
      · exact .inr (.inl (.inr h))
      · exact .inr (.inr h)
    rw [resolve] at h
    split at h
    · exact hbehind h .inl
    · split at h
      · refine hbehind h fun hup => ?_
        unfold up at hup
        split at hup
        next =>
          split at hup
          · exact absurd hup List.not_mem_nil
          · exact .inr (.inr (List.mem_singleton.mp hup))
        next last before =>
          split at hup
          · exact (List.mem_cons.mp hup).elim (fun h => .inr (.inr h)) .inl
          · exact .inl (List.mem_cons_of_mem _ hup)
      · exact hbehind h fun hmem => (List.mem_cons.mp hmem).elim (fun h => .inr (.inl h)) .inl

/-- Names as they are once resolved: those that go up are in front, and from
the top there are none. -/
def IsResolved (absolute : Bool) (names : List Text) : Prop :=
  ∃ ups rest, names = List.replicate ups dots ++ rest ∧ (absolute = true → ups = 0) ∧
    ∀ name ∈ rest, isOrdinary name = true

/-- What `resolve` keeps: ordinary names, the last first, before those that go up. -/
theorem isResolved_resolve_append {absolute : Bool} {names : List Text} (ups : Nat)
    (rest : List Text) (hup : absolute = true → ups = 0)
    (hrest : ∀ name ∈ rest, isOrdinary name = true) (hnames : ∀ name ∈ names, 47 ∉ name) :
    IsResolved absolute (resolve absolute (rest ++ List.replicate ups dots) names) := by
  induction names generalizing ups rest with
  | nil =>
    refine ⟨ups, rest.reverse, ?_, hup, fun name h => hrest name (List.mem_reverse.mp h)⟩
    rw [resolve, List.reverse_append, List.reverse_replicate]
  | cons name names ih =>
    have hnames' : ∀ name ∈ names, 47 ∉ name := fun n hn => hnames n (List.mem_cons_of_mem _ hn)
    rw [resolve]
    split
    next => exact ih ups rest hup hrest hnames'
    next hstay =>
      split
      next =>
        -- up goes the last ordinary name, or else one more pair of dots comes
        cases rest with
        | cons last before =>
          have hlast := (isOrdinary_iff.mp (hrest last (List.mem_cons_self ..))).2.1
          rw [List.cons_append, up, hlast]
          exact ih ups before hup (fun n hn => hrest n (List.mem_cons_of_mem _ hn)) hnames'
        | nil =>
          cases ups with
          | zero =>
            cases absolute with
            | true => exact ih 0 [] hup hrest hnames'
            | false => exact ih 1 [] (fun h => absurd h Bool.false_ne_true) hrest hnames'
          | succ ups =>
            rw [List.nil_append, List.replicate_succ, up, goesUp_dots]
            exact ih (ups + 2) [] (fun h => absurd (hup h) (Nat.succ_ne_zero _)) hrest hnames'
      next hgo =>
        refine ih ups (name :: rest) hup (fun n hn => ?_) hnames'
        rcases List.mem_cons.mp hn with rfl | hn
        · exact isOrdinary_iff.mpr ⟨by simpa using hstay, by simpa using hgo,
            hnames n (List.mem_cons_self ..)⟩
        · exact hrest n hn

theorem isResolved_locate (path : Text) : IsResolved (locate path).absolute (locate path).names :=
  isResolved_resolve_append 0 [] (fun _ => rfl) (fun _ h => absurd h List.not_mem_nil)
    fun _ h => notMem_of_mem_namesOf h

theorem resolve_of_ordinary (absolute : Bool) (done names : List Text)
    (h : ∀ name ∈ names, isOrdinary name = true) :
    resolve absolute done names = done.reverse ++ names := by
  induction names generalizing done with
  | nil => simp [resolve]
  | cons name names ih =>
    obtain ⟨hstay, hgo, -⟩ := isOrdinary_iff.mp (h name (List.mem_cons_self ..))
    rw [resolve, hstay, hgo, if_neg Bool.false_ne_true, if_neg Bool.false_ne_true,
      ih _ fun n hn => h n (List.mem_cons_of_mem _ hn)]
    simp

theorem resolve_replicate_dots (ups before : Nat) :
    resolve false (List.replicate before dots) (List.replicate ups dots) =
      List.replicate (before + ups) dots := by
  induction ups generalizing before with
  | zero => simp [resolve]
  | succ ups ih =>
    have hup : up false (List.replicate before dots) = List.replicate (before + 1) dots := by
      cases before with
      | zero => rfl
      | succ before => rw [List.replicate_succ, up, goesUp_dots]; rfl
    rw [List.replicate_succ, resolve, staysAt_dots, goesUp_dots, if_neg Bool.false_ne_true,
      if_pos rfl, hup, ih, Nat.add_right_comm, Nat.add_assoc]

theorem resolve_of_isResolved {absolute : Bool} {names : List Text}
    (h : IsResolved absolute names) : resolve absolute [] names = names := by
  obtain ⟨ups, rest, rfl, hup, hrest⟩ := h
  have hups : resolve absolute [] (List.replicate ups dots) = List.replicate ups dots := by
    cases absolute with
    | true => rw [hup rfl]; rfl
    | false => simpa using resolve_replicate_dots ups 0
  rw [resolve_append, hups, resolve_of_ordinary _ _ _ hrest, List.reverse_reverse]

/-- A directory is written with the units of the path to it, slashes and dots. -/
theorem mem_folder_locate {path : Text} {u : UInt16} (h : u ∈ (locate path).folder) :
    u ∈ path ∨ u = 47 ∨ u = 46 := by
  rw [Location.folder, List.mem_append, List.mem_flatMap] at h
  rcases h with h | ⟨name, hname, h⟩
  · split at h
    · exact .inr (.inl (List.mem_singleton.mp h))
    · exact absurd h List.not_mem_nil
  · rcases List.mem_append.mp h with h | h
    · rcases mem_resolve hname with hdone | hsome | rfl
      · exact absurd hdone List.not_mem_nil
      · exact .inl (mem_of_mem_namesOf hsome h).1
      · have hdots : dots = List.replicate 2 46 := by decide
        exact .inr (.inr (List.eq_of_mem_replicate (hdots ▸ h)))
    · exact .inr (.inl (List.mem_singleton.mp h))

/-! ## The shortest path -/

section Shortest

variable {place : Location}

theorem notMem_of_isResolved {absolute : Bool} {names : List Text} (h : IsResolved absolute names)
    {name : Text} (hn : name ∈ names) : 47 ∉ name ∧ name ≠ [] := by
  obtain ⟨ups, rest, rfl, -, hrest⟩ := h
  rcases List.mem_append.mp hn with hn | hn
  · cases List.eq_of_mem_replicate hn
    exact ⟨by decide, by decide⟩
  · exact ⟨notMem_of_isOrdinary (hrest name hn), ne_nil_of_isOrdinary (hrest name hn)⟩

/-- A path that begins with a name begins with no slash. -/
theorem isAbsolute_intercalate {names : List Text} (hne : names ≠ [])
    (h : ∀ name ∈ names, 47 ∉ name ∧ name ≠ []) :
    isAbsolute ([47].intercalate names) = false ∧ [47].intercalate names ≠ [] := by
  cases names with
  | nil => exact absurd rfl hne
  | cons name names =>
    obtain ⟨hslash, hname⟩ := h name (List.mem_cons_self ..)
    cases name with
    | nil => exact absurd rfl hname
    | cons u rest =>
      have hhead : ([47].intercalate ((u :: rest) :: names)).head? = some u := by
        cases names <;> simp [List.intercalate_cons_cons]
      refine ⟨?_, fun h => by simp [h] at hhead⟩
      rw [isAbsolute, hhead]
      simpa using fun e : u = 47 => hslash (e ▸ List.mem_cons_self ..)

theorem locate_path (h : IsResolved place.absolute place.names) :
    locate place.path = place ∧ place.path ≠ [] := by
  obtain ⟨absolute, names⟩ := place
  have hnames : ∀ name ∈ names, 47 ∉ name ∧ name ≠ [] := fun _ => notMem_of_isResolved h
  have hsplit : names ≠ [] → namesOf ([47].intercalate names) = names := fun hne =>
    namesOf_intercalate hne fun n hn => (hnames n hn).1
  have hresolve := resolve_of_isResolved h
  cases absolute with
  | true =>
    refine ⟨?_, by simp [Location.path]⟩
    have hfirst : namesOf (47 :: [47].intercalate names) = [] :: namesOf ([47].intercalate names) :=
      namesOf_append_slash [] _
    have hpath : locate (47 :: [47].intercalate names) =
        ⟨true, resolve true [] (namesOf ([47].intercalate names))⟩ := by
      rw [locate, hfirst]
      rfl
    show locate (47 :: [47].intercalate names) = _
    rw [hpath]
    cases names with
    | nil => rfl
    | cons name rest => rw [hsplit (List.cons_ne_nil _ _), hresolve]
  | false =>
    cases names with
    | nil => exact ⟨by decide, by decide⟩
    | cons name rest =>
      obtain ⟨habsolute, hne⟩ := isAbsolute_intercalate (List.cons_ne_nil name rest) hnames
      refine ⟨?_, hne⟩
      show locate ([47].intercalate (name :: rest)) = _
      rw [locate, habsolute, hsplit (List.cons_ne_nil _ _), hresolve]

/-- A slash at the end of a path changes nothing. -/
theorem locate_append_slash {path : Text} (hne : path ≠ []) :
    locate (path ++ [47]) = locate path := by
  have habsolute : isAbsolute (path ++ [47]) = isAbsolute path := by
    cases path with
    | nil => exact absurd rfl hne
    | cons u rest => rfl
  have hstay : ∀ done, resolve (isAbsolute path) done (namesOf []) = done.reverse := fun _ => rfl
  rw [locate, habsolute, namesOf_append_slash, resolve_append, hstay, List.reverse_reverse, locate]

theorem locate_normalize (path : Text) : locate (normalize path) = locate path := by
  obtain ⟨hlocate, hne⟩ := locate_path (isResolved_locate path)
  rw [normalize]
  split
  next => rw [locate_append_slash hne, hlocate]
  next => exact hlocate

end Shortest

/-! ## A file in a directory -/

section Child

variable {directory name : Text}

theorem intercalate_append_singleton (names : List Text) (name : Text) :
    [47].intercalate (names ++ [name]) = names.flatMap (· ++ [47]) ++ name := by
  induction names with
  | nil => simp
  | cons first rest ih =>
    cases rest with
    | nil => simp [List.intercalate_cons_cons]
    | cons second rest =>
      rw [List.cons_append, List.cons_append, List.intercalate_cons_cons, ← List.cons_append, ih]
      simp

theorem path_child (place : Location) (name : Text) :
    (place.child name).path = place.folder ++ name := by
  obtain ⟨absolute, names⟩ := place
  cases absolute <;> simp [Location.path, Location.child, Location.folder,
    intercalate_append_singleton]

/-- The texts of a directory and of a name, one behind the other. -/
theorem locate_append (h : isOrdinary name = true) :
    locate ([47].intercalate ([directory, name].filter fun path => !path.isEmpty)) =
      (locate directory).child name := by
  have hne := ne_nil_of_isOrdinary h
  have hname := namesOf_of_notMem (notMem_of_isOrdinary h)
  have hresolve := fun absolute done =>
    resolve_of_ordinary absolute done [name] (by simpa using h)
  cases directory with
  | nil =>
    have habsolute : isAbsolute name = false := by
      simpa using (isAbsolute_intercalate (List.cons_ne_nil name [])
        (by simpa using ⟨notMem_of_isOrdinary h, hne⟩)).1
    have htext : [47].intercalate ([[], name].filter fun path => !path.isEmpty) = name := by
      simp [hne]
    rw [htext, locate, habsolute, hname, hresolve]
    rfl
  | cons u rest =>
    have htext : [47].intercalate ([u :: rest, name].filter fun path => !path.isEmpty) =
        (u :: rest) ++ 47 :: name := by
      simp [hne, List.intercalate_cons_cons]
    have habsolute : isAbsolute ((u :: rest) ++ 47 :: name) = isAbsolute (u :: rest) := rfl
    rw [htext, locate, habsolute, namesOf_append_slash, hname, resolve_append, hresolve,
      List.reverse_reverse]
    rfl

/-- A file in a directory is found there. -/
theorem locate_join (h : isOrdinary name = true) :
    locate (join [directory, name]) = (locate directory).child name := by
  rw [join, locate_normalize, locate_append h]

/-- The path to a file is the directory, in its shortest form, and the name. -/
theorem join_eq (h : isOrdinary name = true) :
    join [directory, name] = (locate directory).folder ++ name := by
  have hlast : ([47].intercalate ([directory, name].filter fun path => !path.isEmpty)).getLast? ≠
      some 47 := by
    have hend : ∃ before, [47].intercalate ([directory, name].filter fun path => !path.isEmpty) =
        before ++ name := by
      have hne := ne_nil_of_isOrdinary h
      cases directory with
      | nil => exact ⟨[], by simp [hne]⟩
      | cons u rest => exact ⟨(u :: rest) ++ [47], by simp [hne, List.intercalate_cons_cons]⟩
    obtain ⟨before, hbefore⟩ := hend
    rw [hbefore, List.getLast?_append, List.getLast?_eq_some_getLast (ne_nil_of_isOrdinary h),
      Option.some_or]
    exact fun e => notMem_of_isOrdinary h (Option.some.inj e ▸ List.getLast_mem _)
  rw [join, normalize, if_neg fun h => hlast h.1, locate_append h, path_child]

end Child

end Path

end ContestGrading
