import ContestGrading.Locale.Loading
import ContestGrading.Proofs.Journal
import ContestGrading.Proofs.Json.Listing
import ContestGrading.Proofs.Locale.Confinement
import ContestGrading.Store.Documents
import Mathlib.Data.List.TakeDrop
/-!
# What a catalog says

A catalog is the text of one object from messages to texts. Loading it fails
at the first message, in the order of the object, that has no text. A catalog
that is loaded says of a message the text that is listed last for it, and a
message that it does not list stands for itself. The reserved key is the one
message that a catalog may list and still cannot translate.

Results:
* `messagesOf_eq_error_iff`: at which member messages fail.
* `outcome_load`: loading, once the file is there.
* `catalog_says_iff`: what loading a catalog comes to, and when it says just
  what is listed.
-/
namespace ContestGrading

open Members (last? ComesBefore)

/-! ## Members as messages -/

namespace Locale

variable {file : Text} {members : Members Json} {messages : Members Text}

theorem messagesOf_cons (file key : Text) (value : Json) (rest : Members Json) :
    messagesOf file ((key, value) :: rest) =
      match value.string? with
      | none => .error (.notText file key)
      | some t => (messagesOf file rest).map fun messages =>
          if key = reservedKey then messages else (key, t) :: messages := by
  cases value <;> rfl

/-- Members fail as messages at the first that has no text. -/
theorem messagesOf_eq_error_iff {e : LocaleError} :
    messagesOf file members = .error e ↔
      ∃ before key value after, members = before ++ (key, value) :: after ∧
        (∀ m ∈ before, m.2.string? ≠ none) ∧ value.string? = none ∧ e = .notText file key := by
  induction members with
  | nil =>
    constructor
    · intro h
      cases h
    · rintro ⟨before, key, value, after, h, -⟩
      simp at h
  | cons m rest ih =>
    obtain ⟨key, value⟩ := m
    rw [messagesOf_cons]
    cases hvalue : value.string? with
    | none =>
      constructor
      · intro h
        cases h
        exact ⟨[], key, value, rest, rfl, nofun, hvalue, rfl⟩
      · rintro ⟨before, key', value', after, hsplit, hbefore, -, rfl⟩
        cases before with
        | nil =>
          cases hsplit
          rfl
        | cons m before =>
          cases hsplit
          exact absurd hvalue (hbefore _ List.mem_cons_self)
    | some t =>
      rw [map_eq_error_iff, ih]
      constructor
      · rintro ⟨before, key', value', after, rfl, hbefore, hvalue', rfl⟩
        refine ⟨(key, value) :: before, key', value', after, rfl, ?_, hvalue', rfl⟩
        rintro m (_ | ⟨_, hm⟩)
        · rw [hvalue]
          exact Option.some_ne_none t
        · exact hbefore m hm
      · rintro ⟨before, key', value', after, hsplit, hbefore, hvalue', rfl⟩
        cases before with
        | nil =>
          cases hsplit
          simp [hvalue] at hvalue'
        | cons m before =>
          cases hsplit
          exact ⟨before, key', value', after, rfl,
            fun m hm => hbefore m (List.mem_cons_of_mem _ hm), hvalue', rfl⟩

theorem string?_of_messagesOf (h : messagesOf file members = .ok messages) :
    ∀ m ∈ members, m.2.string? ≠ none := by
  induction members generalizing messages with
  | nil => exact nofun
  | cons m rest ih =>
    obtain ⟨key, value⟩ := m
    rw [messagesOf_cons] at h
    cases hvalue : value.string? with
    | none =>
      rw [hvalue] at h
      cases h
    | some t =>
      rw [hvalue] at h
      obtain ⟨found, hfound, -⟩ := map_eq_ok_iff.mp h
      rintro m (_ | ⟨_, hm⟩)
      · rw [hvalue]
        exact Option.some_ne_none t
      · exact ih hfound m hm

/-- What messages say of a key is what the members have there, but for the
reserved key. -/
theorem get?_messagesOf (h : messagesOf file members = .ok messages) (key : Text) :
    messages.get? key =
      if key = reservedKey then none else (members.get? key).bind Json.string? := by
  induction members generalizing messages with
  | nil =>
    cases h
    split <;> rfl
  | cons m rest ih =>
    obtain ⟨other, value⟩ := m
    rw [messagesOf_cons] at h
    cases hvalue : value.string? with
    | none =>
      rw [hvalue] at h
      cases h
    | some t =>
      rw [hvalue] at h
      obtain ⟨found, hfound, rfl⟩ := map_eq_ok_iff.mp h
      rw [Members.get?_cons]
      dsimp only
      split
      next hreserved =>
        rw [ih hfound]
        split
        next => rfl
        next hkey =>
          have hne : (other == key) = false :=
            beq_false_of_ne fun heq => hkey (heq ▸ hreserved)
          rw [hne]
          rfl
      next hother =>
        rw [Members.get?_cons, ih hfound]
        dsimp only
        by_cases hkey : other = key
        · subst hkey
          simp [hother, hvalue]
        · have hne : (other == key) = false := beq_false_of_ne hkey
          rw [hne]
          rfl

end Locale

/-! ## What is listed -/

namespace Catalog

variable {entries : Members Json} {key : Text}

/-- The value that is listed last under the key is no text. -/
def NotText (entries : Members Json) (key : Text) : Prop :=
  ∃ value, last? entries key = some value ∧ value.string? = none

/-- The first key, in the order of the object, that has no text. -/
def FirstNotText (entries : Members Json) (key : Text) : Prop :=
  NotText entries key ∧ ∀ other, ComesBefore entries other key → ¬ NotText entries other

/-- What is listed of a message: the text that is listed last, or else the
message itself. -/
def said (entries : Members Json) (message : Text) : Text :=
  ((last? entries message).bind Json.string?).getD message

theorem notText_iff : NotText entries key ↔
    ∃ value, (key, value) ∈ Members.ofList entries ∧ value.string? = none := by
  unfold NotText
  simp only [← Members.get?_ofList, Members.get?_eq_some_iff (Members.nodup_keys_ofList entries)]

/-- The first key that has no text is where the members of the object split. -/
theorem firstNotText_iff : FirstNotText entries key ↔
    ∃ before value after, Members.ofList entries = before ++ (key, value) :: after ∧
      (∀ m ∈ before, m.2.string? ≠ none) ∧ value.string? = none := by
  have hpairs := Members.pairwise_ofList entries
  constructor
  · rintro ⟨hnot, hfirst⟩
    obtain ⟨value, hmem, hvalue⟩ := notText_iff.mp hnot
    obtain ⟨before, after, hsplit⟩ := List.append_of_mem hmem
    refine ⟨before, value, after, hsplit, fun m hm hno => ?_, hvalue⟩
    rw [hsplit] at hpairs
    obtain ⟨-, -, hbefore⟩ := List.pairwise_append.mp hpairs
    have hmem : m ∈ Members.ofList entries := hsplit ▸ List.mem_append_left _ hm
    exact hfirst m.1 (hbefore m hm _ List.mem_cons_self) (notText_iff.mpr ⟨m.2, hmem, hno⟩)
  · rintro ⟨before, value, after, hsplit, hbefore, hvalue⟩
    have hmem : (key, value) ∈ Members.ofList entries := hsplit ▸ by simp
    refine ⟨notText_iff.mpr ⟨value, hmem, hvalue⟩, fun other hother hnot => ?_⟩
    obtain ⟨value', hmem', hvalue'⟩ := notText_iff.mp hnot
    rw [hsplit] at hmem' hpairs
    rcases List.mem_append.mp hmem' with hmem' | hmem'
    · exact hbefore _ hmem' hvalue'
    · rcases List.mem_cons.mp hmem' with heq | hmem'
      · cases heq
        exact hother.ne rfl
      · obtain ⟨-, hrest, -⟩ := List.pairwise_append.mp hpairs
        exact hother.asymm ((List.pairwise_cons.mp hrest).1 _ hmem')

/-- The members of an object fail as messages at the first key that has no
text. -/
theorem messagesOf_ofList_eq_error_iff {file : Text} {e : LocaleError} :
    Locale.messagesOf file (Members.ofList entries) = .error e ↔
      ∃ key, FirstNotText entries key ∧ e = .notText file key := by
  rw [Locale.messagesOf_eq_error_iff]
  constructor
  · rintro ⟨before, key, value, after, hsplit, hbefore, hvalue, rfl⟩
    exact ⟨key, firstNotText_iff.mpr ⟨before, value, after, hsplit, hbefore, hvalue⟩, rfl⟩
  · rintro ⟨key, hfirst, rfl⟩
    obtain ⟨before, value, after, hsplit, hbefore, hvalue⟩ := firstNotText_iff.mp hfirst
    exact ⟨before, key, value, after, hsplit, hbefore, hvalue, rfl⟩

/-- They fail just if some key has no text. -/
theorem exists_messagesOf_error_iff (file : Text) :
    (∃ e, Locale.messagesOf file (Members.ofList entries) = .error e) ↔
      ∃ key, NotText entries key := by
  constructor
  · rintro ⟨e, he⟩
    obtain ⟨key, hfirst, -⟩ := messagesOf_ofList_eq_error_iff.mp he
    exact ⟨key, hfirst.1⟩
  · rintro ⟨key, hnot⟩
    obtain ⟨value, hmem, hvalue⟩ := notText_iff.mp hnot
    cases hm : Locale.messagesOf file (Members.ofList entries) with
    | error e => exact ⟨e, rfl⟩
    | ok messages => exact absurd hvalue (Locale.string?_of_messagesOf hm _ hmem)

/-- What a translation by these messages says. -/
theorem gettext_messagesOf {file locale : Text} {messages : Members Text}
    (h : Locale.messagesOf file (Members.ofList entries) = .ok messages) {message : Text}
    (hm : message ≠ []) :
    Translation.gettext ⟨locale, messages⟩ message =
      if message = Locale.reservedKey then message else said entries message := by
  have hempty : message.isEmpty = false := by simpa using hm
  rw [Translation.gettext, hempty, Locale.get?_messagesOf h, Members.get?_ofList, said]
  rw [if_neg Bool.false_ne_true]
  split <;> rfl

end Catalog

/-! ## Loading -/

namespace Locale

theorem zero_notMem_of_isName {locale : Text} (h : isName locale = true) : 0 ∉ locale :=
  notMem_of_foreign ((isName_iff locale).mp h) (by decide)

theorem contains_catalogPath {directory locale : Text} (hd : 0 ∉ directory)
    (hl : isName locale = true) : (catalogPath directory locale).contains 0 = false := by
  rw [← Bool.not_eq_true, List.contains_iff_mem, catalogPath_eq directory ((isName_iff _).mp hl),
    fileName, List.mem_append, List.mem_append, not_or, not_or]
  refine ⟨fun h => ?_, zero_notMem_of_isName hl, by decide⟩
  rcases Path.mem_folder_locate h with h | h | h
  · exact hd h
  · exact absurd h (by decide)
  · exact absurd h (by decide)

section Load

variable {files : Files} {directory locale : Text} {bytes : List UInt8}

/-- A catalog that is there is read, and its members are its messages. -/
theorem outcome_load (hl : isName locale = true) (hdefault : locale ≠ Translation.default.identifier)
    (hd : 0 ∉ directory) (hfile : files (catalogPath directory locale) = .content bytes) :
    (load files directory locale).outcome = do
      let members ←
        (objectOfBytes (catalogPath directory locale) bytes).mapError .document
      let messages ← messagesOf (catalogPath directory locale) members
      return ⟨locale, messages⟩ := by
  have hpresent : (files (catalogPath directory locale)).isPresent = true := by rw [hfile]; rfl
  have hread : (readObject files (catalogPath directory locale)).outcome =
      objectOfBytes (catalogPath directory locale) bytes := by
    rw [readObject, contains_catalogPath hd hl, hfile]
    rfl
  simp only [load, if_neg hdefault, hl, hpresent]
  rw [if_neg (by decide), if_neg (by decide), Journal.bind_eq, Journal.outcome_andThen rfl,
    Journal.bind_eq]
  cases h : objectOfBytes (catalogPath directory locale) bytes with
  | error e =>
    rw [Journal.outcome_andThen_error (Journal.outcome_convert_error (hread.trans h))]
    rfl
  | ok members =>
    rw [Journal.outcome_andThen (Journal.outcome_convert_ok.mpr (hread.trans h)), Journal.bind_eq]
    cases hm : messagesOf (catalogPath directory locale) members with
    | error e =>
      rw [Journal.outcome_andThen_error rfl]
      show _ = messagesOf (catalogPath directory locale) members >>= _
      rw [hm]
      rfl
    | ok messages =>
      rw [Journal.outcome_andThen rfl]
      show _ = messagesOf (catalogPath directory locale) members >>= _
      rw [hm]
      rfl

theorem outcome_load_of_listed (hl : isName locale = true)
    (hdefault : locale ≠ Translation.default.identifier) (hd : 0 ∉ directory)
    (hfile : files (catalogPath directory locale) = .content bytes) {entries : Members Json}
    (hlisted : Json.listed? (Text.decode bytes) = some entries) :
    (load files directory locale).outcome =
      (messagesOf (catalogPath directory locale) (Members.ofList entries)).map
        fun messages => ⟨locale, messages⟩ := by
  have hobject : objectOfBytes (catalogPath directory locale) bytes =
      .ok (Members.ofList entries) := by
    rw [objectOfBytes, Json.parse?_eq_object_iff.mpr ⟨entries, hlisted, rfl⟩]
  rw [outcome_load hl hdefault hd hfile, hobject, mapError_ok]
  show messagesOf _ _ >>= _ = _
  cases messagesOf (catalogPath directory locale) (Members.ofList entries) <;> rfl

theorem outcome_load_of_not_listed (hl : isName locale = true)
    (hdefault : locale ≠ Translation.default.identifier) (hd : 0 ∉ directory)
    (hfile : files (catalogPath directory locale) = .content bytes)
    (hlisted : Json.listed? (Text.decode bytes) = none) :
    (load files directory locale).outcome =
      .error (.document (if (Json.parse? (Text.decode bytes)).isNone
        then .malformed (catalogPath directory locale)
        else .notAnObject (catalogPath directory locale))) := by
  rw [outcome_load hl hdefault hd hfile, objectOfBytes]
  cases hparse : Json.parse? (Text.decode bytes) with
  | none => rfl
  | some value =>
    cases value with
    | object members =>
      obtain ⟨entries, h, -⟩ := Json.parse?_eq_object_iff.mp hparse
      rw [hlisted] at h
      cases h
    | _ => rfl

end Load

end Locale

open Catalog in
/-- **What a catalog says.** For a name of a locale other than the default
one, whose catalog is there: loading fails with the file's name if the catalog
is no text of an object, and otherwise just if some key it lists has no text
at last, naming the first such key in the order of the object. Else it gives a
translation of that name, by which the empty message is empty, the reserved
key stands for itself whatever is listed of it, and every other message is
the text listed last for it, or itself if there is none. So the translation
says just what is listed unless the reserved key is listed with a text other
than itself. -/
theorem Locale.catalog_says_iff {files : Files} {directory locale : Text} {bytes : List UInt8}
    (hl : isName locale = true) (hdefault : locale ≠ Translation.default.identifier)
    (hd : 0 ∉ directory) (hfile : files (catalogPath directory locale) = .content bytes) :
    let path := catalogPath directory locale
    let outcome := (load files directory locale).outcome
    (Json.listed? (Text.decode bytes) = none →
      outcome = .error (.document (if (Json.parse? (Text.decode bytes)).isNone
        then .malformed path else .notAnObject path))) ∧
    ∀ entries, Json.listed? (Text.decode bytes) = some entries →
      ((∃ e, outcome = .error e) ↔ ∃ key, NotText entries key) ∧
      (∀ e, outcome = .error e ↔ ∃ key, FirstNotText entries key ∧ e = .notText path key) ∧
      ∀ tr, outcome = .ok tr →
        tr.identifier = locale ∧ tr.gettext [] = [] ∧
        tr.gettext reservedKey = reservedKey ∧
        (∀ message, message ≠ [] → message ≠ reservedKey →
          tr.gettext message = said entries message) ∧
        ((∀ message, message ≠ [] → tr.gettext message = said entries message) ↔
          said entries reservedKey = reservedKey) := by
  intro path outcome
  refine ⟨outcome_load_of_not_listed hl hdefault hd hfile, fun entries hlisted => ?_⟩
  have houtcome := outcome_load_of_listed hl hdefault hd hfile hlisted
  have herror : ∀ e, outcome = .error e ↔
      messagesOf path (Members.ofList entries) = .error e := by
    intro e
    show (load files directory locale).outcome = _ ↔ _
    rw [houtcome]
    exact map_eq_error_iff
  refine ⟨?_, fun e => ?_, fun tr htr => ?_⟩
  · rw [← exists_messagesOf_error_iff path]
    exact exists_congr herror
  · rw [← messagesOf_ofList_eq_error_iff]
    exact herror e
  · obtain ⟨messages, hmessages, rfl⟩ := map_eq_ok_iff.mp (houtcome.symm.trans htr)
    have hreserved : reservedKey ≠ [] := by decide
    have hkept : Translation.gettext ⟨locale, messages⟩ reservedKey = reservedKey := by
      rw [gettext_messagesOf hmessages hreserved, if_pos rfl]
    have hothers : ∀ message, message ≠ [] → message ≠ reservedKey →
        Translation.gettext ⟨locale, messages⟩ message = said entries message := by
      intro message hm hother
      rw [gettext_messagesOf hmessages hm, if_neg hother]
    refine ⟨rfl, rfl, hkept, hothers, ?_, ?_⟩
    · intro hall
      rw [← hall reservedKey hreserved, hkept]
    · intro hsaid message hm
      by_cases hother : message = reservedKey
      · rw [hother, hkept, hsaid]
      · exact hothers message hm hother

namespace Locale

/-- A name of two letters. -/
def shortName : Text := [120, 120]

/-- One file, the catalog of that name. -/
def oneCatalog (bytes : List UInt8) : Files := fun path =>
  if path = catalogPath [] shortName then .content bytes else .missing

theorem oneCatalog_self (bytes : List UInt8) :
    oneCatalog bytes (catalogPath [] shortName) = .content bytes := if_pos rfl

/-- A catalog of one text is loaded. -/
theorem exists_load_oneCatalog {bytes : List UInt8} {key t : Text}
    (h : Json.listed? (Text.decode bytes) = some [(key, .string t)]) :
    ∃ messages,
      messagesOf (catalogPath [] shortName) (Members.ofList [(key, .string t)]) = .ok messages ∧
      (load (oneCatalog bytes) [] shortName).outcome = .ok ⟨shortName, messages⟩ := by
  have houtcome := outcome_load_of_listed (by decide) (by decide) (List.not_mem_nil)
    (oneCatalog_self bytes) h
  cases hm : messagesOf (catalogPath [] shortName) (Members.ofList [(key, .string t)]) with
  | ok messages =>
    rw [hm] at houtcome
    exact ⟨messages, rfl, houtcome⟩
  | error e =>
    obtain ⟨other, hnot⟩ := (Catalog.exists_messagesOf_error_iff _).mp ⟨e, hm⟩
    obtain ⟨value, hmem, hvalue⟩ := Catalog.notText_iff.mp hnot
    cases List.mem_singleton.mp (Members.mem_of_mem_ofList hmem)
    cases hvalue

/-- The text `{"a":"b"}` as bytes. -/
def oneMessage : List UInt8 := [123, 34, 97, 34, 58, 34, 98, 34, 125]

theorem listed?_oneMessage :
    Json.listed? (Text.decode oneMessage) = some [([97], .string [98])] := rfl

theorem catalog_says_iff_oneMessage :
    isName shortName = true ∧ shortName ≠ Translation.default.identifier ∧ 0 ∉ ([] : Text) ∧
      oneCatalog oneMessage (catalogPath [] shortName) = .content oneMessage ∧
      ∃ tr, (load (oneCatalog oneMessage) [] shortName).outcome = .ok tr ∧
        tr.gettext [97] = [98] := by
  have hl : isName shortName = true := by decide
  have hdefault : shortName ≠ Translation.default.identifier := by decide
  have hd : 0 ∉ ([] : Text) := List.not_mem_nil
  have hfile := oneCatalog_self oneMessage
  obtain ⟨-, hlaw⟩ := catalog_says_iff hl hdefault hd hfile
  obtain ⟨-, -, hsays⟩ := hlaw _ listed?_oneMessage
  obtain ⟨messages, -, hload⟩ := exists_load_oneCatalog listed?_oneMessage
  obtain ⟨-, -, -, hothers, -⟩ := hsays _ hload
  exact ⟨hl, hdefault, hd, hfile, _, hload, hothers [97] (by decide) (by decide)⟩

/-- The text `{"__proto__":"x"}` as bytes. -/
def reservedMessage : List UInt8 :=
  [123, 34, 95, 95, 112, 114, 111, 116, 111, 95, 95, 34, 58, 34, 120, 34, 125]

theorem listed?_reservedMessage :
    Json.listed? (Text.decode reservedMessage) = some [(reservedKey, .string [120])] := rfl

/-- A catalog with a text for the reserved key is loaded, and does not say it. -/
theorem reservedMessage_is_dropped :
    Json.listed? (Text.decode reservedMessage) = some [(reservedKey, .string [120])] ∧
      Catalog.said [(reservedKey, .string [120])] reservedKey = [120] ∧
      ∃ tr, (load (oneCatalog reservedMessage) [] shortName).outcome = .ok tr ∧
        tr.gettext reservedKey = reservedKey ∧ reservedKey ≠ [120] := by
  obtain ⟨messages, hmessages, hload⟩ := exists_load_oneCatalog listed?_reservedMessage
  refine ⟨listed?_reservedMessage, by decide, _, hload, ?_, by decide⟩
  rw [Catalog.gettext_messagesOf hmessages (by decide), if_pos rfl]

end Locale

end ContestGrading
