import Reckoner.Proofs.Text.Utf8.Strict
import Reckoner.Settings
/-!
# What a settings file tells

A settings file tells some entries on top of the usual settings, none where there is no file or nothing in it (`Tells`),
and of the entries under one key the last one counts. Which variables there are, whether a journal is kept, whether its
lines are synced and how much of it is read is stated about these entries alone. The settings that are read are those
that the file tells (`read_of_tells`, `tells_of_read`), and which files have a faulty value is stated without them too
(`isFaulty_iff`).
-/
namespace Reckoner

namespace Value

variable {e k v w : Value} {t : Text}

theorem text_equals : (Value.text t).equals v = true ↔ v.asText? = some t := by
  rw [Value.equals, beq_iff_eq]

theorem equals_text : v.equals (.text t) = true ↔ v.asText? = some t := by
  cases v with
  | text s => exact text_equals.trans ⟨by rintro ⟨⟩; rfl, by rintro ⟨⟩; rfl⟩
  | _ => simp [Value.equals, Value.equalsNumber, Number.ofValue?, asText?]

/-- Only a text equals a text. -/
theorem asText?_of_equals (same : e.equals k = true) (text : k.asText? = some t) : e.asText? = some t := by
  cases k with
  | text s => rwa [equals_text.mp same]
  | token s =>
    cases e <;> simp_all [Value.equals, Value.equalsNumber, Number.ofValue?, asText?, Token.equals]
  | _ => cases text

/-- A value under a key changes what stands under a text exactly if the key is that text. -/
theorem find?_withEntry {entries : List (Value × Value)}
    (found : (entries.find? fun entry => entry.1.equals (.text t)) = some (.text t, v)) :
    ((withEntry k w entries).find? fun entry => entry.1.equals (.text t)) =
      some (.text t, if k.equals (.text t) then w else v) := by
  induction entries with
  | nil => cases found
  | cons entry rest ih =>
    rw [List.find?_cons] at found
    rw [withEntry, withEntryBy]
    cases own : entry.1.equals (.text t) with
    | true =>
      rw [own] at found
      cases found
      by_cases text : k.asText? = some t
      · rw [if_pos (text_equals.mpr text), if_pos (equals_text.mpr text), List.find?_cons, own]
      · rw [if_neg (text_equals.not.mpr text), if_neg (equals_text.not.mpr text), List.find?_cons, own]
    | false =>
      rw [own] at found
      by_cases same : entry.1.equals k = true
      · have other : ¬k.equals (.text t) = true := by
          intro text
          rw [equals_text.mpr (asText?_of_equals same (equals_text.mp text))] at own
          cases own
        rw [if_pos same, if_neg other, List.find?_cons, own]
        exact found
      · rw [if_neg same, List.find?_cons, own]
        exact ih found

end Value

namespace Settings

/-- The last value under a key. -/
def latest? (key : Value) (entries : List (Value × Value)) : Option Value := Value.entryFor? key entries.reverse

/-- The entries that a settings file, if there is one, tells on top of the usual settings. -/
inductive Tells (formats : Formats) : Option (List UInt8) → List (Value × Value) → Prop where
  | missing : Tells formats none []
  | nothing {t : Text} {v : Value} (whole : t.IsWhole) (read : formats.readDocument t.withLineFeeds = .ok v)
      (nothing : v.isTruthy = false) : Tells formats (some (Text.Utf8.encode t)) []
  | mapping {t : Text} {entries : List (Value × Value)} (whole : t.IsWhole)
      (read : formats.readDocument t.withLineFeeds = .ok (.mapping entries)) :
      Tells formats (some (Text.Utf8.encode t)) entries

/-- The variables among the entries. -/
inductive Binds (said : List (Value × Value)) : List (Value × Value) → Prop where
  | unsaid (unsaid : latest? variablesKey said = none) : Binds said []
  | absent (absent : latest? variablesKey said = some .absent) : Binds said []
  | mapping {bindings : List (Value × Value)} (mapping : latest? variablesKey said = some (.mapping bindings)) :
      Binds said bindings

/-- A journal is kept unless the entries say otherwise. -/
def KeepsJournal (said : List (Value × Value)) : Prop := ∀ v, latest? loggingKey said = some v → v.isTruthy = true

/-- Lines are synced only if the entries say so. -/
def Syncs (said : List (Value × Value)) : Prop := ∃ v, latest? syncKey said = some v ∧ v.isTruthy = true

/-- The number of bytes at the end of the journal that are read. -/
inductive IsBound (said : List (Value × Value)) : Int → Prop where
  | unsaid (unsaid : latest? tailKey said = none) : IsBound said 2097152
  | absent (absent : latest? tailKey said = some .absent) : IsBound said 2097152
  | whole {v : Value} {n : Int} (found : latest? tailKey said = some v) (whole : wholeOf v = .ok n) : IsBound said n

/-- The file is no text, a value in it is faulty, it holds something else than a mapping, or its variables are no
mapping. -/
inductive IsFaulty (formats : Formats) : Option (List UInt8) → Prop where
  | encoding {bytes : List UInt8} (unencoded : ∀ t : Text, t.IsWhole → Text.Utf8.encode t ≠ bytes) :
      IsFaulty formats (some bytes)
  | value {t message : Text} (whole : t.IsWhole)
      (read : formats.readDocument t.withLineFeeds = .error (.value message)) :
      IsFaulty formats (some (Text.Utf8.encode t))
  | notAMapping {t : Text} {v : Value} (whole : t.IsWhole) (read : formats.readDocument t.withLineFeeds = .ok v)
      (something : v.isTruthy = true) (other : ∀ entries, v ≠ .mapping entries) :
      IsFaulty formats (some (Text.Utf8.encode t))
  | bindings {file : Option (List UInt8)} {said : List (Value × Value)} (tells : Tells formats file said)
      (none : ∀ bindings, ¬Binds said bindings) : IsFaulty formats file

/-- Settings that hold what the entries say, with these variables. -/
structure IsOf (settings : Settings) (said bindings : List (Value × Value)) : Prop where
  logging : settings.get? loggingKey = some ((latest? loggingKey said).getD (.bool true))
  sync : settings.get? syncKey = some ((latest? syncKey said).getD (.bool false))
  tail : settings.get? tailKey = some ((latest? tailKey said).getD (.int 2097152))
  bindings : settings.bindings = bindings

variable {formats : Formats} {settings : Settings} {path t : Text} {file : Option (List UInt8)}
  {said bindings : List (Value × Value)} {key v : Value} {n : Int}

/-- The value stands under a text, and this text is its own key. -/
structure Has (settings : Settings) (key v : Value) : Prop where
  text : ∃ t, key = .text t
  found : (settings.entries.find? fun entry => entry.1.equals key) = some (key, v)

theorem Has.get? (has : settings.Has key v) : settings.get? key = some v := by
  rw [Settings.get?, Value.entryFor?, has.found]
  rfl

/-- An extension has the last value that it says under a text, or else what was there before. -/
theorem Has.extend (has : settings.Has key v) (said : List (Value × Value)) :
    (settings.extend said).Has key ((latest? key said).getD v) := by
  induction said generalizing settings v with
  | nil => exact has
  | cons entry rest ih =>
    obtain ⟨⟨t, rfl⟩, found⟩ := has
    have next : Has ⟨Value.withEntry entry.1 entry.2 settings.entries⟩ (.text t)
        (if entry.1.equals (.text t) then entry.2 else v) := ⟨⟨t, rfl⟩, Value.find?_withEntry found⟩
    have last : (latest? (.text t) (entry :: rest)).getD v =
        (latest? (.text t) rest).getD (if entry.1.equals (.text t) then entry.2 else v) := by
      unfold latest? Value.entryFor?
      rw [List.reverse_cons, List.find?_append]
      cases rest.reverse.find? fun entry => entry.1.equals (.text t) with
      | some found => rfl
      | none => cases own : entry.1.equals (.text t) <;> simp [own]
    rw [last]
    exact ih next

theorem has_usual :
    usual.Has variablesKey (.mapping []) ∧ usual.Has loggingKey (.bool true) ∧ usual.Has syncKey (.bool false) ∧
      usual.Has tailKey (.int 2097152) := by
  refine ⟨⟨⟨_, rfl⟩, ?_⟩, ⟨⟨_, rfl⟩, ?_⟩, ⟨⟨_, rfl⟩, ?_⟩, ⟨_, rfl⟩, ?_⟩ <;> with_unfolding_all rfl

/-- The variables leave what stands under the other texts. -/
theorem Has.withBindings (has : settings.Has key v) (other : variablesKey.equals key = false) :
    (settings.extend [(variablesKey, .mapping bindings)]).Has key v := by
  obtain ⟨⟨t, rfl⟩, found⟩ := has
  have kept := Value.find?_withEntry (k := variablesKey) (w := .mapping bindings) found
  rw [other] at kept
  exact ⟨⟨t, rfl⟩, kept⟩

theorem variablesKey_differs : variablesKey.equals loggingKey = false ∧ variablesKey.equals syncKey = false ∧
    variablesKey.equals tailKey = false := by
  refine ⟨?_, ?_, ?_⟩ <;> with_unfolding_all rfl

/-- The entries, with their variables, on top of the usual settings. -/
def ofSaid (said bindings : List (Value × Value)) : Settings :=
  (usual.extend said).extend [(variablesKey, .mapping bindings)]

theorem isOf_ofSaid (said bindings : List (Value × Value)) : (ofSaid said bindings).IsOf said bindings := by
  obtain ⟨named, logging, sync, tail⟩ := has_usual
  obtain ⟨notLogging, notSync, notTail⟩ := variablesKey_differs
  refine ⟨((logging.extend said).withBindings notLogging).get?, ((sync.extend said).withBindings notSync).get?,
    ((tail.extend said).withBindings notTail).get?, ?_⟩
  have own := ((named.extend said).extend [(variablesKey, .mapping bindings)]).get?
  have last : latest? variablesKey [(variablesKey, .mapping bindings)] = some (.mapping bindings) := by
    with_unfolding_all rfl
  rw [last, ← ofSaid] at own
  rw [Settings.bindings, bindings?, own]
  rfl

theorem isOf_usual : usual.IsOf [] [] where
  logging := has_usual.2.1.get?
  sync := has_usual.2.2.1.get?
  tail := has_usual.2.2.2.get?
  bindings := by rw [Settings.bindings, bindings?, has_usual.1.get?]; rfl

theorem bindings?_extend : (usual.extend said).bindings? = .ok bindings ↔ Binds said bindings := by
  rw [bindings?, (has_usual.1.extend said).get?]
  constructor
  · intro h
    cases known : latest? variablesKey said with
    | none =>
      rw [known] at h
      cases h
      exact .unsaid known
    | some v =>
      rw [known] at h
      cases v with
      | absent =>
        cases h
        exact .absent known
      | mapping entries =>
        cases h
        exact .mapping known
      | _ => cases h
  · intro binds
    cases binds with
    | unsaid known => rw [known]; rfl
    | absent known => rw [known]; rfl
    | mapping known => rw [known]; rfl

theorem bindings?_fault {f : SettingsFault} (h : settings.bindings? = .error f) : f = .variablesNotAMapping := by
  unfold bindings? at h
  split at h <;> cases h
  rfl

/-- Entries can be checked if there are variables among them, which are then those of the settings. -/
theorem check_extend :
    (usual.extend said).check = .ok settings ↔ ∃ bindings, Binds said bindings ∧ settings = ofSaid said bindings := by
  unfold check
  rw [Except.bind_eq_ok]
  simp only [bindings?_extend]
  constructor
  · rintro ⟨bindings, binds, done⟩
    cases done
    exact ⟨bindings, binds, rfl⟩
  · rintro ⟨bindings, binds, rfl⟩
    exact ⟨bindings, binds, rfl⟩

theorem check_of_unbound (none : ∀ bindings, ¬Binds said bindings) :
    (usual.extend said).check = .error .variablesNotAMapping := by
  cases named : (usual.extend said).bindings? with
  | ok bindings => exact absurd (bindings?_extend.mp named) (none bindings)
  | error f =>
    rw [check, named, bindings?_fault named]
    rfl

theorem ofValue_of_other (other : ∀ entries, v ≠ .mapping entries) :
    ofValue path v = if v.isTruthy then .error (.notAMapping path) else usual.check := by
  cases v with
  | mapping entries => exact absurd rfl (other entries)
  | _ => rfl

theorem ofValue_of_nothing (nothing : v.isTruthy = false) : ofValue path v = (usual.extend []).check := by
  by_cases mapping : ∃ entries, v = .mapping entries
  · obtain ⟨entries, rfl⟩ := mapping
    cases entries with
    | nil => rfl
    | cons entry rest => cases nothing
  · rw [ofValue_of_other (not_exists.mp mapping), nothing]
    rfl

theorem ofValue_of_something (something : v.isTruthy = true) (other : ∀ entries, v ≠ .mapping entries) :
    ofValue path v = .error (.notAMapping path) := by
  rw [ofValue_of_other other, something]
  rfl

/-- A value says nothing, or it is a mapping, or something else. -/
theorem value_cases (v : Value) :
    v.isTruthy = false ∨ (∃ entries, v = .mapping entries) ∨ v.isTruthy = true ∧ ∀ entries, v ≠ .mapping entries := by
  cases truth : v.isTruthy with
  | false => exact .inl rfl
  | true =>
    by_cases mapping : ∃ entries, v = .mapping entries
    · exact .inr (.inl mapping)
    · exact .inr (.inr ⟨rfl, fun entries same => mapping ⟨entries, same⟩⟩)

/-- A file that is the encoding of a text is read as this text. -/
theorem read_encode (whole : t.IsWhole) :
    read formats path (some (Text.Utf8.encode t)) =
      (formats.readDocument t.withLineFeeds).mapError .document >>= ofValue path := by
  rw [Settings.read, Text.Utf8.read_eq_ok.mpr ⟨whole, rfl⟩]
  rfl

theorem check_usual : (usual.extend []).check = .ok usual := by with_unfolding_all rfl

/-- What a file tells is checked on top of the usual settings. -/
theorem read_eq_check (tells : Tells formats file said) : read formats path file = (usual.extend said).check := by
  cases tells with
  | missing => exact check_usual.symm
  | nothing whole document nothing =>
    rw [read_encode whole, document]
    exact ofValue_of_nothing nothing
  | mapping whole document =>
    rw [read_encode whole, document]
    rfl

/-- How a file is read: what it tells is checked, or it is no text, its document is faulty, or it holds something else
than a mapping. -/
inductive Reading (formats : Formats) (path : Text) : Option (List UInt8) → Except SettingsFault Settings → Prop where
  | told {file : Option (List UInt8)} {said : List (Value × Value)} (tells : Tells formats file said) :
      Reading formats path file (usual.extend said).check
  | encoding {bytes : List UInt8} (unencoded : ∀ t : Text, t.IsWhole → Text.Utf8.encode t ≠ bytes)
      (m : Text.Utf8.Malformed) : Reading formats path (some bytes) (.error (.encoding m))
  | document {t : Text} {f : DocumentFault} (whole : t.IsWhole)
      (read : formats.readDocument t.withLineFeeds = .error f) :
      Reading formats path (some (Text.Utf8.encode t)) (.error (.document f))
  | notAMapping {t : Text} {v : Value} (whole : t.IsWhole) (read : formats.readDocument t.withLineFeeds = .ok v)
      (something : v.isTruthy = true) (other : ∀ entries, v ≠ .mapping entries) :
      Reading formats path (some (Text.Utf8.encode t)) (.error (.notAMapping path))

theorem reading_read (formats : Formats) (path : Text) (file : Option (List UInt8)) :
    Reading formats path file (read formats path file) := by
  cases file with
  | none =>
    have tells : Tells formats none [] := .missing
    rw [read_eq_check tells]
    exact .told tells
  | some bytes =>
    cases decoded : Text.Utf8.read bytes with
    | error m =>
      rw [read, decoded]
      refine .encoding (fun t whole same => ?_) m
      rw [Text.Utf8.read_eq_ok.mpr ⟨whole, same⟩] at decoded
      cases decoded
    | ok t =>
      obtain ⟨whole, rfl⟩ := Text.Utf8.read_eq_ok.mp decoded
      cases document : formats.readDocument t.withLineFeeds with
      | error f =>
        rw [read_encode whole, document]
        exact .document whole document
      | ok v =>
        rcases value_cases v with nothing | ⟨entries, rfl⟩ | ⟨something, other⟩
        · have tells := Tells.nothing whole document nothing
          rw [read_eq_check tells]
          exact .told tells
        · have tells := Tells.mapping whole document
          rw [read_eq_check tells]
          exact .told tells
        · rw [read_encode whole, document]
          change Reading formats path _ (ofValue path v)
          rw [ofValue_of_something something other]
          exact .notAMapping whole document something other

/-- A file that tells some entries with variables among them is read as settings that hold these. -/
theorem read_of_tells (tells : Tells formats file said) (binds : Binds said bindings) (path : Text) :
    ∃ settings, read formats path file = .ok settings ∧ settings.IsOf said bindings := by
  rw [read_eq_check tells]
  exact ⟨ofSaid said bindings, check_extend.mpr ⟨bindings, binds, rfl⟩, isOf_ofSaid said bindings⟩

/-- Settings that are read hold what the file tells. -/
theorem tells_of_read (h : read formats path file = .ok settings) :
    ∃ said bindings, Tells formats file said ∧ Binds said bindings ∧ settings.IsOf said bindings := by
  have reading := reading_read formats path file
  rw [h] at reading
  generalize result : Except.ok settings = outcome at reading
  cases reading with
  | @told _ said tells =>
    obtain ⟨bindings, binds, rfl⟩ := check_extend.mp result.symm
    exact ⟨said, bindings, tells, binds, isOf_ofSaid said bindings⟩
  | encoding => cases result
  | document => cases result
  | notAMapping => cases result

/-- A file is faulty exactly if the fault with which it is read has a message. -/
theorem isFaulty_iff (path : Text) :
    IsFaulty formats file ↔ ∃ f, read formats path file = .error f ∧ f.message?.isSome = true := by
  constructor
  · intro faulty
    cases faulty with
    | @encoding bytes unencoded =>
      cases decoded : Text.Utf8.read bytes with
      | ok t =>
        obtain ⟨whole, same⟩ := Text.Utf8.read_eq_ok.mp decoded
        exact absurd same (unencoded t whole)
      | error m => exact ⟨.encoding m, by rw [read, decoded]; rfl, rfl⟩
    | @value t message whole document =>
      exact ⟨.document (.value message), by rw [read_encode whole, document]; rfl, rfl⟩
    | @notAMapping t v whole document something other =>
      refine ⟨.notAMapping path, ?_, rfl⟩
      rw [read_encode whole, document]
      exact ofValue_of_something something other
    | bindings tells none =>
      exact ⟨.variablesNotAMapping, (read_eq_check tells).trans (check_of_unbound none), rfl⟩
  · rintro ⟨f, failed, value⟩
    have reading := reading_read formats path file
    rw [failed] at reading
    generalize result : Except.error f = outcome at reading
    cases reading with
    | told tells =>
      refine .bindings tells fun bindings binds => ?_
      rw [check_extend.mpr ⟨bindings, binds, rfl⟩] at result
      cases result
    | encoding unencoded => exact .encoding unencoded
    | @document t g whole document =>
      cases result
      cases g with
      | value message => exact .value whole document
      | form => cases value
      | tooLarge => cases value
    | notAMapping whole document something other => exact .notAMapping whole document something other

theorem tailBytes?_of_get? (got : settings.get? tailKey = some v) (present : v ≠ .absent) :
    settings.tailBytes? = ((wholeOf v).mapError .size).map some := by
  rw [tailBytes?, got]
  cases v with
  | absent => exact absurd rfl present
  | _ => rfl

namespace IsOf

theorem keepsJournal_iff (holds : settings.IsOf said bindings) : settings.keepsJournal = true ↔ KeepsJournal said := by
  rw [keepsJournal, holds.logging, KeepsJournal]
  cases latest? loggingKey said with
  | none => exact ⟨fun _ => nofun, fun _ => rfl⟩
  | some v => simp

theorem syncsJournal_iff (holds : settings.IsOf said bindings) : settings.syncsJournal = true ↔ Syncs said := by
  rw [syncsJournal, holds.sync, Syncs]
  cases latest? syncKey said with
  | none => simp [Value.isTruthy]
  | some v => simp

/-- The bound that is read is the one that the entries tell, or else the usual one. -/
theorem isBound_iff (holds : settings.IsOf said bindings) :
    IsBound said n ↔ ∃ bound, settings.tailBytes? = .ok bound ∧ bound.getD 2097152 = n := by
  have got := holds.tail
  constructor
  · intro bound
    cases bound with
    | unsaid known =>
      rw [known] at got
      exact ⟨some 2097152, by rw [tailBytes?_of_get? got nofun]; rfl, rfl⟩
    | absent known =>
      rw [known] at got
      exact ⟨none, by rw [tailBytes?, got]; rfl, rfl⟩
    | @whole v _ known whole =>
      have present : v ≠ .absent := by
        rintro rfl
        cases whole
      rw [known, Option.getD_some] at got
      exact ⟨some n, by rw [tailBytes?_of_get? got present, whole]; rfl, rfl⟩
  · rintro ⟨bound, read, rfl⟩
    cases known : latest? tailKey said with
    | none =>
      rw [known] at got
      rw [tailBytes?_of_get? got nofun] at read
      cases read
      exact .unsaid known
    | some v =>
      rw [known, Option.getD_some] at got
      by_cases present : v ≠ .absent
      · rw [tailBytes?_of_get? got present] at read
        obtain ⟨m, converted, rfl⟩ := Except.map_eq_ok.mp read
        cases whole : wholeOf v with
        | error f =>
          rw [whole] at converted
          cases converted
        | ok n =>
          rw [whole] at converted
          cases converted
          exact .whole known whole
      · rw [Classical.not_not.mp present] at known got
        rw [tailBytes?, got] at read
        cases read
        exact .absent known

theorem not_isBound (holds : settings.IsOf said bindings) {f : SettingsFault} (faulty : settings.tailBytes? = .error f)
    (n : Int) : ¬IsBound said n := by
  intro bound
  obtain ⟨bound, read, -⟩ := holds.isBound_iff.mp bound
  rw [faulty] at read
  cases read

end IsOf

end Settings
end Reckoner
