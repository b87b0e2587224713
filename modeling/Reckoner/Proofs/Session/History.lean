import Reckoner.Proofs.Event.Owed
import Reckoner.Proofs.Event.Plain
import Reckoner.Proofs.Formats.Standard
import Reckoner.Proofs.Journal.History
import Reckoner.Proofs.Session.Independence
/-!
# The journal as a history

In a run that starts in an empty directory and leaves the journal to the events, the journal holds the lines of the
events that were made while a sink was attached (`Faithful.run`). So it can be read as the history of the run exactly
when each event that was called for has been made, and that fails for a formula whose value cannot be shown alone
(`keepsHistory_iff`). This holds in all formats in whose JSON no object has a key twice and JSON values are kept.
-/
namespace Reckoner

open FunctionTable (builtin)

/-- Does the step leave the journal to the events? -/
def Step.leavesJournal : Step → Bool
  | .removeJournal | .replaceJournal _ => false
  | _ => true

namespace Session

/-- The event that a step calls for. -/
def owed? (s : Session) : Step → Option Event
  | .evaluate formula values => Event.owed? s.calculator formula values
  | .record kind level message errorCode context => (Event.ofLabels kind level message errorCode context).toOption
  | _ => none

/-- The event that a step makes. -/
def made? (s : Session) : Step → Option Event
  | .evaluate formula values => Event.ofFormula? s.calculator formula values
  | .record kind level message errorCode context => (Event.ofLabels kind level message errorCode context).toOption
  | _ => none

/-- The event of a step, with its time, if a sink is attached. -/
def timed (event : Session → Step → Option Event) (s : Session) (time : Text) (action : Step) : List (Text × Event) :=
  if s.isAttached then ((event s action).map fun e => (time, e)).toList else []

/-- The events of the steps of a run that are taken while a sink is attached. -/
def eventsOf (formats : Formats) (event : Session → Step → Option Event) (s : Session) :
    List (Text × Step) → List (Text × Event)
  | [] => []
  | (time, action) :: rest =>
    s.timed event time action ++ (s.step formats time action).2.eventsOf formats event rest

/-- The step works out a formula whose value cannot be shown. -/
def IsUnshown (s : Session) : Step → Prop
  | .evaluate formula values => s.calculator.IsUnshown formula values
  | _ => False

/-- In the run no formula has a value that cannot be shown while a sink is attached. -/
def ShowsAll (formats : Formats) (s : Session) : List (Text × Step) → Prop
  | [] => True
  | (time, action) :: rest =>
    (s.isAttached = true → ¬s.IsUnshown action) ∧ (s.step formats time action).2.ShowsAll formats rest

/-- The value that is read tells of the event with its type, its level, its message, its code, its time and its context
with the secrets blanked. -/
structure Carries (told : Text × Event) (j : Json) : Prop where
  kind : j.get? "event_type" = some (.text told.2.kind.label)
  level : j.get? "level" = some (.text told.2.level.label)
  message : j.get? "message" = some (.text told.2.message)
  errorCode : j.get? "error_code" = some ((told.2.errorCode.map Json.text).getD .null)
  time : j.get? "ts" = some (.text told.1)
  context : ∃ kept, told.2.IsContextOf kept ∧ j.get? "context" = some kept.sorted

/-- After the run, a query without filters that takes in the whole journal and asks for as many events as the steps call
for gives just these, the newest first. -/
def KeepsHistory (formats : Formats) (s : Session) (steps : List (Text × Step)) : Prop :=
  ∀ (time : Text) (q : Query), q.level = [] → q.kind = [] →
    ((s.eventsOf formats owed? steps).length : Int) ≤ q.limit →
      (((s.run formats steps).2.project.journal.bytes?.getD []).length : Int) ≤ q.tailBytes →
        ∃ found, ((s.run formats steps).2.step formats time (.read q)).1 = .events (.ok found) ∧
          List.Forall₂ Carries (s.eventsOf formats owed? steps).reverse found

/-- The journal holds the events. A sink that is attached leads to this journal, and the journal then has its
directory. -/
structure Faithful (formats : Formats) (s : Session) (events : List (Text × Event)) : Prop where
  holds : s.project.journal.Holds formats events
  directory : s.isAttached = true → s.project.journal ≠ .noDirectory
  sink : ∀ sink ∈ s.sink, sink.directory = s.project.directory

variable {formats : Formats} {s : Session} {events : List (Text × Event)} {time : Text} {action : Step}

theorem faithful_start (formats : Formats) (path : Text) : (start (.empty path)).Faithful formats [] :=
  ⟨Journal.holds_nil rfl, nofun, nofun⟩

theorem withDirectory_ne_noDirectory (journal : Journal) : journal.withDirectory ≠ .noDirectory := by
  cases journal <;> nofun

namespace Faithful

/-- Attaching a sink leaves what the journal holds. -/
theorem attach (faithful : s.Faithful formats events) {attached : Session}
    (h : (attach formats).on s = (.ok (), attached)) : attached.Faithful formats events := by
  rcases attach_eq_ok h with ⟨sink, own, rfl⟩ | rfl
  · refine ⟨faithful.holds.withDirectory, fun _ => withDirectory_ne_noDirectory _, ?_⟩
    rintro _ ⟨⟩
    exact own
  · exact ⟨faithful.holds, nofun, nofun⟩

/-- A sink that is attached leads to the journal. -/
theorem reachesJournal (faithful : s.Faithful formats events) : s.reachesJournal = s.isAttached := by
  unfold Session.reachesJournal isAttached
  cases attached : s.sink with
  | none => rfl
  | some sink =>
    rw [Option.any_some, faithful.sink sink attached, Directory.same_self]
    rfl

/-- An event that has a line is added while a sink is attached. -/
theorem record (faithful : s.Faithful formats events) {e : Event}
    (plain : s.isAttached = true → ∃ line, Journal.IsLineOf formats (time, e) line) :
    (s.record formats time e).Faithful formats (events ++ if s.isAttached then [(time, e)] else []) := by
  have reaches := faithful.reachesJournal
  cases attached : s.isAttached with
  | false =>
    have same : s.record formats time e = s := if_neg (by simp [reaches, attached])
    rw [same, if_neg (by decide), List.append_nil]
    exact faithful
  | true =>
    obtain ⟨line, own⟩ := plain attached
    have after : s.record formats time e = { s with project := { s.project with
        journal := s.project.journal.append formats time e } } := if_pos (reaches.trans attached)
    have present := faithful.directory attached
    rw [after, if_pos rfl]
    refine ⟨faithful.holds.append present own, fun _ => ?_, faithful.sink⟩
    obtain ⟨j, made, written⟩ := own
    rw [Journal.append, Event.line?_eq_some.mpr ⟨j, made, written⟩]
    intro missing
    cases journal : s.project.journal with
    | noDirectory => exact present journal
    | noFile =>
      rw [journal] at missing
      cases missing
    | file bytes =>
      rw [journal] at missing
      cases missing

/-- A step that makes no event adds none. -/
theorem silent {next : Session} (kept : next.Faithful formats events) (none : s.made? action = .none) :
    next.Faithful formats (events ++ s.timed made? time action) := by
  have nothing : s.timed made? time action = [] := by simp [timed, none]
  rw [nothing, List.append_nil]
  exact kept

/-- A step that makes an event and records it adds this event. -/
theorem told (faithful : s.Faithful formats events) {e : Event} (makes : s.made? action = some e)
    (plain : ∀ told ∈ s.timed made? time action, ∃ line, Journal.IsLineOf formats told line) :
    (s.record formats time e).Faithful formats (events ++ s.timed made? time action) := by
  have one : s.timed made? time action = if s.isAttached then [(time, e)] else [] := by simp [timed, makes]
  rw [one] at plain ⊢
  exact faithful.record fun attached => plain _ (by simp [attached])

/-- A step that leaves the journal to the events adds the one that it makes. -/
theorem step (faithful : s.Faithful formats events) (leaves : action.leavesJournal = true)
    (plain : ∀ told ∈ s.timed made? time action, ∃ line, Journal.IsLineOf formats told line) :
    (s.step formats time action).2.Faithful formats (events ++ s.timed made? time action) := by
  -- Every step either records the event it makes or makes none, and keeps the directory of an attached journal.
  have took := took_step formats time s action
  generalize (s.step formats time action).1 = reply at took
  generalize (s.step formats time action).2 = next at took ⊢
  cases took with
  | loaded bindings attached attach =>
    have kept := faithful.attach attach
    exact silent ⟨kept.holds, kept.directory, kept.sink⟩ rfl
  | notLoaded f => exact faithful.silent rfl
  | attached attached attach => exact (faithful.attach attach).silent rfl
  | notAttached f => exact faithful.silent rfl
  | detached => exact silent ⟨faithful.holds, nofun, nofun⟩ rfl
  | configured file => exact silent ⟨faithful.holds, faithful.directory, faithful.sink⟩ rfl
  | removed => cases leaves
  | replaced bytes => cases leaves
  | shown => exact faithful.silent rfl
  | evaluated formula values e makes => exact faithful.told makes plain
  | untold formula values none => exact faithful.silent none
  | recorded kind level message errorCode context e valid =>
    exact faithful.told (by rw [made?, valid]; rfl) plain
  | refused kind level message errorCode context f invalid =>
    exact faithful.silent (by rw [made?, invalid]; rfl)
  | read q =>
    exact silent ⟨faithful.holds.withDirectory, fun _ => withDirectory_ne_noDirectory _, faithful.sink⟩ rfl

/-- A run that leaves the journal to the events adds those that its steps make. -/
theorem run {steps : List (Text × Step)} (faithful : s.Faithful formats events)
    (leaves : ∀ timed ∈ steps, timed.2.leavesJournal = true)
    (plain : ∀ told ∈ s.eventsOf formats made? steps, ∃ line, Journal.IsLineOf formats told line) :
    (s.run formats steps).2.Faithful formats (events ++ s.eventsOf formats made? steps) := by
  induction steps generalizing s events with
  | nil => simpa [eventsOf] using faithful
  | cons timed rest ih =>
    obtain ⟨time, action⟩ := timed
    simp only [eventsOf, List.forall_mem_append] at plain
    obtain ⟨own, others⟩ := List.forall_mem_cons.mp leaves
    rw [run_cons, eventsOf, ← List.append_assoc]
    exact ih (faithful.step own plain.1) others plain.2

end Faithful

/-- No step changes the functions that the calculator knows. -/
theorem functions_step (known : s.calculator.functions = builtin) (formats : Formats) (time : Text)
    (action : Step) : (s.step formats time action).2.calculator.functions = builtin := by
  rw [(took_step formats time s action).calculator, calculatorAfter]
  split
  · rfl
  · exact known

/-- A step makes the event it calls for, unless it works out a formula whose value cannot be shown. -/
theorem made?_eq_owed? (known : s.calculator.functions = builtin) (shown : ¬s.IsUnshown action) :
    s.made? action = s.owed? action := by
  cases action with
  | evaluate formula values => exact Event.ofFormula?_eq_owed? known shown
  | _ => rfl

theorem made?_of_isUnshown (unshown : s.IsUnshown action) :
    s.made? action = none ∧ (s.owed? action).isSome = true := by
  cases action with
  | evaluate formula values => exact Event.ofFormula?_of_isUnshown unshown
  | _ => cases unshown

theorem timed_of_shown (known : s.calculator.functions = builtin) (time : Text)
    (shown : s.isAttached = true → ¬s.IsUnshown action) :
    s.timed made? time action = s.timed owed? time action := by
  unfold timed
  split
  next attached => rw [made?_eq_owed? known (shown attached)]
  next => rfl

theorem length_timed_of_isUnshown (attached : s.isAttached = true) (unshown : s.IsUnshown action) (time : Text) :
    (s.timed made? time action).length < (s.timed owed? time action).length := by
  obtain ⟨silent, due⟩ := made?_of_isUnshown unshown
  obtain ⟨e, due⟩ := Option.isSome_iff_exists.mp due
  simp [timed, attached, silent, due]

/-- If every value can be shown then a run makes the events it calls for. -/
theorem eventsOf_of_showsAll {steps : List (Text × Step)} (known : s.calculator.functions = builtin)
    (shows : s.ShowsAll formats steps) : s.eventsOf formats made? steps = s.eventsOf formats owed? steps := by
  induction steps generalizing s with
  | nil => rfl
  | cons timed rest ih =>
    obtain ⟨time, action⟩ := timed
    rw [eventsOf, eventsOf, timed_of_shown known time shows.1, ih (functions_step known formats time action) shows.2]

/-- A run makes no more events than it calls for, and as many only if every value can be shown. -/
theorem length_eventsOf_made? (known : s.calculator.functions = builtin) (formats : Formats)
    (steps : List (Text × Step)) :
    (s.eventsOf formats made? steps).length ≤ (s.eventsOf formats owed? steps).length ∧
      ((s.eventsOf formats made? steps).length = (s.eventsOf formats owed? steps).length →
        s.ShowsAll formats steps) := by
  induction steps generalizing s with
  | nil => exact ⟨Nat.le_refl _, fun _ => trivial⟩
  | cons timed rest ih =>
    obtain ⟨time, action⟩ := timed
    obtain ⟨fewer, shows⟩ := ih (functions_step known formats time action)
    simp only [eventsOf, List.length_append]
    by_cases shown : s.isAttached = true → ¬s.IsUnshown action
    · rw [timed_of_shown known time shown]
      exact ⟨by omega, fun same => ⟨shown, shows (by omega)⟩⟩
    · obtain ⟨attached, unshown⟩ := Classical.not_imp.mp shown
      -- what is lost here is not made up for later
      have lost := length_timed_of_isUnshown attached (Classical.not_not.mp unshown) time
      exact ⟨by omega, fun same => by omega⟩

/-- What is read of a plain event tells of it. -/
theorem carries_of_isRecordOf {told : Text × Event} {k : Json} (plain : told.2.IsPlain) (keeps : formats.KeepsJson)
    (h : Journal.IsRecordOf formats told k) : Carries told k := by
  obtain ⟨j, made, rfl⟩ := h
  obtain ⟨kept, known, rfl⟩ := Event.toJson_eq_ok.mp made
  obtain ⟨context, own, keptContext, -⟩ := plain.kept keeps
  cases keptContext.symm.trans known
  have code : ((told.2.errorCode.map Json.text).getD .null).sorted = (told.2.errorCode.map Json.text).getD .null := by
    cases told.2.errorCode <;> rfl
  have inOrder : (told.2.asJson told.1 kept).sorted =
      .object (Event.fieldsInOrder (.int 1) (.text told.1) (.text told.2.level.label) (.text told.2.kind.label)
        kept.sorted (.text told.2.message) ((told.2.errorCode.map Json.text).getD .null)) := by
    rw [← Event.sortedByKey_fields]
    simp only [Event.asJson, Json.sorted, Event.fields, Json.sortedEntries, code]
  rw [inOrder]
  exact ⟨rfl, rfl, rfl, rfl, rfl, kept, own, rfl⟩

/-- What a read step finds in a journal of plain events. -/
theorem Faithful.read (faithful : s.Faithful formats events) (differ : formats.KeysDiffer) (keeps : formats.KeepsJson)
    (plain : ∀ told ∈ events, told.2.IsPlain ∧ told.1.IsWhole) (few : events.length ≤ 2000) (time : Text) {q : Query}
    (noLevel : q.level = []) (noKind : q.kind = []) (limit : (events.length : Int) ≤ q.limit)
    (covers : ((s.project.journal.bytes?.getD []).length : Int) ≤ q.tailBytes) :
    ∃ found, (s.step formats time (.read q)).1 = .events (.ok found) ∧ List.Forall₂ Carries events.reverse found := by
  have unbroken : ∀ told ∈ events, Journal.IsUnbroken formats told := by
    intro told member j made
    obtain ⟨whole, line, known, written, same⟩ := (plain told member).1.line differ keeps (plain told member).2
    cases made.symm.trans known
    exact same
  obtain ⟨found, read, records⟩ := faithful.holds.read unbroken noLevel noKind limit few covers
  have plainRecords := (List.forall₂_and_left _ _).mpr
    ⟨fun told member => (plain told (List.mem_reverse.mp member)).1, records⟩
  exact ⟨found, congrArg Reply.events read, plainRecords.imp fun _ _ own => carries_of_isRecordOf own.1 keeps own.2⟩

section

variable {path : Text} {steps : List (Text × Step)} (differ : formats.KeysDiffer) (keeps : formats.KeepsJson)
  (leaves : ∀ timed ∈ steps, timed.2.leavesJournal = true)
  (plain : ∀ told ∈ (start (.empty path)).eventsOf formats made? steps, told.2.IsPlain ∧ told.1.IsWhole)

include differ keeps leaves plain

/-- The session after a run from an empty directory. -/
theorem faithful_run :
    ((start (.empty path)).run formats steps).2.Faithful formats
      ((start (.empty path)).eventsOf formats made? steps) :=
  (faithful_start formats path).run leaves fun told member =>
    have ⟨j, line, made, written, _⟩ := (plain told member).1.line differ keeps (plain told member).2
    ⟨line, j, made, written⟩

/-- A history of all events that are called for has as many as are made. -/
theorem length_of_keepsHistory (few : ((start (.empty path)).eventsOf formats owed? steps).length ≤ 2000)
    (history : (start (.empty path)).KeepsHistory formats steps) :
    ((start (.empty path)).eventsOf formats made? steps).length =
      ((start (.empty path)).eventsOf formats owed? steps).length := by
  obtain ⟨fewer, -⟩ := length_eventsOf_made? (s := start (.empty path)) rfl formats steps
  let last := ((start (.empty path)).run formats steps).2
  let whole : Query := ⟨[], [], ((start (.empty path)).eventsOf formats owed? steps).length,
    (last.project.journal.bytes?.getD []).length⟩
  obtain ⟨found, read, all⟩ := history [] whole rfl rfl (Int.le_refl _) (Int.le_refl _)
  obtain ⟨held, actual, made⟩ := (faithful_run differ keeps leaves plain).read differ keeps plain
    (Nat.le_trans fewer few) [] (q := whole) rfl rfl (Int.ofNat_le.mpr fewer) (Int.le_refl _)
  cases read.symm.trans actual
  rw [← List.length_reverse, made.length_eq, ← all.length_eq, List.length_reverse]

end

/-- In a run from an empty directory that leaves the journal to plain events the journal is a history of all events that
are called for exactly when no formula has a value that cannot be shown. -/
theorem keepsHistory_iff (formats : Formats) (differ : formats.KeysDiffer) (keeps : formats.KeepsJson) (path : Text)
    (steps : List (Text × Step)) (leaves : ∀ timed ∈ steps, timed.2.leavesJournal = true)
    (plain : ∀ told ∈ (start (.empty path)).eventsOf formats made? steps, told.2.IsPlain ∧ told.1.IsWhole)
    (few : ((start (.empty path)).eventsOf formats owed? steps).length ≤ 2000) :
    (start (.empty path)).KeepsHistory formats steps ↔ (start (.empty path)).ShowsAll formats steps := by
  constructor
  · intro history
    exact (length_eventsOf_made? (s := start (.empty path)) rfl formats steps).2
      (length_of_keepsHistory differ keeps leaves plain few history)
  · intro shows time q noLevel noKind limit covers
    rw [← eventsOf_of_showsAll (s := start (.empty path)) rfl shows] at limit few ⊢
    exact (faithful_run differ keeps leaves plain).read differ keeps plain few time noLevel noKind limit covers

/-- The project is loaded, a name is looked up, and an event is recorded. -/
def nameRun : List (Text × Step) :=
  [("t", .load), ("t", .evaluate "x" [("x", .text "a")]), ("t", .record "formula_failed" "error" "m" none [])]

/-- The event of the name that is looked up. -/
def nameEvent : Event :=
  ⟨.evaluated, .info, "x = a", none, [("formula", .text "x"), ("expression", .text "x"), ("rendered", .text "x")]⟩

/-- The event that is recorded after it. -/
def recordedEvent : Event := ⟨.failed, .error, "m", none, []⟩

theorem eventsOf_nameRun :
    (start (.empty "p")).eventsOf .standard made? nameRun =
      [(("t" : Text), nameEvent), (("t" : Text), recordedEvent)] := by
  with_unfolding_all rfl

theorem isPlain_nameEvent : nameEvent.IsPlain where
  message := Text.isWhole_ofString _
  errorCode := nofun
  context := by
    have whole (name text : String) : Text.IsWhole name ∧ Value.IsJson (.text text) :=
      ⟨Text.isWhole_ofString _, .text _ (Text.isWhole_ofString _)⟩
    simp only [nameEvent, List.forall_mem_cons, List.not_mem_nil, false_implies, implies_true, and_true]
    exact ⟨whole _ _, whole _ _, whole _ _⟩

/-- The journal is a history of such a run. -/
theorem keepsHistory_name : (start (.empty "p")).KeepsHistory .standard nameRun := by
  refine (keepsHistory_iff .standard Formats.standard_keysDiffer Formats.standard_keepsJson "p" nameRun (by decide)
    ?_ ?_).mpr ⟨nofun, fun _ => ?_, nofun, trivial⟩
  · rw [eventsOf_nameRun]
    refine List.forall_mem_cons.mpr ⟨⟨isPlain_nameEvent, Text.isWhole_ofString _⟩, List.forall_mem_singleton.mpr ?_⟩
    exact ⟨⟨Text.isWhole_ofString _, nofun, nofun⟩, Text.isWhole_ofString _⟩
  · have two : ((start (.empty "p")).eventsOf .standard owed? nameRun).length = 2 := by with_unfolding_all rfl
    omega
  · rintro ⟨tree, v, e, computed, failed⟩
    have value : ((start (.empty "p")).step .standard "t" .load).2.calculator.compute "x" [("x", .text "a")] =
        .ok (.property "x", .text "a") := by with_unfolding_all rfl
    cases value.symm.trans computed
    cases failed

/-- A value that cannot be shown makes no event. -/
theorem not_keepsHistory_tuple :
    ¬∀ (path : Text) (steps : List (Text × Step)), (∀ timed ∈ steps, timed.2.leavesJournal = true) →
      (∀ told ∈ (start (.empty path)).eventsOf .standard made? steps, told.2.IsPlain ∧ told.1.IsWhole) →
        ((start (.empty path)).eventsOf .standard owed? steps).length ≤ 2000 →
          (start (.empty path)).KeepsHistory .standard steps := by
  intro always
  let steps : List (Text × Step) := [("t", .load), ("t", .evaluate "x" [("x", .tuple [.int 1])])]
  have leaves : ∀ timed ∈ steps, timed.2.leavesJournal = true := by decide
  have made : (start (.empty "p")).eventsOf .standard made? steps = [] := by with_unfolding_all rfl
  have owed : ((start (.empty "p")).eventsOf .standard owed? steps).length = 1 := by with_unfolding_all rfl
  have plain : ∀ told ∈ (start (.empty "p")).eventsOf .standard made? steps, told.2.IsPlain ∧ told.1.IsWhole := by
    simp [made]
  have few : ((start (.empty "p")).eventsOf .standard owed? steps).length ≤ 2000 := by omega
  have same := length_of_keepsHistory Formats.standard_keysDiffer Formats.standard_keepsJson leaves plain few
    (always "p" steps leaves plain few)
  rw [made, owed] at same
  cases same

end Session
end Reckoner
