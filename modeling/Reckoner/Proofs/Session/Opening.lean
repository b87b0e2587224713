import Reckoner.Project
import Reckoner.Proofs.Settings
/-!
# Opening a project

A project is opened by loading it, or by attaching a sink alone. Both read the settings, and everything that can fail
comes before anything is changed: a step that fails leaves the session as it was, and one that succeeds attaches a sink
exactly if what the settings file tells keeps a journal, without touching what the journal holds (`opening_atomic`).
-/
namespace Reckoner.Session

/-- The session with the sink that settings with this bound ask for, and with the directory of the journal. -/
def withSink (settings : Settings) (bound : Option Int) (s : Session) : Session :=
  { s.makeDirectory with
    sink := some ⟨s.project.directory, settings.syncsJournal, bound.getD Query.defaultTailBytes⟩ }

/-- The entries by which a step opens the project. A settings file with a faulty value cannot be loaded; to attach a
sink it counts as if it were not there. -/
inductive OpensBy (formats : Formats) (s : Session) : Step → List (Value × Value) → Prop where
  | load {said bindings : List (Value × Value)} (tells : Settings.Tells formats s.project.settings said)
      (binds : Settings.Binds said bindings) : OpensBy formats s .load said
  | attach {said bindings : List (Value × Value)} (tells : Settings.Tells formats s.project.settings said)
      (binds : Settings.Binds said bindings) : OpensBy formats s .attach said
  | fallback (faulty : Settings.IsFaulty formats s.project.settings) : OpensBy formats s .attach []

/-- The fault with which opening a project failed. -/
def fault? : Reply → Option SettingsFault
  | .loaded (.error f) | .attached (.error f) => some f
  | _ => none

/-- What opening the project by these entries leaves: a sink to its journal exactly if one is kept, a calculator with the
variables if the project is loaded, and every file as it was, with at most a new directory for the journal. -/
structure Opened (s : Session) (said : List (Value × Value)) (reply : Reply) (next : Session) : Prop where
  attached : next.isAttached = true ↔ Settings.KeepsJournal said
  sink : ∀ sink ∈ next.sink, sink.directory = s.project.directory ∧ (sink.syncs = true ↔ Settings.Syncs said) ∧
    Settings.IsBound said sink.tailBytes
  loaded : ∀ bindings, reply = .loaded (.ok bindings) →
    Settings.Binds said bindings ∧ next.calculator = .withDefaults (Context.ofEntries bindings)
  journal : next.project.journal.bytes? = s.project.journal.bytes?
  project : next.project = { s.project with journal := next.project.journal }

/-- A step that opens the project changes nothing if it fails, and it succeeds exactly if there are entries to go by,
with a bound if a journal is kept. -/
structure IsAtomic (formats : Formats) (s : Session) (action : Step) (reply : Reply) (next : Session) : Prop where
  failed : ∀ f, fault? reply = some f → next = s
  succeeds : fault? reply = none ↔
    ∃ said, s.OpensBy formats action said ∧ (Settings.KeepsJournal said → ∃ n, Settings.IsBound said n)
  opened : fault? reply = none → ∃ said, s.OpensBy formats action said ∧ s.Opened said reply next

variable {formats : Formats} {s after : Session} {settings : Settings} {f : SettingsFault}
  {said bindings : List (Value × Value)}

namespace Attempt

variable {α β : Type}

theorem on_bind (first : Attempt α) (next : α → Attempt β) (s : Session) :
    Attempt.on (first >>= next) s = match first.on s with
      | (.ok a, after) => (next a).on after
      | (.error f, after) => (.error f, after) := by
  change (match first.on s with | (result, after) => ExceptT.bindCont next result after) = _
  cases first.on s with
  | mk result after => cases result <;> rfl

/-- An attempt that fails ends all that would follow it. -/
theorem on_bind_of_error {first : Attempt α} {next : α → Attempt β} (failed : first.on s = (.error f, after)) :
    Attempt.on (first >>= next) s = (.error f, after) := by
  rw [on_bind, failed]

/-- What follows an attempt goes on with its answer in the session that it leaves. -/
theorem on_bind_of_ok {first : Attempt α} {next : α → Attempt β} {a : α} (done : first.on s = (.ok a, after)) :
    Attempt.on (first >>= next) s = (next a).on after := by
  rw [on_bind, done]

theorem on_get : Attempt.on get s = (.ok s, s) := rfl

theorem on_modify (change : Session → Session) : Attempt.on (modify change) s = (.ok (), change s) := rfl

theorem on_pure (a : α) : Attempt.on (pure a) s = (.ok a, s) := rfl

/-- What is only worked out changes nothing. -/
theorem on_lift (result : Except SettingsFault α) : Attempt.on (liftM result) s = (result, s) := rfl

end Attempt

open Attempt

/-- If no journal is kept then the sink is detached. -/
theorem attachWith_of_unkept (unkept : settings.keepsJournal = false) :
    (attachWith settings).on s = (.ok (), { s with sink := none }) := by
  rw [attachWith, if_neg (by simp [unkept]), on_modify]

/-- A faulty bound stops the sink from being attached. -/
theorem attachWith_of_unbounded (kept : settings.keepsJournal = true) (faulty : settings.tailBytes? = .error f) :
    (attachWith settings).on s = (.error f, s) := by
  rw [attachWith, if_pos kept]
  exact on_bind_of_error (by rw [on_lift, faulty])

theorem attachWith_of_bounded (kept : settings.keepsJournal = true) {bound : Option Int}
    (sound : settings.tailBytes? = .ok bound) : (attachWith settings).on s = (.ok (), s.withSink settings bound) := by
  have known : Attempt.on (liftM settings.tailBytes?) s = (.ok bound, s) := by rw [on_lift, sound]
  rw [attachWith, if_pos kept, on_bind_of_ok known, on_bind_of_ok (on_modify makeDirectory), on_modify]
  rfl

/-- Without settings no sink is attached. -/
theorem attach_of_unread (unread : s.attachSettings formats = .error f) : (attach formats).on s = (.error f, s) := by
  unfold attach
  rw [on_bind_of_ok on_get]
  exact on_bind_of_error (by rw [on_lift, unread])

theorem attach_of_read (read : s.attachSettings formats = .ok settings) :
    (attach formats).on s = (attachWith settings).on s := by
  have known : Attempt.on (liftM (s.attachSettings formats)) s = (.ok settings, s) := by rw [on_lift, read]
  unfold attach
  rw [on_bind_of_ok on_get, on_bind_of_ok known]

/-- The settings ask for a sink, or for none, and this is what attaching leaves of a session. -/
inductive Attaches (s : Session) (settings : Settings) : Session → Prop where
  | kept (kept : settings.keepsJournal = true) {bound : Option Int} (sound : settings.tailBytes? = .ok bound) :
      Attaches s settings (s.withSink settings bound)
  | unkept (unkept : settings.keepsJournal = false) : Attaches s settings { s with sink := none }

/-- By settings a sink is attached or detached, unless a journal is kept and the bound is faulty. -/
theorem attachWith_cases (s : Session) (settings : Settings) :
    (∃ f, settings.keepsJournal = true ∧ settings.tailBytes? = .error f ∧ (attachWith settings).on s = (.error f, s)) ∨
      ∃ after, s.Attaches settings after ∧ (attachWith settings).on s = (.ok (), after) := by
  cases kept : settings.keepsJournal with
  | false => exact .inr ⟨_, .unkept kept, attachWith_of_unkept kept⟩
  | true =>
    cases bound : settings.tailBytes? with
    | error f => exact .inl ⟨f, rfl, rfl, attachWith_of_unbounded kept bound⟩
    | ok bound => exact .inr ⟨_, .kept kept bound, attachWith_of_bounded kept bound⟩

/-- Attaching a sink fails and changes nothing, as a faulty bound makes it do, or leaves what the settings ask for. -/
theorem attach_cases (formats : Formats) (s : Session) :
    (∃ f, (attach formats).on s = (.error f, s) ∧ ∀ settings, s.attachSettings formats = .ok settings →
      settings.keepsJournal = true ∧ settings.tailBytes? = .error f) ∨
    ∃ settings after, s.attachSettings formats = .ok settings ∧ s.Attaches settings after ∧
      (attach formats).on s = (.ok (), after) := by
  cases read : s.attachSettings formats with
  | error f => exact .inl ⟨f, attach_of_unread read, nofun⟩
  | ok settings =>
    rw [attach_of_read read]
    rcases attachWith_cases s settings with ⟨f, kept, faulty, failed⟩ | ⟨after, attaches, done⟩
    · refine .inl ⟨f, failed, ?_⟩
      rintro _ ⟨⟩
      exact ⟨kept, faulty⟩
    · exact .inr ⟨settings, after, rfl, attaches, done⟩

/-- Without settings the project is not loaded. -/
theorem load_of_unread (unread : s.project.readSettings formats = .error f) :
    (load formats).on s = (.error f, s) := by
  unfold load
  rw [on_bind_of_ok on_get]
  exact on_bind_of_error (by rw [on_lift, unread])

theorem load_of_read (read : s.project.readSettings formats = .ok settings) :
    (load formats).on s = Attempt.on (do
      attach formats
      modify fun s => { s with calculator := .withDefaults (Context.ofEntries settings.bindings) }
      return settings.bindings) s := by
  have known : Attempt.on (liftM (s.project.readSettings formats)) s = (.ok settings, s) := by rw [on_lift, read]
  unfold load
  rw [on_bind_of_ok on_get, on_bind_of_ok known]

theorem load_of_unattached (read : s.project.readSettings formats = .ok settings)
    (failed : (attach formats).on s = (.error f, after)) : (load formats).on s = (.error f, after) := by
  rw [load_of_read read]
  exact on_bind_of_error failed

theorem load_of_attached (read : s.project.readSettings formats = .ok settings)
    (done : (attach formats).on s = (.ok (), after)) :
    (load formats).on s = (.ok settings.bindings,
      { after with calculator := .withDefaults (Context.ofEntries settings.bindings) }) := by
  rw [load_of_read read, on_bind_of_ok done, on_bind_of_ok (on_modify _), on_pure]

theorem attachSettings_of_read (read : s.project.readSettings formats = .ok settings) :
    s.attachSettings formats = .ok settings := by
  rw [attachSettings, read]

/-- The entries by which the project is loaded are those of the settings that are read. -/
theorem readSettings_of_opensBy (opens : s.OpensBy formats .load said) :
    ∃ settings bindings, s.project.readSettings formats = .ok settings ∧ settings.IsOf said bindings := by
  cases opens with
  | @load _ bindings tells binds =>
    obtain ⟨settings, read, holds⟩ := Settings.read_of_tells tells binds s.project.settingsPath
    exact ⟨settings, bindings, read, holds⟩

/-- The entries by which a sink is attached are those of the settings by which it is. -/
theorem attachSettings_of_opensBy (opens : s.OpensBy formats .attach said) :
    ∃ settings bindings, s.attachSettings formats = .ok settings ∧ settings.IsOf said bindings := by
  cases opens with
  | @attach _ bindings tells binds =>
    obtain ⟨settings, read, holds⟩ := Settings.read_of_tells tells binds s.project.settingsPath
    exact ⟨settings, bindings, attachSettings_of_read read, holds⟩
  | fallback faulty =>
    obtain ⟨f, failed, value⟩ := (Settings.isFaulty_iff s.project.settingsPath).mp faulty
    refine ⟨.usual, [], ?_, Settings.isOf_usual⟩
    rw [attachSettings, Project.readSettings, failed]
    exact if_pos value

theorem opensBy_of_attachSettings (read : s.attachSettings formats = .ok settings) :
    ∃ said bindings, s.OpensBy formats .attach said ∧ settings.IsOf said bindings := by
  unfold attachSettings at read
  split at read
  next found =>
    cases read
    obtain ⟨said, bindings, tells, binds, holds⟩ := Settings.tells_of_read found
    exact ⟨said, bindings, .attach tells binds, holds⟩
  next f failed =>
    split at read
    next value =>
      cases read
      exact ⟨[], [], .fallback ((Settings.isFaulty_iff _).mpr ⟨f, failed, value⟩), Settings.isOf_usual⟩
    next => cases read

/-- A step that fails where no bound is told is what opening the project should be. -/
theorem IsAtomic.of_error {action : Step} {reply : Reply} (told : fault? reply = some f)
    (unbounded : ∀ said, s.OpensBy formats action said →
      Settings.KeepsJournal said ∧ ∀ n, ¬Settings.IsBound said n) : IsAtomic formats s action reply s where
  failed _ _ := rfl
  succeeds := by
    rw [told]
    refine ⟨nofun, ?_⟩
    rintro ⟨said, opens, bounded⟩
    obtain ⟨kept, none⟩ := unbounded said opens
    obtain ⟨n, bound⟩ := bounded kept
    exact absurd bound (none n)
  opened silent := by rw [told] at silent; cases silent

/-- What attaching leaves by settings that hold the entries is a sink as the entries ask for it. -/
theorem Attaches.opened (attaches : s.Attaches settings after) (holds : settings.IsOf said bindings) {reply : Reply}
    {next : Session} (project : next.project = after.project) (sink : next.sink = after.sink)
    (loaded : ∀ bindings, reply = .loaded (.ok bindings) →
      Settings.Binds said bindings ∧ next.calculator = .withDefaults (Context.ofEntries bindings)) :
    s.Opened said reply next := by
  cases attaches with
  | @kept kept bound sound =>
    refine ⟨?_, ?_, loaded, ?_, ?_⟩
    · rw [isAttached, sink]
      exact iff_of_true rfl (holds.keepsJournal_iff.mp kept)
    · rw [sink]
      rintro _ ⟨⟩
      exact ⟨rfl, holds.syncsJournal_iff, holds.isBound_iff.mpr ⟨bound, sound, rfl⟩⟩
    · rw [project]
      exact Journal.bytes?_withDirectory s.project.journal
    · rw [project]
      rfl
  | unkept unkept =>
    refine ⟨?_, ?_, loaded, ?_, ?_⟩
    · rw [isAttached, sink, ← holds.keepsJournal_iff, unkept]
      simp
    · rw [sink]
      nofun
    · rw [project]
    · rw [project]

/-- A step that attaches a sink by settings that hold the entries is what opening the project should be. -/
theorem IsAtomic.of_attached {action : Step} {reply : Reply} {next : Session} (attaches : s.Attaches settings after)
    (holds : settings.IsOf said bindings) (opens : s.OpensBy formats action said) (silent : fault? reply = none)
    (opened : s.Opened said reply next) : IsAtomic formats s action reply next where
  failed f told := by rw [silent] at told; cases told
  succeeds := by
    refine iff_of_true silent ⟨said, opens, fun keeps => ?_⟩
    cases attaches with
    | @kept kept bound sound => exact ⟨_, holds.isBound_iff.mpr ⟨bound, sound, rfl⟩⟩
    | unkept unkept =>
      rw [holds.keepsJournal_iff.mpr keeps] at unkept
      cases unkept
  opened _ := ⟨said, opens, opened⟩

theorem step_load (formats : Formats) (time : Text) (s : Session) :
    s.step formats time .load = (.loaded ((load formats).on s).1, ((load formats).on s).2) := rfl

theorem step_attach (formats : Formats) (time : Text) (s : Session) :
    s.step formats time .attach = (.attached ((attach formats).on s).1, ((attach formats).on s).2) := rfl

theorem load_atomic (formats : Formats) (s : Session) (time : Text) :
    IsAtomic formats s .load (s.step formats time .load).1 (s.step formats time .load).2 := by
  rw [step_load]
  cases read : s.project.readSettings formats with
  | error f =>
    rw [load_of_unread read]
    refine .of_error rfl fun said opens => ?_
    obtain ⟨settings, bindings, known, -⟩ := readSettings_of_opensBy opens
    rw [read] at known
    cases known
  | ok settings =>
    rcases attach_cases formats s with ⟨f, failed, faulty⟩ | ⟨used, after, known, attaches, done⟩
    · rw [load_of_unattached read failed]
      refine .of_error rfl fun said opens => ?_
      obtain ⟨used, bindings, known, holds⟩ := readSettings_of_opensBy opens
      obtain ⟨kept, unbounded⟩ := faulty used (attachSettings_of_read known)
      exact ⟨holds.keepsJournal_iff.mp kept, holds.not_isBound unbounded⟩
    · -- the settings that are read once more are the same
      cases (attachSettings_of_read read).symm.trans known
      obtain ⟨said, bindings, tells, binds, holds⟩ := Settings.tells_of_read read
      rw [load_of_attached read done]
      refine .of_attached attaches holds (.load tells binds) rfl (attaches.opened holds rfl rfl ?_)
      rintro _ ⟨⟩
      rw [holds.bindings]
      exact ⟨binds, rfl⟩

theorem attach_atomic (formats : Formats) (s : Session) (time : Text) :
    IsAtomic formats s .attach (s.step formats time .attach).1 (s.step formats time .attach).2 := by
  rw [step_attach]
  rcases attach_cases formats s with ⟨f, failed, faulty⟩ | ⟨used, after, known, attaches, done⟩
  · rw [failed]
    refine .of_error rfl fun said opens => ?_
    obtain ⟨used, bindings, known, holds⟩ := attachSettings_of_opensBy opens
    obtain ⟨kept, unbounded⟩ := faulty used known
    exact ⟨holds.keepsJournal_iff.mp kept, holds.not_isBound unbounded⟩
  · obtain ⟨said, bindings, opens, holds⟩ := opensBy_of_attachSettings known
    rw [done]
    exact .of_attached attaches holds opens rfl (attaches.opened holds rfl rfl nofun)

/-- Whatever the formats, opening a project fails and changes nothing, or attaches a sink as the settings file tells and
keeps what the journal holds. -/
theorem opening_atomic (formats : Formats) (s : Session) (time : Text) :
    IsAtomic formats s .load (s.step formats time .load).1 (s.step formats time .load).2 ∧
      IsAtomic formats s .attach (s.step formats time .attach).1 (s.step formats time .attach).2 :=
  ⟨load_atomic formats s time, attach_atomic formats s time⟩

end Reckoner.Session
