import Reckoner.Proofs.Outcome
import Reckoner.Proofs.Session.Opening
import Mathlib.Data.List.Basic
/-!
# Runs of a session

What a step answers and leaves is one of a few things (`took_step`). In a run each step has a time of its own, and it is
answered in the session that the steps before it have left (`reply_run`).
-/
namespace Reckoner.Session

variable {formats : Formats} {s : Session} {time : Text}

/-- Attaching a sink has left one to the journal of the project or none, and nothing else has changed. -/
theorem attach_eq_ok {attached : Session} (h : (attach formats).on s = (.ok (), attached)) :
    (∃ sink, sink.directory = s.project.directory ∧ attached = { s.makeDirectory with sink := some sink }) ∨
      attached = { s with sink := none } := by
  rcases attach_cases formats s with ⟨f, failed, -⟩ | ⟨settings, after, -, attaches, done⟩
  · rw [failed] at h
    cases h
  · rw [done] at h
    cases h
    cases attaches with
    | kept => exact .inl ⟨_, rfl, rfl⟩
    | unkept => exact .inr rfl

/-- What a step at a time answers, and the session that it leaves. -/
inductive Took (formats : Formats) (time : Text) (s : Session) : Step → Reply → Session → Prop where
  | loaded (bindings : List (Value × Value)) (attached : Session)
      (attach : (attach formats).on s = (.ok (), attached)) :
      Took formats time s .load (.loaded (.ok bindings))
        { attached with calculator := .withDefaults (Context.ofEntries bindings) }
  | notLoaded (f : SettingsFault) : Took formats time s .load (.loaded (.error f)) s
  | attached (attached : Session) (attach : (attach formats).on s = (.ok (), attached)) :
      Took formats time s .attach (.attached (.ok ())) attached
  | notAttached (f : SettingsFault) : Took formats time s .attach (.attached (.error f)) s
  | detached : Took formats time s .detach .done { s with sink := none }
  | configured (file : Option (List UInt8)) :
      Took formats time s (.configure file) .done { s with project := { s.project with settings := file } }
  | removed :
      Took formats time s .removeJournal .done { s with project := { s.project with journal := .noDirectory } }
  | replaced (bytes : List UInt8) :
      Took formats time s (.replaceJournal bytes) .done
        { s with project := { s.project with journal := .file bytes } }
  | shown : Took formats time s .showJournal (.journal (s.project.journal.bytes?.map Text.Utf8.decode)) s
  | evaluated (formula : Text) (values : Context) (e : Event)
      (told : Event.ofFormula? s.calculator formula values = some e) :
      Took formats time s (.evaluate formula values) (.evaluated (s.calculator.evaluate formula values))
        (s.record formats time e)
  | untold (formula : Text) (values : Context) (silent : Event.ofFormula? s.calculator formula values = none) :
      Took formats time s (.evaluate formula values) (.evaluated (s.calculator.evaluate formula values)) s
  | recorded (kind level message : Text) (errorCode : Option Text) (context : List (Text × Value)) (e : Event)
      (valid : Event.ofLabels kind level message errorCode context = .ok e) :
      Took formats time s (.record kind level message errorCode context) (.recorded (.ok ()))
        (s.record formats time e)
  | refused (kind level message : Text) (errorCode : Option Text) (context : List (Text × Value)) (f : EventFault)
      (invalid : Event.ofLabels kind level message errorCode context = .error f) :
      Took formats time s (.record kind level message errorCode context) (.recorded (.error f)) s
  | read (q : Query) : Took formats time s (.read q) (.events (s.project.journal.read q)) s.makeDirectory

theorem took_step (formats : Formats) (time : Text) (s : Session) (action : Step) :
    Took formats time s action (s.step formats time action).1 (s.step formats time action).2 := by
  cases action with
  | load =>
    rw [step_load]
    cases read : s.project.readSettings formats with
    | error f =>
      rw [load_of_unread read]
      exact .notLoaded f
    | ok settings =>
      rcases attach_cases formats s with ⟨f, failed, -⟩ | ⟨-, after, -, -, done⟩
      · rw [load_of_unattached read failed]
        exact .notLoaded f
      · rw [load_of_attached read done]
        exact .loaded _ after done
  | attach =>
    rw [step_attach]
    rcases attach_cases formats s with ⟨f, failed, -⟩ | ⟨-, after, -, -, done⟩
    · rw [failed]
      exact .notAttached f
    · rw [done]
      exact .attached after done
  | detach => exact .detached
  | configure file => exact .configured file
  | removeJournal => exact .removed
  | replaceJournal bytes => exact .replaced bytes
  | showJournal => exact .shown
  | evaluate formula values =>
    simp only [step, evaluate]
    cases told : Event.ofFormula? s.calculator formula values with
    | none => exact .untold formula values told
    | some e => exact .evaluated formula values e told
  | record kind level message errorCode context =>
    simp only [step]
    cases made : Event.ofLabels kind level message errorCode context with
    | error f => exact .refused kind level message errorCode context f made
    | ok e => exact .recorded kind level message errorCode context e made
  | read q => exact .read q

@[simp] theorem run_nil (formats : Formats) (s : Session) : s.run formats [] = ([], s) := rfl

theorem run_cons (formats : Formats) (s : Session) (time : Text) (action : Step) (rest : List (Text × Step)) :
    s.run formats ((time, action) :: rest) =
      ((s.step formats time action).1 :: ((s.step formats time action).2.run formats rest).1,
        ((s.step formats time action).2.run formats rest).2) := rfl

end Reckoner.Session
