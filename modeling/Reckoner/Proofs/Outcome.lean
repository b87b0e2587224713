import Reckoner.Fault
import Mathlib.Data.List.Forall2
/-!
# Outcomes taken apart

A step that may fail is peeled off by one lemma: it succeeded and the rest succeeded on its result. Whether two
computations fail together, whatever their faults, is a statement about `Except.toOption`; whether they fail in the same
way is a matter of the kinds of their faults (`Matches`).
-/
namespace Reckoner

/-- Steps of which the second goes on with the result of the first succeed together. -/
theorem Except.bind_eq_ok {ε α β : Type} {step : Except ε α} {next : α → Except ε β} {b : β} :
    (step >>= next) = .ok b ↔ ∃ a, step = .ok a ∧ next a = .ok b := by
  cases step with
  | error e => simp [bind, Except.bind]
  | ok a => simp [bind, Except.bind]

theorem Except.map_eq_ok {ε α β : Type} {f : α → β} {step : Except ε α} {b : β} :
    step.map f = .ok b ↔ ∃ a, step = .ok a ∧ f a = b := by
  cases step with
  | error e => simp [Except.map]
  | ok a => simp [Except.map]

/-- The kind of a fault: the label of a formula error, or no label where a number has too many digits. -/
def Fault.label? : Fault → Option Text
  | .formula e => some e.label
  | .digits _ => none

namespace Outcome

variable {α β : Type}

@[simp] theorem ok_bind (a : α) (next : α → Outcome β) : ((.ok a : Outcome α) >>= next) = next a := rfl

@[simp] theorem error_bind (e : Fault) (next : α → Outcome β) : ((.error e : Outcome α) >>= next) = .error e := rfl

@[simp] theorem pure_eq_ok (a : α) : (pure a : Outcome α) = .ok a := rfl

theorem bind_eq_ok {step : Outcome α} {next : α → Outcome β} {b : β} :
    (step >>= next) = .ok b ↔ ∃ a, step = .ok a ∧ next a = .ok b :=
  Except.bind_eq_ok

theorem toOption_eq_some {o : Outcome α} {a : α} : o.toOption = some a ↔ o = .ok a := by
  cases o <;> simp [Except.toOption]

theorem toOption_eq_none {o : Outcome α} : o.toOption = none ↔ ∃ e, o = .error e := by
  cases o <;> simp [Except.toOption]

theorem toOption_bind (step : Outcome α) (next : α → Outcome β) :
    (step >>= next).toOption = step.toOption.bind fun a => (next a).toOption := by
  cases step <;> rfl

/-- Steps taken one after the other all succeed exactly when each of them does. -/
theorem mapM_eq_ok {f : α → Outcome β} {as : List α} {bs : List β} :
    as.mapM f = .ok bs ↔ List.Forall₂ (fun a b => f a = .ok b) as bs := by
  induction as generalizing bs with
  | nil =>
    rw [List.mapM_nil, pure_eq_ok, List.forall₂_nil_left_iff, Except.ok.injEq]
    exact eq_comm
  | cons a as ih =>
    rw [List.mapM_cons, List.forall₂_cons_left_iff, bind_eq_ok]
    constructor
    · intro given
      obtain ⟨b, first, rest⟩ := given
      obtain ⟨others, gathered, same⟩ := bind_eq_ok.mp rest
      cases same
      exact ⟨b, others, first, ih.mp gathered, rfl⟩
    · intro given
      obtain ⟨b, others, first, gathered, rfl⟩ := given
      refine ⟨b, first, ?_⟩
      rw [ih.mpr gathered]
      rfl

/-- What steps taken one after the other leave comes from one of them. -/
theorem exists_of_mem_mapM {f : α → Outcome β} {as : List α} {bs : List β} (h : as.mapM f = .ok bs) {b : β}
    (member : b ∈ bs) : ∃ a ∈ as, f a = .ok b := by
  induction mapM_eq_ok.mp h with
  | nil => cases member
  | @cons a c as bs step steps ih =>
    rcases List.mem_cons.mp member with rfl | later
    · exact ⟨a, by simp, step⟩
    · obtain ⟨x, inside, became⟩ := ih (mapM_eq_ok.mpr steps) later
      exact ⟨x, by simp [inside], became⟩

theorem isOk_of_mem_mapM {f : α → Outcome β} {as : List α} {bs : List β} (h : as.mapM f = .ok bs) {a : α}
    (member : a ∈ as) : ∃ b, f a = .ok b := by
  induction mapM_eq_ok.mp h with
  | nil => cases member
  | @cons c b as bs step steps ih =>
    rcases List.mem_cons.mp member with rfl | later
    · exact ⟨b, step⟩
    · exact ih (mapM_eq_ok.mpr steps) later

/-- Steps taken one after the other fail exactly where the first of them fails. -/
theorem mapM_eq_error {f : α → Outcome β} {as : List α} {e : Fault} :
    as.mapM f = .error e ↔
      ∃ before a after, as = before ++ a :: after ∧ (∀ x ∈ before, ∃ b, f x = .ok b) ∧ f a = .error e := by
  induction as with
  | nil => simp
  | cons first rest ih =>
    rw [List.mapM_cons]
    cases outcome : f first with
    | error e' =>
      rw [error_bind, Except.error.injEq]
      constructor
      · rintro rfl
        exact ⟨[], first, rest, rfl, by simp, outcome⟩
      · intro given
        obtain ⟨before, a, after, split, done, failed⟩ := given
        cases before with
        | nil =>
          cases split
          rw [outcome] at failed
          cases failed
          rfl
        | cons x before =>
          cases split
          obtain ⟨b, worked⟩ := done first (by simp)
          rw [outcome] at worked
          cases worked
    | ok b =>
      have onward : (rest.mapM f >>= fun bs => pure (b :: bs)) = .error e ↔ rest.mapM f = .error e := by
        cases rest.mapM f <;> simp
      rw [ok_bind, onward, ih]
      constructor
      · intro given
        obtain ⟨before, a, after, rfl, done, failed⟩ := given
        exact ⟨first :: before, a, after, rfl, by simpa using ⟨⟨b, outcome⟩, done⟩, failed⟩
      · intro given
        obtain ⟨before, a, after, split, done, failed⟩ := given
        cases before with
        | nil =>
          cases split
          rw [outcome] at failed
          cases failed
        | cons x before =>
          cases split
          exact ⟨before, a, after, rfl, fun y member => done y (by simp [member]), failed⟩

/-- The computation is ended by a whole number of too many digits, which is no formula error. -/
def Overruns (o : Outcome α) : Prop := ∃ l, o = .error (.digits l)

namespace Overruns

@[simp] theorem not_ok (a : α) : ¬Overruns (.ok a : Outcome α) := by simp [Overruns]

@[simp] theorem not_fail (e : FormulaError) : ¬Overruns (.fail e : Outcome α) := by simp [Overruns, Outcome.fail]

theorem bind_iff {step : Outcome α} {next : α → Outcome β} :
    (step >>= next).Overruns ↔ step.Overruns ∨ ∃ a, step = .ok a ∧ (next a).Overruns := by
  cases step with
  | error e => simp [Overruns]
  | ok a => simp [Overruns]

/-- A step that cannot overrun adds nothing. -/
theorem bind_ok_iff {step : Outcome α} {f : α → β} : (step >>= fun a => .ok (f a)).Overruns ↔ step.Overruns := by
  simp [bind_iff]

/-- Steps taken one after the other overrun where all earlier ones have succeeded. -/
theorem mapM_iff {f : α → Outcome β} {as : List α} :
    (as.mapM f).Overruns ↔
      ∃ before a after, as = before ++ a :: after ∧ (∀ x ∈ before, ∃ b, f x = .ok b) ∧ (f a).Overruns := by
  constructor
  · intro given
    obtain ⟨l, failed⟩ := given
    obtain ⟨before, a, after, split, done, failedThere⟩ := mapM_eq_error.mp failed
    exact ⟨before, a, after, split, done, l, failedThere⟩
  · intro given
    obtain ⟨before, a, after, split, done, l, failed⟩ := given
    exact ⟨l, mapM_eq_error.mpr ⟨before, a, after, split, done, failed⟩⟩

end Overruns

/-- Two results in a relation, or two faults of one kind. -/
inductive Matches (R : α → α → Prop) : Outcome α → Outcome α → Prop where
  | ok (a b : α) (related : R a b) : Matches R (.ok a) (.ok b)
  | error (e f : Fault) (kind : e.label? = f.label?) : Matches R (.error e) (.error f)

namespace Matches

variable {R : α → α → Prop} {S : β → β → Prop} {o' o : Outcome α}

theorem refl (related : ∀ a, R a a) (o : Outcome α) : Matches R o o := by
  cases o with
  | ok a => exact .ok a a (related a)
  | error e => exact .error e e rfl

theorem imp {R' : α → α → Prop} (weaker : ∀ a b, R a b → R' a b) (h : Matches R o' o) : Matches R' o' o := by
  cases h with
  | ok a b related => exact .ok a b (weaker a b related)
  | error e f kind => exact .error e f kind

theorem of_ok_left {a : α} (h : Matches R (.ok a) o) : ∃ b, o = .ok b ∧ R a b := by
  cases h with
  | ok a b related => exact ⟨b, rfl, related⟩

theorem of_ok_right {b : α} (h : Matches R o' (.ok b)) : ∃ a, o' = .ok a ∧ R a b := by
  cases h with
  | ok a b related => exact ⟨a, rfl, related⟩

/-- Computations that one computation matches, up to what `g` forgets, match each other up to that. -/
theorem common {g : α → α} {p : Outcome α} (here : Matches (fun c a => c = g a) o p)
    (there : Matches (fun c b => c = g b) o o') : Matches (fun a b => g a = g b) p o' := by
  cases here with
  | ok c a related =>
    obtain ⟨b, rfl, other⟩ := there.of_ok_left
    exact .ok a b (related.symm.trans other)
  | error e f kind =>
    cases there with
    | error e g other => exact .error f g (kind.symm.trans other)

/-- Computations that match go on to match if they do so from related results. -/
theorem bind {next' next : α → Outcome β} (h : Matches R o' o)
    (each : ∀ a b, o' = .ok a → o = .ok b → R a b → Matches S (next' a) (next b)) :
    Matches S (o' >>= next') (o >>= next) := by
  cases h with
  | ok a b related => exact each a b rfl rfl related
  | error e f kind => exact .error e f kind

end Matches

end Outcome
end Reckoner
