import Reckoner.Calculator
import Reckoner.Proofs.Numeral.Digits
import Reckoner.Proofs.Text.Listed
import Mathlib.Data.List.Nodup
/-!
# What placeholders read

Placeholders are numbered, so no two names share one, and a placeholder is bound exactly if its name has a value
(`get?_bind`). In the context of a formula every other name keeps the value that it has beside the references, and so
does a placeholder whose name has none (`read_context`).
-/
namespace Reckoner

namespace Context

variable {ctx : Context} {name other : Text}

theorem get?_append (first second : Context) (name : Text) :
    (first ++ second).get? name = (first.get? name).or (second.get? name) := List.lookup_append

@[simp] theorem get?_cons_self (v : Value) : get? ((name, v) :: ctx) name = some v := List.lookup_cons_self

theorem get?_cons_of_ne (v : Value) (ne : other ≠ name) : get? ((name, v) :: ctx) other = ctx.get? other := by
  have notEqual : (other == name) = false := by simpa using ne
  simp only [get?, List.lookup_cons, notEqual]

theorem read_cons_of_ne (v : Value) (ne : other ≠ name) : read ((name, v) :: ctx) other = ctx.read other := by
  rw [read, get?_cons_of_ne v ne, read]

theorem read_of_get? {v : Value} (h : ctx.get? name = some v) : ctx.read name = v := by rw [read, h]; rfl

theorem read_of_get?_none (h : ctx.get? name = none) : ctx.read name = .absent := by rw [read, h]; rfl

/-- What a name reads is absent or stands in the context. -/
theorem forall_read {P : Value → Prop} (absent : P .absent) (each : ∀ entry ∈ ctx, P entry.2) (name : Text) :
    P (ctx.read name) := by
  cases value : ctx.get? name with
  | none => rwa [read_of_get?_none value]
  | some v =>
    obtain ⟨before, after, split, -⟩ := List.lookup_eq_some_iff.mp value
    rw [read_of_get? value]
    exact each (name, v) (by simp [split])

end Context

namespace Substitution

theorem placeholder_injective {i j : Nat} (h : placeholder i = placeholder j) : i = j := by
  have digits : Numeral.ofNat (i + 1) = Numeral.ofNat (j + 1) := List.append_cancel_left h
  have numbers := congrArg Text.decimalNumber digits
  rw [Numeral.decimalNumber_ofNat, Numeral.decimalNumber_ofNat] at numbers
  omega

variable {s : Substitution} {x y name : Text}

/-- The name that a placeholder stands for. -/
def stands? (s : Substitution) (x : Text) : Option Text := s.entries.lookup x

theorem keys_entries (s : Substitution) :
    s.entries.map Prod.fst = (List.range s.names.length).map placeholder := by
  rw [entries, List.map_map, List.range_eq_range', ← List.zipIdx_map_snd 0 s.names, List.map_map]
  rfl

theorem nodup_keys (s : Substitution) : (s.entries.map Prod.fst).Nodup := by
  rw [keys_entries]
  exact List.Nodup.map (fun _ _ => placeholder_injective) List.nodup_range

theorem lookup_eq_some_iff {entries : List (Text × Text)} (nodup : (entries.map Prod.fst).Nodup) :
    entries.lookup x = some name ↔ (x, name) ∈ entries := by
  induction entries with
  | nil => simp
  | cons entry entries ih =>
    obtain ⟨key, found⟩ := entry
    obtain ⟨notLater, rest⟩ := List.nodup_cons.mp nodup
    by_cases same : x = key
    · subst same
      have notThere : (x, name) ∉ entries := fun member => notLater (List.mem_map.mpr ⟨_, member, rfl⟩)
      simp [notThere, eq_comm]
    · have different : (x == key) = false := by simpa using same
      simp [List.lookup_cons, different, ih rest, same]

/-- A placeholder stands for the name at its place in the list of names. -/
theorem stands?_eq_some : s.stands? x = some name ↔ ∃ i, s.names[i]? = some name ∧ x = placeholder i := by
  rw [stands?, lookup_eq_some_iff s.nodup_keys, entries, List.mem_map]
  constructor
  · rintro ⟨⟨found, i⟩, member, same⟩
    cases same
    exact ⟨i, List.mem_zipIdx_iff_getElem?.mp member, rfl⟩
  · rintro ⟨i, found, rfl⟩
    exact ⟨(name, i), List.mem_zipIdx_iff_getElem?.mpr found, rfl⟩

theorem lookup_filterMap {entries : List (Text × Text)} (nodup : (entries.map Prod.fst).Nodup)
    (f : Text → Option Value) (x : Text) :
    List.lookup x (entries.filterMap fun entry => (f entry.2).map (entry.1, ·)) = (entries.lookup x).bind f := by
  induction entries with
  | nil => rfl
  | cons entry entries ih =>
    obtain ⟨key, name⟩ := entry
    obtain ⟨notLater, rest⟩ := List.nodup_cons.mp nodup
    have ahead := ih rest
    by_cases same : x = key
    · subst same
      -- the key does not come again, so a name without a value leaves it without one
      have missing : entries.lookup x = none := by
        rw [Option.eq_none_iff_forall_ne_some]
        intro later found
        exact notLater (List.mem_map.mpr ⟨_, (lookup_eq_some_iff rest).mp found, rfl⟩)
      rw [missing] at ahead
      cases value : f name with
      | none =>
        rw [List.filterMap_cons_none (by simp [value]), ahead, List.lookup_cons_self, Option.bind_some, value]
        rfl
      | some v => simp [value]
    · have different : (x == key) = false := by simpa using same
      cases value : f name with
      | none =>
        rw [List.filterMap_cons_none (by simp [value]), ahead]
        simp [List.lookup_cons, different]
      | some v => simp [value, List.lookup_cons, different, ahead]

/-- A placeholder is bound to the value of its name, if that has one. -/
theorem get?_bind (s : Substitution) (values : Context) (x : Text) :
    (s.bind values).get? x = (s.stands? x).bind values.get? := lookup_filterMap s.nodup_keys values.get? x

/-- Only one placeholder stands for a name, because no name is listed twice. -/
theorem eq_of_stands? {t : Text} (first : (ofText t).stands? x = some name)
    (second : (ofText t).stands? y = some name) : x = y := by
  obtain ⟨i, atI, rfl⟩ := stands?_eq_some.mp first
  obtain ⟨j, atJ, rfl⟩ := stands?_eq_some.mp second
  have nodup : (ofText t).names.Nodup := Text.nodup_eraseDups _
  obtain ⟨within, isName⟩ := List.getElem?_eq_some_iff.mp atI
  obtain ⟨within', isName'⟩ := List.getElem?_eq_some_iff.mp atJ
  rw [nodup.getElem_inj_iff.mp (isName.trans isName'.symm)]

/-- A text stands for a name that has a value, or for none that has. -/
theorem bound_or_unbound (s : Substitution) (ctx : Context) (x : Text) :
    (∃ name v, s.stands? x = some name ∧ ctx.get? name = some v) ∨
      ∀ name, s.stands? x = some name → ctx.get? name = none := by
  cases stands : s.stands? x with
  | none => exact .inr (by simp)
  | some name =>
    cases value : ctx.get? name with
    | none => exact .inr fun other same => by cases same; exact value
    | some v => exact .inl ⟨name, v, rfl, value⟩

end Substitution

namespace Calculator

/-- What names mean beside the references: the given values, and behind them the variables of the calculator. -/
def named (c : Calculator) (values : Context) : Context := values ++ c.defaults

theorem named_cons (c : Calculator) (name : Text) (v : Value) (values : Context) :
    c.named ((name, v) :: values) = (name, v) :: c.named values := rfl

variable {c : Calculator} {s : Substitution} {values : Context} {x name : Text}

theorem get?_context (c : Calculator) (s : Substitution) (values : Context) (x : Text) :
    (c.context s values).get? x = ((s.stands? x).bind (c.named values).get?).or ((c.named values).get? x) := by
  rw [context, Context.get?_append, Substitution.get?_bind]
  rfl

/-- A placeholder reads the value of its name. -/
theorem read_context_of_bound {v : Value} (stands : s.stands? x = some name)
    (bound : (c.named values).get? name = some v) : (c.context s values).read x = v := by
  rw [Context.read, get?_context, stands, Option.bind_some, bound]
  rfl

/-- A placeholder whose name has no value, and any other name, reads what it reads beside the references. -/
theorem read_context_of_unbound (unbound : ∀ name, s.stands? x = some name → (c.named values).get? name = none) :
    (c.context s values).read x = (c.named values).read x := by
  rw [Context.read, get?_context, Option.bind_eq_none_iff.mpr unbound]
  rfl

/-- What a name reads in the context of a formula is absent or stands beside the references. -/
theorem forall_read_context {P : Value → Prop} (absent : P .absent) (each : ∀ entry ∈ c.named values, P entry.2)
    (x : Text) : P ((c.context s values).read x) := by
  rcases s.bound_or_unbound (c.named values) x with ⟨name, v, stands, bound⟩ | unbound
  · have value := Context.forall_read absent each name
    rw [Context.read_of_get? bound] at value
    rwa [read_context_of_bound stands bound]
  · rw [read_context_of_unbound unbound]
    exact Context.forall_read absent each x

end Calculator
end Reckoner
