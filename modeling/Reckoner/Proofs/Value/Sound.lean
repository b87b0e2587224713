import Reckoner.Proofs.Node.Values
/-!
# Values that operators and functions accept

Three faults say that something stands where a formula never puts it: an operator outside the four signs, a part of a
node that is no node, and a value worked out or written as if it were a node. Operators and the functions of the table
never end with such a fault on values that are presentable, which all values are but tuples of something else than
nodes, and nodes themselves (`apply_sound`, `call_sound`); and what they give is neither a tuple nor a node again.
-/
namespace Reckoner

/-- A fault that no formula should cause: something stands where a formula does not put it. -/
def Fault.IsInternal : Fault → Prop
  | .formula (.unsupportedOperator _) | .formula (.notANode _ _ _) | .formula (.unknownNode _) => True
  | _ => False

theorem Fault.not_isInternal_of_reading {e : FormulaError} (reading : e.stage = .reading) :
    ¬(Fault.formula e).IsInternal := by
  cases e <;> first | exact id | cases reading

namespace Outcome

variable {α β : Type} {P : α → Prop} {Q : β → Prop} {o : Outcome α}

/-- The computation gives a result with the property, or ends with a fault that formulas cause. -/
inductive Sound (P : α → Prop) : Outcome α → Prop where
  | ok (a : α) (holds : P a) : Sound P (.ok a)
  | error (fault : Fault) (caused : ¬fault.IsInternal) : Sound P (.error fault)

namespace Sound

theorem of_eq_error {fault : Fault} (h : o.Sound P) (failed : o = .error fault) : ¬fault.IsInternal := by
  subst failed
  cases h
  assumption

theorem fail {e : FormulaError} (caused : ¬(Fault.formula e).IsInternal) : Sound P (Outcome.fail e) :=
  .error (.formula e) caused

theorem imp {P' : α → Prop} (h : o.Sound P) (weaker : ∀ a, P a → P' a) : o.Sound P' := by
  cases h with
  | ok a holds => exact .ok a (weaker a holds)
  | error fault caused => exact .error fault caused

/-- A sound step goes on to be sound if what follows is so on every result that it can have. -/
theorem bind {next : α → Outcome β} (h : o.Sound P) (each : ∀ a, P a → (next a).Sound Q) : (o >>= next).Sound Q := by
  cases h with
  | ok a holds => exact each a holds
  | error fault caused => exact .error fault caused

/-- A number of too many digits is a fault that formulas cause. -/
theorem ofDigits (result : Except DigitLimit α) : (Outcome.ofDigits result).Sound fun _ => True := by
  cases result with
  | ok a => exact .ok a trivial
  | error l => exact .error (.digits l) id

theorem mapM {f : α → Outcome β} {as : List α} (each : ∀ a ∈ as, (f a).Sound Q) :
    (as.mapM f).Sound fun bs => ∀ b ∈ bs, Q b := by
  induction as with
  | nil => exact .ok [] (by simp)
  | cons a as ih =>
    rw [List.mapM_cons]
    refine (each a (by simp)).bind fun b first => ?_
    refine (ih fun x member => each x (by simp [member])).bind fun bs rest => .ok (b :: bs) ?_
    simpa using ⟨first, rest⟩

end Sound

end Outcome

open Outcome (Sound)

mutual

/-- Any value can be shown, unless a whole number in it has too many digits. -/
theorem Value.inspect_sound (v : Value) : v.inspect.Sound fun _ => True := by
  cases v with
  | list items =>
    rw [Value.inspect]
    exact (Value.inspectAll_sound items).bind fun _ _ => .ok _ trivial
  | tuple items =>
    rw [Value.inspect]
    refine (Value.inspectAll_sound items).bind fun shown _ => ?_
    split <;> exact .ok _ trivial
  | mapping entries =>
    rw [Value.inspect]
    exact (Value.inspectEntries_sound entries).bind fun _ _ => .ok _ trivial
  | int n =>
    rw [Value.inspect]
    exact .ofDigits (Numeral.ofInt? n)
  | node n =>
    rw [Value.inspect]
    exact Node.inspect_sound n
  | _ =>
    rw [Value.inspect]
    exact .ok _ trivial

theorem Value.inspectAll_sound (items : List Value) : (Value.inspectAll items).Sound fun _ => True := by
  cases items with
  | nil =>
    rw [Value.inspectAll]
    exact .ok _ trivial
  | cons v rest =>
    rw [Value.inspectAll]
    exact (Value.inspect_sound v).bind fun _ _ => (Value.inspectAll_sound rest).bind fun _ _ => .ok _ trivial

theorem Value.inspectEntries_sound (entries : List (Value × Value)) :
    (Value.inspectEntries entries).Sound fun _ => True := by
  cases entries with
  | nil =>
    rw [Value.inspectEntries]
    exact .ok _ trivial
  | cons entry rest =>
    obtain ⟨key, v⟩ := entry
    rw [Value.inspectEntries]
    exact (Value.inspect_sound key).bind fun _ _ => (Value.inspect_sound v).bind fun _ _ =>
      (Value.inspectEntries_sound rest).bind fun _ _ => .ok _ trivial

theorem Node.inspect_sound (n : Node) : n.inspect.Sound fun _ => True := by
  cases n with
  | constant payload =>
    rw [Node.inspect]
    exact (Value.inspect_sound payload).bind fun _ _ => .ok _ trivial
  | property name =>
    rw [Node.inspect]
    exact .ok _ trivial
  | binary op left right =>
    rw [Node.inspect]
    exact (Node.inspect_sound left).bind fun _ _ => (Node.inspect_sound right).bind fun _ _ => .ok _ trivial
  | call name args =>
    rw [Node.inspect]
    exact (Node.inspect_sound args).bind fun _ _ => .ok _ trivial

end

namespace Value

/-- A value that is neither a tuple nor a node. -/
def IsPlain : Value → Prop
  | .tuple _ | .node _ => False
  | _ => True

/-- A value that a formula can have when its names have plain values. -/
inductive Presentable : Value → Prop where
  | plain (v : Value) (isPlain : v.IsPlain) : Presentable v
  | list (nodes : List Node) (elements : ∀ n ∈ nodes, n.Formed) : Presentable (.tuple (nodes.map .node))

variable {v : Value}

theorem Presentable.display_sound (presentable : v.Presentable) : v.display.Sound fun _ => True := by
  cases presentable with
  | plain v isPlain =>
    cases v
    case tuple | node => cases isPlain
    case int n =>
      rw [display_int]
      exact .ofDigits (Numeral.ofInt? n)
    case list items => exact Value.inspect_sound (.list items)
    case mapping entries => exact Value.inspect_sound (.mapping entries)
    all_goals exact .ok _ trivial
  | list nodes elements =>
    obtain ⟨t, rendered⟩ := (Node.Formed.list nodes elements).isWritable
    have displayed : (Value.tuple (nodes.map .node)).display = .ok t := rendered
    rw [displayed]
    exact .ok _ trivial

end Value

/-- An operator gives something plain, or a fault that formulas cause. -/
theorem Operator.apply_sound (op : Operator) {x y : Value} (left : x.Presentable) (right : y.Presentable) :
    (op.apply x y).Sound Value.IsPlain := by
  unfold apply
  split
  · exact left.display_sound.bind fun _ _ => right.display_sound.bind fun _ _ => .ok _ trivial
  · split
    · exact .ok _ trivial
    · split
      next a b _ _ =>
        refine .ok _ ?_
        cases op.calculate a b <;> trivial
      next => exact .fail id

namespace FunctionTable

theorem cutAt_sound (start : Value) : (cutAt start).Sound fun _ => True := by
  unfold cutAt
  split
  · exact .ok _ trivial
  · exact .ok _ trivial
  next => exact (Value.inspect_sound _).bind fun _ _ => .fail id

theorem substr_sound {v : Value} (presentable : v.Presentable) (start : Value) :
    (substr v start).Sound Value.IsPlain := by
  unfold substr
  refine presentable.display_sound.bind fun t _ => (cutAt_sound start).bind fun cut _ => ?_
  split
  · exact .ok _ trivial
  · exact .ok _ trivial

/-- A function of the table gives something plain, or a fault that formulas cause. -/
theorem call_sound (name : Text) {values : List Value} (each : ∀ v ∈ values, v.Presentable) :
    (builtin.call name values).Sound Value.IsPlain := by
  cases found : builtin.find name with
  | error fault =>
    have undefined : fault = .formula (.undefinedFunction name) := by
      unfold find at found
      split at found
      · cases found
      · cases found
        rfl
    rw [call, found, undefined]
    exact .error _ id
  | ok entry =>
    obtain ⟨two, known⟩ := find_builtin found
    by_cases arity : values.length = 2
    · obtain ⟨x, y, rfl⟩ := List.length_eq_two.mp arity
      rcases known with ⟨op, stands⟩ | rfl
      · rw [call_operator stands]
        exact op.apply_sound (each x (by simp)) (each y (by simp))
      · exact substr_sound (each x (by simp)) y
    · rw [call, found, Outcome.ok_bind, if_neg (by omega)]
      exact .fail id

end FunctionTable
end Reckoner
