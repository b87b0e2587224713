import Reckoner.Proofs.Node.Operation
import Reckoner.Proofs.Operator.Overlong
/-!
# The values of formulas

Where every name has a scalar, a tree has a scalar too, or it is a list of trees (`compute_ordinary`): operators and
functions never give anything but numbers and texts. Of these values only a whole number of more than 4300 digits
cannot be displayed.
-/
namespace Reckoner

open FunctionTable (builtin)
open Outcome (Overruns)

namespace Value

/-- An absent value, a truth value, a number or a text. -/
def IsScalar : Value → Prop
  | .absent | .bool _ | .int _ | .float _ | .text _ => True
  | _ => False

/-- A value that a formula can have when its names have scalars. -/
inductive Ordinary : Value → Prop where
  | scalar (v : Value) (isScalar : v.IsScalar) : Ordinary v
  | list (nodes : List Node) (elements : ∀ n ∈ nodes, n.Formed) : Ordinary (.tuple (nodes.map .node))

/-- A whole number of more than 4300 digits. -/
def IsOverlong (v : Value) : Prop := ∃ n, v = .int n ∧ ¬Numeral.IsShort n

variable {v : Value}

theorem IsOverlong.display (long : v.IsOverlong) : v.display = .error (.digits .writing) := by
  obtain ⟨n, rfl, notShort⟩ := long
  exact display_int_overruns (Nat.not_lt.mp notShort)

theorem Ordinary.display_isOk (ordinary : v.Ordinary) (short : ¬v.IsOverlong) : ∃ t, v.display = .ok t := by
  cases ordinary with
  | scalar v isScalar =>
    cases v
    case int n =>
      have isShort : Numeral.IsShort n := by
        by_contra notShort
        exact short ⟨n, rfl, notShort⟩
      refine ⟨Numeral.ofInt n, ?_⟩
      rw [display_int, Numeral.ofInt?_of_isShort isShort]
      rfl
    case absent | bool | float | text => exact ⟨_, rfl⟩
    all_goals cases isScalar
  | list nodes elements =>
    obtain ⟨t, rendered⟩ := (Node.Formed.list nodes elements).isWritable
    exact ⟨t, rendered⟩

theorem Ordinary.display_isOk_iff (ordinary : v.Ordinary) : (∃ t, v.display = .ok t) ↔ ¬v.IsOverlong := by
  refine ⟨?_, ordinary.display_isOk⟩
  rintro ⟨t, displayed⟩ long
  rw [long.display] at displayed
  cases displayed

theorem Ordinary.display_overruns_iff (ordinary : v.Ordinary) : v.display.Overruns ↔ v.IsOverlong := by
  refine ⟨fun overruns => ?_, fun long => ⟨_, long.display⟩⟩
  by_contra short
  obtain ⟨t, displayed⟩ := ordinary.display_isOk short
  rw [displayed] at overruns
  exact Overruns.not_ok t overruns

/-- What is no number can be shown. -/
theorem Ordinary.inspect_not_overruns (ordinary : v.Ordinary) (notNumber : Number.ofValue? v = none) :
    ¬v.inspect.Overruns := by
  cases ordinary with
  | scalar v isScalar =>
    cases v
    case absent | text => exact Overruns.not_ok _
    case bool | int | float => cases notNumber
    all_goals cases isScalar
  | list nodes elements =>
    obtain ⟨t, shown⟩ := Node.inspect_tuple_isOk fun n member => Node.inspect_isOk (elements n member)
    rw [shown]
    exact Overruns.not_ok t

end Value

/-- An operator gives a number or a text. -/
theorem Operator.apply_isScalar {op : Operator} {x y v : Value} (h : op.apply x y = .ok v) : v.IsScalar := by
  unfold apply at h
  split at h
  next =>
    obtain ⟨first, -, rest⟩ := Outcome.bind_eq_ok.mp h
    obtain ⟨second, -, same⟩ := Outcome.bind_eq_ok.mp rest
    cases same
    exact True.intro
  next =>
    split at h
    next =>
      cases h
      exact True.intro
    next =>
      split at h
      next a b _ _ =>
        cases h
        cases op.calculate a b <;> exact True.intro
      next => cases h

namespace FunctionTable

variable {x y v : Value}

/-- The cut of an ordinary value is a text. -/
theorem substr_isScalar (ordinary : x.Ordinary) (h : substr x y = .ok v) : v.IsScalar := by
  unfold substr at h
  obtain ⟨t, -, rest⟩ := Outcome.bind_eq_ok.mp h
  obtain ⟨cut, -, same⟩ := Outcome.bind_eq_ok.mp rest
  split at same
  next token _ =>
    cases ordinary with
    | scalar _ isScalar => cases isScalar
  next =>
    cases same
    exact True.intro

/-- A function of the table gives a scalar for ordinary values. -/
theorem call_isScalar {name : Text} {values : List Value} (ordinary : ∀ u ∈ values, u.Ordinary)
    (h : builtin.call name values = .ok v) : v.IsScalar := by
  obtain ⟨entry, found, body⟩ := Outcome.bind_eq_ok.mp h
  obtain ⟨two, known⟩ := find_builtin found
  split at body
  next arity =>
    obtain ⟨x, y, rfl⟩ := List.length_eq_two.mp (show values.length = 2 by omega)
    rcases known with ⟨op, stands⟩ | rfl
    · rw [call_operator stands] at h
      exact Operator.apply_isScalar h
    · exact substr_isScalar (ordinary x (by simp)) h
  next => cases body

end FunctionTable

namespace Node

/-- The trees that are worked out before the tree itself, from left to right. -/
def operands : Node → List Node
  | .binary _ left right => [left, right]
  | .call _ args => args.arguments
  | _ => []

theorem contains_operand {n a : Node} (member : a ∈ n.operands) : n.Contains a := by
  cases n with
  | constant payload => cases member
  | property name => cases member
  | binary op left right =>
    have operand : a = left ∨ a = right := by simpa [operands] using member
    rcases operand with rfl | rfl
    · exact .left op a right a (.self a)
    · exact .right op left a a (.self a)
  | call name args => exact .args name args a (contains_argument member)

/-- What holds of a tree when it holds of its operands holds of every tree in a formed one: an argument list is looked
into, so the trees in it come first. -/
theorem Formed.forall_contained {P : Node → Prop} {tree u : Node} (formed : tree.Formed) (inside : tree.Contains u)
    (step : ∀ n : Node, n.Formed → (∀ a ∈ n.operands, P a) → P n) : P u := by
  induction formed generalizing u with
  | int n short =>
    cases inside
    exact step _ (.int n short) (by simp [operands])
  | float x number =>
    cases inside
    exact step _ (.float x number) (by simp [operands])
  | text t =>
    cases inside
    exact step _ (.text t) (by simp [operands])
  | property name isName =>
    cases inside
    exact step _ (.property name isName) (by simp [operands])
  | list nodes elements ih =>
    cases inside with
    | self => exact step _ (.list nodes elements) (by simp [operands])
    | element _ m _ member within =>
      obtain ⟨n, inNodes, same⟩ := List.mem_map.mp member
      cases same
      exact ih m inNodes within
  | binary op left right leftFormed rightFormed ihLeft ihRight =>
    cases inside with
    | self =>
      refine step _ (.binary op left right leftFormed rightFormed) fun a member => ?_
      have operand : a = left ∨ a = right := by simpa [operands] using member
      rcases operand with rfl | rfl
      · exact ihLeft (.self _)
      · exact ihRight (.self _)
    | left _ _ _ _ within => exact ihLeft within
    | right _ _ _ _ within => exact ihRight within
  | call name args isName argsFormed ih =>
    cases inside with
    | self => exact step _ (.call name args isName argsFormed) fun a member => ih (contains_argument member)
    | args _ _ _ within => exact ih within

/-- Induction over a formed tree and its operands. -/
@[elab_as_elim] theorem Formed.operand_induction {P : Node → Prop} {tree : Node} (formed : tree.Formed)
    (step : ∀ n : Node, n.Formed → (∀ a ∈ n.operands, P a) → P n) : P tree :=
  formed.forall_contained (.self tree) step

/-- A tree has an ordinary value where every name has a scalar. -/
theorem compute_ordinary {ctx : Context} {tree : Node} (formed : tree.Formed)
    (scalars : ∀ name, (ctx.read name).IsScalar) : ∀ v, tree.compute builtin ctx = .ok v → v.Ordinary := by
  refine formed.operand_induction fun n nFormed ih v h => ?_
  cases nFormed with
  | int m short =>
    cases h
    exact .scalar _ True.intro
  | float x number =>
    cases h
    exact .scalar _ True.intro
  | text t =>
    cases h
    exact .scalar _ True.intro
  | property name isName =>
    rw [compute] at h
    cases h
    exact .scalar _ (scalars name)
  | list nodes elements =>
    cases h
    exact .list nodes elements
  | binary op left right leftFormed rightFormed =>
    rw [compute_operation (operation?_binary op left right)] at h
    obtain ⟨x, -, rest⟩ := Outcome.bind_eq_ok.mp h
    obtain ⟨y, -, applied⟩ := Outcome.bind_eq_ok.mp rest
    exact .scalar v (Operator.apply_isScalar applied)
  | call name args isName argsFormed =>
    rw [compute_call] at h
    obtain ⟨values, computed, called⟩ := Outcome.bind_eq_ok.mp h
    refine .scalar v (FunctionTable.call_isScalar (fun u member => ?_) called)
    obtain ⟨a, operand, value⟩ := Outcome.exists_of_mem_mapM computed member
    exact ih a operand u value

end Node
end Reckoner
