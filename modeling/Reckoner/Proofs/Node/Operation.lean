import Reckoner.Node.Compute
import Reckoner.Proofs.FunctionTable
/-!
# The operations of a tree

A tree applies an operator to two trees either under its sign or by calling the function that stands for it
(`operation?`). Both are worked out alike: the left tree, the right tree, and the operator on their values
(`compute_operation`).
-/
namespace Reckoner.Node

open FunctionTable (builtin operator?)

/-- The trees whose values a call is carried out on. -/
def arguments : Node → List Node
  | .constant (.tuple items) => items.filterMap Value.asNode?
  | other => [other]

variable {table : FunctionTable} {ctx : Context}

theorem computeAll_eq_mapM (items : List Value) :
    computeAll table ctx items = (items.filterMap Value.asNode?).mapM (compute table ctx) := by
  induction items with
  | nil => rw [computeAll]; rfl
  | cons v rest ih =>
    cases v
    case node n =>
      have kept : (Value.node n :: rest).filterMap Value.asNode? = n :: rest.filterMap Value.asNode? := rfl
      rw [computeAll, ih, kept, List.mapM_cons]
    all_goals
      rw [computeAll, ih, List.filterMap_cons_none rfl]
      simp

theorem mapM_one (f : Node → Outcome Value) (n : Node) : [n].mapM f = f n >>= fun v => .ok [v] := by
  rw [List.mapM_cons, List.mapM_nil]
  rfl

theorem compute_call (name : Text) (args : Node) :
    (Node.call name args).compute table ctx = args.arguments.mapM (compute table ctx) >>= table.call name := by
  have single (notList : ∀ items, args ≠ .constant (.tuple items)) :
      (Node.call name args).compute table ctx = [args].mapM (compute table ctx) >>= table.call name := by
    rw [compute, mapM_one]
    · cases args.compute table ctx <;> rfl
    · exact notList
  cases args with
  | constant payload =>
    cases payload
    case tuple items =>
      rw [compute, computeAll_eq_mapM, arguments]
    all_goals exact single (by simp)
  | property argument => exact single (by simp)
  | binary op left right => exact single (by simp)
  | call inner rest => exact single (by simp)

theorem contains_argument {args n : Node} (member : n ∈ args.arguments) : args.Contains n := by
  unfold arguments at member
  split at member
  next items =>
    obtain ⟨v, inItems, isNode⟩ := List.mem_filterMap.mp member
    cases v
    case node m =>
      cases isNode
      exact .element items _ _ inItems (.self _)
    all_goals cases isNode
  next =>
    rw [List.mem_singleton.mp member]
    exact .self args

theorem arguments_list (nodes : List Node) : (Node.constant (.tuple (nodes.map .node))).arguments = nodes := by
  rw [arguments, List.filterMap_map]
  exact List.filterMap_some

theorem arguments_respelled {args : Node} (formed : args.Formed) :
    args.respelled.arguments = args.arguments.map respelled := by
  cases formed with
  | int n short => simp [arguments]
  | text t => simp [arguments]
  | property name isName => simp [arguments]
  | float x number =>
    rcases x.respelled_cases with same | ⟨n, whole, -⟩
    · simp [same, arguments]
    · simp [whole, arguments]
  | list nodes elements => rw [respelled_list, arguments_list, arguments_list]
  | binary op left right => simp [arguments]
  | call name args => simp [arguments]

/-- The operator that a tree applies to two trees, under its sign or as a function. -/
def operation? : Node → Option (Operator × Node × Node)
  | .binary symbol left right => (Operator.ofSymbol? symbol).map (·, left, right)
  | .call name args =>
    match operator? name, args.arguments with
    | some op, [left, right] => some (op, left, right)
    | _, _ => none
  | _ => none

variable {name : Text} {args left right n : Node} {op : Operator}

theorem operation?_call (h : (Node.call name args).operation? = some (op, left, right)) :
    operator? name = some op ∧ args.arguments = [left, right] := by
  simp only [operation?] at h
  split at h
  next other l r stands two =>
    cases h
    exact ⟨stands, two⟩
  next => cases h

/-- An operation is worked out on the values of its two parts, the left one first. -/
theorem compute_operation (h : n.operation? = some (op, left, right)) :
    n.compute builtin ctx =
      left.compute builtin ctx >>= fun l => right.compute builtin ctx >>= fun r => op.apply l r := by
  cases n with
  | constant payload => cases h
  | property x => cases h
  | binary symbol l r =>
    rw [operation?] at h
    obtain ⟨other, named, same⟩ := Option.map_eq_some_iff.mp h
    cases same
    rw [compute]
    simp only [Operator.applySymbol, named]
  | call function args =>
    obtain ⟨stands, two⟩ := operation?_call h
    rw [compute_call, two, List.mapM_cons, mapM_one]
    cases left.compute builtin ctx with
    | error e => rfl
    | ok l =>
      cases right.compute builtin ctx with
      | error e => rfl
      | ok r => exact FunctionTable.call_operator stands l r

theorem operation?_binary (op : Operator) (left right : Node) :
    (Node.binary op.symbol left right).operation? = some (op, left, right) := by
  rw [operation?, Operator.ofSymbol?_symbol]
  rfl

/-- The respelled tree applies the same operator to the respelled parts. -/
theorem operation?_respelled {n left right : Node} {op : Operator} (formed : n.Formed)
    (h : n.operation? = some (op, left, right)) :
    n.respelled.operation? = some (op, left.respelled, right.respelled) := by
  cases formed with
  | int n short => cases h
  | float x number => cases h
  | text t => cases h
  | list nodes elements => cases h
  | property name isName => cases h
  | binary sign l r =>
    rw [operation?_binary] at h
    cases h
    rw [respelled_binary, operation?_binary]
  | call name args isName argsFormed =>
    obtain ⟨stands, two⟩ := operation?_call h
    have twoAgain : args.respelled.arguments = [left.respelled, right.respelled] := by
      rw [arguments_respelled argsFormed, two]
      rfl
    rw [respelled_call, operation?]
    simp only [stands, twoAgain]

end Reckoner.Node
