import Reckoner.Proofs.Node.Acceptance
import Reckoner.Proofs.Node.Identical
import Reckoner.Proofs.Reference.Binding
import Reckoner.Proofs.Value.Sound
/-!
# Trees of formulas are well built

Every part of the tree of a formula is what it should be (`WellBuilt`): operators are signs, names are names, argument
lists hold nodes and no literal is NaN. So neither reading a formula nor working its tree out meets one of the faults
that only a misbuilt tree or value could cause (`parse_isSound`), as long as no name stands for a tuple or a node. The
lists in the tree are values as well, and pass unevaluated through operators, displays and functions.
-/
namespace Reckoner

/-- A formula error that says that a text cannot be read. -/
def Fault.IsReading (fault : Fault) : Prop := ∃ e, fault = .formula e ∧ e.stage = .reading

theorem Bracket.IsIrreducible.isReading {fault : Fault} (h : IsIrreducible (.error fault)) : fault.IsReading := by
  obtain ⟨run, lacking, same⟩ := h
  cases same
  exact ⟨_, rfl, rfl⟩

/-- Items are refused only because they cannot be read. -/
theorem Bracket.Verdict.isReading {items : List Item} {fault : Fault} (verdict : Verdict items (.error fault)) :
    fault.IsReading := by
  by_cases spoiled : Spoiled items
  · exact (verdict.spoiled spoiled).isReading
  by_cases opening : ∃ t, LastUnpairedOpening items t
  · obtain ⟨t, last⟩ := opening
    cases verdict.opening spoiled t last
    exact ⟨_, rfl, rfl⟩
  have noOpening : ∀ t, ¬LastUnpairedOpening items t := not_exists.mp opening
  by_cases closing : ∃ t, FirstUnpairedClosing items t
  · obtain ⟨t, first⟩ := closing
    cases verdict.closing spoiled noOpening t first
    exact ⟨_, rfl, rfl⟩
  obtain ⟨marks, balanced⟩ := verdict.paired spoiled noOpening (not_exists.mp closing)
  obtain ⟨hasTree, stuck⟩ := verdict.outer spoiled marks balanced
  by_cases reducible : Reducible marks
  · obtain ⟨tree, same⟩ := hasTree reducible
    cases same
  · exact (stuck reducible).isReading

namespace Node

open FunctionTable (builtin)
open Outcome (Sound)

/-- What the parts of the tree of a formula are. -/
structure WellBuilt (tree : Node) : Prop where
  operators : ∀ op left right, tree.Contains (.binary op left right) → op ∈ Operator.foldOrder.map Operator.symbol
  properties : ∀ name, tree.Contains (.property name) → name.IsName
  calls : ∀ name args, tree.Contains (.call name args) → name.IsName
  literals : ∀ payload, tree.Contains (.constant payload) → payload ≠ .float .nan
  lists : ∀ items, tree.Contains (.constant (.tuple items)) → ∀ v ∈ items, ∃ n, v = .node n
  /-- A call works every element of its argument list out and passes over none of them. -/
  arguments : ∀ name items, tree.Contains (.call name (.constant (.tuple items))) → ∀ table ctx,
    computeAll table ctx items = items.mapM (Value.compute table ctx)

theorem Formed.elements {items : List Value} (formed : (Node.constant (.tuple items)).Formed) :
    ∃ nodes : List Node, items = nodes.map .node ∧ ∀ n ∈ nodes, n.Formed := by
  cases formed with
  | list nodes elements => exact ⟨nodes, rfl, elements⟩

/-- Where all elements are nodes, working out the nodes among them is working out all of them. -/
theorem computeAll_map_node (table : FunctionTable) (ctx : Context) (nodes : List Node) :
    computeAll table ctx (nodes.map .node) = (nodes.map .node).mapM (Value.compute table ctx) := by
  induction nodes with
  | nil => rw [List.map_nil, computeAll, List.mapM_nil, Outcome.pure_eq_ok]
  | cons n nodes ih =>
    rw [List.map_cons, computeAll, ih, List.mapM_cons]
    rfl

theorem Formed.wellBuilt {tree : Node} (formed : tree.Formed) : tree.WellBuilt where
  operators op left right inside := by
    cases formed.of_contains inside with
    | binary op => exact List.mem_map_of_mem op.mem_foldOrder
  properties name inside := by
    cases formed.of_contains inside
    assumption
  calls name args inside := by
    cases formed.of_contains inside
    assumption
  literals payload inside := by
    cases formed.of_contains inside <;> simp_all
  lists items inside := by
    obtain ⟨nodes, rfl, -⟩ := (formed.of_contains inside).elements
    simp
  arguments name items inside table ctx := by
    cases formed.of_contains inside with
    | call _ _ _ argsFormed =>
      obtain ⟨nodes, rfl, -⟩ := argsFormed.elements
      exact computeAll_map_node table ctx nodes

variable {ctx : Context}

/-- A tree has a presentable value where every name has a plain one, or ends with a fault that formulas cause. -/
theorem compute_sound {tree : Node} (formed : tree.Formed) (plain : ∀ name, (ctx.read name).IsPlain) :
    (tree.compute builtin ctx).Sound Value.Presentable := by
  refine formed.operand_induction fun n nFormed ih => ?_
  cases nFormed with
  | int m short => exact .ok _ (.plain _ trivial)
  | float x number => exact .ok _ (.plain _ trivial)
  | text t => exact .ok _ (.plain _ trivial)
  | list nodes elements => exact .ok _ (.list nodes elements)
  | property name isName =>
    rw [compute]
    exact .ok _ (.plain _ (plain name))
  | binary op left right _ _ =>
    rw [compute_operation (operation?_binary op left right)]
    refine (ih left (by simp [operands])).bind fun x leftValue => ?_
    refine (ih right (by simp [operands])).bind fun y rightValue => ?_
    exact (op.apply_sound leftValue rightValue).imp Value.Presentable.plain
  | call name args _ _ =>
    rw [compute_call]
    refine (Sound.mapM ih).bind fun values each => ?_
    exact (FunctionTable.call_sound name each).imp Value.Presentable.plain

/-- A text without a tree is refused while it is read, or has a number of too many digits. -/
theorem parse_error {s : Text} {fault : Fault} (failed : parse s = .error fault) :
    fault.IsReading ∨ ∃ l, fault = .digits l := by
  cases first : (Token.scan s).find? Token.isRefused with
  | some t =>
    rw [parse, Item.ofText_refused first] at failed
    cases failed
    unfold Token.refusal
    split
    · exact .inl ⟨_, rfl, rfl⟩
    · exact .inr ⟨_, rfl⟩
  | none =>
    obtain ⟨items, read, clean⟩ := Item.ofText_accepted first
    rw [parse_of_ofText read] at failed
    have verdict := Bracket.resolve_verdict formed_inherited (fun _ => Formed.isWritable) clean
    rw [failed] at verdict
    exact .inl verdict.isReading

theorem parse_sound (s : Text) : (parse s).Sound Formed := by
  cases outcome : parse s with
  | ok tree => exact .ok tree (parse_formed outcome)
  | error fault =>
    refine .error fault ?_
    obtain ⟨e, rfl, reading⟩ | ⟨l, rfl⟩ := parse_error outcome
    · exact Fault.not_isInternal_of_reading reading
    · exact id

/-- No text is refused by a fault that only a misbuilt tree could cause. The tree of a text is well built, and it is not
ended by such a fault either where no name stands for a tuple or a node. -/
theorem parse_isSound (s : Text) :
    (∀ fault, parse s = .error fault → ¬fault.IsInternal) ∧
      ∀ tree, parse s = .ok tree → tree.WellBuilt ∧
        ∀ ctx : Context, (∀ entry ∈ ctx, entry.2.IsPlain) →
          ∀ fault, tree.compute builtin ctx = .error fault → ¬fault.IsInternal := by
  refine ⟨fun fault failed => (parse_sound s).of_eq_error failed, fun tree parsed => ?_⟩
  have formed := parse_formed parsed
  refine ⟨formed.wellBuilt, fun ctx plain fault failed => ?_⟩
  exact (compute_sound formed (Context.forall_read trivial plain)).of_eq_error failed

/-- A list is no start of a text: the call is refused, with the list written out in the message. -/
theorem parse_isSound_substr :
    ∃ tree fault, parse "Substr(x, (y, 'b')) + 2" = .ok tree ∧ tree.WellBuilt ∧
      tree.compute builtin [("x", .list [.absent])] = .error fault ∧ ¬fault.IsInternal := by
  have parsed : parse "Substr(x, (y, 'b')) + 2" = .ok (.binary "+" (.call "Substr" (.constant (.tuple
      [.node (.property "x"), .node (.constant (.tuple [.node (.property "y"), .node (.constant (.text "b"))]))])))
      (.constant (.int 2))) := parse_eq_of_reads (by decide +kernel)
  obtain ⟨wellBuilt, sound⟩ := (parse_isSound "Substr(x, (y, 'b')) + 2").2 _ parsed
  have failed : Node.compute builtin [("x", .list [.absent])] (.binary "+" (.call "Substr" (.constant (.tuple
      [.node (.property "x"), .node (.constant (.tuple [.node (.property "y"), .node (.constant (.text "b"))]))])))
      (.constant (.int 2))) = .error (.formula (.startNotANumber
        "(PropertyNode(name='y'), ValueNode(value='b'))")) := by
    rfl
  exact ⟨_, _, parsed, wellBuilt, failed, sound [("x", .list [.absent])] (by simp [Value.IsPlain]) _ failed⟩

end Node
end Reckoner
