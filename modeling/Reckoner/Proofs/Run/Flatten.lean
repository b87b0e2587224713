import Reckoner.Proofs.Run.Reduction
/-!
# Trees laid out flat

A tree is laid out flat by listing its parts from left to right: an operation lists its left tree, its sign and its
right tree, a call its name and its arguments, and an argument list its elements. The reduction of a run neither loses
nor adds nor moves a part (`reduce_flatten`), for every fold puts just what stood side by side into one node.
-/
namespace Reckoner

/-- A part of a formula: a literal, a name that is looked up, a name that is called, or the sign of an operator. -/
inductive Part where
  | literal (v : Value)
  | operand (name : Text)
  | callee (name : Text)
  | sign (symbol : Text)

namespace Node

mutual

/-- The parts of a tree from left to right. -/
def flatten : Node → List Part
  | .constant (.tuple items) => flattenAll items
  | .constant payload => [.literal payload]
  | .property name => [.operand name]
  | .binary op left right => left.flatten ++ .sign op :: right.flatten
  | .call name args => .callee name :: args.flatten

/-- The parts of the nodes of an argument list from left to right. -/
def flattenAll : List Value → List Part
  | [] => []
  | .node n :: rest => n.flatten ++ flattenAll rest
  | _ :: rest => flattenAll rest

end

@[simp] theorem flatten_property (name : Text) : (Node.property name).flatten = [.operand name] := by rw [flatten]

@[simp] theorem flatten_binary (op : Text) (left right : Node) :
    (Node.binary op left right).flatten = left.flatten ++ .sign op :: right.flatten := by
  rw [flatten]

@[simp] theorem flatten_call (name : Text) (args : Node) :
    (Node.call name args).flatten = .callee name :: args.flatten := by
  rw [flatten]

theorem flattenAll_map_node (nodes : List Node) : flattenAll (nodes.map .node) = nodes.flatMap flatten := by
  induction nodes with
  | nil => rfl
  | cons n nodes ih => rw [List.map_cons, flattenAll, ih, List.flatMap_cons]

@[simp] theorem flatten_list (nodes : List Node) :
    (Node.constant (.tuple (nodes.map .node))).flatten = nodes.flatMap flatten := by
  rw [flatten, flattenAll_map_node]

end Node

/-- A bracket or a comma. -/
def Token.separates (t : Token) : Bool := t.kind == .leftParen || t.kind == .rightParen || t.kind == .comma

/-- The parts an item of a run stands for. -/
def Item.flatten : Item → List Part
  | .node n => n.flatten
  | .token t => if t.separates then [] else [.sign t.text]

namespace Item

@[simp] theorem flatten_node (n : Node) : (Item.node n).flatten = n.flatten := rfl

theorem flatten_separator {t : Token} (h : t.separates = true) : (Item.token t).flatten = [] := by
  rw [flatten, if_pos h]

/-- An operator of a run stands for its sign. -/
theorem flatten_of_isSymbol {item : Item} {op : Operator} (flat : item.IsFlat) (h : item.isSymbol op = true) :
    item.flatten = [.sign op.symbol] := by
  have operator := mark_of_isSymbol flat h
  cases item with
  | node n => cases h
  | token t =>
    have text : t.text = op.symbol := by simpa [isSymbol, Token.isSymbol] using h
    rcases flat with ⟨kind, -⟩ | ⟨kind, -⟩
    · simp [flatten, Token.separates, kind, text]
    · simp [mark, kind] at operator

end Item

namespace Run

variable {op : Operator} {folded rest run out : List Item}

/-- A fold keeps the parts of what is folded already and of what is ahead. -/
theorem foldFrom_flatten (flat : ∀ item ∈ rest, item.IsFlat) (h : foldFrom op folded rest = some out) :
    out.flatMap Item.flatten = folded.reverse.flatMap Item.flatten ++ rest.flatMap Item.flatten := by
  fun_induction foldFrom op folded rest with
  | case1 folded =>
    cases h
    simp
  | case2 item isOp left before right after ih =>
    rw [ih (fun i m => flat i (by simp [m])) h]
    simp [Item.flatten_of_isSymbol (flat item (by simp)) isOp]
  | case3 => cases h
  | case4 folded item rest notOp ih =>
    rw [ih (fun i m => flat i (by simp [m])) h]
    simp

theorem foldAll_flatten {ops : List Operator} (flat : ∀ item ∈ run, item.IsFlat) (h : foldAll ops run = .ok out) :
    out.flatMap Item.flatten = run.flatMap Item.flatten := by
  induction ops generalizing run with
  | nil =>
    cases h
    rfl
  | cons op ops ih =>
    obtain ⟨middle, fold, rest⟩ := Outcome.bind_eq_ok.mp (foldAll_cons op ops run ▸ h)
    have folds := foldBy_eq_ok.mp fold
    rw [ih ((foldFrom_folded flat folds).flat flat) rest, foldFrom_flatten flat folds]
    simp

/-- Commas stand for nothing, so what is left of a run between commas are its nodes. -/
theorem flatMap_flatten_nodes (commas : ∀ t, .token t ∈ run → isComma (.token t) = true) :
    (nodes run).flatMap Node.flatten = run.flatMap Item.flatten := by
  induction run with
  | nil => rfl
  | cons item run ih =>
    have ahead := ih fun t member => commas t (by simp [member])
    cases item with
    | node n => rw [nodes_node, List.flatMap_cons, List.flatMap_cons, ahead, Item.flatten_node]
    | token t =>
      have comma : t.separates = true := by
        have kind : t.kind = .comma := by simpa [isComma, Item.isKind] using commas t (by simp)
        simp [Token.separates, kind]
      rw [nodes_token, List.flatMap_cons, Item.flatten_separator comma, ahead, List.nil_append]

theorem close_flatten {n : Node} (commas : ∀ t, .token t ∈ run → isComma (.token t) = true)
    (h : close run = .ok n) : n.flatten = run.flatMap Item.flatten := by
  rw [← flatMap_flatten_nodes commas]
  cases comma : run.any isComma with
  | true =>
    rw [close_of_comma commas comma] at h
    cases h
    exact Node.flatten_list _
  | false =>
    rw [eq_map_node_of_not_comma commas comma] at h
    rw [close_map_node.mp h]
    simp

/-- The node of a run has the parts of the run in their order. -/
theorem reduce_flatten {n : Node} (flat : ∀ item ∈ run, item.IsFlat) (h : reduce run = .ok n) :
    n.flatten = run.flatMap Item.flatten := by
  obtain ⟨out, folds, closed⟩ := Outcome.bind_eq_ok.mp (reduce_eq_foldAll run ▸ h)
  have folded := foldAll_folded flat folds
  rw [close_flatten (fun t => comma_of_folded flat folded) closed, foldAll_flatten flat folds]

end Run
end Reckoner
