import Reckoner.Proofs.Run.Reduction
/-!
# Runs with a comma between them

No operator reaches across a comma: it stops a fold on its left as the start of a run does, and on its right as the end
of a run does. So runs with a comma between them are folded each by itself (`foldAll_separated`), and the nodes they
leave are the arguments in their order (`close_enumerates`).
-/
namespace Reckoner

/-- The argument node of a call on some trees: one tree stands for itself, and more of them become a list. -/
def Node.ofArguments : List Node → Node
  | [n] => n
  | nodes => .constant (.tuple (nodes.map .node))

namespace Run

variable {op : Operator} {folded rest out : List Item} {comma : Token}

theorem not_isSymbol_comma (text : comma.text = [.scalar ',']) (op : Operator) :
    (Item.token comma).isSymbol op = false := by
  simp only [Item.isSymbol, Token.isSymbol, text]
  cases op <;> decide

/-- Behind a comma a fold goes on as at the start of a run. -/
theorem foldFrom_behind_comma (base : List Item) :
    foldFrom op (folded ++ .token comma :: base) rest =
      (foldFrom op folded rest).map fun out => base.reverse ++ .token comma :: out := by
  fun_induction foldFrom op folded rest with
  | case1 folded => simp [foldFrom]
  | case2 item isOp left before right after ih =>
    rw [List.cons_append, foldFrom.eq_def]
    simpa [isOp] using ih
  | case3 folded item rest isOp lacking =>
    rw [foldFrom.eq_def]
    simp only [isOp, if_true, Option.map_none]
    -- the operand on the left is not there, or is a token, and a comma is none either
    cases folded with
    | nil => rfl
    | cons last before =>
      cases last with
      | token t => rfl
      | node left =>
        cases rest with
        | nil => rfl
        | cons next after =>
          cases next with
          | token t => rfl
          | node right => exact (lacking left before right after rfl rfl).elim
  | case4 folded item rest notOp ih =>
    rw [foldFrom.eq_def]
    simpa [notOp] using ih

/-- A fold of a run with another one behind it goes through the first one as by itself. -/
theorem foldFrom_append (h : foldFrom op folded rest = some out) (more : List Item) :
    foldFrom op folded (rest ++ more) = foldFrom op out.reverse more := by
  fun_induction foldFrom op folded rest with
  | case1 folded =>
    cases h
    simp
  | case2 item isOp left before right after ih =>
    rw [List.cons_append, List.cons_append, foldFrom.eq_def]
    simpa [isOp] using ih h
  | case3 => cases h
  | case4 folded item rest notOp ih =>
    rw [List.cons_append, foldFrom.eq_def]
    simpa [notOp] using ih h

/-- Up to a comma a fold goes as to the end of a run. -/
theorem foldFrom_up_to_comma (notSymbol : (Item.token comma).isSymbol op = false)
    (h : foldFrom op folded rest = some out) (more : List Item) :
    foldFrom op folded (rest ++ .token comma :: more) = foldFrom op (.token comma :: out.reverse) more := by
  rw [foldFrom_append h, foldFrom.eq_def]
  simp [notSymbol]

variable {run more others : List Item}

theorem foldBy_separated (notSymbol : (Item.token comma).isSymbol op = false) (first : foldBy op run = .ok out)
    (second : foldBy op more = .ok others) :
    foldBy op (run ++ .token comma :: more) = .ok (out ++ .token comma :: others) := by
  rw [foldBy_eq_ok] at first second ⊢
  have behind : foldFrom op ([] ++ .token comma :: out.reverse) more =
      (foldFrom op [] more).map fun folded => out.reverse.reverse ++ .token comma :: folded :=
    foldFrom_behind_comma out.reverse
  rw [List.nil_append] at behind
  rw [foldFrom_up_to_comma notSymbol first, behind, second, Option.map_some, List.reverse_reverse]

/-- Runs with a token between them that is none of the operators are folded each by itself. -/
theorem foldAll_around {ops : List Operator} (notSymbol : ∀ op ∈ ops, (Item.token comma).isSymbol op = false)
    (first : foldAll ops run = .ok out) (second : foldAll ops more = .ok others) :
    foldAll ops (run ++ .token comma :: more) = .ok (out ++ .token comma :: others) := by
  induction ops generalizing run more with
  | nil =>
    cases first
    cases second
    rfl
  | cons op ops ih =>
    rw [foldAll_cons] at first second ⊢
    obtain ⟨middle, fold, rest⟩ := Outcome.bind_eq_ok.mp first
    obtain ⟨middle', fold', rest'⟩ := Outcome.bind_eq_ok.mp second
    rw [foldBy_separated (notSymbol op (by simp)) fold fold', Outcome.ok_bind]
    exact ih (fun later listed => notSymbol later (by simp [listed])) rest rest'

/-- Runs with a comma between them are folded each by itself. -/
theorem foldAll_separated {ops : List Operator} (text : comma.text = [.scalar ',']) (first : foldAll ops run = .ok out)
    (second : foldAll ops more = .ok others) :
    foldAll ops (run ++ .token comma :: more) = .ok (out ++ .token comma :: others) :=
  foldAll_around (fun op _ => not_isSymbol_comma text op) first second

/-- A run that consists of some nodes, with a comma between each two of them. -/
inductive Enumerates : List Node → List Item → Prop where
  | one (n : Node) : Enumerates [n] [.node n]
  | more {nodes : List Node} {out : List Item} (n : Node) (comma : Token) (kind : comma.kind = .comma)
      (later : Enumerates nodes out) : Enumerates (n :: nodes) (.node n :: .token comma :: out)

variable {trees : List Node}

theorem Enumerates.nodes (h : Enumerates trees out) : nodes out = trees := by
  induction h with
  | one n => rfl
  | more n comma kind later ih => rw [nodes_node, nodes_token, ih]

theorem Enumerates.commas (h : Enumerates trees out) (t : Token) (member : .token t ∈ out) :
    isComma (.token t) = true := by
  induction h with
  | one n => simp at member
  | more n comma kind later ih =>
    simp only [List.mem_cons, reduceCtorEq, Item.token.injEq, false_or] at member
    rcases member with rfl | inside
    · simp [isComma, Item.isKind, kind]
    · exact ih inside

theorem Enumerates.eq_of_one {n : Node} (h : Enumerates [n] out) : out = [.node n] := by
  cases h with
  | one n => rfl
  | more n comma kind none => cases none

/-- A run of nodes with commas between them closes to the arguments that it consists of. -/
theorem close_enumerates (h : Enumerates trees out) : close out = .ok (Node.ofArguments trees) := by
  cases h with
  | one n =>
    have single : close ([n].map .node) = .ok n := close_map_node.mpr rfl
    exact single
  | @more later out n comma kind rest =>
    have enumerates := rest.more n comma kind
    have separated : (Item.node n :: .token comma :: out).any isComma = true := by
      simp [isComma, Item.isKind, kind]
    rw [close_of_comma enumerates.commas separated, enumerates.nodes]
    cases rest <;> rfl

/-- A run that reduces to a node and has no comma in it is folded to this node. -/
theorem foldAll_of_reduce {n : Node} (flat : ∀ item ∈ run, item.IsFlat) (noComma : run.any isComma = false)
    (h : reduce run = .ok n) : foldAll Operator.foldOrder run = .ok [.node n] := by
  obtain ⟨out, folds, closed⟩ := Outcome.bind_eq_ok.mp (reduce_eq_foldAll run ▸ h)
  have folded := foldAll_folded flat folds
  have commas : ∀ t, .token t ∈ out → isComma (.token t) = true := fun t => comma_of_folded flat folded
  have nodesOnly : out.any isComma = false := by
    rw [List.any_eq_false] at noComma ⊢
    intro item member
    cases item with
    | node m => simp [isComma, Item.isKind]
    | token t => exact noComma _ (folded.token t member).1
  rw [eq_map_node_of_not_comma commas nodesOnly] at closed folds
  rw [folds, close_map_node.mp closed]
  rfl

end Run
end Reckoner
