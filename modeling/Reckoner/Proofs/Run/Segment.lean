import Mathlib.Data.List.SplitBy
import Reckoner.Proofs.Run.Separated
/-!
# The segments of a run and their trees

A run is cut at its commas and between nodes that are neighbours. A segment of a run whose operators all have their
operands is a node, or a node, an operator and such a segment (`Run.Alternates`). Its tree is defined from the loosest
operator down: the segment is cut at the operator's tokens, and the trees of the pieces are joined from the left. The
folds go the other way, from the tightest operator up, and leave just this tree (`foldAll_of_treeBy`).
-/
namespace Reckoner

namespace Item

def isNode : Item → Bool
  | .node _ => true
  | .token _ => false

/-- A token is the symbol of one operator at most. -/
theorem isSymbol_unique {item : Item} {op other : Operator} (h : item.isSymbol op = true)
    (h' : item.isSymbol other = true) : op = other := by
  cases item with
  | node n => cases h
  | token t =>
    simp only [isSymbol, Token.isSymbol, beq_iff_eq] at h h'
    have same : Operator.ofSymbol? op.symbol = Operator.ofSymbol? other.symbol := by rw [← h, ← h']
    simpa [Operator.ofSymbol?_symbol] using same

end Item

namespace Run

/-- Two neighbours of one segment: nodes are not. -/
def together (a b : Item) : Bool := !(a.isNode && b.isNode)

/-- The longest pieces of a run without a comma in them and without nodes that are neighbours. -/
def segments (run : List Item) : List (List Item) := (run.splitOnP isComma).flatMap (List.splitBy together)

/-- Nodes joined by one operator, from the left. -/
def join (op : Operator) : List Node → Option Node
  | [] => none
  | first :: others => some (others.foldl (.binary op.symbol) first)

/-- The tree of a segment by some operators, of which each one binds looser than those after it. -/
def treeBy : List Operator → List Item → Option Node
  | [], [.node n] => some n
  | [], _ => none
  | op :: tighter, segment => ((segment.splitOnP (·.isSymbol op)).mapM (treeBy tighter)).bind (join op)

/-- The tree of a segment, which is a difference of sums of quotients of products. -/
def tree (segment : List Item) : Option Node := treeBy [.minus, .plus, .over, .times] segment

/-- Nodes with a token of one kind between each two of them. -/
inductive Alternates (between : Token → Prop) : List Item → Prop where
  | one (n : Node) : Alternates between [.node n]
  | more {run : List Item} (n : Node) (t : Token) (sep : between t) (later : Alternates between run) :
      Alternates between (.node n :: .token t :: run)

variable {op : Operator} {ops : List Operator} {between : Token → Prop} {run rest out : List Item}

namespace Alternates

theorem mono {wider : Token → Prop} (h : Alternates between run) (widens : ∀ t, between t → wider t) :
    Alternates wider run := by
  induction h with
  | one n => exact .one n
  | more n t sep later ih => exact .more n t (widens t sep) ih

theorem starts (h : Alternates between run) : ∃ n more, run = .node n :: more := by
  cases h with
  | one n => exact ⟨n, [], rfl⟩
  | more n t sep later => exact ⟨n, _, rfl⟩

theorem ends (h : Alternates between run) : ∃ n, run.getLast? = some (.node n) := by
  induction h with
  | one n => exact ⟨n, rfl⟩
  | more n t sep later ih =>
    obtain ⟨last, found⟩ := ih
    exact ⟨last, by simp [List.getLast?_cons, found]⟩

theorem isChain_together (h : Alternates between run) : run.IsChain fun a b => together a b := by
  induction h with
  | one n => simp
  | more n t sep later ih =>
    obtain ⟨m, rest, rfl⟩ := later.starts
    simp [together, Item.isNode] at ih ⊢
    exact ih

/-- No token of such a run is what none of the tokens between its nodes is. -/
theorem not_any {p : Item → Bool} (h : Alternates between run) (node : ∀ n, p (.node n) = false)
    (token : ∀ t, between t → p (.token t) = false) : ∀ item ∈ run, p item = false := by
  induction h with
  | one n => simp [node]
  | more n t sep later ih => simpa [node, token t sep] using ih

/-- Cut at some of its tokens, such a run falls into such runs. -/
theorem splitOnP {p : Item → Bool} (h : Alternates between run) (node : ∀ n, p (.node n) = false) :
    ∀ piece ∈ run.splitOnP p, Alternates (fun t => between t ∧ p (.token t) = false) piece := by
  induction h with
  | one n =>
    have uncut : List.splitOnP p [.node n] = [[.node n]] := List.splitOnP_eq_singleton (by simp [node])
    simpa [uncut] using Alternates.one n
  | @more later n t sep rest ih =>
    rw [List.splitOnP_cons_eq_if_modifyHead, if_neg (by simp [node]), List.splitOnP_cons_eq_if_modifyHead]
    by_cases cut : p (.token t) = true
    · simpa [cut, Alternates.one] using ih
    · obtain ⟨first, others, pieces⟩ := List.exists_cons_of_ne_nil (List.splitOnP_ne_nil p later)
      rw [pieces] at ih ⊢
      have notCut : p (.token t) = false := by simpa using cut
      simp only [notCut, Bool.false_eq_true, if_false, List.modifyHead_cons, List.mem_cons, forall_eq_or_imp] at ih ⊢
      exact ⟨.more n t ⟨sep, notCut⟩ ih.1, ih.2⟩

end Alternates

/-- The first piece of a list that is cut is the whole list, or it ends at the first cut. -/
theorem splitOnP_eq_cons {α : Type} {p : α → Bool} {l piece : List α} {pieces : List (List α)}
    (h : l.splitOnP p = piece :: pieces) :
    l = piece ∧ pieces = [] ∨ ∃ sep after, p sep = true ∧ l = piece ++ sep :: after ∧ after.splitOnP p = pieces := by
  induction l generalizing piece with
  | nil =>
    rw [List.splitOnP_nil] at h
    cases h
    exact .inl ⟨rfl, rfl⟩
  | cons x l ih =>
    rw [List.splitOnP_cons_eq_if_modifyHead] at h
    by_cases cut : p x = true
    · rw [if_pos cut] at h
      cases h
      exact .inr ⟨x, l, cut, rfl, rfl⟩
    · obtain ⟨first, others, later⟩ := List.exists_cons_of_ne_nil (List.splitOnP_ne_nil p l)
      rw [if_neg cut, later] at h
      cases h
      rcases ih later with ⟨rfl, rfl⟩ | ⟨sep, after, isCut, rfl, pieces⟩
      · exact .inl ⟨rfl, rfl⟩
      · exact .inr ⟨sep, after, isCut, rfl, pieces⟩

theorem mapM_eq_some {α β : Type} {f : α → Option β} {l : List α} {results : List β} :
    l.mapM f = some results ↔ List.Forall₂ (fun a b => f a = some b) l results := by
  induction l generalizing results with
  | nil => cases results <;> simp
  | cons a l ih => cases results <;> simp [List.mapM_cons, Option.bind_eq_some_iff, ih]

theorem exists_mapM {α β : Type} {f : α → Option β} {l : List α} (each : ∀ a ∈ l, ∃ b, f a = some b) :
    ∃ results, l.mapM f = some results := by
  induction l with
  | nil => exact ⟨[], rfl⟩
  | cons a l ih =>
    obtain ⟨b, first⟩ := each a (by simp)
    obtain ⟨others, later⟩ := ih fun c member => each c (by simp [member])
    exact ⟨b :: others, by simp [List.mapM_cons, first, later]⟩

/-- An alternation of nodes and operators has a tree. -/
theorem exists_treeBy (h : Alternates (fun t => ∃ op ∈ ops, (Item.token t).isSymbol op = true) run) :
    ∃ n, treeBy ops run = some n := by
  induction ops generalizing run with
  | nil =>
    cases h with
    | one n => exact ⟨n, rfl⟩
    | more n t sep later => simp at sep
  | cons op tighter ih =>
    obtain ⟨trees, found⟩ := exists_mapM (l := run.splitOnP (·.isSymbol op)) (f := treeBy tighter) fun piece member =>
      ih ((h.splitOnP (p := (·.isSymbol op)) (fun n => rfl) piece member).mono fun t sep => by simpa [sep.2] using sep.1)
    cases trees with
    | nil =>
      have none := mapM_eq_some.mp found
      exact absurd (List.forall₂_nil_right_iff.mp none) (List.splitOnP_ne_nil _ run)
    | cons first others => exact ⟨_, by rw [treeBy, found]; rfl⟩

/-- A fold joins an alternation of nodes and its operator from the left. -/
theorem foldFrom_alternates (h : Alternates (fun t => (Item.token t).isSymbol op = true) run) (left first : Node)
    (same : run = .node first :: rest) :
    foldFrom op [.node left] rest = some [.node ((nodes rest).foldl (.binary op.symbol) left)] := by
  induction h generalizing left first rest with
  | one n =>
    cases same
    rfl
  | more n t sep later ih =>
    obtain ⟨right, after, rfl⟩ := later.starts
    cases same
    rw [foldFrom.eq_def]
    simpa [sep] using ih (.binary op.symbol left right) right rfl

theorem foldFrom_join {n : Node} (h : Alternates (fun t => (Item.token t).isSymbol op = true) run)
    (joined : join op (nodes run) = some n) : foldFrom op [] run = some [.node n] := by
  obtain ⟨first, rest, rfl⟩ := h.starts
  cases joined
  rw [foldFrom.eq_def]
  exact foldFrom_alternates h first first rfl

/-- Pieces that are each folded to a node leave these nodes with the tokens between them. -/
theorem foldAll_pieces {pieces : List (List Item)} {found : List Node} (loose : op ∉ ops)
    (cut : run.splitOnP (·.isSymbol op) = pieces)
    (folds : List.Forall₂ (fun piece n => foldAll ops piece = .ok [.node n]) pieces found) :
    ∃ out, foldAll ops run = .ok out ∧ Alternates (fun t => (Item.token t).isSymbol op = true) out ∧
      nodes out = found := by
  induction folds generalizing run with
  | nil => exact absurd cut (List.splitOnP_ne_nil _ run)
  | @cons piece n pieces found first later ih =>
    rcases splitOnP_eq_cons cut with ⟨rfl, rfl⟩ | ⟨sep, after, isOp, rfl, behind⟩
    · cases later
      exact ⟨[.node n], first, .one n, rfl⟩
    · obtain ⟨out, folded, alternates, same⟩ := ih behind
      cases sep with
      | node m => cases isOp
      | token t =>
        have notSymbol : ∀ other ∈ ops, (Item.token t).isSymbol other = false := by
          intro other listed
          by_contra isOther
          have same := Item.isSymbol_unique isOp (by simpa using isOther)
          exact loose (same ▸ listed)
        exact ⟨.node n :: .token t :: out, foldAll_around notSymbol first folded, .more n t isOp alternates,
          by rw [nodes_node, nodes_token, same]⟩

theorem treeBy_nil {n : Node} (h : treeBy [] run = some n) : run = [.node n] := by
  match run with
  | [.node m] =>
    cases h
    rfl
  | [] | [.token t] | _ :: _ :: _ => simp [treeBy] at h

/-- The folds, from the tightest operator to the loosest one, leave the tree. -/
theorem foldAll_of_treeBy {n : Node} (distinct : ops.Nodup) (h : treeBy ops run = some n) :
    foldAll ops.reverse run = .ok [.node n] := by
  induction ops generalizing run n with
  | nil => rw [treeBy_nil h]; rfl
  | cons op tighter ih =>
    rw [treeBy, Option.bind_eq_some_iff] at h
    obtain ⟨found, trees, joined⟩ := h
    obtain ⟨loose, distinct⟩ := List.nodup_cons.mp distinct
    have folds := (mapM_eq_some.mp trees).imp fun piece m => ih distinct
    obtain ⟨out, folded, alternates, same⟩ := foldAll_pieces (by simpa using loose) rfl folds
    have last : foldBy op out = .ok [.node n] := foldBy_eq_ok.mpr (foldFrom_join alternates (same ▸ joined))
    rw [List.reverse_cons, foldAll_append, folded, Outcome.ok_bind, foldAll_cons, last]
    rfl

example (a b c d : Node) : tree [.node a, .token ⟨.operator, "-", none⟩, .node b, .token ⟨.operator, "+", none⟩, .node c,
    .token ⟨.operator, "*", none⟩, .node d] = some (.binary "-" a (.binary "+" b (.binary "*" c d))) := by
  rfl

end Run
end Reckoner
