import Reckoner.Proofs.Node.Stage
import Reckoner.Proofs.Run.Segmented
/-!
# Tree shape of a reduced run

A run is well formed when every operator has a node on both sides, and when there is a comma or just one segment. Just
the well formed runs reduce, to the list of the trees of their segments or to the tree of the one segment. Any other
run is refused with the texts of its items; so where an item cannot be written out, it is this that fails
(`treeShaped_iff`). No node that comes of reading a formula is such an item (`Node.Formed.isWritable`).
-/
namespace Reckoner.Run

open Reckoner.Bracket (IsIrreducible)

variable {op : Operator} {ops : List Operator} {folded rest run out : List Item}

/-- Every operator has a node directly before and directly after it. -/
def Supplied (run : List Item) : Prop :=
  ∀ before t after, run = before ++ .token t :: after → t.kind = .operator →
    (∃ n, before.getLast? = some (.node n)) ∧ ∃ n, after.head? = some (.node n)

/-- A run that has the operands of its operators, and one place for its node. -/
structure WellFormed (run : List Item) : Prop where
  supplied : Supplied run
  /-- There is a comma, or just one segment. -/
  place : run.any isComma = true ∨ (segments run).length = 1

/-- What a run reduces to. -/
structure HasTrees (run : List Item) : Prop where
  /-- Just the well formed runs reduce to a node. -/
  accepted : (∃ n, reduce run = .ok n) ↔ WellFormed run
  /-- With a comma it is the list of the trees of the segments, in their order. -/
  list : WellFormed run → run.any isComma = true → ∃ trees, (segments run).mapM tree = some trees ∧
    reduce run = .ok (.constant (.tuple (trees.map .node)))
  /-- Without a comma it is the tree of the one segment. -/
  alone : WellFormed run → run.any isComma = false → ∃ segment n, segments run = [segment] ∧
    tree segment = some n ∧ reduce run = .ok n

/-- What a run reduces to, and that any other run is refused. -/
structure TreeShaped (run : List Item) : Prop extends HasTrees run where
  refused : ¬WellFormed run → IsIrreducible (reduce run)

/-- The operators have their operands when this is so for their marks. -/
theorem supplied_iff_marks (flat : ∀ item ∈ run, item.IsFlat) :
    Supplied run ↔ ∀ before after, run.map Item.mark = before ++ .operator :: after →
      before.getLast? = some .operand ∧ after.head? = some .operand := by
  constructor
  · intro operands before after split
    obtain ⟨before, behind, rfl, rfl, marks⟩ := List.map_eq_append_iff.mp split
    obtain ⟨item, after, rfl, isOperator, rfl⟩ := List.map_eq_cons_iff.mp marks
    cases item with
    | node n => cases isOperator
    | token t =>
      rcases flat (.token t) (by simp) with ⟨kind, -⟩ | ⟨kind, -⟩
      · obtain ⟨⟨left, last⟩, right, next⟩ := operands before t after rfl kind
        simp [last, next]
      · simp [Item.mark, kind] at isOperator
  · rintro operands before t after rfl kind
    obtain ⟨left, right⟩ := operands (before.map Item.mark) (after.map Item.mark) (by simp [Item.mark, kind])
    rw [List.getLast?_map, Option.map_eq_some_iff] at left
    rw [List.head?_map, Option.map_eq_some_iff] at right
    obtain ⟨last, found, operand⟩ := left
    obtain ⟨next, found', operand'⟩ := right
    obtain ⟨m, rfl⟩ := Item.mark_eq_operand operand
    obtain ⟨n, rfl⟩ := Item.mark_eq_operand operand'
    exact ⟨⟨m, found⟩, n, found'⟩

/-- A run whose operators have their operands falls into segments and commas, also behind another node, which is the one
operand that an operator at the start lacks. -/
theorem segmented_of_isChain {previous : Mark} (flat : ∀ item ∈ run, item.IsFlat)
    (chain : List.IsChain Mark.Joins (previous :: (run.map Item.mark ++ [.comma]))) :
    ((∀ item ∈ run.head?, item.mark ≠ .operator) → Segmented run) ∧ ∀ n, Segmented (.node n :: run) := by
  induction run generalizing previous with
  | nil => exact ⟨fun _ => .nil, fun n => .segment (.one n) .nil⟩
  | cons item rest ih =>
    rw [List.map_cons, List.cons_append, List.isChain_cons_cons] at chain
    obtain ⟨plain, behind⟩ := ih (fun other member => flat other (by simp [member])) chain.2
    cases item with
    | node m => exact ⟨fun _ => behind m, fun n => .segment (.one n) (behind m)⟩
    | token t =>
      rcases flat (.token t) (by simp) with ⟨kind, op, text⟩ | ⟨kind, text⟩
      · refine ⟨fun start => absurd (by simp [Item.mark, kind]) (start (.token t) rfl), fun n => ?_⟩
        have isOperator : t.isBinaryOperator = true := by
          simp [Token.isBinaryOperator, kind, text, Operator.ofSymbol?_symbol]
        -- the operand before the operator is `n`, the one behind it starts the rest
        cases rest with
        | nil => simp [Item.mark, kind, Mark.Joins] at chain
        | cons next rest =>
          have operand : next.mark = .operand := (List.isChain_cons_cons.mp chain.2).1.1 (by simp [Item.mark, kind])
          obtain ⟨m, rfl⟩ := Item.mark_eq_operand operand
          exact (plain (by simp)).operation isOperator
      · have comma : Segmented (.token t :: rest) := by
          refine .comma t kind text (plain fun next isFirst operator => ?_)
          obtain ⟨more, rfl⟩ := List.head?_eq_some_iff.mp isFirst
          have operand : (Item.token t).mark = .operand := (List.isChain_cons_cons.mp chain.2).1.2 operator
          simp [Item.mark, kind] at operand
        exact ⟨fun _ => comma, fun n => .segment (.one n) comma⟩

theorem Supplied.segmented (flat : ∀ item ∈ run, item.IsFlat) (h : Supplied run) : Segmented run := by
  have chain := (operators_iff_isChain _).mp ((supplied_iff_marks flat).mp h)
  refine (segmented_of_isChain flat chain).1 fun item isFirst operator => ?_
  obtain ⟨more, rfl⟩ := List.head?_eq_some_iff.mp isFirst
  simp [operator, Mark.Joins] at chain

/-- What a run of segments and commas reduces to. -/
theorem Segmented.reduces (flat : ∀ item ∈ run, item.IsFlat) (h : Segmented run) :
    ∃ trees, (segments run).mapM tree = some trees ∧
      (run.any isComma = true → reduce run = .ok (.constant (.tuple (trees.map .node)))) ∧
      (run.any isComma = false → ∀ n, reduce run = .ok n ↔ trees = [n]) := by
  obtain ⟨out, folds, trees, commas⟩ := h.folds
  have onlyCommas : ∀ t, .token t ∈ out → isComma (.token t) = true := fun t =>
    comma_of_folded flat (foldAll_folded flat folds)
  rw [reduce_eq_foldAll, folds, Outcome.ok_bind, ← commas]
  refine ⟨nodes out, trees, close_of_comma onlyCommas, fun none n => ?_⟩
  rw [congrArg close (eq_map_node_of_not_comma onlyCommas none), close_map_node]

theorem wellFormed_of_reduce {n : Node} (flat : ∀ item ∈ run, item.IsFlat) (h : reduce run = .ok n) :
    WellFormed run := by
  have supplied := (supplied_iff_marks flat).mpr ((reduce_isOk_iff flat).mp ⟨n, h⟩).operators
  refine ⟨supplied, ?_⟩
  cases comma : run.any isComma with
  | true => exact .inl rfl
  | false =>
    obtain ⟨trees, found, -, alone⟩ := (supplied.segmented flat).reduces flat
    have single : trees = [n] := (alone comma n).mp h
    exact .inr (by rw [(mapM_eq_some.mp found).length_eq, single]; rfl)

/-- A well formed run without a comma has one segment, and reduces to its tree. -/
theorem WellFormed.alone (flat : ∀ item ∈ run, item.IsFlat) (h : WellFormed run) (noComma : run.any isComma = false) :
    ∃ segment n, segments run = [segment] ∧ tree segment = some n ∧ reduce run = .ok n := by
  obtain ⟨trees, found, -, alone⟩ := (h.supplied.segmented flat).reduces flat
  have single : (segments run).length = 1 := by simpa [noComma] using h.place
  obtain ⟨segment, isOnly⟩ := List.length_eq_one_iff.mp single
  rw [isOnly, mapM_eq_some, List.forall₂_cons_left_iff] at found
  obtain ⟨n, others, isTree, noMore, rfl⟩ := found
  cases noMore
  exact ⟨segment, n, isOnly, isTree, (alone noComma n).mpr rfl⟩

theorem WellFormed.list (flat : ∀ item ∈ run, item.IsFlat) (h : WellFormed run) (comma : run.any isComma = true) :
    ∃ trees, (segments run).mapM tree = some trees ∧
      reduce run = .ok (.constant (.tuple (trees.map .node))) := by
  obtain ⟨trees, found, list, -⟩ := (h.supplied.segmented flat).reduces flat
  exact ⟨trees, found, list comma⟩

theorem hasTrees (flat : ∀ item ∈ run, item.IsFlat) : HasTrees run where
  list := WellFormed.list flat
  alone := WellFormed.alone flat
  accepted := by
    constructor
    · intro given
      obtain ⟨n, h⟩ := given
      exact wellFormed_of_reduce flat h
    · intro wellFormed
      cases comma : run.any isComma with
      | true =>
        obtain ⟨trees, -, h⟩ := wellFormed.list flat comma
        exact ⟨_, h⟩
      | false =>
        obtain ⟨segment, n, -, -, h⟩ := wellFormed.alone flat comma
        exact ⟨n, h⟩

/-- A run whose nodes can all be written out. -/
def IsWritable (run : List Item) : Prop := ∀ n, .node n ∈ run → n.IsWritable

theorem isWritable_of_describe {texts : List Text} (h : describe run = .ok texts) : IsWritable run := by
  induction run generalizing texts with
  | nil => simp [IsWritable]
  | cons item run ih =>
    intro n member
    cases item with
    | node m =>
      obtain ⟨t, written, rest⟩ := Outcome.bind_eq_ok.mp h
      obtain ⟨others, described, -⟩ := Outcome.bind_eq_ok.mp rest
      rcases List.mem_cons.mp member with same | inside
      · cases same
        exact ⟨t, written⟩
      · exact ih described n inside
    | token t =>
      obtain ⟨others, described, -⟩ := Outcome.bind_eq_ok.mp h
      exact ih described n (by simpa using member)

theorem describe_pastReading (run : List Item) : (describe run).PastReading := by
  induction run with
  | nil => exact .ok _
  | cons item run ih =>
    cases item with
    | node n => exact n.render_pastReading.bind fun _ => ih.map _
    | token t => exact ih.map _

/-- A refusal that describes a run names its items, so they can be written out. -/
theorem isWritable_of_refusal {α : Type} {next : List Text → Outcome α} {texts : List Text} {lacking : Option Operator}
    (h : describe run >>= next = .error (.formula (.irreducible texts lacking))) : IsWritable run := by
  cases described : describe run with
  | ok texts => exact isWritable_of_describe described
  | error fault =>
    rw [described] at h
    cases h
    exact absurd ⟨_, rfl, rfl⟩ (describe_pastReading run _ described)

theorem isWritable_of_binary {op : Text} {left right : Node} (h : (Node.binary op left right).IsWritable) :
    left.IsWritable ∧ right.IsWritable := by
  obtain ⟨t, written⟩ := h
  rw [Node.render_binary] at written
  obtain ⟨l, leftWritten, rest⟩ := Outcome.bind_eq_ok.mp written
  obtain ⟨r, rightWritten, -⟩ := Outcome.bind_eq_ok.mp rest
  exact ⟨⟨l, leftWritten⟩, r, rightWritten⟩

/-- A fold leaves a node that cannot be written out where there was one. -/
theorem isWritable_of_foldFrom (h : foldFrom op folded rest = some out) (writable : IsWritable out) :
    IsWritable (folded ++ rest) := by
  fun_induction foldFrom op folded rest with
  | case1 folded =>
    cases h
    simpa [IsWritable] using writable
  | case2 item isOp left before right after ih =>
    have folded := ih h
    have operands := isWritable_of_binary (folded (.binary op.symbol left right) (by simp))
    intro n member
    have : n = left ∨ n = right ∨ .node n ∈ before ∨ .node n ∈ after := by
      cases item with
      | node m => cases isOp
      | token t => simpa [or_left_comm] using member
    rcases this with rfl | rfl | inside | inside
    · exact operands.1
    · exact operands.2
    · exact folded n (by simp [inside])
    · exact folded n (by simp [inside])
  | case3 => cases h
  | case4 folded item rest notOp ih =>
    intro n member
    exact ih h n (by simpa [or_left_comm] using member)

theorem isWritable_of_foldAll (h : foldAll ops run = .ok out) (writable : IsWritable out) : IsWritable run := by
  induction ops generalizing run with
  | nil =>
    cases h
    exact writable
  | cons op ops ih =>
    obtain ⟨middle, fold, rest⟩ := Outcome.bind_eq_ok.mp (foldAll_cons op ops run ▸ h)
    exact isWritable_of_foldFrom (foldBy_eq_ok.mp fold) (ih rest)

theorem isWritable_of_foldAll_error {texts : List Text} {lacking : Option Operator}
    (h : foldAll ops run = .error (.formula (.irreducible texts lacking))) : IsWritable run := by
  induction ops generalizing run with
  | nil => cases h
  | cons op ops ih =>
    rw [foldAll_cons] at h
    cases fold : foldFrom op [] run with
    | some middle =>
      rw [foldBy_eq_ok.mpr fold] at h
      exact isWritable_of_foldFrom fold (ih h)
    | none =>
      rw [foldBy, fold, bind_assoc] at h
      exact isWritable_of_refusal h

/-- A run that is refused has only nodes that can be written out. -/
theorem isWritable_of_irreducible (h : IsIrreducible (reduce run)) : IsWritable run := by
  obtain ⟨texts, lacking, refused⟩ := h
  rw [reduce_eq_foldAll] at refused
  cases folds : foldAll Operator.foldOrder run with
  | error fault =>
    rw [folds] at refused
    cases refused
    exact isWritable_of_foldAll_error folds
  | ok out =>
    rw [folds, Outcome.ok_bind, close.eq_def] at refused
    refine isWritable_of_foldAll folds ?_
    split at refused
    · cases refused
    · split at refused
      · cases refused
      · exact isWritable_of_refusal refused

/-- Just the runs that are well formed reduce, to the trees of their segments; and the others are refused just when
their nodes can be written out. -/
theorem treeShaped_iff (flat : ∀ item ∈ run, item.IsFlat) :
    HasTrees run ∧ (TreeShaped run ↔ WellFormed run ∨ IsWritable run) := by
  have trees := hasTrees flat
  refine ⟨trees, fun shaped => ?_, fun given => ⟨trees, fun notWellFormed => ?_⟩⟩
  · by_cases wellFormed : WellFormed run
    · exact .inl wellFormed
    · exact .inr (isWritable_of_irreducible (shaped.refused wellFormed))
  · have writable := given.resolve_left notWellFormed
    cases outcome : reduce run with
    | ok n => exact absurd (trees.accepted.mp ⟨n, outcome⟩) notWellFormed
    | error fault =>
      obtain ⟨texts, lacking, rfl⟩ := reduce_error flat writable outcome
      exact ⟨texts, lacking, rfl⟩

theorem treeShaped_iff_difference :
    (∀ item ∈ [Item.node (.property "a"), .token ⟨.operator, "-", none⟩, .node (.property "b")], item.IsFlat) ∧
      TreeShaped [.node (.property "a"), .token ⟨.operator, "-", none⟩, .node (.property "b")] := by
  have flat : ∀ item ∈ [Item.node (.property "a"), .token ⟨.operator, "-", none⟩, .node (.property "b")],
      item.IsFlat := by
    simp only [List.mem_cons, List.not_mem_nil, or_false, forall_eq_or_imp, forall_eq]
    exact ⟨trivial, .inl ⟨rfl, .minus, rfl⟩, trivial⟩
  have writable : IsWritable [.node (.property "a"), .token ⟨.operator, "-", none⟩, .node (.property "b")] :=
    isWritable_of_describe rfl
  exact ⟨flat, (treeShaped_iff flat).2.mpr (.inr writable)⟩

/-- Two nodes beside each other are refused with their texts, which fails when one is a list of something else than
trees. -/
theorem not_treeShaped_numbers :
    (∀ item ∈ [Item.node (.constant (.tuple [.int 1])), .node (.constant (.int 1))], item.IsFlat) ∧
      ¬TreeShaped [.node (.constant (.tuple [.int 1])), .node (.constant (.int 1))] := by
  refine ⟨List.forall_mem_cons.mpr ⟨trivial, by simp⟩, fun shaped => ?_⟩
  have notWellFormed : ¬WellFormed [.node (.constant (.tuple [.int 1])), .node (.constant (.int 1))] := by
    intro wellFormed
    rcases wellFormed.place with comma | single
    · cases comma
    · cases single
  have refused := shaped.refused notWellFormed
  obtain ⟨t, written⟩ := isWritable_of_irreducible refused (.constant (.tuple [.int 1])) List.mem_cons_self
  cases written

end Reckoner.Run
