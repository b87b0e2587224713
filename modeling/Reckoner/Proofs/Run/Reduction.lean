import Reckoner.Item.Run
import Reckoner.Proofs.Node.Writable
import Reckoner.Proofs.Run.Reducible
/-!
# When a run reduces, and what holds of the node

The reduction of a run of nodes, operators and commas succeeds exactly when its marks are reducible
(`reduce_isOk_iff`). Each fold keeps reducibility, and an operator without an operand at some fold was without one
from the start. A property of nodes that operations, calls and argument lists inherit from their parts is inherited
by the node of a run (`reduce_inherits`).
-/
namespace Reckoner

namespace Item

/-- What an item that is no bracket is to the reduction. -/
def mark : Item → Mark
  | .node _ => .operand
  | .token t => if t.kind = .comma then .comma else .operator

/-- An item that a run is made of: a node, a token of one of the four operators, or a comma. -/
def IsFlat : Item → Prop
  | .node _ => True
  | .token t => t.kind = .operator ∧ (∃ op : Operator, t.text = op.symbol) ∨ t.kind = .comma ∧ t.text = [.scalar ',']

@[simp] theorem mark_node (n : Node) : (Item.node n).mark = .operand := rfl

@[simp] theorem isFlat_node (n : Node) : (Item.node n).IsFlat := trivial

theorem mark_eq_operand {item : Item} (h : item.mark = .operand) : ∃ n, item = .node n := by
  cases item with
  | node n => exact ⟨n, rfl⟩
  | token t =>
    simp only [mark] at h
    split at h <;> cases h

theorem mark_of_isSymbol {item : Item} {op : Operator} (flat : item.IsFlat) (h : item.isSymbol op = true) :
    item.mark = .operator := by
  cases item with
  | node n => cases h
  | token t =>
    rcases flat with ⟨kind, -⟩ | ⟨-, text⟩
    · simp [mark, kind]
    · have : t.text = op.symbol := by simpa [isSymbol, Token.isSymbol] using h
      rw [text] at this
      cases op <;> cases this

/-- A flat token that is none of the operators is a comma. -/
theorem isKind_comma_of_isFlat {t : Token} (flat : (Item.token t).IsFlat)
    (h : ∀ op, (Item.token t).isSymbol op = false) : (Item.token t).isKind .comma = true := by
  rcases flat with ⟨-, op, text⟩ | ⟨kind, -⟩
  · have : (Item.token t).isSymbol op = true := by simp [isSymbol, Token.isSymbol, text]
    rw [h op] at this
    cases this
  · simp [isKind, kind]

end Item

namespace Run

variable {op : Operator} {folded rest out : List Item}

/-- A fold that goes through neither makes nor breaks reducibility. -/
theorem foldFrom_reducible (flat : ∀ item ∈ rest, item.IsFlat) (h : foldFrom op folded rest = some out) :
    Reducible (out.map Item.mark) ↔ Reducible ((folded.reverse ++ rest).map Item.mark) := by
  fun_induction foldFrom op folded rest with
  | case1 folded =>
    cases h
    simp
  | case2 item isOp left before right after ih =>
    have contracted := reducible_contract (before.map Item.mark).reverse (after.map Item.mark)
    rw [ih (fun i m => flat i (by simp [m])) h]
    simpa [Item.mark_of_isSymbol (flat item (by simp)) isOp] using contracted.symm
  | case3 => cases h
  | case4 folded item rest notOp ih =>
    rw [ih (fun i m => flat i (by simp [m])) h]
    simp

/-- A fold that stops has met an operator without an operand on one of its sides. -/
theorem not_reducible_of_foldFrom (flat : ∀ item ∈ rest, item.IsFlat) (h : foldFrom op folded rest = none) :
    ¬Reducible ((folded.reverse ++ rest).map Item.mark) := by
  fun_induction foldFrom op folded rest with
  | case1 => cases h
  | case2 item isOp left before right after ih =>
    have contracted := reducible_contract (before.map Item.mark).reverse (after.map Item.mark)
    have stuck := ih (fun i m => flat i (by simp [m])) h
    simpa [Item.mark_of_isSymbol (flat item (by simp)) isOp, contracted] using stuck
  | case3 folded item rest isOp lacking =>
    intro reducible
    obtain ⟨left, right⟩ := reducible.operators (folded.reverse.map Item.mark) (rest.map Item.mark)
      (by simp [Item.mark_of_isSymbol (flat item (by simp)) isOp])
    cases folded with
    | nil => cases left
    | cons last folded =>
      cases rest with
      | nil => cases right
      | cons next rest =>
        obtain ⟨m, rfl⟩ : ∃ m, last = .node m := Item.mark_eq_operand (by simpa using left)
        obtain ⟨n, rfl⟩ : ∃ n, next = .node n := Item.mark_eq_operand (by simpa using right)
        exact lacking m folded n rest rfl rfl
  | case4 folded item rest notOp ih =>
    have stuck := ih (fun i m => flat i (by simp [m])) h
    simpa using stuck

/-- The tokens a fold leaves were there before, and none of them is its operator. -/
theorem token_of_foldFrom (h : foldFrom op folded rest = some out) {t : Token} (member : .token t ∈ out) :
    .token t ∈ folded ∨ .token t ∈ rest ∧ (Item.token t).isSymbol op = false := by
  fun_induction foldFrom op folded rest with
  | case1 folded =>
    cases h
    exact .inl (by simpa using member)
  | case2 item isOp left before right after ih =>
    rcases ih h with old | ⟨new, notOp⟩
    · exact .inl (by simpa using old)
    · exact .inr ⟨by simp [new], notOp⟩
  | case3 => cases h
  | case4 folded item rest notOp ih =>
    rcases ih h with old | ⟨new, other⟩
    · rcases List.mem_cons.mp old with rfl | old
      · exact .inr ⟨by simp, by simpa using notOp⟩
      · exact .inl old
    · exact .inr ⟨by simp [new], other⟩

theorem node_of_foldFrom {P : Node → Prop} (inherited : Node.Inherited P)
    (before : ∀ n, .node n ∈ folded → P n) (ahead : ∀ n, .node n ∈ rest → P n)
    (h : foldFrom op folded rest = some out) {n : Node} (member : .node n ∈ out) : P n := by
  fun_induction foldFrom op folded rest with
  | case1 folded =>
    cases h
    exact before n (by simpa using member)
  | case2 item isOp left done right after ih =>
    refine ih ?_ (fun m inside => ahead m (by simp [inside])) h
    intro m inside
    rcases List.mem_cons.mp inside with same | inside
    · cases same
      exact inherited.binary op left right (before left (by simp)) (ahead right (by simp))
    · exact before m (by simp [inside])
  | case3 => cases h
  | case4 folded item rest notOp ih =>
    refine ih ?_ (fun m inside => ahead m (by simp [inside])) h
    intro m inside
    rcases List.mem_cons.mp inside with rfl | inside
    · exact ahead m (by simp)
    · exact before m inside

/-- The folds by several operators, one after the other. -/
def foldAll (ops : List Operator) (run : List Item) : Outcome (List Item) :=
  ops.foldlM (fun run op => foldBy op run) run

theorem foldAll_cons (op : Operator) (ops : List Operator) (run : List Item) :
    foldAll (op :: ops) run = foldBy op run >>= foldAll ops := rfl

theorem foldAll_append (ops more : List Operator) (run : List Item) :
    foldAll (ops ++ more) run = foldAll ops run >>= foldAll more := List.foldlM_append

theorem reduce_eq_foldAll (run : List Item) : reduce run = foldAll Operator.foldOrder run >>= close := rfl

theorem foldBy_eq_ok {run out : List Item} : foldBy op run = .ok out ↔ foldFrom op [] run = some out := by
  unfold foldBy
  cases foldFrom op [] run with
  | some folded => simp
  | none =>
    cases describe run with
    | ok texts => simp [Outcome.fail]
    | error e => simp

/-- What folds that all go through keep, and what they take away. -/
structure Folded (ops : List Operator) (run out : List Item) : Prop where
  reducible : Reducible (out.map Item.mark) ↔ Reducible (run.map Item.mark)
  token : ∀ t, .token t ∈ out → .token t ∈ run ∧ ∀ op ∈ ops, (Item.token t).isSymbol op = false
  node : ∀ P, Node.Inherited P → (∀ n, .node n ∈ run → P n) → ∀ n, .node n ∈ out → P n

theorem foldFrom_folded {run out : List Item} (flat : ∀ item ∈ run, item.IsFlat)
    (h : foldFrom op [] run = some out) : Folded [op] run out where
  reducible := foldFrom_reducible flat h
  token t member := by
    rcases token_of_foldFrom h member with old | ⟨new, notOp⟩
    · cases old
    · exact ⟨new, by simpa using notOp⟩
  node P inherited parts n member := node_of_foldFrom inherited (by simp) parts h member

theorem Folded.trans {ops more : List Operator} {run middle out : List Item} (first : Folded ops run middle)
    (second : Folded more middle out) : Folded (ops ++ more) run out where
  reducible := second.reducible.trans first.reducible
  token t member := by
    obtain ⟨inMiddle, notMore⟩ := second.token t member
    obtain ⟨inRun, notOps⟩ := first.token t inMiddle
    refine ⟨inRun, fun op listed => ?_⟩
    rcases List.mem_append.mp listed with early | late
    · exact notOps op early
    · exact notMore op late
  node P inherited parts := second.node P inherited (first.node P inherited parts)

theorem Folded.flat {ops : List Operator} {run out : List Item} (h : Folded ops run out)
    (flat : ∀ item ∈ run, item.IsFlat) : ∀ item ∈ out, item.IsFlat := by
  intro item member
  cases item with
  | node n => trivial
  | token t => exact flat _ (h.token t member).1

theorem foldAll_folded {ops : List Operator} {run out : List Item} (flat : ∀ item ∈ run, item.IsFlat)
    (h : foldAll ops run = .ok out) : Folded ops run out := by
  induction ops generalizing run with
  | nil =>
    cases h
    exact ⟨Iff.rfl, fun t member => ⟨member, by simp⟩, fun P _ parts => parts⟩
  | cons op ops ih =>
    obtain ⟨middle, fold, rest⟩ := Outcome.bind_eq_ok.mp (foldAll_cons op ops run ▸ h)
    have first := foldFrom_folded flat (foldBy_eq_ok.mp fold)
    exact first.trans (ih (first.flat flat) rest)

/-- A reducible run meets no obstacle at any fold. -/
theorem foldAll_isOk {ops : List Operator} {run : List Item} (flat : ∀ item ∈ run, item.IsFlat)
    (reducible : Reducible (run.map Item.mark)) : ∃ out, foldAll ops run = .ok out := by
  induction ops generalizing run with
  | nil => exact ⟨run, rfl⟩
  | cons op ops ih =>
    cases fold : foldFrom op [] run with
    | none => exact absurd reducible (not_reducible_of_foldFrom flat fold)
    | some middle =>
      have first := foldFrom_folded flat fold
      obtain ⟨out, rest⟩ := ih (first.flat flat) (first.reducible.mpr reducible)
      exact ⟨out, by rw [foldAll_cons, foldBy_eq_ok.mpr fold, Outcome.ok_bind, rest]⟩

/-- After the folds by all operators only commas are left beside the nodes. -/
theorem comma_of_folded {run out : List Item} (flat : ∀ item ∈ run, item.IsFlat)
    (h : Folded Operator.foldOrder run out) {t : Token} (member : .token t ∈ out) : isComma (.token t) = true := by
  obtain ⟨inRun, noOperator⟩ := h.token t member
  exact Item.isKind_comma_of_isFlat (flat _ inRun) fun op => noOperator op (Operator.mem_foldOrder op)

/-- The nodes of a run in order. -/
def nodes (run : List Item) : List Node := run.filterMap Item.node?

@[simp] theorem nodes_node (n : Node) (run : List Item) : nodes (.node n :: run) = n :: nodes run := rfl

@[simp] theorem nodes_token (t : Token) (run : List Item) : nodes (.token t :: run) = nodes run := rfl

theorem mem_nodes {run : List Item} {n : Node} : n ∈ nodes run ↔ .node n ∈ run := by
  rw [nodes, List.mem_filterMap]
  constructor
  · intro given
    obtain ⟨item, member, isNode⟩ := given
    cases item with
    | node m =>
      cases isNode
      exact member
    | token t => cases isNode
  · exact fun member => ⟨.node n, member, rfl⟩

/-- Between nodes and commas, what is no comma is a node. -/
theorem toValue_notComma {run : List Item} (commas : ∀ t, .token t ∈ run → isComma (.token t) = true) :
    (run.filter fun item => !isComma item).map Item.toValue = (nodes run).map .node := by
  induction run with
  | nil => rfl
  | cons item run ih =>
    have ahead := ih fun t member => commas t (by simp [member])
    cases item with
    | node n => simpa [nodes, isComma, Item.isKind, Item.toValue, Item.node?] using ahead
    | token t =>
      rw [List.filter_cons_of_neg (by simp [commas t (by simp)]), nodes, List.filterMap_cons_none rfl]
      exact ahead

/-- A run with a comma in it closes to the list of its nodes. -/
theorem close_of_comma {run : List Item} (commas : ∀ t, .token t ∈ run → isComma (.token t) = true)
    (h : run.any isComma = true) : close run = .ok (.constant (.tuple ((nodes run).map .node))) := by
  rw [close.eq_def, if_pos h, toValue_notComma commas]

/-- Without a comma there are only nodes. -/
theorem eq_map_node_of_not_comma {run : List Item} (commas : ∀ t, .token t ∈ run → isComma (.token t) = true)
    (h : run.any isComma = false) : run = (nodes run).map .node := by
  induction run with
  | nil => rfl
  | cons item run ih =>
    simp only [List.any_cons, Bool.or_eq_false_iff] at h
    cases item with
    | node n => simpa [nodes, Item.node?] using ih (fun t member => commas t (by simp [member])) h.2
    | token t => simp [commas t (by simp)] at h

theorem mark_eq_comma_iff (item : Item) : item.mark = .comma ↔ isComma item = true := by
  cases item with
  | node n => simp [isComma, Item.isKind]
  | token t =>
    by_cases kind : t.kind = .comma <;> simp [Item.mark, isComma, Item.isKind, kind]

theorem comma_mem_marks_iff (run : List Item) : Mark.comma ∈ run.map Item.mark ↔ run.any isComma = true := by
  simp [mark_eq_comma_iff]

/-- Nodes alone close when there is one of them. -/
theorem close_map_node {found : List Node} {n : Node} : close (found.map .node) = .ok n ↔ found = [n] := by
  have noComma : (found.map Item.node).any isComma = false := by simp [isComma, Item.isKind]
  unfold close
  rw [if_neg (by simp [noComma])]
  match found with
  | [] => simp [describe, Outcome.fail]
  | [m] => simp
  | first :: second :: others =>
    simp only [List.map_cons]
    cases describe (.node first :: .node second :: others.map .node) <;> simp [Outcome.fail]

theorem map_mark_node (found : List Node) :
    (found.map Item.node).map Item.mark = List.replicate found.length .operand := by
  rw [List.map_map]
  exact List.map_const'

theorem reducible_replicate (count : Nat) : Reducible (List.replicate count .operand) ↔ count = 1 := by
  constructor
  · rintro ⟨-, comma | ⟨nonempty, apart⟩⟩
    · simp at comma
    · match count with
      | 0 => simp at nonempty
      | 1 => rfl
      | more + 2 => exact absurd rfl (apart [] (List.replicate more .operand))
  · rintro rfl
    refine ⟨fun before after split => ?_, .inr ⟨by simp, fun before after split => ?_⟩⟩
    · have : Mark.operator ∈ List.replicate 1 Mark.operand := by simp [split]
      simp at this
    · have := congrArg List.length split
      simp at this
      omega

/-- What is left after the folds closes exactly when it is reducible. -/
theorem close_isOk_iff {run : List Item} (commas : ∀ t, .token t ∈ run → isComma (.token t) = true) :
    (∃ n, close run = .ok n) ↔ Reducible (run.map Item.mark) := by
  cases comma : run.any isComma with
  | true =>
    refine ⟨fun _ => ⟨?_, .inl ((comma_mem_marks_iff run).mpr comma)⟩, fun _ => ⟨_, close_of_comma commas comma⟩⟩
    intro before after split
    have : Mark.operator ∈ run.map Item.mark := by simp [split]
    obtain ⟨item, member, isOperator⟩ := List.mem_map.mp this
    cases item with
    | node n => cases isOperator
    | token t =>
      have isComma := (mark_eq_comma_iff _).mpr (commas t member)
      rw [isOperator] at isComma
      cases isComma
  | false =>
    rw [eq_map_node_of_not_comma commas comma, map_mark_node, reducible_replicate]
    simp only [close_map_node]
    exact List.length_eq_one_iff.symm

/-- The reduction of a run succeeds exactly when its marks are reducible. -/
theorem reduce_isOk_iff {run : List Item} (flat : ∀ item ∈ run, item.IsFlat) :
    (∃ n, reduce run = .ok n) ↔ Reducible (run.map Item.mark) := by
  rw [reduce_eq_foldAll]
  constructor
  · intro given
    obtain ⟨n, h⟩ := given
    obtain ⟨out, folds, closed⟩ := Outcome.bind_eq_ok.mp h
    have folded := foldAll_folded flat folds
    exact folded.reducible.mp ((close_isOk_iff fun t => comma_of_folded flat folded).mp ⟨n, closed⟩)
  · intro reducible
    obtain ⟨out, folds⟩ := foldAll_isOk flat reducible
    have folded := foldAll_folded flat folds
    rw [folds]
    exact (close_isOk_iff fun t => comma_of_folded flat folded).mpr (folded.reducible.mpr reducible)

/-- The node of a run has every property that is inherited from the nodes of the run. -/
theorem reduce_inherits {P : Node → Prop} (inherited : Node.Inherited P) {run : List Item}
    (flat : ∀ item ∈ run, item.IsFlat) (parts : ∀ n, .node n ∈ run → P n) {n : Node} (h : reduce run = .ok n) :
    P n := by
  obtain ⟨out, folds, closed⟩ := Outcome.bind_eq_ok.mp (reduce_eq_foldAll run ▸ h)
  have folded := foldAll_folded flat folds
  have commas := fun t => comma_of_folded (t := t) flat folded
  have outParts := folded.node P inherited parts
  cases comma : out.any isComma with
  | true =>
    rw [close_of_comma commas comma] at closed
    cases closed
    exact inherited.list (nodes out) fun m member => outParts m (mem_nodes.mp member)
  | false =>
    rw [eq_map_node_of_not_comma commas comma] at closed
    have single := close_map_node.mp closed
    exact outParts n (mem_nodes.mp (by simp [single]))

/-- A run of nodes that can be written out can be described. -/
theorem describe_isOk {run : List Item} (writable : ∀ n, .node n ∈ run → n.IsWritable) :
    ∃ texts, describe run = .ok texts := by
  induction run with
  | nil => exact ⟨[], rfl⟩
  | cons item run ih =>
    obtain ⟨others, described⟩ := ih fun n member => writable n (by simp [member])
    cases item with
    | node n =>
      obtain ⟨t, written⟩ := writable n (by simp)
      exact ⟨t :: others, by simp [describe, written, described]⟩
    | token t => exact ⟨t.text :: others, by simp [describe, described]⟩

theorem foldAll_error {ops : List Operator} {run : List Item} (flat : ∀ item ∈ run, item.IsFlat)
    (writable : ∀ n, .node n ∈ run → n.IsWritable) {fault : Fault} (h : foldAll ops run = .error fault) :
    ∃ texts lacking, fault = .formula (.irreducible texts lacking) := by
  induction ops generalizing run with
  | nil => cases h
  | cons op ops ih =>
    rw [foldAll_cons] at h
    cases fold : foldFrom op [] run with
    | some middle =>
      have first := foldFrom_folded flat fold
      rw [foldBy_eq_ok.mpr fold] at h
      exact ih (first.flat flat) (first.node _ Node.isWritable_inherited writable) h
    | none =>
      obtain ⟨texts, described⟩ := describe_isOk writable
      have stopped : foldBy op run = Outcome.fail (.irreducible texts (some op)) := by
        simp only [foldBy, fold, described, Outcome.ok_bind]
      rw [stopped] at h
      cases h
      exact ⟨texts, some op, rfl⟩

theorem close_error {run : List Item} (writable : ∀ n, .node n ∈ run → n.IsWritable) {fault : Fault}
    (h : close run = .error fault) : ∃ texts lacking, fault = .formula (.irreducible texts lacking) := by
  unfold close at h
  split at h
  · cases h
  · split at h
    · cases h
    · obtain ⟨texts, described⟩ := describe_isOk writable
      rw [described] at h
      cases h
      exact ⟨texts, none, rfl⟩

/-- The reduction of nodes that can be written out has no other way to fail than by the run itself. -/
theorem reduce_error {run : List Item} (flat : ∀ item ∈ run, item.IsFlat)
    (writable : ∀ n, .node n ∈ run → n.IsWritable) {fault : Fault} (h : reduce run = .error fault) :
    ∃ texts lacking, fault = .formula (.irreducible texts lacking) := by
  rw [reduce_eq_foldAll] at h
  cases folds : foldAll Operator.foldOrder run with
  | error e =>
    rw [folds] at h
    cases h
    exact foldAll_error flat writable folds
  | ok out =>
    rw [folds, Outcome.ok_bind] at h
    have folded := foldAll_folded flat folds
    exact close_error (folded.node _ Node.isWritable_inherited writable) h

theorem foldFrom_of_not_symbol {op : Operator} {rest : List Item} (folded : List Item)
    (plain : ∀ item ∈ rest, item.isSymbol op = false) : foldFrom op folded rest = some (folded.reverse ++ rest) := by
  induction rest generalizing folded with
  | nil => simp [foldFrom]
  | cons item rest ih =>
    rw [foldFrom.eq_def]
    simp only [plain item (by simp), Bool.false_eq_true, if_false]
    rw [ih (item :: folded) fun i m => plain i (by simp [m])]
    simp

/-- Without operators the folds change nothing. -/
theorem reduce_of_not_symbol {run : List Item} (plain : ∀ op, ∀ item ∈ run, item.isSymbol op = false) :
    reduce run = close run := by
  have folds : ∀ ops : List Operator, foldAll ops run = .ok run := by
    intro ops
    induction ops with
    | nil => rfl
    | cons op ops ih =>
      have fold : foldBy op run = .ok run := foldBy_eq_ok.mpr (by simpa using foldFrom_of_not_symbol [] (plain op))
      rw [foldAll_cons, fold, Outcome.ok_bind, ih]
  rw [reduce_eq_foldAll, folds, Outcome.ok_bind]

@[simp] theorem reduce_node (n : Node) : reduce [.node n] = .ok n := by
  rw [reduce_of_not_symbol (by simp [Item.isSymbol])]
  simp [close, isComma, Item.isKind]

/-- One operation between two nodes. -/
theorem reduce_operation (left right : Node) {t : Token} {op : Operator} (text : t.text = op.symbol) :
    reduce [.node left, .token t, .node right] = .ok (.binary op.symbol left right) := by
  have folded : foldAll Operator.foldOrder [.node left, .token t, .node right] =
      .ok [.node (.binary op.symbol left right)] := by
    cases op <;>
      simp [foldAll, Operator.foldOrder, foldBy, foldFrom, Item.isSymbol, Token.isSymbol, text, Operator.symbol,
        Operator.sign]
  rw [reduce_eq_foldAll, folded, Outcome.ok_bind]
  simp [close, isComma, Item.isKind]

end Run
end Reckoner
