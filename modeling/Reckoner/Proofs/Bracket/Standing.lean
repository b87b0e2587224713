import Reckoner.Proofs.Bracket.Verdict
import Reckoner.Proofs.Node.Reread
/-!
# Items that stand for a tree

The items of a rendering, read where an operand is due, push the node that the tree reads back as onto the run
(`Stands`). Between the brackets of a rendering they leave a run that reduces to this node (`Fills`). Where nothing
can be read back, the items hold a pair that does not reduce, or, for negative infinity alone, a minus sign that lacks
an operand and spoils the pair around it.
-/
namespace Reckoner

/-- Some operator has no operand before it. -/
def Lacking (marks : List Mark) : Prop :=
  ∃ before after, marks = before ++ .operator :: after ∧ before.getLast? ≠ some .operand

namespace Lacking

variable {marks : List Mark}

theorem not_reducible (h : Lacking marks) : ¬Reducible marks := by
  obtain ⟨before, after, split, bare⟩ := h
  exact fun reducible => bare (reducible.operators before after split).1

theorem append (h : Lacking marks) (more : List Mark) : Lacking (marks ++ more) := by
  obtain ⟨before, after, rfl, bare⟩ := h
  exact ⟨before, after ++ more, by simp, bare⟩

/-- Behind an operator or a comma the lack stays. -/
theorem behind (h : Lacking marks) (earlier : List Mark) {mark : Mark} (notOperand : mark ≠ .operand) :
    Lacking (earlier ++ mark :: marks) := by
  obtain ⟨before, after, rfl, bare⟩ := h
  refine ⟨earlier ++ mark :: before, after, by simp, ?_⟩
  rw [List.getLast?_append, List.getLast?_cons]
  cases last : before.getLast? with
  | none => simpa using notOperand
  | some final => simpa [last] using bare

end Lacking

namespace Bracket

theorem lastName_append {first : List Item} (unnamed : lastName first = none) (second : List Item) :
    lastName (first ++ second) = lastName second := by
  rcases List.eq_nil_or_concat second with rfl | ⟨init, last, rfl⟩
  · rw [List.append_nil, unnamed]
    rfl
  · rw [List.concat_eq_append, ← List.append_assoc, lastName_concat, lastName_concat]

/-- Balanced items behind balanced items that do not end with a name. -/
theorem Balanced.append {first second : List Item} {marks more : List Mark} (before : Balanced first marks)
    (unnamed : lastName first = none) (behind : Balanced second more) :
    Balanced (first ++ second) (marks ++ more) := by
  induction behind with
  | nil => simpa using before
  | plain item earlier notOpening notClosing ih =>
    simpa using ih.plain item notOpening notClosing
  | group t u earlier ends opening inside closing ih _ =>
    have joined := ih.group t u (by rw [lastName_append unnamed, ends]) opening inside closing
    simpa using joined
  | call t u name earlier ends opening inside closing ih _ =>
    have joined := ih.call t u name (by rw [lastName_append unnamed, ends]) opening inside closing
    simpa using joined

/-- A rendered tree is one operand, apart from negative infinity, before which the sign stays an operator. -/
def outerMarks : Node → List Mark
  | .constant (.float (.infinite true)) => [.operator, .operand]
  | _ => [.operand]

/-- Items that push what a tree reads back as onto the run. -/
structure Stands (n : Node) (items : List Item) : Prop where
  balanced : Balanced items (outerMarks n)
  read : ∀ u, n.reread = some u → ∀ p : Progress, p.name = none →
    ∃ name, p.read items = .ok { p with run := .node u :: p.run, name := name }
  stuck : n.reread = none → Spoiled items ∨ Lacking (outerMarks n)

/-- Items that leave a run which reduces to what a tree reads back as. -/
structure Fills (n : Node) (items : List Item) : Prop where
  balanced : ∃ marks, Balanced items marks ∧ (n.reread = none → Spoiled items ∨ ¬Reducible marks)
  read : ∀ u, n.reread = some u → ∀ p : Progress, p.name = none →
    ∃ run name, p.read items = .ok { p with run := run.reverse ++ p.run, name := name } ∧ Run.reduce run = .ok u

variable {n left right args : Node} {items inner : List Item} {t u : Token}

theorem Stands.fills (h : Stands n items) : Fills n items where
  balanced := ⟨_, h.balanced, fun unread => (h.stuck unread).imp_right Lacking.not_reducible⟩
  read v reread p unnamed := by
    obtain ⟨name, read⟩ := h.read v reread p unnamed
    exact ⟨[.node v], name, read, Run.reduce_node v⟩

/-- What a pair around the items of a tree does: the name before it, if there is one, is called. -/
theorem Fills.read_pair (h : Fills n inner) (opening : t.kind = .leftParen) (closing : u.kind = .rightParen)
    {v : Node} (reread : n.reread = some v) (p : Progress) :
    p.read (.token t :: (inner ++ [.token u])) = .ok { p with
      run := .node (Progress.groupNode p.name v) :: (if p.name.isSome then p.run.tail else p.run)
      name := none } := by
  obtain ⟨run, name, read, reduced⟩ := h.read v reread (p.openPair t.position) rfl
  rw [Progress.read_cons, Progress.step_opening p t opening, Outcome.ok_bind, Progress.read_append, read,
    Outcome.ok_bind, Progress.read_cons, Progress.step_closing_pending _ u closing _ _ rfl]
  simp [Progress.openPair, reduced]

/-- A pair around items that cannot be read back is spoiled. -/
theorem Fills.spoiled_pair (h : Fills n inner) (opening : t.kind = .leftParen) (closing : u.kind = .rightParen)
    (unread : n.reread = none) : Spoiled (.token t :: (inner ++ [.token u])) := by
  obtain ⟨marks, balanced, stuck⟩ := h.balanced
  rcases stuck unread with spoiled | irreducible
  · exact (spoiled.append [.token u]).prepend [.token t]
  · exact ⟨[], inner, [], t, u, marks, by simp, opening, closing, balanced, irreducible⟩

theorem Fills.group (h : Fills n inner) (opening : t.kind = .leftParen) (closing : u.kind = .rightParen)
    (operand : outerMarks n = [.operand]) : Stands n (.token t :: (inner ++ [.token u])) where
  balanced := by
    obtain ⟨marks, balanced, -⟩ := h.balanced
    rw [operand]
    simpa using Balanced.nil.group t u rfl opening balanced closing
  read v reread p unnamed := by
    refine ⟨none, ?_⟩
    rw [h.read_pair opening closing reread p, unnamed]
    rfl
  stuck unread := .inl (h.spoiled_pair opening closing unread)

theorem Fills.call (h : Fills args inner) (name : Text) (opening : t.kind = .leftParen)
    (closing : u.kind = .rightParen) :
    Fills (.call name args) (.node (.property name) :: .token t :: (inner ++ [.token u])) where
  balanced := by
    obtain ⟨marks, balanced, -⟩ := h.balanced
    have called := (Balanced.nil.plain (.node (.property name)) rfl rfl).call t u name rfl opening balanced closing
    refine ⟨_, called, fun unread => .inl ?_⟩
    rw [Node.reread, Option.map_eq_none_iff] at unread
    exact (h.spoiled_pair opening closing unread).prepend [.node (.property name)]
  read v reread p unnamed := by
    rw [Node.reread] at reread
    obtain ⟨w, argsReread, rfl⟩ := Option.map_eq_some_iff.mp reread
    refine ⟨[.node (.call name w)], none, ?_, Run.reduce_node _⟩
    rw [Progress.read_cons, Progress.step_plain p _ rfl rfl, Outcome.ok_bind,
      h.read_pair opening closing argsReread]
    rfl

/-- Balanced items behind an operator or a comma that stands behind others. -/
theorem Balanced.join {first second : List Item} {marks more : List Mark} (before : Balanced first marks)
    {t : Token} (kind : t.kind = .operator ∨ t.kind = .comma) (behind : Balanced second more) :
    Balanced (first ++ .token t :: second) (marks ++ (Item.token t).mark :: more) := by
  have notOpening : opens (.token t) = false := by
    rcases kind with kind | kind <;> simp [opens, Item.isKind, kind]
  have notClosing : closes (.token t) = false := by
    rcases kind with kind | kind <;> simp [closes, Item.isKind, kind]
  have joined := (before.plain (.token t) notOpening notClosing).append (by rw [lastName_concat]; rfl) behind
  simpa using joined

theorem Fills.binary {lefts rights : List Item} (l : Stands left lefts) (r : Stands right rights) {t : Token}
    {op : Operator} (kind : t.kind = .operator) (text : t.text = op.symbol) :
    Fills (.binary op.symbol left right) (lefts ++ .token t :: rights) where
  balanced := by
    have mark : (Item.token t).mark = .operator := by simp [Item.mark, kind]
    refine ⟨_, l.balanced.join (.inl kind) r.balanced, fun unread => ?_⟩
    rw [Node.reread, Option.bind_eq_none_iff] at unread
    rw [mark]
    cases leftReread : left.reread with
    | none =>
      refine (l.stuck leftReread).imp (fun spoiled => spoiled.append _) fun lacking => ?_
      exact (lacking.append _).not_reducible
    | some v =>
      have rightUnread : right.reread = none := by simpa [leftReread] using unread v leftReread
      refine (r.stuck rightUnread).imp (fun spoiled => ?_) fun lacking => (lacking.behind _ (by simp)).not_reducible
      rw [List.append_cons]
      exact spoiled.prepend (lefts ++ [.token t])
  read v reread p unnamed := by
    rw [Node.reread] at reread
    obtain ⟨a, leftReread, rest⟩ := Option.bind_eq_some_iff.mp reread
    obtain ⟨b, rightReread, rfl⟩ := Option.map_eq_some_iff.mp rest
    obtain ⟨name, readLeft⟩ := l.read a leftReread p unnamed
    obtain ⟨name', readRight⟩ := r.read b rightReread
      { p with run := .token t :: .node a :: p.run, name := none } rfl
    refine ⟨[.node a, .token t, .node b], name', ?_, Run.reduce_operation a b text⟩
    rw [Progress.read_append, readLeft, Outcome.ok_bind, read_operator _ (.inl kind), readRight]
    rfl

/-- The items of trees with commas between them. -/
inductive Separated : List Node → List Item → Prop where
  | nil : Separated [] []
  | single {n : Node} {items : List Item} (only : Stands n items) : Separated [n] items
  | cons {n m : Node} {nodes : List Node} {items more : List Item} (t : Token) (first : Stands n items)
      (kind : t.kind = .comma) (text : t.text = [.scalar ',']) (rest : Separated (m :: nodes) more) :
      Separated (n :: m :: nodes) (items ++ .token t :: more)

/-- What has been read of separated trees: their nodes, and commas alone between them. -/
structure Gathered (nodes : List Node) (run : List Item) : Prop where
  found : Run.nodes run = nodes
  commas : ∀ t, .token t ∈ run → t.kind = .comma ∧ t.text = [.scalar ',']
  anyComma : run.any Run.isComma = decide (2 ≤ nodes.length)

theorem Gathered.reduce {us : List Node} {run : List Item} (h : Gathered us run) {v : Node}
    (list : Node.ofElements us = some v) : Run.reduce run = .ok v := by
  have plain : ∀ op, ∀ item ∈ run, item.isSymbol op = false := by
    intro op item member
    cases item with
    | node n => rfl
    | token t =>
      rw [Item.isSymbol, Token.isSymbol, (h.commas t member).2]
      cases op <;> decide
  have commas : ∀ t, .token t ∈ run → Run.isComma (.token t) = true := by
    intro t member
    simp [Run.isComma, Item.isKind, (h.commas t member).1]
  rw [Run.reduce_of_not_symbol plain]
  cases us with
  | nil => cases list
  | cons n rest =>
    cases rest with
    | nil =>
      cases list
      have noComma : run.any Run.isComma = false := by simpa using h.anyComma
      rw [Run.eq_map_node_of_not_comma commas noComma, h.found]
      exact Run.close_map_node.mpr rfl
    | cons m others =>
      cases list
      have anyComma : run.any Run.isComma = true := by simpa using h.anyComma
      rw [Run.close_of_comma commas anyComma, h.found]

/-- What separated trees leave, as long as each can be read back. -/
structure Gathers (nodes : List Node) (items : List Item) : Prop where
  balanced : ∃ marks, Balanced items marks ∧ (nodes.mapM Node.reread = none → Spoiled items ∨ Lacking marks) ∧
    (nodes = [] → marks = [])
  read : ∀ us, nodes.mapM Node.reread = some us → ∀ p : Progress, p.name = none →
    ∃ run name, p.read items = .ok { p with run := run.reverse ++ p.run, name := name } ∧ Gathered us run

theorem Separated.gathers {nodes : List Node} {items : List Item} (separated : Separated nodes items) :
    Gathers nodes items := by
  induction separated with
  | nil =>
    refine ⟨⟨[], .nil, by simp, by simp⟩, fun us read p unnamed => ⟨[], p.name, rfl, ?_⟩⟩
    cases read
    exact ⟨rfl, by simp, rfl⟩
  | @single n items only =>
    refine ⟨⟨_, only.balanced, fun unread => only.stuck ?_, by simp⟩, fun us read p unnamed => ?_⟩
    · rw [Option.eq_none_iff_forall_ne_some]
      intro u reread
      rw [Node.mapM_reread_cons.mpr ⟨u, [], reread, rfl, rfl⟩] at unread
      cases unread
    · obtain ⟨u, others, reread, none, rfl⟩ := Node.mapM_reread_cons.mp read
      cases none
      obtain ⟨name, pushed⟩ := only.read u reread p unnamed
      exact ⟨[.node u], name, pushed, rfl, by simp, rfl⟩
  | @cons n m nodes items more t first kind text rest ih =>
    obtain ⟨marks, balanced, stuck, -⟩ := ih.balanced
    have mark : (Item.token t).mark = .comma := by simp [Item.mark, kind]
    refine ⟨⟨_, first.balanced.join (.inr kind) balanced, fun unread => ?_, by simp⟩, fun us read p unnamed => ?_⟩
    · rw [mark]
      cases reread : n.reread with
      | none => exact (first.stuck reread).imp (fun spoiled => spoiled.append _) fun lacking => lacking.append _
      | some u =>
        have restUnread : (m :: nodes).mapM Node.reread = none := by
          rw [Option.eq_none_iff_forall_ne_some]
          intro others rest
          rw [Node.mapM_reread_cons.mpr ⟨u, others, reread, rest, rfl⟩] at unread
          cases unread
        refine (stuck restUnread).imp (fun spoiled => ?_) fun lacking => lacking.behind _ (by simp)
        rw [List.append_cons]
        exact spoiled.prepend (items ++ [.token t])
    · obtain ⟨u, others, reread, restReread, rfl⟩ := Node.mapM_reread_cons.mp read
      obtain ⟨v, vs, -, -, rfl⟩ := Node.mapM_reread_cons.mp restReread
      obtain ⟨name, pushed⟩ := first.read u reread p unnamed
      obtain ⟨run, name', pushedRest, gathered⟩ := ih.read _ restReread
        { p with run := .token t :: .node u :: p.run, name := none } rfl
      refine ⟨.node u :: .token t :: run, name', ?_, ?_, ?_, ?_⟩
      · rw [Progress.read_append, pushed, Outcome.ok_bind, read_operator _ (.inr kind), pushedRest]
        simp
      · rw [Run.nodes_node, Run.nodes_token, gathered.found]
      · intro s member
        rcases List.mem_cons.mp member with same | member
        · cases same
        · rcases List.mem_cons.mp member with same | member
          · cases same
            exact ⟨kind, text⟩
          · exact gathered.commas s member
      · simp [Run.isComma, Item.isKind, kind]

theorem not_reducible_nil : ¬Reducible [] := by
  intro reducible
  simpa using reducible.operands

theorem Separated.fills {nodes : List Node} {items : List Item} (separated : Separated nodes items) :
    Fills (.constant (.tuple (nodes.map .node))) items where
  balanced := by
    obtain ⟨marks, balanced, stuck, empty⟩ := separated.gathers.balanced
    refine ⟨marks, balanced, fun unread => ?_⟩
    cases nodes with
    | nil =>
      rw [empty rfl]
      exact .inr not_reducible_nil
    | cons n nodes =>
      refine (stuck ?_).imp_right Lacking.not_reducible
      rw [Option.eq_none_iff_forall_ne_some]
      intro us read
      -- with a first element the list itself cannot be what is missing
      obtain ⟨u, others, -, -, rfl⟩ := Node.mapM_reread_cons.mp read
      rw [Node.reread_list, read] at unread
      cases others <;> cases unread
  read v reread p unnamed := by
    rw [Node.reread_list] at reread
    obtain ⟨us, elements, list⟩ := Option.bind_eq_some_iff.mp reread
    obtain ⟨run, name, read, gathered⟩ := separated.gathers.read us elements p unnamed
    exact ⟨run, name, read, gathered.reduce list⟩

end Bracket
end Reckoner
