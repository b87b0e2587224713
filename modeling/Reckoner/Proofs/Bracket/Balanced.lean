import Reckoner.Proofs.Bracket.Reading
import Reckoner.Proofs.Run.Reduction
/-!
# Paired brackets

Two brackets are partners when the items between them are balanced. Balanced items leave a run of marks in which each
group and each call counts as one operand: a name is an operand, and a pair directly behind it only turns that operand
into a call.

The stack agrees (`read_balanced`): balanced items leave the open brackets as they were, and add to the current run
just the items of these marks.
-/
namespace Reckoner

namespace Item

/-- An item of a formula whose nodes have a property: a node, an operator, a comma, or a bracket with a position. -/
def IsClean (P : Node → Prop) : Item → Prop
  | .node n => P n
  | .token t => (Item.token t).IsFlat ∨ (t.kind = .leftParen ∨ t.kind = .rightParen) ∧ t.position.isSome

/-- The same for any bracket, with a position or without one. -/
def IsPart (P : Node → Prop) : Item → Prop
  | .node n => P n
  | .token t => (Item.token t).IsFlat ∨ t.kind = .leftParen ∨ t.kind = .rightParen

variable {P : Node → Prop}

theorem IsClean.isPart {item : Item} (clean : item.IsClean P) : item.IsPart P := by
  cases item with
  | node n => exact clean
  | token t => exact clean.imp_right And.left

theorem IsPart.isFlat {item : Item} (part : item.IsPart P) (o : Bracket.opens item = false)
    (c : Bracket.closes item = false) : item.IsFlat := by
  cases item with
  | node n => trivial
  | token t =>
    rcases part with flat | left | right
    · exact flat
    · rw [(Bracket.opens_token t).mpr left] at o
      cases o
    · rw [(Bracket.closes_token t).mpr right] at c
      cases c

theorem IsClean.position {t : Token} (clean : (Item.token t).IsClean P) (closing : t.kind = .rightParen) :
    t.position.isSome := by
  rcases clean with (⟨operator, -⟩ | ⟨comma, -⟩) | ⟨-, known⟩
  · rw [closing] at operator
    cases operator
  · rw [closing] at comma
    cases comma
  · exact known

end Item

namespace Bracket

/-- The name a stretch of items ends with, if it ends with one. -/
def lastName (items : List Item) : Option Text := items.getLast?.bind nameOf

/-- Items in which every bracket has its partner, and the marks of the run they leave. -/
inductive Balanced : List Item → List Mark → Prop where
  | nil : Balanced [] []
  | plain {items : List Item} {marks : List Mark} (item : Item) (earlier : Balanced items marks)
      (notOpening : opens item = false) (notClosing : closes item = false) :
      Balanced (items ++ [item]) (marks ++ [item.mark])
  | group {items inner : List Item} {marks innerMarks : List Mark} (t u : Token) (earlier : Balanced items marks)
      (unnamed : lastName items = none) (opening : t.kind = .leftParen) (inside : Balanced inner innerMarks)
      (closing : u.kind = .rightParen) :
      Balanced (items ++ .token t :: (inner ++ [.token u])) (marks ++ [.operand])
  | call {items inner : List Item} {marks innerMarks : List Mark} (t u : Token) (name : Text)
      (earlier : Balanced items marks) (named : lastName items = some name) (opening : t.kind = .leftParen)
      (inside : Balanced inner innerMarks) (closing : u.kind = .rightParen) :
      Balanced (items ++ .token t :: (inner ++ [.token u])) marks

theorem lastName_concat (items : List Item) (item : Item) : lastName (items ++ [item]) = nameOf item := by
  simp [lastName]

theorem lastName_pair (items inner : List Item) (t u : Token) :
    lastName (items ++ .token t :: (inner ++ [.token u])) = none := by
  rw [← List.cons_append, ← List.append_assoc, lastName_concat]
  rfl

variable {P : Node → Prop}

/-- Balanced items have been read as an addition to the run: `added`, the last item first. -/
structure Adds (P : Node → Prop) (p q : Progress) (items added : List Item) (marks : List Mark) : Prop where
  run : q.run = added ++ p.run
  pending : q.pending = p.pending
  stray : q.stray = p.stray
  name : q.name = lastName items
  marks : added.reverse.map Item.mark = marks
  flat : ∀ item ∈ added, item.IsFlat
  parts : ∀ n, .node n ∈ added → P n
  named : ∀ name, lastName items = some name → ∃ earlier, added = .node (.property name) :: earlier

/-- A pair that has been read, where `reads` says what its inside adds: the run inside was reduced, and its node, with
the name before the pair if there is one, is all that changed. -/
theorem read_pair_eq_ok {p q : Progress} {t u : Token} {inner : List Item} {innerMarks : List Mark}
    (opening : t.kind = .leftParen) (closing : u.kind = .rightParen)
    (reads : ∀ {r : Progress}, (p.openPair t.position).read inner = .ok r →
      ∃ added, Adds P (p.openPair t.position) r inner added innerMarks)
    (read : p.read (.token t :: (inner ++ [.token u])) = .ok q) :
    ∃ r added node, Adds P (p.openPair t.position) r inner added innerMarks ∧ Run.reduce added.reverse = .ok node ∧
      q = { p with
        run := .node (Progress.groupNode p.name node) :: (if p.name.isSome then p.run.tail else p.run)
        name := none } := by
  rw [Progress.read_cons, Progress.step_opening p t opening, Outcome.ok_bind, Progress.read_append] at read
  obtain ⟨r, insideRead, closed⟩ := Outcome.bind_eq_ok.mp read
  obtain ⟨added, adds⟩ := reads insideRead
  have pending : r.pending = ⟨p.name, t.position, if p.name.isSome then p.run.tail else p.run⟩ :: p.pending :=
    adds.pending
  have run : r.run = added := by simpa [Progress.openPair] using adds.run
  have stray : r.stray = p.stray := adds.stray
  rw [Progress.read_cons, Progress.step_closing_pending r u closing _ _ pending, run] at closed
  obtain ⟨after, reduced, last⟩ := Outcome.bind_eq_ok.mp closed
  obtain ⟨node, innerNode, same⟩ := Outcome.bind_eq_ok.mp reduced
  cases same
  cases last
  exact ⟨r, added, node, adds, innerNode, by simp [stray]⟩

theorem read_balanced (inherited : Node.Inherited P) {items : List Item} {marks : List Mark}
    (balanced : Balanced items marks) (parts : ∀ item ∈ items, item.IsPart P) {p q : Progress}
    (unnamed : p.name = none) (read : p.read items = .ok q) : ∃ added, Adds P p q items added marks := by
  induction balanced generalizing p q with
  | nil =>
    cases read
    exact ⟨[], rfl, rfl, rfl, unnamed, rfl, by simp, by simp, by simp [lastName]⟩
  | plain item earlier notOpening notClosing ih =>
    rw [Progress.read_append] at read
    obtain ⟨r, before, step⟩ := Outcome.bind_eq_ok.mp read
    obtain ⟨added, adds⟩ := ih (fun i m => parts i (by simp [m])) unnamed before
    rw [Progress.read_cons, Progress.step_plain r item notOpening notClosing] at step
    cases step
    have part := parts item (by simp)
    refine ⟨item :: added, by simp [adds.run], adds.pending, adds.stray, by rw [lastName_concat], by simp [adds.marks],
      ?_, ?_, ?_⟩
    · simpa using ⟨part.isFlat notOpening notClosing, adds.flat⟩
    · intro n member
      rcases List.mem_cons.mp member with rfl | member
      · exact part
      · exact adds.parts n member
    · intro name isName
      rw [lastName_concat] at isName
      exact ⟨added, by rw [nameOf_eq_some isName]⟩
  | group t u earlier ends opening inside closing ihEarlier ihInside =>
    rw [Progress.read_append] at read
    obtain ⟨r, before, pair⟩ := Outcome.bind_eq_ok.mp read
    obtain ⟨added, adds⟩ := ihEarlier (fun i m => parts i (by simp [m])) unnamed before
    obtain ⟨s, innerAdded, node, innerAdds, reduced, rfl⟩ := read_pair_eq_ok opening closing
      (fun insideRead => ihInside (fun i m => parts i (by simp [m])) rfl insideRead) pair
    have rName : r.name = none := adds.name.trans ends
    have nodeHas : P node := Run.reduce_inherits inherited (fun i m => innerAdds.flat i (by simpa using m))
      (fun n m => innerAdds.parts n (by simpa using m)) reduced
    refine ⟨.node node :: added, ?_, adds.pending, adds.stray, by rw [lastName_pair], by simp [adds.marks], ?_, ?_, ?_⟩
    · simp [rName, Progress.groupNode, adds.run]
    · simpa using adds.flat
    · simpa using ⟨nodeHas, adds.parts⟩
    · simp [lastName_pair]
  | call t u name earlier ends opening inside closing ihEarlier ihInside =>
    rw [Progress.read_append] at read
    obtain ⟨r, before, pair⟩ := Outcome.bind_eq_ok.mp read
    obtain ⟨added, adds⟩ := ihEarlier (fun i m => parts i (by simp [m])) unnamed before
    obtain ⟨s, innerAdded, node, innerAdds, reduced, rfl⟩ := read_pair_eq_ok opening closing
      (fun insideRead => ihInside (fun i m => parts i (by simp [m])) rfl insideRead) pair
    obtain ⟨others, rfl⟩ := adds.named name ends
    have rName : r.name = some name := adds.name.trans ends
    have nodeHas : P node := Run.reduce_inherits inherited (fun i m => innerAdds.flat i (by simpa using m))
      (fun n m => innerAdds.parts n (by simpa using m)) reduced
    have callHas : P (.call name node) := inherited.call name node (adds.parts _ (by simp)) nodeHas
    refine ⟨.node (.call name node) :: others, ?_, adds.pending, adds.stray, by rw [lastName_pair],
      by simpa using adds.marks, ?_, ?_, ?_⟩
    · simp [rName, Progress.groupNode, adds.run]
    · simpa using fun i m => adds.flat i (by simp [m])
    · simpa using ⟨callHas, fun n m => adds.parts n (by simp [m])⟩
    · simp [lastName_pair]

end Bracket
end Reckoner
