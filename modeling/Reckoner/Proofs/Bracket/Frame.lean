import Reckoner.Proofs.Bracket.Verdict
/-!
# Balanced items wherever they stand

What balanced items add to the current run does not depend on what has been read before them (`Balanced.leaves`): the
open brackets and the run so far are only framed around it. So a pair of brackets around items that have a tree puts
this tree into the run outside, or a call of it where a name stands before the pair (`read_enclosed`).
-/
namespace Reckoner.Bracket

/-- The items add to the run what `outcome` says, the last item first, or fail with it. -/
def Leaves (items : List Item) (outcome : Outcome (List Item)) : Prop :=
  ∀ p : Progress, p.name = none →
    p.read items = outcome >>= fun added => .ok { p with run := added ++ p.run, name := lastName items }

/-- The progress behind a pair whose inside reduces to a node. -/
def Progress.enclose (p : Progress) (node : Node) : Progress :=
  { p with
    run := .node (groupNode p.name node) :: (if p.name.isSome then p.run.tail else p.run)
    name := none }

variable {items inner : List Item} {marks : List Mark} {t u : Token} {outcome : Outcome (List Item)}

/-- A pair, whatever stands before it. -/
theorem Leaves.read_pair (leaves : Leaves inner outcome) (opening : t.kind = .leftParen)
    (closing : u.kind = .rightParen) (p : Progress) :
    p.read (.token t :: (inner ++ [.token u])) =
      outcome >>= fun added => Run.reduce added.reverse >>= fun node => .ok (p.enclose node) := by
  rw [Progress.read_cons, Progress.step_opening p t opening, Outcome.ok_bind, Progress.read_append,
    leaves (p.openPair t.position) rfl]
  cases outcome with
  | error e => rfl
  | ok added =>
    rw [Outcome.ok_bind, Outcome.ok_bind, Outcome.ok_bind, Progress.read_cons,
      Progress.step_closing_pending _ u closing _ _ rfl]
    simp only [Progress.openPair, List.append_nil]
    cases Run.reduce added.reverse <;> rfl

/-- What balanced items add is the same wherever they are read, and it starts with their last name if they end with
one. -/
theorem Balanced.leaves (balanced : Balanced items marks) :
    ∃ outcome, Leaves items outcome ∧ ∀ added name, outcome = .ok added → lastName items = some name →
      ∃ earlier, added = .node (.property name) :: earlier := by
  induction balanced with
  | nil =>
    refine ⟨.ok [], fun p unnamed => ?_, by simp [lastName]⟩
    cases p
    cases unnamed
    rfl
  | @plain items marks item earlier notOpening notClosing ih =>
    obtain ⟨outcome, leaves, -⟩ := ih
    refine ⟨outcome >>= fun added => .ok (item :: added), fun p unnamed => ?_, ?_⟩
    · rw [Progress.read_append, leaves p unnamed, lastName_concat]
      cases outcome with
      | error e => rfl
      | ok added =>
        simp only [Outcome.ok_bind, Progress.read_cons, Progress.step_plain _ item notOpening notClosing]
        rfl
    · intro added name done isName
      obtain ⟨before, -, same⟩ := Outcome.bind_eq_ok.mp done
      cases same
      rw [lastName_concat] at isName
      exact ⟨before, by rw [nameOf_eq_some isName]⟩
  | @group items inner marks innerMarks t u earlier unnamedEnd opening inside closing ihEarlier ihInside =>
    obtain ⟨outcome, leaves, -⟩ := ihEarlier
    obtain ⟨innerOutcome, innerLeaves, -⟩ := ihInside
    refine ⟨outcome >>= fun added => innerOutcome >>= fun inner => Run.reduce inner.reverse >>= fun node =>
      .ok (.node node :: added), fun p unnamed => ?_, by simp [lastName_pair]⟩
    rw [Progress.read_append, leaves p unnamed, lastName_pair]
    cases outcome with
    | error e => rfl
    | ok added =>
      rw [Outcome.ok_bind, Outcome.ok_bind, Outcome.ok_bind, innerLeaves.read_pair opening closing, unnamedEnd]
      cases innerOutcome with
      | error e => rfl
      | ok innerAdded =>
        rw [Outcome.ok_bind, Outcome.ok_bind]
        cases Run.reduce innerAdded.reverse <;> rfl
  | @call items inner marks innerMarks t u name earlier namedEnd opening inside closing ihEarlier ihInside =>
    obtain ⟨outcome, leaves, starts⟩ := ihEarlier
    obtain ⟨innerOutcome, innerLeaves, -⟩ := ihInside
    refine ⟨outcome >>= fun added => innerOutcome >>= fun inner => Run.reduce inner.reverse >>= fun node =>
      .ok (.node (.call name node) :: added.tail), fun p unnamed => ?_, by simp [lastName_pair]⟩
    rw [Progress.read_append, leaves p unnamed, lastName_pair]
    cases outcome with
    | error e => rfl
    | ok added =>
      -- the name is the last item added, and the pair takes it
      obtain ⟨others, rfl⟩ := starts added name rfl namedEnd
      rw [Outcome.ok_bind, Outcome.ok_bind, Outcome.ok_bind, innerLeaves.read_pair opening closing, namedEnd]
      cases innerOutcome with
      | error e => rfl
      | ok innerAdded =>
        rw [Outcome.ok_bind, Outcome.ok_bind]
        cases Run.reduce innerAdded.reverse <;> rfl

/-- A pair around items that have a tree, whatever stands before it. -/
theorem read_enclosed {P : Node → Prop} (inherited : Node.Inherited P) (writable : ∀ n, P n → n.IsWritable)
    (clean : ∀ item ∈ items, item.IsClean P) {tree : Node} (h : resolve items = .ok tree)
    (opening : t.kind = .leftParen) (closing : u.kind = .rightParen) (p : Progress) :
    p.read (.token t :: (items ++ [.token u])) = .ok (p.enclose tree) := by
  obtain ⟨q, read, -, segment, reduced⟩ := resolve_eq_ok inherited writable clean h
  obtain ⟨outcome, leaves, -⟩ := segment.balanced.leaves
  rw [leaves Progress.start rfl] at read
  obtain ⟨added, rfl, same⟩ := Outcome.bind_eq_ok.mp read
  cases same
  have run : Run.reduce added.reverse = .ok tree := by simpa [Progress.start] using reduced
  rw [leaves.read_pair opening closing, Outcome.ok_bind, run, Outcome.ok_bind]

end Reckoner.Bracket
