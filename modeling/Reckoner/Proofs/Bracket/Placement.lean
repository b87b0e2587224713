import Reckoner.Proofs.Bracket.Verdict
import Reckoner.Proofs.Item.Placement
/-!
# Brackets whatever their positions

Items that differ in positions alone have the same tree or are refused for the same kind of reason
(`resolve_unplaced`): what is read of them differs in positions alone at every step, and positions end in messages.
-/
namespace Reckoner.Bracket

open Outcome (Matches)

/-- The pending bracket with its positions forgotten. -/
def Pending.unplaced (f : Pending) : Pending := ⟨f.callee, f.position.map fun _ => 0, f.outer.map Item.unplaced⟩

/-- The progress with its positions forgotten. -/
def Progress.unplaced (p : Progress) : Progress where
  run := p.run.map Item.unplaced
  pending := p.pending.map Pending.unplaced
  stray := p.stray.map fun _ => 0
  name := p.name

@[simp] theorem opens_unplaced (item : Item) : opens item.unplaced = opens item := Item.isKind_unplaced item .leftParen

@[simp] theorem closes_unplaced (item : Item) : closes item.unplaced = closes item :=
  Item.isKind_unplaced item .rightParen

@[simp] theorem nameOf_unplaced (item : Item) : nameOf item.unplaced = nameOf item := by cases item <;> rfl

variable {P : Node → Prop} {p q : Progress} {before items : List Item} {item : Item}

theorem openPair_unplaced (p : Progress) (position : Option Int) :
    p.unplaced.openPair (position.map fun _ => 0) = (p.openPair position).unplaced := by
  cases called : p.name <;>
    simp [Progress.openPair, Progress.unplaced, Pending.unplaced, called]

theorem Segment.reduce_unplaced {run : List Item} (segment : Segment P items run) :
    Run.reduce (run.map Item.unplaced).reverse = Run.reduce run.reverse := by
  rw [← List.map_reverse]
  exact Run.reduce_unplaced fun i m => segment.flat i (by simpa using m)

/-- One item changes what differs in positions alone into what does so again. -/
theorem step_unplaced (tracked : Tracked P p before) (item : Item) :
    Matches (fun a b => a = b.unplaced) (p.unplaced.step item.unplaced) (p.step item) := by
  cases o : opens item with
  | true =>
    obtain ⟨t, rfl, opening⟩ := eq_token_of_opens o
    rw [Progress.step_opening p t opening, Item.unplaced_token, Progress.step_opening _ t.unplaced opening]
    exact .ok _ _ (openPair_unplaced p t.position)
  | false =>
    cases c : closes item with
    | false =>
      rw [Progress.step_plain p item o c, Progress.step_plain _ item.unplaced (by simpa using o) (by simpa using c)]
      refine .ok _ _ ?_
      simp [Progress.unplaced]
    | true =>
      obtain ⟨u, rfl, closing⟩ := eq_token_of_closes c
      rw [Item.unplaced_token]
      cases pending : p.pending with
      | nil =>
        have none : p.unplaced.pending = [] := by simp [Progress.unplaced, pending]
        rw [Progress.step_closing_stray p u closing pending, Progress.step_closing_stray _ u.unplaced closing none]
        refine .ok _ _ ?_
        cases stray : p.stray <;> simp [Progress.unplaced, Token.unplaced, pending, stray]
      | cons f outer =>
        have some : p.unplaced.pending = f.unplaced :: outer.map Pending.unplaced := by
          simp [Progress.unplaced, pending]
        have tracks := tracked.tracks
        rw [pending] at tracks
        obtain ⟨_, _, _, -, -, -, -, segment, -⟩ := tracks
        have reduced : Run.reduce p.unplaced.run.reverse = Run.reduce p.run.reverse := segment.reduce_unplaced
        rw [Progress.step_closing_pending p u closing f outer pending,
          Progress.step_closing_pending _ u.unplaced closing _ _ some, reduced]
        refine .bind (R := (· = ·)) (.refl (fun _ => rfl) _) fun inner _ _ _ same => ?_
        subst same
        refine .ok _ _ ?_
        simp [Progress.unplaced, Pending.unplaced]

theorem read_unplaced (inherited : Node.Inherited P) (writable : ∀ n, P n → n.IsWritable)
    (tracked : Tracked P p before) (clean : ∀ item ∈ items, item.IsClean P) :
    Matches (fun a b => a = b.unplaced) (p.unplaced.read (items.map Item.unplaced)) (p.read items) := by
  induction items generalizing p before with
  | nil => exact .ok _ _ rfl
  | cons item items ih =>
    rw [List.map_cons, Progress.read_cons, Progress.read_cons]
    refine .bind (step_unplaced tracked item) fun a b _ step same => ?_
    subst same
    rcases step_tracked inherited writable tracked (clean item (by simp)) with
      ⟨r, again, next⟩ | ⟨-, run, lacking, stopped⟩
    · rw [step] at again
      cases again
      exact ih next fun i m => clean i (by simp [m])
    · rw [step] at stopped
      cases stopped

theorem finish_unplaced (tracked : Tracked P p before) : Matches (· = ·) p.unplaced.finish p.finish := by
  cases pending : p.pending with
  | cons f outer =>
    simp only [Progress.finish, Progress.unplaced, pending]
    exact .error _ _ rfl
  | nil =>
    cases stray : p.stray with
    | some position =>
      simp only [Progress.finish, Progress.unplaced, pending, stray]
      exact .error _ _ rfl
    | none =>
      have segment := segment_of_tracked tracked pending stray
      simp only [Progress.finish, Progress.unplaced, pending, stray, List.map_nil, Option.map_none,
        segment.reduce_unplaced]
      exact .refl (fun _ => rfl) _

/-- Items with their positions forgotten have the same tree, or fail in the same way. -/
theorem resolve_unplaced (inherited : Node.Inherited P) (writable : ∀ n, P n → n.IsWritable)
    (clean : ∀ item ∈ items, item.IsClean P) :
    Matches (· = ·) (resolve (items.map Item.unplaced)) (resolve items) := by
  have start : Tracked P Progress.start [] := ⟨.nil, rfl, by simp [Progress.start]⟩
  rw [resolve_eq_read, resolve_eq_read]
  refine .bind (read_unplaced inherited writable start clean) fun a b _ read same => ?_
  subst same
  exact finish_unplaced (tracked_of_read inherited writable clean read)

/-- Items that differ in positions alone have the same tree, or fail in the same way. -/
theorem resolve_matches (inherited : Node.Inherited P) (writable : ∀ n, P n → n.IsWritable) {others : List Item}
    (same : others.map Item.unplaced = items.map Item.unplaced) (clean : ∀ item ∈ items, item.IsClean P) :
    Matches (· = ·) (resolve others) (resolve items) := by
  have there := resolve_unplaced inherited writable (Item.clean_of_unplaced same clean)
  rw [same] at there
  exact there.common (resolve_unplaced inherited writable clean)

/-- Items that differ in positions alone from items with a tree have this tree. -/
theorem resolve_of_unplaced (inherited : Node.Inherited P) (writable : ∀ n, P n → n.IsWritable) {others : List Item}
    (same : others.map Item.unplaced = items.map Item.unplaced) (clean : ∀ item ∈ items, item.IsClean P)
    {tree : Node} (h : resolve items = .ok tree) : resolve others = .ok tree := by
  have matched := resolve_matches inherited writable same clean
  rw [h] at matched
  obtain ⟨other, resolved, rfl⟩ := matched.of_ok_right
  exact resolved

end Reckoner.Bracket
