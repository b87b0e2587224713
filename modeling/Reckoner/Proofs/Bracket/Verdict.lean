import Reckoner.Proofs.Bracket.Pairing
/-!
# The verdict on items with brackets

Several things can be wrong with the same items, and only one of them is reported. A pair whose inside does not reduce
comes first, then the last opening bracket without a partner, then the first closing one, and last the run outside all
brackets (`resolve_verdict`).
-/
namespace Reckoner.Bracket

/-- A run does not reduce: the outcome that says so names the run, and perhaps an operator that lacks an operand. -/
def IsIrreducible (outcome : Outcome Node) : Prop := ∃ run lacking, outcome = .fail (.irreducible run lacking)

/-- What the items decide about the outcome of their resolution, the first that applies. -/
structure Verdict (items : List Item) (outcome : Outcome Node) : Prop where
  /-- A pair whose inside does not reduce. -/
  spoiled : Spoiled items → IsIrreducible outcome
  /-- An opening bracket without a partner. -/
  opening : ¬Spoiled items → ∀ t, LastUnpairedOpening items t → outcome = .fail (.mismatchedBrackets t.position)
  /-- A closing bracket without a partner. -/
  closing : ¬Spoiled items → (∀ t, ¬LastUnpairedOpening items t) →
    ∀ t, FirstUnpairedClosing items t → outcome = .fail (.mismatchedBrackets t.position)
  /-- Otherwise every bracket has its partner. -/
  paired : ¬Spoiled items → (∀ t, ¬LastUnpairedOpening items t) → (∀ t, ¬FirstUnpairedClosing items t) →
    ∃ marks, Balanced items marks
  /-- The run outside all brackets. -/
  outer : ¬Spoiled items → ∀ marks, Balanced items marks →
    (Reducible marks → ∃ tree, outcome = .ok tree) ∧ (¬Reducible marks → IsIrreducible outcome)

variable {P : Node → Prop} {items : List Item} {t : Token} {marks : List Mark} {q : Progress}

/-- The innermost bracket still pending is the last one without a partner. -/
theorem lastUnpairedOpening_of_tracked (tracked : Tracked P q items) {f : Pending} {outer : List Pending}
    (pending : q.pending = f :: outer) : ∃ t, LastUnpairedOpening items t := by
  have tracks := tracked.tracks
  rw [pending] at tracks
  obtain ⟨before, inside, t, split, opening, -, -, segment, -⟩ := tracks
  exact ⟨t, before, inside, _, split, opening, segment.balanced⟩

/-- With no bracket pending and none stray the items are balanced. -/
theorem segment_of_tracked (tracked : Tracked P q items) (pending : q.pending = []) (stray : q.stray = none) :
    Segment P items q.run := by
  have tracks := tracked.tracks
  rw [pending, stray] at tracks
  exact tracks

theorem pending_of_lastUnpairedOpening (inherited : Node.Inherited P) (clean : ∀ item ∈ items, item.IsClean P)
    (read : Progress.start.read items = .ok q) (last : LastUnpairedOpening items t) :
    ∃ f outer, q.pending = f :: outer ∧ f.position = t.position := by
  obtain ⟨before, after, marks, rfl, opening, balanced⟩ := last
  rw [Progress.read_append] at read
  obtain ⟨r, -, rest⟩ := Outcome.bind_eq_ok.mp read
  rw [Progress.read_cons, Progress.step_opening r t opening, Outcome.ok_bind] at rest
  obtain ⟨added, adds⟩ := read_balanced inherited balanced (fun i m => (clean i (by simp [m])).isPart) rfl rest
  exact ⟨_, _, adds.pending, rfl⟩

theorem stray_of_firstUnpairedClosing (inherited : Node.Inherited P) (clean : ∀ item ∈ items, item.IsClean P)
    (read : Progress.start.read items = .ok q) (first : FirstUnpairedClosing items t) :
    ∃ position, q.stray = some position ∧ t.position = some position := by
  obtain ⟨before, after, marks, rfl, closing, balanced⟩ := first
  rw [Progress.read_append] at read
  obtain ⟨r, head, rest⟩ := Outcome.bind_eq_ok.mp read
  obtain ⟨added, adds⟩ := read_balanced inherited balanced (fun i m => (clean i (by simp [m])).isPart) rfl head
  rw [Progress.read_cons, Progress.step_closing_stray r t closing adds.pending, Outcome.ok_bind] at rest
  have cleanClosing : (Item.token t).IsClean P := clean _ (by simp)
  obtain ⟨position, known⟩ := Option.isSome_iff_exists.mp (cleanClosing.position closing)
  have noneBefore : r.stray = none := adds.stray
  refine ⟨position, stray_of_read rest ?_, known⟩
  simp [noneBefore, known]

/-- What reading balanced items leaves is their run alone. -/
theorem resolve_of_balanced (inherited : Node.Inherited P) (clean : ∀ item ∈ items, item.IsClean P)
    (read : Progress.start.read items = .ok q) (balanced : Balanced items marks) :
    ∃ run, resolve items = Run.reduce run ∧ run.map Item.mark = marks ∧ (∀ item ∈ run, item.IsFlat) ∧
      ∀ n, .node n ∈ run → P n := by
  obtain ⟨added, adds⟩ := read_balanced inherited balanced (fun i m => (clean i m).isPart) rfl read
  refine ⟨added.reverse, ?_, adds.marks, by simpa using adds.flat, by simpa using adds.parts⟩
  have run : q.run = added := by simpa [Progress.start] using adds.run
  have pending : q.pending = [] := adds.pending
  have stray : q.stray = none := adds.stray
  rw [resolve_eq_read, read, Outcome.ok_bind, Progress.finish, pending, stray, ← run]

theorem resolve_verdict (inherited : Node.Inherited P) (writable : ∀ n, P n → n.IsWritable)
    (clean : ∀ item ∈ items, item.IsClean P) : Verdict items (resolve items) := by
  rcases read_tracked inherited writable clean with ⟨q, read, tracked⟩ | ⟨spoiled, run, lacking, stopped⟩
  · have resolved : resolve items = q.finish := by rw [resolve_eq_read, read, Outcome.ok_bind]
    have fine : ¬Spoiled items := not_spoiled_of_read inherited (fun i m => (clean i m).isPart) read
    refine ⟨fun spoiled => absurd spoiled fine, ?_, ?_, ?_, ?_⟩
    · intro _ t last
      obtain ⟨f, outer, pending, position⟩ := pending_of_lastUnpairedOpening inherited clean read last
      rw [resolved, Progress.finish, pending, ← position]
    · intro _ noOpening t first
      obtain ⟨position, stray, known⟩ := stray_of_firstUnpairedClosing inherited clean read first
      rw [resolved, Progress.finish, stray, known]
      cases pending : q.pending with
      | nil => rfl
      | cons f outer =>
        obtain ⟨u, last⟩ := lastUnpairedOpening_of_tracked tracked pending
        exact absurd last (noOpening u)
    · intro _ noOpening noClosing
      cases pending : q.pending with
      | cons f outer =>
        obtain ⟨u, last⟩ := lastUnpairedOpening_of_tracked tracked pending
        exact absurd last (noOpening u)
      | nil =>
        cases stray : q.stray with
        | none => exact ⟨_, (segment_of_tracked tracked pending stray).balanced⟩
        | some position =>
          have tracks := tracked.tracks
          rw [pending, stray] at tracks
          obtain ⟨u, first, -⟩ := tracks
          exact absurd first (noClosing u)
    · intro _ marks balanced
      obtain ⟨run, reduces, runMarks, flat, parts⟩ := resolve_of_balanced inherited clean read balanced
      rw [reduces, ← runMarks, ← Run.reduce_isOk_iff flat]
      refine ⟨id, fun stuck => ?_⟩
      cases reduced : Run.reduce run with
      | ok node => exact absurd ⟨node, reduced⟩ stuck
      | error fault =>
        obtain ⟨texts, lacking, rfl⟩ := Run.reduce_error flat (fun n m => writable n (parts n m)) reduced
        exact ⟨texts, lacking, rfl⟩
  · have resolved : resolve items = .fail (.irreducible run lacking) := by
      rw [resolve_eq_read, stopped]
      rfl
    exact ⟨fun _ => ⟨run, lacking, resolved⟩, fun fine => absurd spoiled fine, fun fine => absurd spoiled fine,
      fun fine => absurd spoiled fine, fun fine => absurd spoiled fine⟩

theorem tracked_of_read (inherited : Node.Inherited P) (writable : ∀ n, P n → n.IsWritable)
    (clean : ∀ item ∈ items, item.IsClean P) (read : Progress.start.read items = .ok q) : Tracked P q items := by
  rcases read_tracked inherited writable clean with ⟨r, again, tracked⟩ | ⟨-, run, lacking, stopped⟩
  · rw [read] at again
    cases again
    exact tracked
  · rw [read] at stopped
    cases stopped

/-- Items that have a tree are balanced, and the tree is that of the run they leave. -/
theorem resolve_eq_ok (inherited : Node.Inherited P) (writable : ∀ n, P n → n.IsWritable)
    (clean : ∀ item ∈ items, item.IsClean P) {tree : Node} (h : resolve items = .ok tree) :
    ∃ q, Progress.start.read items = .ok q ∧ q.pending = [] ∧ Segment P items q.run ∧
      Run.reduce q.run.reverse = .ok tree := by
  rw [resolve_eq_read] at h
  obtain ⟨q, read, finished⟩ := Outcome.bind_eq_ok.mp h
  have tracked := tracked_of_read inherited writable clean read
  unfold Progress.finish at finished
  split at finished
  · cases finished
  · cases finished
  · next pending stray => exact ⟨q, read, pending, segment_of_tracked tracked pending stray, finished⟩

/-- Items without a tree are refused by a formula error. -/
theorem resolve_error (inherited : Node.Inherited P) (writable : ∀ n, P n → n.IsWritable)
    (clean : ∀ item ∈ items, item.IsClean P) {fault : Fault} (h : resolve items = .error fault) :
    ∃ e, fault = .formula e := by
  rw [resolve_eq_read] at h
  rcases read_tracked inherited writable clean with ⟨q, read, tracked⟩ | ⟨-, run, lacking, stopped⟩
  · rw [read, Outcome.ok_bind] at h
    unfold Progress.finish at h
    split at h
    · cases h
      exact ⟨_, rfl⟩
    · cases h
      exact ⟨_, rfl⟩
    · next pending stray =>
      have segment := segment_of_tracked tracked pending stray
      obtain ⟨texts, lacking, rfl⟩ := Run.reduce_error (fun i m => segment.flat i (by simpa using m))
        (fun n m => writable n (segment.parts n (by simpa using m))) h
      exact ⟨_, rfl⟩
  · rw [stopped] at h
    cases h
    exact ⟨_, rfl⟩

/-- The tree of some items has every property that is inherited from their nodes. -/
theorem resolve_inherits (inherited : Node.Inherited P) (writable : ∀ n, P n → n.IsWritable)
    (clean : ∀ item ∈ items, item.IsClean P) {tree : Node} (h : resolve items = .ok tree) : P tree := by
  obtain ⟨q, -, -, segment, reduced⟩ := resolve_eq_ok inherited writable clean h
  exact Run.reduce_inherits inherited (fun i m => segment.flat i (by simpa using m))
    (fun n m => segment.parts n (by simpa using m)) reduced

end Reckoner.Bracket
