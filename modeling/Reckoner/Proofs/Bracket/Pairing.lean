import Reckoner.Proofs.Bracket.Balanced
/-!
# What the bracket stack reports

The stack fails while it reads exactly when some pair holds a run that does not reduce. Otherwise it reports the last
opening bracket without a partner, or else the first closing one, and without such brackets it reduces the outer run.

The invariant (`Tracks`) cuts the items read so far at the opening brackets that are still pending: what stands behind
each of them is balanced and has left the run kept for it.
-/
namespace Reckoner.Bracket

/-- Some pair of brackets holds a run that does not reduce. -/
def Spoiled (items : List Item) : Prop :=
  ∃ (before inner after : List Item) (t u : Token) (marks : List Mark),
    items = before ++ .token t :: (inner ++ .token u :: after) ∧ t.kind = .leftParen ∧ u.kind = .rightParen ∧
      Balanced inner marks ∧ ¬Reducible marks

/-- The last opening bracket without a partner: all brackets behind it have theirs. -/
def LastUnpairedOpening (items : List Item) (t : Token) : Prop :=
  ∃ (before after : List Item) (marks : List Mark),
    items = before ++ .token t :: after ∧ t.kind = .leftParen ∧ Balanced after marks

/-- The first closing bracket without a partner: all brackets before it have theirs. -/
def FirstUnpairedClosing (items : List Item) (t : Token) : Prop :=
  ∃ (before after : List Item) (marks : List Mark),
    items = before ++ .token t :: after ∧ t.kind = .rightParen ∧ Balanced before marks

theorem Spoiled.append {items : List Item} (h : Spoiled items) (more : List Item) : Spoiled (items ++ more) := by
  obtain ⟨before, inner, after, t, u, marks, rfl, opening, closing, balanced, stuck⟩ := h
  exact ⟨before, inner, after ++ more, t, u, marks, by simp, opening, closing, balanced, stuck⟩

theorem Spoiled.prepend {items : List Item} (h : Spoiled items) (more : List Item) : Spoiled (more ++ items) := by
  obtain ⟨before, inner, after, t, u, marks, rfl, opening, closing, balanced, stuck⟩ := h
  exact ⟨more ++ before, inner, after, t, u, marks, by simp, opening, closing, balanced, stuck⟩

theorem FirstUnpairedClosing.append {items : List Item} {t : Token} (h : FirstUnpairedClosing items t)
    (more : List Item) : FirstUnpairedClosing (items ++ more) t := by
  obtain ⟨before, after, marks, rfl, closing, balanced⟩ := h
  exact ⟨before, after ++ more, marks, by simp, closing, balanced⟩

variable {P : Node → Prop}

/-- Balanced items and the run they have left, the last item first. -/
structure Segment (P : Node → Prop) (items run : List Item) : Prop where
  balanced : Balanced items (run.reverse.map Item.mark)
  flat : ∀ item ∈ run, item.IsFlat
  parts : ∀ n, .node n ∈ run → P n

namespace Segment

theorem nil : Segment P [] [] := ⟨.nil, by simp, by simp⟩

theorem push {items run : List Item} (h : Segment P items run) {item : Item} (clean : item.IsClean P)
    (o : opens item = false) (c : closes item = false) : Segment P (items ++ [item]) (item :: run) where
  balanced := by simpa using h.balanced.plain item o c
  flat := by simpa using ⟨clean.isPart.isFlat o c, h.flat⟩
  parts n member := by
    rcases List.mem_cons.mp member with rfl | member
    · exact clean
    · exact h.parts n member

end Segment

/-- The run outside a pending bracket with the name that it calls still in it. -/
def Pending.outside (f : Pending) : List Item :=
  match f.callee with
  | some name => .node (.property name) :: f.outer
  | none => f.outer

/-- A pair behind a segment adds one node to it, or turns the name it ends with into a call. -/
theorem Segment.pair (inherited : Node.Inherited P) {before inside run : List Item} {f : Pending} {t u : Token}
    {node : Node} (outside : Segment P before f.outside) (named : f.callee = lastName before)
    (opening : t.kind = .leftParen) (inner : Segment P inside run) (closing : u.kind = .rightParen)
    (reduced : Run.reduce run.reverse = .ok node) :
    Segment P (before ++ .token t :: (inside ++ [.token u])) (.node (Progress.groupNode f.callee node) :: f.outer) := by
  have nodeHas : P node := Run.reduce_inherits inherited (fun i m => inner.flat i (by simpa using m))
    (fun n m => inner.parts n (by simpa using m)) reduced
  unfold Pending.outside at outside
  cases called : f.callee with
  | none =>
    rw [called] at outside named
    refine ⟨?_, by simpa using outside.flat, by simpa using ⟨nodeHas, outside.parts⟩⟩
    simpa using outside.balanced.group t u named.symm opening inner.balanced closing
  | some name =>
    rw [called] at outside named
    have callHas : P (.call name node) := inherited.call name node (outside.parts _ (by simp)) nodeHas
    refine ⟨?_, by simpa using fun i m => outside.flat i (by simp [m]),
      by simpa using ⟨callHas, fun n m => outside.parts n (by simp [m])⟩⟩
    simpa using outside.balanced.call t u name named.symm opening inner.balanced closing

/-- How the items read so far are spread over the current run and the pending brackets, from the inside out. -/
def Tracks (P : Node → Prop) : List Pending → Option Int → List Item → List Item → Prop
  | [], none, run, items => Segment P items run
  | [], some position, _, items => ∃ t, FirstUnpairedClosing items t ∧ t.position = some position
  | f :: pending, stray, run, items =>
    ∃ (before inside : List Item) (t : Token), items = before ++ .token t :: inside ∧ t.kind = .leftParen ∧
      f.position = t.position ∧ f.callee = lastName before ∧ Segment P inside run ∧
      Tracks P pending stray f.outside before

/-- What is known of the progress over some items. -/
structure Tracked (P : Node → Prop) (p : Progress) (items : List Item) : Prop where
  tracks : Tracks P p.pending p.stray p.run items
  name : p.name = lastName items
  named : ∀ name, p.name = some name → ∃ earlier, p.run = .node (.property name) :: earlier

theorem tracks_push {pending : List Pending} {stray : Option Int} {run items : List Item} {item : Item}
    (h : Tracks P pending stray run items) (clean : item.IsClean P) (o : opens item = false)
    (c : closes item = false) : Tracks P pending stray (item :: run) (items ++ [item]) := by
  match pending, stray, h with
  | [], none, h => exact Segment.push h clean o c
  | [], some position, ⟨t, first, known⟩ => exact ⟨t, first.append [item], known⟩
  | f :: pending, stray, ⟨before, inside, t, split, opening, position, callee, segment, outer⟩ =>
    exact ⟨before, inside ++ [item], t, by simp [split], opening, position, callee, segment.push clean o c, outer⟩

/-- Behind an opening bracket a name counts only from the bracket on. -/
theorem lastName_behind (before inside : List Item) (t : Token) :
    lastName (before ++ .token t :: inside) = lastName inside := by
  rcases List.eq_nil_or_concat inside with rfl | ⟨init, last, rfl⟩
  · rw [lastName_concat]
    rfl
  · rw [List.concat_eq_append, ← List.cons_append, ← List.append_assoc, lastName_concat, lastName_concat]

/-- A closing bracket with a partner: the pair joins what stands outside it. -/
theorem tracks_pair (inherited : Node.Inherited P) {pending : List Pending} {stray : Option Int} {f : Pending}
    {before inside run : List Item} {t u : Token} {node : Node} (h : Tracks P pending stray f.outside before)
    (named : f.callee = lastName before) (opening : t.kind = .leftParen) (inner : Segment P inside run)
    (closing : u.kind = .rightParen) (reduced : Run.reduce run.reverse = .ok node) :
    Tracks P pending stray (.node (Progress.groupNode f.callee node) :: f.outer)
      (before ++ .token t :: (inside ++ [.token u])) := by
  match pending, stray, h with
  | [], none, h => exact Segment.pair inherited h named opening inner closing reduced
  | [], some position, ⟨v, first, known⟩ => exact ⟨v, first.append _, known⟩
  | g :: pending, stray, ⟨earlier, outer, v, split, outerOpening, position, callee, segment, rest⟩ =>
    subst split
    rw [lastName_behind] at named
    exact ⟨earlier, outer ++ .token t :: (inside ++ [.token u]), v, by simp, outerOpening, position, callee,
      segment.pair inherited named opening inner closing reduced, rest⟩

theorem tracked_opening {p : Progress} {items : List Item} (h : Tracked P p items) {t : Token}
    (opening : t.kind = .leftParen) : Tracked P (p.openPair t.position) (items ++ [.token t]) where
  tracks := by
    have outside : Pending.outside ⟨p.name, t.position, if p.name.isSome then p.run.tail else p.run⟩ = p.run := by
      cases called : p.name with
      | none => rfl
      | some name =>
        obtain ⟨earlier, run⟩ := h.named name called
        simp [Pending.outside, run]
    exact ⟨items, [], t, rfl, opening, rfl, h.name, .nil, by rw [outside]; exact h.tracks⟩
  name := by
    rw [lastName_concat]
    rfl
  named name called := by cases called

/-- What one item does to what is known: it is read, or it closes a pair that spoils the items. -/
theorem step_tracked (inherited : Node.Inherited P) (writable : ∀ n, P n → n.IsWritable) {p : Progress}
    {items : List Item} (h : Tracked P p items) {item : Item} (clean : item.IsClean P) :
    (∃ q, p.step item = .ok q ∧ Tracked P q (items ++ [item])) ∨
      Spoiled (items ++ [item]) ∧ ∃ run lacking, p.step item = .fail (.irreducible run lacking) := by
  cases o : opens item with
  | true =>
    obtain ⟨t, rfl, opening⟩ := eq_token_of_opens o
    exact .inl ⟨_, Progress.step_opening p t opening, tracked_opening h opening⟩
  | false =>
    cases c : closes item with
    | false =>
      refine .inl ⟨_, Progress.step_plain p item o c, tracks_push h.tracks clean o c, (lastName_concat _ _).symm, ?_⟩
      intro name isName
      exact ⟨p.run, by rw [nameOf_eq_some isName]⟩
    | true =>
      obtain ⟨u, rfl, closing⟩ := eq_token_of_closes c
      have tracks := h.tracks
      cases pending : p.pending with
      | nil =>
        have step := Progress.step_closing_stray p u closing pending
        refine .inl ⟨_, step, ?_, (lastName_concat items (.token u)).symm, by simp⟩
        cases stray : p.stray with
        | none =>
          rw [pending, stray] at tracks
          obtain ⟨position, known⟩ := Option.isSome_iff_exists.mp (clean.position closing)
          simpa [pending, known] using ⟨u, ⟨items, [], _, rfl, closing, tracks.balanced⟩, known⟩
        | some position =>
          rw [pending, stray] at tracks
          obtain ⟨t, first, known⟩ := tracks
          simpa [pending] using ⟨t, first.append [.token u], known⟩
      | cons f outer =>
        rw [pending] at tracks
        obtain ⟨before, inside, t, rfl, opening, -, callee, segment, rest⟩ := tracks
        have step := Progress.step_closing_pending p u closing f outer pending
        have flat : ∀ item ∈ p.run.reverse, item.IsFlat := fun i m => segment.flat i (by simpa using m)
        have parts : ∀ n, .node n ∈ p.run.reverse → P n := fun n m => segment.parts n (by simpa using m)
        rw [List.append_assoc, List.cons_append]
        cases reduced : Run.reduce p.run.reverse with
        | ok node =>
          rw [reduced, Outcome.ok_bind] at step
          refine .inl ⟨_, step, tracks_pair inherited rest callee opening segment closing reduced, ?_, by simp⟩
          rw [lastName_pair]
        | error fault =>
          rw [reduced, Outcome.error_bind] at step
          obtain ⟨run, lacking, rfl⟩ := Run.reduce_error flat (fun n m => writable n (parts n m)) reduced
          refine .inr ⟨⟨before, inside, [], t, u, _, rfl, opening, closing, segment.balanced, fun reducible => ?_⟩,
            run, lacking, step⟩
          obtain ⟨node, succeeds⟩ := (Run.reduce_isOk_iff flat).mpr reducible
          rw [reduced] at succeeds
          cases succeeds

/-- All items are read, or the first pair that does not reduce ends the work. -/
theorem read_tracked (inherited : Node.Inherited P) (writable : ∀ n, P n → n.IsWritable) {items : List Item}
    (clean : ∀ item ∈ items, item.IsClean P) :
    (∃ q, Progress.start.read items = .ok q ∧ Tracked P q items) ∨
      Spoiled items ∧ ∃ run lacking, Progress.start.read items = .fail (.irreducible run lacking) := by
  induction items using List.reverseRecOn with
  | nil => exact .inl ⟨_, rfl, .nil, rfl, by simp [Progress.start]⟩
  | append_singleton items item ih =>
    rw [Progress.read_append]
    rcases ih fun i m => clean i (by simp [m]) with ⟨q, read, tracked⟩ | ⟨spoiled, run, lacking, stopped⟩
    · rw [read, Outcome.ok_bind, Progress.read_cons]
      rcases step_tracked inherited writable tracked (clean item (by simp)) with
        ⟨r, step, next⟩ | ⟨spoiled, run, lacking, stopped⟩
      · exact .inl ⟨r, by rw [step]; rfl, next⟩
      · exact .inr ⟨spoiled, run, lacking, by rw [stopped]; rfl⟩
    · exact .inr ⟨spoiled.append [item], run, lacking, by rw [stopped]; rfl⟩

/-- With some pair spoiled the items are not read to their end. -/
theorem not_spoiled_of_read (inherited : Node.Inherited P) {items : List Item}
    (parts : ∀ item ∈ items, item.IsPart P) {q : Progress} (read : Progress.start.read items = .ok q) :
    ¬Spoiled items := by
  intro given
  obtain ⟨before, inner, after, t, u, marks, rfl, opening, closing, balanced, stuck⟩ := given
  rw [Progress.read_append] at read
  obtain ⟨r, -, rest⟩ := Outcome.bind_eq_ok.mp read
  have split : Item.token t :: (inner ++ .token u :: after) = (.token t :: (inner ++ [.token u])) ++ after := by simp
  rw [split, Progress.read_append] at rest
  obtain ⟨s, pair, -⟩ := Outcome.bind_eq_ok.mp rest
  obtain ⟨_, added, node, adds, reduced, -⟩ := read_pair_eq_ok opening closing
    (fun insideRead => read_balanced inherited balanced (fun i m => parts i (by simp [m])) rfl insideRead) pair
  have reducible := (Run.reduce_isOk_iff fun i m => adds.flat i (by simpa using m)).mp ⟨node, reduced⟩
  rw [adds.marks] at reducible
  exact stuck reducible

/-- The position of the first stray closing bracket is kept. -/
theorem stray_of_read {p q : Progress} {items : List Item} (read : p.read items = .ok q) {position : Int}
    (known : p.stray = some position) : q.stray = some position := by
  induction items generalizing p with
  | nil =>
    cases read
    exact known
  | cons item items ih =>
    rw [Progress.read_cons] at read
    obtain ⟨r, step, rest⟩ := Outcome.bind_eq_ok.mp read
    refine ih rest ?_
    cases o : opens item with
    | true =>
      obtain ⟨t, rfl, opening⟩ := eq_token_of_opens o
      rw [Progress.step_opening p t opening] at step
      cases step
      exact known
    | false =>
      cases c : closes item with
      | false =>
        rw [Progress.step_plain p item o c] at step
        cases step
        exact known
      | true =>
        obtain ⟨u, rfl, closing⟩ := eq_token_of_closes c
        cases pending : p.pending with
        | nil =>
          rw [Progress.step_closing_stray p u closing pending] at step
          cases step
          simp [known]
        | cons f outer =>
          rw [Progress.step_closing_pending p u closing f outer pending] at step
          obtain ⟨node, -, last⟩ := Outcome.bind_eq_ok.mp step
          cases last
          exact known

end Reckoner.Bracket
