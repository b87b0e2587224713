import Reckoner.Proofs.Bracket.Reading
/-!
# Brackets by rewriting

Another procedure for the same brackets keeps no stack. As long as an opening bracket is left it takes the last one
and the first closing bracket behind it, reduces what stands between them, and puts the node in the place of the
pair, or of the pair and the name before it. It reduces the last pair that opens first, where the stack reduces the
first pair that closes, and looks for the name in a list that is rewritten already.

Main statement: both procedures give the same tree on the same lists (`resolve_iff_rewrite`). The invariant behind it
is that one rewriting step leaves the outcome of the stack as it was (`resolve_pair`): to the left of the last
opening bracket nothing is rewritten yet, and to the right of it no opening bracket looks for a name.
-/
namespace Reckoner.Bracket

/-- The items before and after the last opening bracket. -/
def cutAtLastOpening : List Item → Option (List Item × List Item)
  | [] => none
  | item :: rest =>
    match cutAtLastOpening rest with
    | some (before, after) => some (item :: before, after)
    | none => if opens item then some ([], rest) else none

/-- The items before and after the first closing bracket. -/
def cutAtFirstClosing : List Item → Option (List Item × List Item)
  | [] => none
  | item :: rest =>
    if closes item then some ([], rest)
    else (cutAtFirstClosing rest).map fun (before, after) => (item :: before, after)

/-- The items before an opening bracket with the node of its pair put behind them: a call if they end with a name. -/
def putNode (before : List Item) (inner : Node) : List Item :=
  match before.getLast?.bind nameOf with
  | some name => before.dropLast ++ [.node (.call name inner)]
  | none => before ++ [.node inner]

theorem cutAtLastOpening_eq_none {items : List Item} (h : cutAtLastOpening items = none) :
    ∀ item ∈ items, opens item = false := by
  induction items with
  | nil => simp
  | cons item rest ih =>
    unfold cutAtLastOpening at h
    split at h
    · cases h
    next none_rest =>
      split at h
      · cases h
      next notOpening =>
        intro i member
        rcases List.mem_cons.mp member with rfl | member
        · simpa using notOpening
        · exact ih none_rest i member

theorem cutAtLastOpening_eq_some {items before after : List Item} (h : cutAtLastOpening items = some (before, after)) :
    ∃ t : Token, t.kind = .leftParen ∧ items = before ++ .token t :: after ∧ ∀ item ∈ after, opens item = false := by
  induction items generalizing before after with
  | nil => cases h
  | cons item rest ih =>
    unfold cutAtLastOpening at h
    split at h
    next before' after' cut_rest =>
      cases h
      obtain ⟨t, opening, rfl, noOpening⟩ := ih cut_rest
      exact ⟨t, opening, rfl, noOpening⟩
    next none_rest =>
      split at h
      next opening =>
        cases h
        cases item with
        | node n => cases opening
        | token t => exact ⟨t, (opens_token t).mp opening, rfl, cutAtLastOpening_eq_none none_rest⟩
      · cases h

theorem cutAtFirstClosing_eq_none {items : List Item} (h : cutAtFirstClosing items = none) :
    ∀ item ∈ items, closes item = false := by
  induction items with
  | nil => simp
  | cons item rest ih =>
    unfold cutAtFirstClosing at h
    split at h
    · cases h
    next notClosing =>
      intro i member
      rcases List.mem_cons.mp member with rfl | member
      · simpa using notClosing
      · exact ih (by simpa using h) i member

theorem cutAtFirstClosing_eq_some {items inner after : List Item} (h : cutAtFirstClosing items = some (inner, after)) :
    ∃ t : Token, t.kind = .rightParen ∧ items = inner ++ .token t :: after ∧ ∀ item ∈ inner, closes item = false := by
  induction items generalizing inner after with
  | nil => cases h
  | cons item rest ih =>
    unfold cutAtFirstClosing at h
    split at h
    next closing =>
      cases h
      cases item with
      | node n => cases closing
      | token t => exact ⟨t, (closes_token t).mp closing, rfl, by simp⟩
    next notClosing =>
      obtain ⟨⟨inner', after'⟩, cut_rest, same⟩ := Option.map_eq_some_iff.mp h
      cases same
      obtain ⟨t, closing, rfl, noClosing⟩ := ih cut_rest
      refine ⟨t, closing, rfl, ?_⟩
      intro i member
      rcases List.mem_cons.mp member with rfl | member
      · simpa using notClosing
      · exact noClosing i member

theorem mem_putNode {before : List Item} {inner : Node} {t : Token} (h : .token t ∈ putNode before inner) :
    .token t ∈ before := by
  unfold putNode at h
  split at h
  · exact List.dropLast_subset before (by simpa using h)
  · simpa using h

theorem countP_putNode_le (before : List Item) (inner : Node) :
    (putNode before inner).countP opens ≤ before.countP opens := by
  unfold putNode
  split
  · simpa using (List.dropLast_sublist before).countP_le
  · simp

/-- One pair fewer is left after a step, which is why rewriting ends. -/
theorem countP_rewritten_lt {items before after inner rest : List Item} (node : Node)
    (opening : cutAtLastOpening items = some (before, after))
    (closing : cutAtFirstClosing after = some (inner, rest)) :
    (putNode before node ++ rest).countP opens < items.countP opens := by
  obtain ⟨t, kind, rfl, -⟩ := cutAtLastOpening_eq_some opening
  obtain ⟨u, -, rfl, -⟩ := cutAtFirstClosing_eq_some closing
  have kept := countP_putNode_le before node
  simp only [List.countP_append, List.countP_cons, (opens_token t).mpr kind, if_true]
  omega

/-- The tree that rewriting arrives at, if it does not fail on the way. -/
def rewrite? (items : List Item) : Option Node :=
  match _ : cutAtLastOpening items with
  | none => if items.any closes then none else (Run.reduce items).toOption
  | some (before, after) =>
    match _ : cutAtFirstClosing after with
    | none => none
    | some (inner, rest) =>
      match Run.reduce inner with
      | .error _ => none
      | .ok node => rewrite? (putNode before node ++ rest)
termination_by items.countP opens
decreasing_by exact countP_rewritten_lt node ‹_› ‹_›

/-- Every bracket among the items carries a position. -/
def Positioned (items : List Item) : Prop :=
  ∀ t, .token t ∈ items → t.kind = .leftParen ∨ t.kind = .rightParen → t.position.isSome

namespace Positioned

theorem of_cons {item : Item} {items : List Item} (h : Positioned (item :: items)) : Positioned items :=
  fun t member => h t (List.mem_cons_of_mem item member)

/-- A rewriting step keeps positions, for it makes no new tokens. -/
theorem of_rewritten {before inner rest : List Item} {t u : Token} {node : Node}
    (h : Positioned (before ++ .token t :: (inner ++ .token u :: rest))) :
    Positioned (putNode before node ++ rest) := by
  intro v member bracket
  refine h v ?_ bracket
  rcases List.mem_append.mp member with left | right
  · exact List.mem_append_left _ (mem_putNode left)
  · simp [right]

end Positioned

namespace Progress

/-- Without opening brackets nothing is set aside, and the first closing bracket is remembered by its position. -/
theorem read_unopened (items : List Item) (noOpening : ∀ item ∈ items, opens item = false)
    (positioned : Positioned items) (p : Progress) (empty : p.pending = []) :
    ∃ q, p.read items = .ok q ∧ q.pending = [] ∧ q.run = items.reverse ++ p.run ∧
      (q.stray.isSome ↔ p.stray.isSome ∨ items.any closes) := by
  induction items generalizing p with
  | nil => exact ⟨p, rfl, empty, rfl, by simp⟩
  | cons item items ih =>
    have ahead := ih (fun i m => noOpening i (by simp [m])) positioned.of_cons
    rw [read_cons]
    cases c : closes item with
    | false =>
      rw [step_plain p item (noOpening item (by simp)) c, Outcome.ok_bind]
      obtain ⟨q, read, pending, run, stray⟩ := ahead { p with run := item :: p.run, name := nameOf item } empty
      exact ⟨q, read, pending, by simpa using run, by simpa [c] using stray⟩
    | true =>
      cases item with
      | node n => cases c
      | token t =>
        have closing := (closes_token t).mp c
        have known := positioned t (by simp) (.inr closing)
        rw [step_closing_stray p t closing empty, Outcome.ok_bind]
        obtain ⟨q, read, pending, run, stray⟩ :=
          ahead { p with run := .token t :: p.run, stray := p.stray.or t.position, name := none } empty
        refine ⟨q, read, pending, by simpa using run, ?_⟩
        rw [stray]
        simp [c, known]

/-- After a stretch that does not end with a name no name is kept. -/
theorem read_name {items : List Item} {q : Progress} (read : start.read items = .ok q)
    (unnamed : items.getLast?.bind nameOf = none) : q.name = none := by
  rcases List.eq_nil_or_concat items with rfl | ⟨init, last, rfl⟩
  · cases read
    rfl
  · rw [List.concat_eq_append] at read unnamed
    rw [read_append] at read
    obtain ⟨p, -, last_read⟩ := Outcome.bind_eq_ok.mp read
    obtain ⟨q', step_last, same⟩ := Outcome.bind_eq_ok.mp last_read
    cases same
    rw [step_name step_last]
    simpa using unnamed

end Progress

/-- Without opening brackets the stack fails on a closing one and reduces everything otherwise. -/
theorem resolve_unopened (items : List Item) (noOpening : ∀ item ∈ items, opens item = false)
    (positioned : Positioned items) :
    (resolve items).toOption = if items.any closes then none else (Run.reduce items).toOption := by
  obtain ⟨q, read, pending, run, stray⟩ := Progress.read_unopened items noOpening positioned .start rfl
  rw [resolve_eq_read, read, Outcome.ok_bind, Progress.finish, pending]
  cases closed : items.any closes with
  | true =>
    obtain ⟨position, found⟩ := Option.isSome_iff_exists.mp (stray.mpr (.inr closed))
    rw [found]
    rfl
  | false =>
    have none_found : q.stray = none := by simpa [closed, Progress.start] using stray
    rw [none_found, run]
    simp [Progress.start]

/-- An opening bracket that nothing closes makes the stack fail. -/
theorem resolve_unclosed (before after : List Item) (t : Token) (opening : t.kind = .leftParen)
    (noOpening : ∀ item ∈ after, opens item = false) (noClosing : ∀ item ∈ after, closes item = false) :
    (resolve (before ++ .token t :: after)).toOption = none := by
  rw [resolve_eq_read, Progress.read_append]
  cases Progress.start.read before with
  | error e => rfl
  | ok q =>
    obtain ⟨name, rest⟩ := Progress.read_plain after noOpening noClosing (q.openPair t.position)
    rw [Outcome.ok_bind, Progress.read_cons, Progress.step_opening q t opening, Outcome.ok_bind, rest]
    rfl

/-- A pair without brackets inside, read by the stack: the run between them is reduced, and the pair, with the name
before it if there is one, leaves a node. -/
theorem read_pair (p : Progress) (inner rest : List Item) (t u : Token) (opening : t.kind = .leftParen)
    (closing : u.kind = .rightParen) (innerOpening : ∀ item ∈ inner, opens item = false)
    (innerClosing : ∀ item ∈ inner, closes item = false) :
    p.read (.token t :: (inner ++ .token u :: rest)) = Run.reduce inner >>= fun node =>
      { p with
        run := .node (Progress.groupNode p.name node) :: (if p.name.isSome then p.run.tail else p.run)
        name := none }.read rest := by
  obtain ⟨name, filled⟩ := Progress.read_plain inner innerOpening innerClosing (p.openPair t.position)
  rw [Progress.read_cons, Progress.step_opening p t opening, Outcome.ok_bind, Progress.read_append, filled,
    Outcome.ok_bind, Progress.read_cons, Progress.step_closing_pending _ u closing _ _ rfl]
  simp only [Progress.openPair, List.append_nil, List.reverse_reverse]
  cases Run.reduce inner <;> rfl

/-- One rewriting step on the last pair that opens leaves the outcome of the stack as it was. -/
theorem resolve_pair (before inner rest : List Item) (t u : Token) (opening : t.kind = .leftParen)
    (closing : u.kind = .rightParen) (innerOpening : ∀ item ∈ inner, opens item = false)
    (innerClosing : ∀ item ∈ inner, closes item = false) (restOpening : ∀ item ∈ rest, opens item = false) :
    (resolve (before ++ .token t :: (inner ++ .token u :: rest))).toOption =
      (Run.reduce inner).toOption.bind fun node => (resolve (putNode before node ++ rest)).toOption := by
  simp only [resolve_eq_read, Progress.read_append, putNode]
  cases called : before.getLast?.bind nameOf with
  | some name =>
    -- The name has left the run on one side when the pair opens, and is not read at all on the other.
    obtain ⟨last, ends, isName⟩ := Option.bind_eq_some_iff.mp called
    obtain ⟨init, rfl⟩ := List.getLast?_eq_some_iff.mp ends
    obtain rfl := nameOf_eq_some isName
    simp only [List.dropLast_concat, Progress.read_append]
    cases Progress.start.read init with
    | error e => simp [Except.toOption]
    | ok q =>
      simp only [Outcome.ok_bind, Progress.read_cons, Progress.read_nil,
        Progress.step_plain q (.node (.property name)) rfl rfl]
      rw [← Progress.read_cons, read_pair _ inner rest t u opening closing innerOpening innerClosing]
      cases Run.reduce inner with
      | error e => rfl
      | ok node => rfl
  | none =>
    simp only [Progress.read_append]
    cases read : Progress.start.read before with
    | error e => simp [Except.toOption]
    | ok q =>
      have unnamed : q.name = none := Progress.read_name read called
      simp only [Outcome.ok_bind, Progress.read_cons, Progress.read_nil]
      rw [← Progress.read_cons, read_pair _ inner rest t u opening closing innerOpening innerClosing, unnamed]
      cases Run.reduce inner with
      | error e => rfl
      | ok node =>
        -- A group may be a single name, which the rewritten list then keeps; nothing behind it asks for one.
        have forgotten := Progress.read_finish_withName rest restOpening
          { q with run := .node node :: q.run, name := nameOf (.node node) } none
        simp only [Except.toOption, Option.bind_some, Outcome.ok_bind, Progress.step_plain q (.node node) rfl rfl]
        rw [← forgotten]
        rfl

/-- The stack and the rewriting give the same tree on the same lists, and fail on the others. -/
theorem toOption_resolve (items : List Item) (positioned : Positioned items) :
    (resolve items).toOption = rewrite? items := by
  fun_induction rewrite? items with
  | case1 items noOpening closed =>
    rw [resolve_unopened items (cutAtLastOpening_eq_none noOpening) positioned, if_pos closed]
  | case2 items noOpening unclosed =>
    rw [resolve_unopened items (cutAtLastOpening_eq_none noOpening) positioned, if_neg unclosed]
  | case3 items before after opened unclosed =>
    obtain ⟨t, opening, rfl, noOpening⟩ := cutAtLastOpening_eq_some opened
    exact resolve_unclosed before after t opening noOpening (cutAtFirstClosing_eq_none unclosed)
  | case4 items before after opened inner rest closed fault failed =>
    obtain ⟨t, opening, rfl, noOpening⟩ := cutAtLastOpening_eq_some opened
    obtain ⟨u, closing, rfl, noClosing⟩ := cutAtFirstClosing_eq_some closed
    rw [resolve_pair before inner rest t u opening closing (fun i m => noOpening i (by simp [m])) noClosing
      (fun i m => noOpening i (by simp [m])), failed]
    rfl
  | case5 items before after opened inner rest closed node reduced ih =>
    obtain ⟨t, opening, rfl, noOpening⟩ := cutAtLastOpening_eq_some opened
    obtain ⟨u, closing, rfl, noClosing⟩ := cutAtFirstClosing_eq_some closed
    rw [resolve_pair before inner rest t u opening closing (fun i m => noOpening i (by simp [m])) noClosing
      (fun i m => noOpening i (by simp [m])), reduced, ← ih positioned.of_rewritten]
    rfl

/-- The stack returns a tree exactly when the rewriting returns the same one, and fails exactly when it fails. -/
theorem resolve_iff_rewrite (items : List Item) (positioned : Positioned items) :
    (∀ tree, resolve items = .ok tree ↔ rewrite? items = some tree) ∧
      ((∃ fault, resolve items = .error fault) ↔ rewrite? items = none) := by
  rw [← toOption_resolve items positioned]
  exact ⟨fun tree => Outcome.toOption_eq_some.symm, Outcome.toOption_eq_none.symm⟩

/-- A call around a group that is a single name and a call: `f((x), g(y))`. -/
theorem resolve_iff_rewrite_nested :
    let items : List Item :=
      [.node (.property [.scalar 'f']), .token ⟨.leftParen, [.scalar '('], some 1⟩,
       .token ⟨.leftParen, [.scalar '('], some 2⟩, .node (.property [.scalar 'x']),
       .token ⟨.rightParen, [.scalar ')'], some 4⟩, .token ⟨.comma, [.scalar ','], some 5⟩,
       .node (.property [.scalar 'g']), .token ⟨.leftParen, [.scalar '('], some 8⟩,
       .node (.property [.scalar 'y']), .token ⟨.rightParen, [.scalar ')'], some 10⟩,
       .token ⟨.rightParen, [.scalar ')'], some 11⟩]
    Positioned items ∧
      rewrite? items = some (.call [.scalar 'f'] (.constant (.tuple
        [.node (.property [.scalar 'x']), .node (.call [.scalar 'g'] (.property [.scalar 'y']))]))) := by
  intro items
  have positioned : Positioned items := by
    intro t member _
    simp only [items, List.mem_cons, List.not_mem_nil, reduceCtorEq, Item.token.injEq, false_or, or_false] at member
    rcases member with rfl | rfl | rfl | rfl | rfl | rfl | rfl <;> rfl
  exact ⟨positioned, ((resolve_iff_rewrite items positioned).1 _).mp rfl⟩

end Reckoner.Bracket
