import Reckoner.Proofs.Bracket.Unpaired
import Reckoner.Proofs.Run.TreeShape
/-!
# Which brackets without a partner are reported

The reader keeps a bracket without a partner in one of two ways: an opening one is still pending at the end, and of the
closing ones the first known position is kept (`read_layout`). A closing bracket without a position is therefore
forgotten, and stays in the outermost run as an item of its own. So brackets without a partner are reported just when
not all of them are like this (`reportsUnpaired_iff`); an argument list takes such a bracket in.
-/
namespace Reckoner

namespace Run

/-- A refusal of a run, or a fault that writing its items out meets, says nothing about brackets. -/
theorem refusal_ne_mismatchedBrackets {α : Type} (run : List Item) (lacking : Option Operator) (position : Option Int) :
    (describe run >>= fun texts => (.fail (.irreducible texts lacking) : Outcome α)) ≠
      .error (.formula (.mismatchedBrackets position)) := by
  intro same
  cases described : describe run with
  | ok texts =>
    rw [described] at same
    cases same
  | error fault =>
    rw [described] at same
    cases same
    exact describe_pastReading run _ described ⟨_, rfl, rfl⟩

theorem foldAll_ne_mismatchedBrackets (ops : List Operator) (run : List Item) (position : Option Int) :
    foldAll ops run ≠ .error (.formula (.mismatchedBrackets position)) := by
  induction ops generalizing run with
  | nil =>
    intro same
    cases same
  | cons op ops ih =>
    rw [foldAll_cons, foldBy.eq_def]
    cases foldFrom op [] run with
    | some folded => exact ih folded
    | none =>
      rw [bind_assoc]
      exact refusal_ne_mismatchedBrackets run (some op) position

/-- The reduction of a run reports no bracket. -/
theorem reduce_ne_mismatchedBrackets (run : List Item) (position : Option Int) :
    reduce run ≠ .error (.formula (.mismatchedBrackets position)) := by
  rw [reduce_eq_foldAll]
  cases folds : foldAll Operator.foldOrder run with
  | error fault =>
    intro same
    cases same
    exact foldAll_ne_mismatchedBrackets _ run position folds
  | ok out =>
    rw [Outcome.ok_bind, close.eq_def]
    split
    · simp
    · split
      · simp
      · exact refusal_ne_mismatchedBrackets out none position

end Run

namespace Bracket

/-- Some bracket has no partner. -/
def HasUnpaired (items : List Item) : Prop := (∃ t, UnpairedOpening items t) ∨ ∃ t, UnpairedClosing items t

/-- Brackets without a partner are reported: there is no tree, and where all pairs reduce they are what is reported. -/
structure ReportsUnpaired (items : List Item) : Prop where
  refused : HasUnpaired items → ∀ tree, resolve items ≠ .ok tree
  reported : HasUnpaired items → ¬Spoiled items → ∃ position, resolve items = .fail (.mismatchedBrackets position)

variable {P : Node → Prop} {items more : List Item} {marks : List Mark} {closers openers : List Token} {p : Progress}

theorem inherited_true : Node.Inherited fun _ => True where
  binary _ _ _ _ _ := trivial
  call _ _ _ _ := trivial
  list _ _ := trivial

/-- Items whose brackets may have no position, and of which every pair reduces. -/
structure PairsReduce (P : Node → Prop) (items : List Item) : Prop where
  parts : ∀ item ∈ items, item.IsPart P
  fine : ¬Spoiled items

namespace PairsReduce

theorem before (h : PairsReduce P (items ++ more)) : PairsReduce P items :=
  ⟨fun i m => h.parts i (by simp [m]), fun spoiled => h.fine (spoiled.append more)⟩

theorem behind {item : Item} (h : PairsReduce P (items ++ item :: more)) : PairsReduce P more := by
  refine ⟨fun i m => h.parts i (by simp [m]), fun spoiled => h.fine ?_⟩
  rw [List.append_cons]
  exact spoiled.prepend (items ++ [item])

end PairsReduce

/-- The items are read behind anything but a name, if every pair among them reduces. -/
def Reads (P : Node → Prop) (items : List Item) : Prop :=
  PairsReduce P items → ∀ p : Progress, p.name = none → ∃ q, p.read items = .ok q

/-- A pair behind items that are read is read: its inside is, and it reduces. -/
theorem Reads.pair (inherited : Node.Inherited P) {inner : List Item} {t u : Token} (earlier : Reads P items)
    (opening : t.kind = .leftParen) (reads : Reads P inner) (inside : Balanced inner marks)
    (closing : u.kind = .rightParen) : Reads P (items ++ .token t :: (inner ++ [.token u])) := by
  intro reduces p unnamed
  obtain ⟨r, read⟩ := earlier reduces.before p unnamed
  have within : PairsReduce P inner := reduces.behind.before
  obtain ⟨s, readInside⟩ := reads within (r.openPair t.position) rfl
  obtain ⟨added, adds⟩ := read_balanced inherited inside within.parts rfl readInside
  have run : s.run = added := by simpa [Progress.openPair] using adds.run
  have pending : s.pending = ⟨r.name, t.position, if r.name.isSome then r.run.tail else r.run⟩ :: r.pending :=
    adds.pending
  have reducible : Reducible (added.reverse.map Item.mark) := by
    rw [adds.marks]
    by_contra stuck
    exact reduces.fine ⟨items, inner, [], t, u, marks, rfl, opening, closing, inside, stuck⟩
  obtain ⟨node, reduced⟩ := (Run.reduce_isOk_iff fun i m => adds.flat i (by simpa using m)).mpr reducible
  rw [Progress.read_append, read, Outcome.ok_bind, Progress.read_cons, Progress.step_opening r t opening,
    Outcome.ok_bind, Progress.read_append, readInside, Outcome.ok_bind, Progress.read_cons,
    Progress.step_closing_pending s u closing _ _ pending, run, reduced]
  exact ⟨_, rfl⟩

theorem Balanced.reads (inherited : Node.Inherited P) (balanced : Balanced items marks) : Reads P items := by
  induction balanced with
  | nil => exact fun _ p _ => ⟨p, rfl⟩
  | plain item earlier o c ih =>
    intro reduces p unnamed
    obtain ⟨r, read⟩ := ih reduces.before p unnamed
    rw [Progress.read_append, read, Outcome.ok_bind, Progress.read_cons, Progress.step_plain r item o c]
    exact ⟨_, rfl⟩
  | group t u _ _ opening inside closing ih ihInside => exact ih.pair inherited opening ihInside inside closing
  | call t u _ _ _ opening inside closing ih ihInside => exact ih.pair inherited opening ihInside inside closing

/-- Balanced items change neither the brackets that are pending nor the position that is kept. -/
theorem IsBalanced.read (inherited : Node.Inherited P) (balanced : IsBalanced items) (reduces : PairsReduce P items)
    (unnamed : p.name = none) : ∃ q, p.read items = .ok q ∧ q.pending = p.pending ∧ q.stray = p.stray := by
  obtain ⟨marks, balanced⟩ := balanced
  obtain ⟨q, read⟩ := balanced.reads inherited reduces p unnamed
  obtain ⟨added, adds⟩ := read_balanced inherited balanced reduces.parts unnamed read
  exact ⟨q, read, adds.pending, adds.stray⟩

/-- Once items of which every pair reduces are read, the opening brackets without a partner are pending, and the first
known position of the closing ones is kept. -/
theorem read_layout (inherited : Node.Inherited P) (layout : Layout items closers openers)
    (reduces : PairsReduce P items) :
    ∃ q, Progress.start.read items = .ok q ∧ q.pending.length = openers.length ∧
      q.stray = closers.findSome? Token.position := by
  induction layout with
  | balanced balanced =>
    obtain ⟨q, read, pending, stray⟩ := balanced.read inherited reduces (p := .start) rfl
    exact ⟨q, read, by rw [pending]; rfl, stray⟩
  | closing u earlier closing behind ih =>
    obtain ⟨r, read, pending, stray⟩ := ih reduces.before
    have step := Progress.step_closing_stray r u closing (List.length_eq_zero_iff.mp pending)
    obtain ⟨q, readBehind, samePending, sameStray⟩ := behind.read inherited reduces.behind
      (p := { r with run := .token u :: r.run, stray := r.stray.or u.position, name := none }) rfl
    refine ⟨q, ?_, by rw [samePending]; exact pending, ?_⟩
    · rw [Progress.read_append, read, Outcome.ok_bind, Progress.read_cons, step, Outcome.ok_bind, readBehind]
    · rw [sameStray, stray, List.findSome?_append, List.findSome?_singleton]
  | opening t earlier opening behind ih =>
    obtain ⟨r, read, pending, stray⟩ := ih reduces.before
    obtain ⟨q, readBehind, samePending, sameStray⟩ := behind.read inherited reduces.behind
      (p := r.openPair t.position) rfl
    refine ⟨q, ?_, ?_, sameStray.trans stray⟩
    · rw [Progress.read_append, read, Outcome.ok_bind, Progress.read_cons, Progress.step_opening r t opening,
        Outcome.ok_bind, readBehind]
    · rw [samePending, List.length_cons, ← pending]
      rfl

/-- With no pair spoiled, an opening bracket without a partner is reported, or else a closing one with a position. -/
theorem exists_mismatchedBrackets (reduces : PairsReduce (fun _ => True) items)
    (given : (∃ t, UnpairedOpening items t) ∨ ∃ t, UnpairedClosing items t ∧ t.position.isSome) :
    ∃ position, resolve items = .fail (.mismatchedBrackets position) := by
  obtain ⟨closers, openers, layout⟩ := exists_layout items
  obtain ⟨q, read, pending, stray⟩ := read_layout inherited_true layout reduces
  rw [resolve_eq_read, read, Outcome.ok_bind, Progress.finish.eq_def]
  cases waiting : q.pending with
  | cons f outer => exact ⟨_, rfl⟩
  | nil =>
    rw [waiting, List.length_nil, eq_comm, List.length_eq_zero_iff] at pending
    subst pending
    rcases given with ⟨t, unpaired⟩ | ⟨t, unpaired, known⟩
    · exact absurd (layout.unpairedOpening_iff.mp unpaired) List.not_mem_nil
    · have kept : (closers.findSome? Token.position).isSome :=
        List.findSome?_isSome_iff.mpr ⟨t, layout.unpairedClosing_iff.mp unpaired, known⟩
      rw [← stray] at kept
      obtain ⟨position, same⟩ := Option.isSome_iff_exists.mp kept
      rw [same]
      exact ⟨_, rfl⟩

/-- Without such brackets the outermost run decides, and it reports none. -/
theorem not_exists_mismatchedBrackets (reduces : PairsReduce (fun _ => True) items)
    (noOpening : ¬∃ t, UnpairedOpening items t) (unknown : ¬∃ t, UnpairedClosing items t ∧ t.position.isSome) :
    ¬∃ position, resolve items = .fail (.mismatchedBrackets position) := by
  rintro ⟨position, refused⟩
  obtain ⟨closers, openers, layout⟩ := exists_layout items
  obtain ⟨q, read, pending, stray⟩ := read_layout inherited_true layout reduces
  have noOpeners : openers = [] := List.eq_nil_iff_forall_not_mem.mpr fun t member =>
    noOpening ⟨t, layout.unpairedOpening_iff.mpr member⟩
  have noneKept : closers.findSome? Token.position = none := by
    refine List.findSome?_eq_none_iff.mpr fun t member => ?_
    by_contra known
    exact unknown ⟨t, layout.unpairedClosing_iff.mpr member, Option.isSome_iff_ne_none.mpr known⟩
  rw [noOpeners, List.length_nil, List.length_eq_zero_iff] at pending
  rw [resolve_eq_read, read, Outcome.ok_bind, Progress.finish, pending, stray, noneKept] at refused
  exact Run.reduce_ne_mismatchedBrackets _ _ refused

/-- Brackets without a partner are reported, unless all of them are closing ones without a position. -/
theorem reportsUnpaired_iff (parts : ∀ item ∈ items, item.IsPart fun _ => True) :
    ReportsUnpaired items ↔
      ((∃ t, UnpairedClosing items t) →
        Spoiled items ∨ (∃ t, UnpairedOpening items t) ∨ ∃ t, UnpairedClosing items t ∧ t.position.isSome) := by
  constructor
  · intro reports unpaired
    by_contra none
    push Not at none
    obtain ⟨fine, noOpening, unknown⟩ := none
    exact not_exists_mismatchedBrackets ⟨parts, fine⟩ (by simpa using noOpening) (by simpa using unknown)
      (reports.reported (.inr unpaired) fine)
  · intro given
    have reported (unpaired : HasUnpaired items) (fine : ¬Spoiled items) :
        ∃ position, resolve items = .fail (.mismatchedBrackets position) := by
      rcases unpaired with opening | closing
      · exact exists_mismatchedBrackets ⟨parts, fine⟩ (.inl opening)
      · exact exists_mismatchedBrackets ⟨parts, fine⟩ ((given closing).resolve_left fine)
    refine ⟨fun unpaired tree resolved => ?_, reported⟩
    have fine : ¬Spoiled items := by
      obtain ⟨q, read, -⟩ := Outcome.bind_eq_ok.mp (resolve_eq_read items ▸ resolved)
      exact not_spoiled_of_read inherited_true parts read
    obtain ⟨position, refused⟩ := reported unpaired fine
    rw [resolved] at refused
    cases refused

/-- A closing and an opening bracket the wrong way round are reported without any position. -/
theorem reportsUnpaired_iff_reversed :
    (∀ item ∈ [Item.token ⟨.rightParen, ")", none⟩, .node (.constant (.int 1)), .token ⟨.leftParen, "(", none⟩],
        item.IsPart fun _ => True) ∧
      ReportsUnpaired
        [.token ⟨.rightParen, ")", none⟩, .node (.constant (.int 1)), .token ⟨.leftParen, "(", none⟩] := by
  have parts : ∀ item ∈ [Item.token ⟨.rightParen, ")", none⟩, .node (.constant (.int 1)),
      .token ⟨.leftParen, "(", none⟩], item.IsPart fun _ => True := by
    simp only [List.mem_cons, List.not_mem_nil, or_false, forall_eq_or_imp, forall_eq]
    exact ⟨.inr (.inr rfl), trivial, .inr (.inl rfl)⟩
  refine ⟨parts, (reportsUnpaired_iff parts).mpr fun _ => .inr (.inl ?_)⟩
  have noPartner : ¬HasClosing [] := IsBalanced.nil.not_hasClosing
  exact ⟨_, [.token ⟨.rightParen, ")", none⟩, .node (.constant (.int 1))], [], rfl, rfl, noPartner⟩

/-- Behind a comma a closing bracket without a position becomes an argument. -/
theorem not_reportsUnpaired_argument :
    (∀ item ∈ [Item.node (.constant (.int 1)), .token ⟨.comma, ",", none⟩, .token ⟨.rightParen, ")", none⟩],
        item.IsPart fun _ => True) ∧
      ¬ReportsUnpaired [.node (.constant (.int 1)), .token ⟨.comma, ",", none⟩, .token ⟨.rightParen, ")", none⟩] := by
  constructor
  · simp only [List.mem_cons, List.not_mem_nil, or_false, forall_eq_or_imp, forall_eq]
    exact ⟨trivial, .inl (.inr ⟨rfl, rfl⟩), .inr (.inr rfl)⟩
  · intro reports
    have number : IsBalanced [.node (.constant (.int 1))] := IsBalanced.nil.plain rfl rfl
    have balanced : IsBalanced [.node (.constant (.int 1)), .token ⟨.comma, ",", none⟩] := number.plain rfl rfl
    have unpaired : HasUnpaired [.node (.constant (.int 1)), .token ⟨.comma, ",", none⟩,
        .token ⟨.rightParen, ")", none⟩] := .inr ⟨_, _, [], rfl, rfl, balanced.not_hasOpening⟩
    exact reports.refused unpaired (.constant (.tuple [.node (.constant (.int 1)), .token ⟨.rightParen, ")", none⟩]))
      rfl

end Bracket
end Reckoner
