import Reckoner.Proofs.Bracket.Pairing
/-!
# Brackets without a partner

A bracket has a partner when the items between the two are balanced. Every list of items is made of balanced pieces
with the brackets that lack one between them, the closing ones first (`exists_layout`), and these are all the brackets
without a partner (`unpairedOpening_iff`, `unpairedClosing_iff`): within balanced items every bracket has its partner
among these items.
-/
namespace Reckoner.Bracket

/-- Items in which every bracket has its partner. -/
def IsBalanced (items : List Item) : Prop := ∃ marks, Balanced items marks

/-- The items behind an opening bracket hold its partner. -/
def HasClosing (after : List Item) : Prop :=
  ∃ (inner rest : List Item) (u : Token), after = inner ++ .token u :: rest ∧ u.kind = .rightParen ∧ IsBalanced inner

/-- The items before a closing bracket hold its partner. -/
def HasOpening (before : List Item) : Prop :=
  ∃ (earlier inner : List Item) (t : Token),
    before = earlier ++ .token t :: inner ∧ t.kind = .leftParen ∧ IsBalanced inner

/-- An opening bracket without a partner. -/
def UnpairedOpening (items : List Item) (t : Token) : Prop :=
  ∃ before after : List Item, items = before ++ .token t :: after ∧ t.kind = .leftParen ∧ ¬HasClosing after

/-- A closing bracket without a partner. -/
def UnpairedClosing (items : List Item) (t : Token) : Prop :=
  ∃ before after : List Item, items = before ++ .token t :: after ∧ t.kind = .rightParen ∧ ¬HasOpening before

/-- Items made of balanced pieces with the closing and then the opening brackets between them that lack a partner: the
closing ones in their order, and the opening ones from the last to the first. -/
inductive Layout : List Item → List Token → List Token → Prop where
  | balanced {items : List Item} (balanced : IsBalanced items) : Layout items [] []
  | closing {items more : List Item} {closers : List Token} (u : Token) (earlier : Layout items closers [])
      (closing : u.kind = .rightParen) (behind : IsBalanced more) :
      Layout (items ++ .token u :: more) (closers ++ [u]) []
  | opening {items more : List Item} {closers openers : List Token} (t : Token)
      (earlier : Layout items closers openers) (opening : t.kind = .leftParen) (behind : IsBalanced more) :
      Layout (items ++ .token t :: more) closers (t :: openers)

variable {items inner more before after : List Item} {marks : List Mark} {closers openers : List Token} {t u : Token}

/-- Where a list is split in two ways, one splitting place is before the other, or they are the same. -/
theorem append_cons_eq_append_cons {α : Type} {as bs cs ds : List α} {a b : α} (h : as ++ a :: bs = cs ++ b :: ds) :
    (∃ m, as = cs ++ b :: m ∧ ds = m ++ a :: bs) ∨ (as = cs ∧ a = b ∧ bs = ds) ∨
      ∃ m, cs = as ++ a :: m ∧ bs = m ++ b :: ds := by
  rcases List.append_eq_append_iff.mp h with ⟨m, first, second⟩ | ⟨m, first, second⟩
  · cases m with
    | nil =>
      obtain ⟨same, rest⟩ := List.cons.inj second
      exact .inr (.inl ⟨by simpa using first.symm, same, rest⟩)
    | cons x m =>
      obtain ⟨rfl, rest⟩ := List.cons.inj second
      exact .inr (.inr ⟨m, first, rest⟩)
  · cases m with
    | nil =>
      obtain ⟨same, rest⟩ := List.cons.inj second
      exact .inr (.inl ⟨by simpa using first, same.symm, rest.symm⟩)
    | cons x m =>
      obtain ⟨rfl, rest⟩ := List.cons.inj second
      exact .inl ⟨m, first, rest⟩

theorem not_rightParen_of_leftParen (opening : t.kind = .leftParen) : t.kind ≠ .rightParen := by
  rw [opening]
  decide

theorem HasClosing.append (h : HasClosing before) (more : List Item) : HasClosing (before ++ more) := by
  obtain ⟨inner, rest, u, rfl, closing, balanced⟩ := h
  exact ⟨inner, rest ++ more, u, by simp, closing, balanced⟩

theorem HasOpening.prepend (h : HasOpening after) (earlier : List Item) (item : Item) :
    HasOpening (earlier ++ item :: after) := by
  obtain ⟨before, inner, t, rfl, opening, balanced⟩ := h
  exact ⟨earlier ++ item :: before, inner, t, by simp, opening, balanced⟩

theorem UnpairedClosing.append (h : UnpairedClosing items u) (more : List Item) :
    UnpairedClosing (items ++ more) u := by
  obtain ⟨before, after, rfl, closing, none⟩ := h
  exact ⟨before, after ++ more, by simp, closing, none⟩

theorem IsBalanced.nil : IsBalanced [] := ⟨[], .nil⟩

theorem IsBalanced.plain (balanced : IsBalanced items) {item : Item} (o : opens item = false)
    (c : closes item = false) : IsBalanced (items ++ [item]) := by
  obtain ⟨marks, balanced⟩ := balanced
  exact ⟨_, balanced.plain item o c⟩

theorem IsBalanced.pair (balanced : IsBalanced items) (opening : t.kind = .leftParen) (inside : IsBalanced inner)
    (closing : u.kind = .rightParen) : IsBalanced (items ++ .token t :: (inner ++ [.token u])) := by
  obtain ⟨marks, balanced⟩ := balanced
  obtain ⟨innerMarks, inside⟩ := inside
  cases ends : lastName items with
  | none => exact ⟨_, balanced.group t u ends opening inside closing⟩
  | some name => exact ⟨_, balanced.call t u name ends opening inside closing⟩

/-- Each bracket among the items has its partner among them. -/
def Partners (items : List Item) : Prop :=
  ∀ (before after : List Item) (v : Token), items = before ++ .token v :: after →
    (v.kind = .leftParen → HasClosing after) ∧ (v.kind = .rightParen → HasOpening before)

theorem Partners.plain (earlier : Partners items) {item : Item} (o : opens item = false) (c : closes item = false) :
    Partners (items ++ [item]) := by
  intro before after v split
  rcases append_cons_eq_append_cons split with ⟨m, rfl, rfl⟩ | ⟨-, rfl, -⟩ | ⟨m, -, impossible⟩
  · obtain ⟨left, right⟩ := earlier before m v rfl
    exact ⟨fun opening => (left opening).append [item], right⟩
  · refine ⟨fun opening => ?_, fun closing => ?_⟩
    · rw [(opens_token v).mpr opening] at o
      cases o
    · rw [(closes_token v).mpr closing] at c
      cases c
  · simp at impossible

theorem Partners.pair (earlier : Partners items) (opening : t.kind = .leftParen) (inside : Partners inner)
    (balanced : IsBalanced inner) (closing : u.kind = .rightParen) :
    Partners (items ++ .token t :: (inner ++ [.token u])) := by
  intro before after v split
  rcases append_cons_eq_append_cons split with ⟨m, rfl, rfl⟩ | ⟨-, same, rfl⟩ | ⟨m, rfl, splitInside⟩
  · obtain ⟨left, right⟩ := earlier before m v rfl
    exact ⟨fun opening => (left opening).append _, right⟩
  · cases same
    exact ⟨fun _ => ⟨inner, [], u, rfl, closing, balanced⟩, fun isClosing =>
      absurd isClosing (not_rightParen_of_leftParen opening)⟩
  · rcases append_cons_eq_append_cons splitInside with ⟨k, rfl, rfl⟩ | ⟨rfl, same, -⟩ | ⟨k, -, impossible⟩
    · obtain ⟨left, right⟩ := inside m k v rfl
      exact ⟨fun opening => (left opening).append _, fun closing => (right closing).prepend _ _⟩
    · cases same
      exact ⟨fun isOpening => absurd closing (not_rightParen_of_leftParen isOpening), fun _ =>
        ⟨items, inner, t, rfl, opening, balanced⟩⟩
    · simp at impossible

theorem Balanced.partners (balanced : Balanced items marks) : Partners items := by
  induction balanced with
  | nil =>
    intro before after v split
    simp at split
  | plain item _ notOpening notClosing ih => exact ih.plain notOpening notClosing
  | group t u _ _ opening inside closing ih ihInside => exact ih.pair opening ihInside ⟨_, inside⟩ closing
  | call t u _ _ _ opening inside closing ih ihInside => exact ih.pair opening ihInside ⟨_, inside⟩ closing

theorem IsBalanced.partners (balanced : IsBalanced items) : Partners items := balanced.elim fun _ => Balanced.partners

/-- A bracket that follows balanced items closes nothing among them: they hold the partner of each of their own, and a
second closing bracket would have to share it. -/
theorem IsBalanced.not_hasClosing (balanced : IsBalanced items) : ¬HasClosing items := by
  induction length : items.length using Nat.strong_induction_on generalizing items with
  | _ n ih =>
    rintro ⟨inner, rest, u, rfl, closing, isInner⟩
    obtain ⟨earlier, behind, t, rfl, opening, isBehind⟩ := (balanced.partners _ _ u rfl).2 closing
    have closes : HasClosing behind := (isInner.partners _ _ t rfl).1 opening
    refine ih behind.length ?_ isBehind rfl closes
    rw [← length]
    simp only [List.length_append, List.length_cons]
    omega

theorem IsBalanced.not_hasOpening (balanced : IsBalanced items) : ¬HasOpening items := by
  rintro ⟨earlier, inner, t, rfl, opening, isInner⟩
  exact isInner.not_hasClosing ((balanced.partners _ _ t rfl).1 opening)

/-- In balanced items no closing bracket lacks its partner. -/
theorem IsBalanced.not_unpairedClosing (balanced : IsBalanced items) : ¬UnpairedClosing items u := by
  rintro ⟨before, after, split, closing, none⟩
  exact none ((balanced.partners before after u split).2 closing)

theorem IsBalanced.not_unpairedOpening (balanced : IsBalanced items) : ¬UnpairedOpening items t := by
  rintro ⟨before, after, split, opening, none⟩
  exact none ((balanced.partners before after t split).1 opening)

/-- A bracket with balanced items behind it adds at most itself to the closing brackets without a partner. -/
theorem UnpairedClosing.of_append {v : Token} (h : UnpairedClosing (items ++ .token v :: more) u)
    (behind : IsBalanced more) : UnpairedClosing items u ∨ v = u ∧ u.kind = .rightParen := by
  obtain ⟨before, after, split, closing, none⟩ := h
  rcases append_cons_eq_append_cons split with ⟨m, rfl, -⟩ | ⟨-, same, -⟩ | ⟨m, rfl, rfl⟩
  · exact .inl ⟨before, m, rfl, closing, none⟩
  · cases same
    exact .inr ⟨rfl, closing⟩
  · have opens : HasOpening m := (behind.partners _ _ u rfl).2 closing
    exact absurd (opens.prepend items _) none

theorem UnpairedOpening.of_append {v : Token} (h : UnpairedOpening (items ++ .token v :: more) t)
    (behind : IsBalanced more) : UnpairedOpening items t ∨ v = t ∧ t.kind = .leftParen := by
  obtain ⟨before, after, split, opening, none⟩ := h
  rcases append_cons_eq_append_cons split with ⟨m, rfl, rfl⟩ | ⟨-, same, -⟩ | ⟨m, -, rfl⟩
  · exact .inl ⟨before, m, rfl, opening, fun closes => none (closes.append _)⟩
  · cases same
    exact .inr ⟨rfl, opening⟩
  · exact absurd ((behind.partners _ _ t rfl).1 opening) none

/-- An opening bracket with balanced items behind it gives no earlier one a partner, which would have to stand among
these items, behind the partner of the new bracket. -/
theorem UnpairedOpening.append {v : Token} (h : UnpairedOpening items t) (opening : v.kind = .leftParen)
    (behind : IsBalanced more) : UnpairedOpening (items ++ .token v :: more) t := by
  obtain ⟨before, after, rfl, tOpening, none⟩ := h
  refine ⟨before, after ++ .token v :: more, by simp, tOpening, ?_⟩
  rintro ⟨inner, rest, u, split, closing, isInner⟩
  rcases append_cons_eq_append_cons split with ⟨m, rfl, -⟩ | ⟨-, same, -⟩ | ⟨m, rfl, rfl⟩
  · exact none ⟨inner, m, u, rfl, closing, isInner⟩
  · cases same
    exact not_rightParen_of_leftParen opening closing
  · have closes : HasClosing m := (isInner.partners _ _ v rfl).1 opening
    exact behind.not_hasClosing (closes.append _)

namespace Layout

/-- What keeps balanced items balanced only makes the last piece longer. -/
theorem extend (layout : Layout items closers openers) {tail : List Item}
    (grows : ∀ piece, IsBalanced piece → IsBalanced (piece ++ tail)) : Layout (items ++ tail) closers openers := by
  cases layout with
  | balanced balanced => exact .balanced (grows _ balanced)
  | closing u earlier closing behind =>
    rw [List.append_assoc]
    exact .closing u earlier closing (grows _ behind)
  | opening t earlier opening behind =>
    rw [List.append_assoc]
    exact .opening t earlier opening (grows _ behind)

end Layout

/-- All items are laid out like this. The induction is on the last item, and a closing one goes into a pair if a bracket
before it waits for it. -/
theorem exists_layout (items : List Item) : ∃ closers openers, Layout items closers openers := by
  induction items using List.reverseRecOn with
  | nil => exact ⟨[], [], .balanced .nil⟩
  | append_singleton items item ih =>
    obtain ⟨closers, openers, layout⟩ := ih
    cases o : opens item with
    | true =>
      obtain ⟨t, rfl, opening⟩ := eq_token_of_opens o
      exact ⟨closers, t :: openers, layout.opening t opening .nil⟩
    | false =>
      cases c : closes item with
      | false => exact ⟨closers, openers, layout.extend fun _ balanced => balanced.plain o c⟩
      | true =>
        obtain ⟨u, rfl, closing⟩ := eq_token_of_closes c
        cases layout with
        | balanced balanced => exact ⟨_, [], .closing u (.balanced balanced) closing .nil⟩
        | closing v earlier vClosing behind =>
          exact ⟨_, [], .closing u (earlier.closing v vClosing behind) closing .nil⟩
        | opening t earlier opening behind =>
          rw [List.append_assoc]
          exact ⟨_, _, earlier.extend fun _ balanced => balanced.pair opening behind closing⟩

namespace Layout

theorem not_hasOpening (layout : Layout items closers []) : ¬HasOpening items := by
  generalize none : ([] : List Token) = openers at layout
  induction layout with
  | balanced balanced => exact balanced.not_hasOpening
  | closing u earlier closing behind ih =>
    rintro ⟨before, inner, t, split, opening, isInner⟩
    rcases append_cons_eq_append_cons split with ⟨m, rfl, rfl⟩ | ⟨-, same, -⟩ | ⟨m, -, rfl⟩
    · have opens := (isInner.partners _ _ u rfl).2 closing
      exact ih none (opens.prepend _ _)
    · cases same
      exact not_rightParen_of_leftParen opening closing
    · exact behind.not_hasOpening ⟨m, inner, t, rfl, opening, isInner⟩
  | opening => cases none

theorem unpairedClosing_iff (layout : Layout items closers openers) : UnpairedClosing items u ↔ u ∈ closers := by
  constructor
  · intro unpaired
    induction layout with
    | balanced balanced => exact absurd unpaired balanced.not_unpairedClosing
    | closing v earlier _ behind ih =>
      rcases unpaired.of_append behind with before | ⟨rfl, -⟩
      · exact List.mem_append_left _ (ih before)
      · simp
    | opening t earlier opening behind ih =>
      rcases unpaired.of_append behind with before | ⟨rfl, closing⟩
      · exact ih before
      · exact absurd closing (not_rightParen_of_leftParen opening)
  · intro member
    induction layout with
    | balanced => cases member
    | @closing items more closers v earlier closing behind ih =>
      rcases List.mem_append.mp member with before | last
      · exact (ih before).append _
      · obtain rfl := List.mem_singleton.mp last
        exact ⟨items, more, rfl, closing, earlier.not_hasOpening⟩
    | opening t earlier opening behind ih => exact (ih member).append _

theorem unpairedOpening_iff (layout : Layout items closers openers) : UnpairedOpening items t ↔ t ∈ openers := by
  constructor
  · intro unpaired
    induction layout with
    | balanced balanced => exact absurd unpaired balanced.not_unpairedOpening
    | closing v earlier closing behind ih =>
      rcases unpaired.of_append behind with before | ⟨rfl, opening⟩
      · exact ih before
      · exact absurd closing (not_rightParen_of_leftParen opening)
    | opening v earlier _ behind ih =>
      rcases unpaired.of_append behind with before | ⟨rfl, -⟩
      · exact List.mem_cons_of_mem _ (ih before)
      · exact List.mem_cons_self
  · intro member
    induction layout with
    | balanced => cases member
    | closing => cases member
    | @opening items more closers openers v earlier opening behind ih =>
      rcases List.mem_cons.mp member with rfl | before
      · exact ⟨items, more, rfl, opening, behind.not_hasClosing⟩
      · exact (ih before).append opening behind

end Layout
end Reckoner.Bracket
