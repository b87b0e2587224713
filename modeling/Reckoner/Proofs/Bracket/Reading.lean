import Reckoner.Item.Bracket
import Reckoner.Proofs.Outcome
/-!
# Reading items one after another

The bracket stack is read through `Progress.read`, which says what a whole stretch of items changes. A stretch
without brackets only fills the current run, and the name kept for a call matters to an opening bracket alone.
-/
namespace Reckoner.Bracket

/-- An opening bracket. -/
def opens (item : Item) : Bool := item.isKind .leftParen

/-- A closing bracket. -/
def closes (item : Item) : Bool := item.isKind .rightParen

@[simp] theorem opens_node (n : Node) : opens (.node n) = false := rfl

@[simp] theorem closes_node (n : Node) : closes (.node n) = false := rfl

theorem opens_token (t : Token) : opens (.token t) = true ↔ t.kind = .leftParen := by simp [opens, Item.isKind]

theorem closes_token (t : Token) : closes (.token t) = true ↔ t.kind = .rightParen := by simp [closes, Item.isKind]

theorem eq_token_of_opens {item : Item} (h : opens item = true) : ∃ t, item = .token t ∧ t.kind = .leftParen := by
  cases item with
  | node n => cases h
  | token t => exact ⟨t, rfl, (opens_token t).mp h⟩

theorem eq_token_of_closes {item : Item} (h : closes item = true) : ∃ t, item = .token t ∧ t.kind = .rightParen := by
  cases item with
  | node n => cases h
  | token t => exact ⟨t, rfl, (closes_token t).mp h⟩

/-- The name an item is, if it is a property. -/
def nameOf : Item → Option Text
  | .node (.property name) => some name
  | _ => none

theorem nameOf_eq_some {item : Item} {name : Text} (h : nameOf item = some name) : item = .node (.property name) := by
  unfold nameOf at h
  split at h
  · cases h
    rfl
  · cases h

namespace Progress

/-- What a stretch of items changes. -/
def read (p : Progress) (items : List Item) : Outcome Progress := items.foldlM step p

@[simp] theorem read_nil (p : Progress) : p.read [] = .ok p := rfl

@[simp] theorem read_cons (p : Progress) (item : Item) (items : List Item) :
    p.read (item :: items) = p.step item >>= fun q => q.read items := rfl

theorem read_append (p : Progress) (first second : List Item) :
    p.read (first ++ second) = p.read first >>= fun q => q.read second := by
  simp only [read, List.foldlM_append]

/-- An item that is no bracket joins the current run. -/
theorem step_plain (p : Progress) (item : Item) (o : opens item = false) (c : closes item = false) :
    p.step item = .ok { p with run := item :: p.run, name := nameOf item } := by
  cases item with
  | node n => cases n <;> rfl
  | token t =>
    have notOpening : t.kind ≠ .leftParen := by simpa [opens, Item.isKind] using o
    have notClosing : t.kind ≠ .rightParen := by simpa [closes, Item.isKind] using c
    simp only [step, if_neg notOpening, if_neg notClosing]
    rfl

theorem step_opening (p : Progress) (t : Token) (h : t.kind = .leftParen) :
    p.step (.token t) = .ok (p.openPair t.position) := by
  simp only [step, if_pos h]

theorem step_closing (p : Progress) (t : Token) (h : t.kind = .rightParen) :
    p.step (.token t) = p.closePair t := by
  have notOpening : t.kind ≠ .leftParen := by rw [h]; decide
  simp only [step, if_neg notOpening, if_pos h]

/-- A closing bracket with a partner: the run between them becomes a node of the run outside. -/
theorem step_closing_pending (p : Progress) (t : Token) (h : t.kind = .rightParen) (innermost : Pending)
    (outer : List Pending) (pending : p.pending = innermost :: outer) :
    p.step (.token t) = Run.reduce p.run.reverse >>= fun inner =>
      .ok { p with
        run := .node (groupNode innermost.callee inner) :: innermost.outer
        pending := outer
        name := none } := by
  rw [step_closing p t h, closePair, pending]
  rfl

/-- A closing bracket that nothing opened stays in the run. -/
theorem step_closing_stray (p : Progress) (t : Token) (h : t.kind = .rightParen) (pending : p.pending = []) :
    p.step (.token t) = .ok { p with run := .token t :: p.run, stray := p.stray.or t.position, name := none } := by
  rw [step_closing p t h]
  unfold closePair
  split
  next => rfl
  next innermost outer present => simp [pending] at present

/-- The name kept after an item is the item itself, if it is a name. -/
theorem step_name {p q : Progress} {item : Item} (h : p.step item = .ok q) : q.name = nameOf item := by
  by_cases o : opens item = true
  · cases item with
    | node n => cases o
    | token t =>
      rw [step_opening p t ((opens_token t).mp o)] at h
      cases h
      rfl
  · by_cases c : closes item = true
    · cases item with
      | node n => cases c
      | token t =>
        have closing := (closes_token t).mp c
        cases pending : p.pending with
        | nil =>
          rw [step_closing_stray p t closing pending] at h
          cases h
          rfl
        | cons innermost outer =>
          rw [step_closing_pending p t closing innermost outer pending] at h
          obtain ⟨inner, -, h⟩ := Outcome.bind_eq_ok.mp h
          cases h
          rfl
    · rw [step_plain p item (by simpa using o) (by simpa using c)] at h
      cases h
      rfl

/-- Only an opening bracket looks at the name that was kept. -/
theorem step_withName (p : Progress) (name : Option Text) (item : Item) (o : opens item = false) :
    { p with name := name }.step item = p.step item := by
  cases c : closes item with
  | false => rw [step_plain _ item o c, step_plain p item o c]
  | true =>
    cases item with
    | node n => cases c
    | token t =>
      have closing := (closes_token t).mp c
      rw [step_closing _ t closing, step_closing p t closing]
      rfl

/-- Without an opening bracket ahead the name that was kept is irrelevant. -/
theorem read_finish_withName (items : List Item) (noOpening : ∀ item ∈ items, opens item = false) (p : Progress)
    (name : Option Text) : ({ p with name := name }.read items >>= finish) = (p.read items >>= finish) := by
  cases items with
  | nil => rfl
  | cons item items =>
    rw [read_cons, read_cons, step_withName p name item (noOpening item (by simp))]

/-- A stretch without brackets joins the current run as it is. -/
theorem read_plain (items : List Item) (noOpening : ∀ item ∈ items, opens item = false)
    (noClosing : ∀ item ∈ items, closes item = false) (p : Progress) :
    ∃ name, p.read items = .ok { p with run := items.reverse ++ p.run, name := name } := by
  induction items generalizing p with
  | nil => exact ⟨p.name, rfl⟩
  | cons item items ih =>
    obtain ⟨name, rest⟩ := ih (fun i m => noOpening i (by simp [m])) (fun i m => noClosing i (by simp [m]))
      { p with run := item :: p.run, name := nameOf item }
    refine ⟨name, ?_⟩
    rw [read_cons, step_plain p item (noOpening item (by simp)) (noClosing item (by simp))]
    simpa using rest

end Progress

/-- An operator or a comma joins the current run. -/
theorem read_operator (p : Progress) {t : Token} (kind : t.kind = .operator ∨ t.kind = .comma)
    (items : List Item) :
    p.read (.token t :: items) = { p with run := .token t :: p.run, name := none }.read items := by
  have notOpening : opens (.token t) = false := by
    rcases kind with kind | kind <;> simp [opens, Item.isKind, kind]
  have notClosing : closes (.token t) = false := by
    rcases kind with kind | kind <;> simp [closes, Item.isKind, kind]
  rw [Progress.read_cons, Progress.step_plain p _ notOpening notClosing, Outcome.ok_bind]
  rfl

theorem resolve_eq_read (items : List Item) : resolve items = Progress.start.read items >>= Progress.finish := rfl

end Reckoner.Bracket
