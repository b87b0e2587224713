import Reckoner.Proofs.Bracket.Verdict
import Reckoner.Proofs.Run.Flatten
/-!
# What the bracket stack keeps of its items

The tree of some items, laid out flat, is what the items list without their brackets and commas (`resolve_flatten`).
The invariant behind it is that the pending brackets and the current run, laid out from the outside in, list just what
the items read so far list. A name before an opening bracket is the one item whose part is settled late: it has been
listed as an operand when the bracket turns it into a callee.
-/
namespace Reckoner

namespace Item

/-- The part an item of a formula stands for, where `called` says whether a bracket opens directly behind it. Brackets
and commas stand for none. -/
def part? (called : Bool) : Item → Option Part
  | .node (.constant payload) => some (.literal payload)
  | .node (.property name) => some (if called then .callee name else .operand name)
  | .node _ => none
  | .token t => if t.separates then none else some (.sign t.text)

/-- The parts of a list of items in their order. -/
def parts : List Item → List Part
  | [] => []
  | item :: rest => (item.part? (rest.head?.any Bracket.opens)).toList ++ parts rest

/-- An item as it stands in a formula before anything is reduced: a token, a literal that is no list, or a name. -/
def IsLeaf : Item → Prop
  | .node (.constant payload) => ∀ elements, payload ≠ .tuple elements
  | .node (.property _) => True
  | .node _ => False
  | .token _ => True

theorem IsLeaf.flatten {item : Item} (leaf : item.IsLeaf) : item.flatten = (item.part? false).toList := by
  cases item with
  | token t => by_cases separates : t.separates = true <;> simp [Item.flatten, part?, separates]
  | node n =>
    cases n with
    | property name => simp [part?]
    | binary op left right => exact leaf.elim
    | call name args => exact leaf.elim
    | constant payload =>
      rw [flatten_node, Node.flatten]
      · rfl
      · exact leaf

theorem part?_of_unnamed {item : Item} (unnamed : Bracket.nameOf item = none) (called : Bool) :
    item.part? called = item.part? false := by
  cases item with
  | token t => rfl
  | node n =>
    cases n with
    | property name => cases unnamed
    | _ => rfl

/-- One more item behind others, unless it turns a name into a callee. -/
theorem parts_concat {items : List Item} {item : Item}
    (settled : Bracket.lastName items = none ∨ Bracket.opens item = false) :
    parts (items ++ [item]) = parts items ++ (item.part? false).toList := by
  induction items with
  | nil => simp [parts]
  | cons first rest ih =>
    cases rest with
    | nil =>
      have kept : first.part? (Bracket.opens item) = first.part? false := by
        rcases settled with unnamed | plain
        · exact part?_of_unnamed unnamed _
        · rw [plain]
      simp [parts, kept]
    | cons second rest =>
      have more := ih (by simpa [Bracket.lastName, List.getLast?_cons_cons] using settled)
      rw [List.cons_append, parts, more, parts.eq_2 first]
      exact (List.append_assoc _ _ _).symm

/-- A name directly before an opening bracket. -/
theorem parts_callee (items : List Item) (name : Text) {item : Item} (opening : Bracket.opens item = true)
    (separates : item.part? false = none) :
    parts (items ++ [.node (.property name)] ++ [item]) = parts items ++ [.callee name] := by
  induction items with
  | nil =>
    have callee : part? true (.node (.property name)) = some (.callee name) := rfl
    simp [parts, opening, separates, callee]
  | cons first rest ih =>
    have behind : (rest ++ [Item.node (.property name)] ++ [item]).head?.any Bracket.opens =
        rest.head?.any Bracket.opens := by cases rest <;> rfl
    rw [List.cons_append, List.cons_append, parts, ih, behind, parts]
    exact (List.append_assoc _ _ _).symm

end Item

namespace Bracket

/-- What stands outside a pending bracket, with the name that it calls. -/
def Pending.flatten (f : Pending) : List Part :=
  f.outer.reverse.flatMap Item.flatten ++ (f.callee.map Part.callee).toList

/-- The pending brackets from the outside in, and then the current run. -/
def Progress.flatten (p : Progress) : List Part :=
  p.pending.reverse.flatMap Pending.flatten ++ p.run.reverse.flatMap Item.flatten

theorem flatten_groupNode (callee : Option Text) (inner : Node) :
    (Progress.groupNode callee inner).flatten = (callee.map Part.callee).toList ++ inner.flatten := by
  cases callee <;> simp [Progress.groupNode]

variable {P : Node → Prop} {p q : Progress} {items : List Item} {item : Item} {t : Token}

theorem part?_opening (opening : t.kind = .leftParen) : (Item.token t).part? false = none := by
  simp [Item.part?, Token.separates, opening]

theorem part?_closing (closing : t.kind = .rightParen) : (Item.token t).part? false = none := by
  simp [Item.part?, Token.separates, closing]

/-- An opening bracket moves the current run, and takes the name before it out of the operands. -/
theorem flatten_openPair (tracked : Tracked P p items) (opening : t.kind = .leftParen)
    (laid : p.flatten = Item.parts items) : (p.openPair t.position).flatten = Item.parts (items ++ [.token t]) := by
  have isOpening := (opens_token t).mpr opening
  cases called : p.name with
  | none =>
    rw [Item.parts_concat (.inl (tracked.name ▸ called)), part?_opening opening, ← laid]
    simp [Progress.openPair, Progress.flatten, Pending.flatten, called]
  | some name =>
    obtain ⟨earlier, run⟩ := tracked.named name called
    obtain ⟨last, ends, isName⟩ := Option.bind_eq_some_iff.mp (tracked.name ▸ called)
    obtain ⟨init, rfl⟩ := List.getLast?_eq_some_iff.mp ends
    obtain rfl := nameOf_eq_some isName
    rw [Item.parts_concat (.inr rfl)] at laid
    -- both sides list the name last, as an operand; without it they still agree
    have before :
        p.pending.reverse.flatMap Pending.flatten ++ earlier.reverse.flatMap Item.flatten = Item.parts init := by
      have ended : (p.pending.reverse.flatMap Pending.flatten ++ earlier.reverse.flatMap Item.flatten) ++
          [Part.operand name] = Item.parts init ++ [Part.operand name] := by
        simpa [Progress.flatten, run, Item.part?] using laid
      exact List.append_cancel_right ended
    rw [Item.parts_callee init name isOpening (part?_opening opening), ← before]
    simp [Progress.openPair, Progress.flatten, Pending.flatten, called, run]

/-- What one item adds to the parts that are listed. -/
theorem step_flatten (tracked : Tracked P p items) (clean : item.IsClean P) (leaf : item.IsLeaf)
    (laid : p.flatten = Item.parts items) (step : p.step item = .ok q) :
    q.flatten = Item.parts (items ++ [item]) := by
  cases o : opens item with
  | true =>
    obtain ⟨t, rfl, opening⟩ := eq_token_of_opens o
    rw [Progress.step_opening p t opening] at step
    cases step
    exact flatten_openPair tracked opening laid
  | false =>
    rw [Item.parts_concat (.inr o), ← laid]
    cases c : closes item with
    | false =>
      rw [Progress.step_plain p item o c] at step
      cases step
      simp [Progress.flatten, ← leaf.flatten]
    | true =>
      obtain ⟨u, rfl, closing⟩ := eq_token_of_closes c
      rw [part?_closing closing]
      cases pending : p.pending with
      | nil =>
        rw [Progress.step_closing_stray p u closing pending] at step
        cases step
        simp [Progress.flatten, pending, leaf.flatten, part?_closing closing]
      | cons f outer =>
        have tracks := tracked.tracks
        rw [pending] at tracks
        obtain ⟨before, inside, t, -, -, -, -, segment, -⟩ := tracks
        rw [Progress.step_closing_pending p u closing f outer pending] at step
        obtain ⟨inner, reduced, last⟩ := Outcome.bind_eq_ok.mp step
        cases last
        have kept := Run.reduce_flatten (fun i m => segment.flat i (by simpa using m)) reduced
        simp [Progress.flatten, pending, Pending.flatten, flatten_groupNode, kept]

theorem read_flatten (inherited : Node.Inherited P) (writable : ∀ n, P n → n.IsWritable)
    (clean : ∀ item ∈ items, item.IsClean P) (leaves : ∀ item ∈ items, item.IsLeaf)
    (read : Progress.start.read items = .ok q) : q.flatten = Item.parts items := by
  induction items using List.reverseRecOn generalizing q with
  | nil =>
    cases read
    rfl
  | append_singleton items item ih =>
    have cleanBefore : ∀ i ∈ items, i.IsClean P := fun i m => clean i (by simp [m])
    rw [Progress.read_append] at read
    obtain ⟨p, before, last⟩ := Outcome.bind_eq_ok.mp read
    obtain ⟨r, step, same⟩ := Outcome.bind_eq_ok.mp last
    cases same
    exact step_flatten (tracked_of_read inherited writable cleanBefore before) (clean item (by simp))
      (leaves item (by simp)) (ih cleanBefore (fun i m => leaves i (by simp [m])) before) step

/-- The tree of some items has their parts in their order. -/
theorem resolve_flatten (inherited : Node.Inherited P) (writable : ∀ n, P n → n.IsWritable)
    (clean : ∀ item ∈ items, item.IsClean P) (leaves : ∀ item ∈ items, item.IsLeaf) {tree : Node}
    (h : resolve items = .ok tree) : tree.flatten = Item.parts items := by
  obtain ⟨q, read, pending, segment, reduced⟩ := resolve_eq_ok inherited writable clean h
  rw [← read_flatten inherited writable clean leaves read,
    Run.reduce_flatten (fun i m => segment.flat i (by simpa using m)) reduced]
  simp [Progress.flatten, pending]

end Bracket
end Reckoner
