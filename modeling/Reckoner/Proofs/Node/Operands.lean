import Reckoner.Proofs.Item.Spelling
import Reckoner.Proofs.Node.Sequence
/-!
# The names a formula reads

A name in a formula is an operand unless a bracket opens directly behind it. The operands of the tree of a formula,
from left to right, are the operand names among its tokens (`operandNames_parse`): folding signs changes none of them.
-/
namespace Reckoner

/-- The name a part of a formula reads. -/
def Part.operand? : Part → Option Text
  | .operand name => some name
  | _ => none

/-- The names a tree reads, from left to right. -/
def Node.operandNames (n : Node) : List Text := n.flatten.filterMap Part.operand?

/-- The name tokens of a formula behind which no bracket opens. -/
def Token.operands : List Token → List Token
  | [] => []
  | t :: rest =>
    if t.kind = .name ∧ ¬rest.head?.any (·.kind == .leftParen) then t :: operands rest else operands rest

namespace Item

/-- The names that items read as operands. -/
def operandNames (items : List Item) : List Text := (parts items).filterMap Part.operand?

theorem operandNames_cons (item : Item) (items : List Item) :
    operandNames (item :: items) =
      ((item.part? (items.head?.any Bracket.opens)).toList).filterMap Part.operand? ++ operandNames items := by
  rw [operandNames, parts, List.filterMap_append, operandNames]

/-- What is no name reads none. -/
theorem operandNames_cons_of_unnamed {item : Item} (unnamed : Bracket.nameOf item = none) (items : List Item) :
    operandNames (item :: items) = operandNames items := by
  rw [operandNames_cons]
  cases item with
  | token t =>
    simp only [part?]
    split <;> rfl
  | node n => cases n <;> first | rfl | cases unnamed

theorem operandNames_cons_name (name : Text) (items : List Item) :
    operandNames (.node (.property name) :: items) =
      if items.head?.any Bracket.opens then operandNames items else name :: operandNames items := by
  rw [operandNames_cons]
  cases items.head?.any Bracket.opens <;> rfl

/-- A sign is not folded where no operand is due. -/
theorem head?_foldSignsFrom_false (items : List Item) : (foldSignsFrom false items).head? = items.head? := by
  cases items with
  | nil => rfl
  | cons item items =>
    rw [foldSignsFrom_plain (by rfl)]
    rfl

/-- An item that stays in front of folded signs reads what it read before: behind a name no sign is folded, and for
other items it does not matter what follows. -/
theorem operandNames_cons_foldSignsFrom {item : Item} {items : List Item}
    (kept : operandNames (foldSignsFrom item.opensOperand items) = operandNames items) :
    operandNames (item :: foldSignsFrom item.opensOperand items) = operandNames (item :: items) := by
  cases isName : Bracket.nameOf item with
  | none => rw [operandNames_cons_of_unnamed isName, operandNames_cons_of_unnamed isName, kept]
  | some name =>
    obtain rfl := Bracket.nameOf_eq_some isName
    have notDue : (Item.node (.property name)).opensOperand = false := rfl
    rw [notDue] at kept ⊢
    rw [operandNames_cons_name, operandNames_cons_name, head?_foldSignsFrom_false, kept]

theorem nameOf_of_isSymbol {item : Item} {op : Operator} (h : item.isSymbol op = true) :
    Bracket.nameOf item = none := by
  cases item with
  | token t => rfl
  | node n => cases h

theorem nameOf_of_negated? {item folded : Item} (h : item.negated? = some folded) :
    Bracket.nameOf item = none ∧ Bracket.nameOf folded = none := by
  unfold negated? at h
  split at h
  · obtain ⟨v, -, rfl⟩ := Option.map_eq_some_iff.mp h
    exact ⟨rfl, rfl⟩
  · cases h

theorem operandNames_foldSignsFrom (due : Bool) (items : List Item) :
    operandNames (foldSignsFrom due items) = operandNames items := by
  fun_induction foldSignsFrom due items with
  | case1 => rfl
  | case2 => rfl
  | case3 due item next rest sign folded negated ih =>
    obtain ⟨nextUnnamed, foldedUnnamed⟩ := nameOf_of_negated? negated
    have itemUnnamed := nameOf_of_isSymbol (Bool.and_eq_true_iff.mp sign).2
    rw [operandNames_cons_of_unnamed foldedUnnamed, operandNames_cons_of_unnamed itemUnnamed,
      operandNames_cons_of_unnamed nextUnnamed, ih]
  | case4 due item next rest sign notNumber ih => exact operandNames_cons_foldSignsFrom ih
  | case5 due item next rest noSign ih => exact operandNames_cons_foldSignsFrom ih

/-- A token is an opening bracket, or a name, as an item if it is one as a token. -/
theorem opens_of_classify {t : Token} {item : Item} (h : Literal.classify t = .ok item) :
    Bracket.opens item = (t.kind == .leftParen) := by
  rcases Literal.classify_cases h with ⟨kind, v, -, rfl⟩ | ⟨kind, rfl⟩ | ⟨kind, rfl⟩ | ⟨-, rfl⟩
  · rw [kind]
    rfl
  · rw [kind]
    rfl
  · rw [kind]
    rfl
  · rfl

theorem nameOf_of_classify {t : Token} {item : Item} (h : Literal.classify t = .ok item) :
    Bracket.nameOf item = if t.kind = .name then some t.text else none := by
  rcases Literal.classify_cases h with ⟨kind, v, -, rfl⟩ | ⟨kind, rfl⟩ | ⟨kind, rfl⟩ | ⟨⟨-, -, notName, -⟩, rfl⟩
  · rw [kind]
    rfl
  · rw [kind]
    rfl
  · rw [kind]
    rfl
  · rw [if_neg notName]
    rfl

theorem operandNames_of_classify {tokens : List Token} {items : List Item}
    (h : tokens.mapM Literal.classify = .ok items) :
    operandNames items = (Token.operands tokens).map Token.text := by
  induction Outcome.mapM_eq_ok.mp h with
  | nil => rfl
  | @cons t item tokens items classified rest ih =>
    have ahead := ih (Outcome.mapM_eq_ok.mpr rest)
    have next : items.head?.any Bracket.opens = tokens.head?.any (·.kind == .leftParen) := by
      cases rest with
      | nil => rfl
      | cons first others => exact opens_of_classify first
    have name := nameOf_of_classify classified
    rw [Token.operands]
    by_cases isName : t.kind = .name
    · rw [if_pos isName] at name
      rw [Bracket.nameOf_eq_some name, operandNames_cons_name, next, ahead]
      cases tokens.head?.any (·.kind == .leftParen) <;> simp [isName]
    · rw [if_neg isName] at name
      rw [operandNames_cons_of_unnamed name, ahead, if_neg (by simp [isName])]

end Item

namespace Node

/-- The names that the tree of a formula reads are the operand names of its text, in their order. -/
theorem operandNames_parse {s : Text} {tree : Node} (parsed : parse s = .ok tree) :
    tree.operandNames = (Token.operands (Token.scan s)).map Token.text := by
  obtain ⟨items, read, resolved⟩ := Outcome.bind_eq_ok.mp parsed
  have flat := Bracket.resolve_flatten formed_inherited (fun _ => Formed.isWritable) (Item.ofText_clean read)
    (Item.ofText_leaf read) resolved
  obtain ⟨raw, classified, folded⟩ := Outcome.bind_eq_ok.mp read
  cases folded
  rw [operandNames, flat, ← Item.operandNames_of_classify classified]
  exact Item.operandNames_foldSignsFrom true raw

end Node
end Reckoner
