import Reckoner.Proofs.Item.Placement
import Reckoner.Proofs.Node.Operands
import Reckoner.Proofs.Node.Renamed
/-!
# Tokens and items with other names

Tokens with other names become items with these names (`ofTokens_rename`). A name directly before an opening bracket is
called and not read, so where names are replaced it has to stay as it is; folding signs leaves it in its place
(`keepsCallee_foldSignsFrom`).
-/
namespace Reckoner

namespace Item

/-- The item with every name that it reads replaced. -/
def rename (f : Text → Text) : Item → Item
  | .node n => .node (n.rename f)
  | .token t => .token t

variable (f : Text → Text)

@[simp] theorem rename_node (n : Node) : (Item.node n).rename f = .node (n.rename f) := rfl

@[simp] theorem rename_token (t : Token) : (Item.token t).rename f = .token t := rfl

@[simp] theorem isSymbol_rename (item : Item) (op : Operator) : (item.rename f).isSymbol op = item.isSymbol op := by
  cases item <;> rfl

@[simp] theorem isKind_rename (item : Item) (kind : TokenKind) : (item.rename f).isKind kind = item.isKind kind := by
  cases item <;> rfl

@[simp] theorem opensOperand_rename (item : Item) : (item.rename f).opensOperand = item.opensOperand := by
  cases item <;> rfl

@[simp] theorem negated?_rename (item : Item) : (item.rename f).negated? = item.negated? := by
  cases item with
  | token t => rfl
  | node n =>
    cases n with
    | constant payload => cases payload <;> simp [Node.rename, negated?, Value.negated?]
    | _ => simp [negated?]

/-- Among the items of a text only names change. -/
theorem rename_of_unnamed {item : Item} (leaf : item.IsLeaf)
    (unnamed : Bracket.nameOf item = none) : item.rename f = item := by
  cases item with
  | token t => rfl
  | node n =>
    cases n with
    | constant payload => rw [rename_node, Node.rename_constant f leaf]
    | property name => cases unnamed
    | binary op left right => exact leaf.elim
    | call name args => exact leaf.elim

theorem rename_of_negated? {item folded : Item} (h : item.negated? = some folded) : folded.rename f = folded :=
  rename_of_unnamed f (negated?_leaf h) (nameOf_of_negated? h).2

theorem foldSignsFrom_rename (due : Bool) (items : List Item) :
    foldSignsFrom due (items.map (rename f)) = (foldSignsFrom due items).map (rename f) :=
  foldSignsFrom_map (fun item => item.isSymbol_rename f .minus) (opensOperand_rename f) (negated?_rename f)
    (fun _ _ => rename_of_negated? f) due items

theorem map_toValue_rename (items : List Item) :
    (items.map (rename f)).map toValue = Node.renameAll f (items.map toValue) := by
  induction items with
  | nil => rfl
  | cons item items ih => cases item <;> simp [toValue, Node.renameAll, ih]

end Item

namespace Bracket

@[simp] theorem opens_rename (f : Text → Text) (item : Item) : opens (item.rename f) = opens item :=
  Item.isKind_rename f item .leftParen

@[simp] theorem closes_rename (f : Text → Text) (item : Item) : closes (item.rename f) = closes item :=
  Item.isKind_rename f item .rightParen

theorem nameOf_rename (f : Text → Text) (item : Item) : nameOf (item.rename f) = (nameOf item).map f := by
  cases item with
  | token t => rfl
  | node n =>
    cases n with
    | constant payload => cases payload <;> simp [Node.rename, nameOf]
    | _ => simp [nameOf]

/-- A name directly before an opening bracket is not replaced. -/
def KeepsCallee (f : Text → Text) (before item : Item) : Prop :=
  opens item = true → ∀ name ∈ nameOf before, f name = name

end Bracket

namespace Token

/-- The token with its name replaced, if it is a name. -/
def rename (f : Text → Text) (t : Token) : Token := if t.kind = .name then { t with text := f t.text } else t

/-- Tokens of the same kinds and texts differ in positions alone. -/
theorem map_unplaced_of_labels {first second : List Token} (placed : ∀ t ∈ first, t.position.isSome)
    (placedToo : ∀ t ∈ second, t.position.isSome)
    (same : first.map (fun t => (t.kind, t.text)) = second.map fun t => (t.kind, t.text)) :
    first.map unplaced = second.map unplaced := by
  have each {tokens : List Token} (placed : ∀ t ∈ tokens, t.position.isSome) :
      tokens.map unplaced = (tokens.map fun t => (t.kind, t.text)).map fun label => ⟨label.1, label.2, some 0⟩ := by
    rw [List.map_map]
    refine List.map_congr_left fun t member => ?_
    obtain ⟨position, stands⟩ := Option.isSome_iff_exists.mp (placed t member)
    simp [unplaced, stands]
  rw [each placed, each placedToo, same]

@[simp] theorem position_rename (f : Text → Text) (t : Token) : (t.rename f).position = t.position := by
  unfold rename
  split <;> rfl

theorem map_label_rename (f : Text → Text) (tokens : List Token) :
    (tokens.map (rename f)).map (fun t => (t.kind, t.text)) =
      (tokens.map fun t => (t.kind, t.text)).map fun label =>
        (label.1, if label.1 = .name then f label.2 else label.2) := by
  rw [List.map_map, List.map_map]
  refine List.map_congr_left fun t member => ?_
  by_cases isName : t.kind = .name <;> simp [rename, isName]

end Token

namespace Item

open Reckoner.Bracket (KeepsCallee)

variable {f : Text → Text} {tokens : List Token} {items : List Item}

theorem classify_rename (f : Text → Text) (t : Token) :
    Literal.classify (t.rename f) = (Literal.classify t).map (rename f) := by
  by_cases isName : t.kind = .name
  · simp [Token.rename, isName, Literal.classify, Except.map]
  · rw [Token.rename, if_neg isName]
    cases classified : Literal.classify t with
    | error e => rfl
    | ok item =>
      have unnamed : Bracket.nameOf item = none := by rw [nameOf_of_classify classified, if_neg isName]
      rw [Except.map, rename_of_unnamed f (Literal.classify_leaf classified) unnamed]

theorem mapM_classify_rename (f : Text → Text) (tokens : List Token) :
    (tokens.map (Token.rename f)).mapM Literal.classify =
      (tokens.mapM Literal.classify).map (List.map (rename f)) := by
  induction tokens with
  | nil => rfl
  | cons t tokens ih =>
    rw [List.map_cons, List.mapM_cons, List.mapM_cons, classify_rename, ih]
    cases Literal.classify t with
    | error e => rfl
    | ok item => cases tokens.mapM Literal.classify <;> rfl

/-- Tokens with other names become items with these names. -/
theorem ofTokens_rename (f : Text → Text) (tokens : List Token) :
    ofTokens (tokens.map (Token.rename f)) = (ofTokens tokens).map (List.map (rename f)) := by
  rw [ofTokens, ofTokens, mapM_classify_rename]
  cases tokens.mapM Literal.classify with
  | error e => rfl
  | ok raw => exact congrArg Except.ok (foldSignsFrom_rename f true raw)

/-- A folded sign is no opening bracket, so what stands first stays so as far as callees go. -/
theorem head?_foldSignsFrom (due : Bool) (items : List Item) :
    ∀ item ∈ (foldSignsFrom due items).head?, item ∈ items.head? ∨ Bracket.opens item = false := by
  fun_cases foldSignsFrom due items with
  | case1 => simp
  | case2 item => simp
  | case3 item next rest sign folded negated =>
    intro head same
    cases same
    obtain ⟨v, rfl⟩ : ∃ n, folded = .node n := by
      unfold negated? at negated
      split at negated
      · obtain ⟨v, -, rfl⟩ := Option.map_eq_some_iff.mp negated
        exact ⟨_, rfl⟩
      · cases negated
    exact .inr rfl
  | case4 item next rest sign notNumber => simp
  | case5 item next rest noSign => simp

/-- Folding signs leaves callees where they are. -/
theorem keepsCallee_foldSignsFrom (due : Bool) (kept : items.IsChain (KeepsCallee f)) :
    (foldSignsFrom due items).IsChain (KeepsCallee f) := by
  have cons {item : Item} {rest : List Item} (due : Bool) (kept : (item :: rest).IsChain (KeepsCallee f))
      (ih : (foldSignsFrom due rest).IsChain (KeepsCallee f)) :
      (item :: foldSignsFrom due rest).IsChain (KeepsCallee f) := by
    refine List.isChain_cons.mpr ⟨fun next head opening => ?_, ih⟩
    rcases head?_foldSignsFrom due rest next head with same | closed
    · exact (List.isChain_cons.mp kept).1 next same opening
    · rw [closed] at opening
      cases opening
  fun_induction foldSignsFrom due items with
  | case1 => exact .nil
  | case2 due item => exact .singleton item
  | case3 due item next rest sign folded negated ih =>
    have unnamed := (nameOf_of_negated? negated).2
    refine List.isChain_cons.mpr ⟨fun other head opening name called => ?_, ih kept.tail.tail⟩
    rw [unnamed] at called
    cases called
  | case4 due item next rest sign notNumber ih => exact cons _ kept (ih kept.tail)
  | case5 due item next rest noSign ih => exact cons _ kept (ih kept.tail)

/-- A name token directly before an opening bracket is not replaced. -/
def KeepsCalleeToken (f : Text → Text) (before t : Token) : Prop :=
  t.kind = .leftParen → before.kind = .name → f before.text = before.text

theorem keepsCallee_of_classify (kept : tokens.IsChain (KeepsCalleeToken f))
    (classified : tokens.mapM Literal.classify = .ok items) : items.IsChain (KeepsCallee f) := by
  induction Outcome.mapM_eq_ok.mp classified with
  | nil => exact .nil
  | @cons t item tokens items here rest ih =>
    refine List.isChain_cons.mpr ⟨fun next head opening name called => ?_, ih kept.tail (Outcome.mapM_eq_ok.mpr rest)⟩
    cases rest with
    | nil => cases head
    | @cons u other tokens items first others =>
      cases head
      rw [opens_of_classify first, beq_iff_eq] at opening
      rw [nameOf_of_classify here] at called
      split at called
      next isName =>
        cases called
        exact (List.isChain_cons.mp kept).1 u rfl opening isName
      next => cases called

theorem keepsCallee_ofTokens (kept : tokens.IsChain (KeepsCalleeToken f)) (read : ofTokens tokens = .ok items) :
    items.IsChain (KeepsCallee f) := by
  obtain ⟨raw, classified, folded⟩ := Outcome.bind_eq_ok.mp read
  cases folded
  exact keepsCallee_foldSignsFrom true (keepsCallee_of_classify kept classified)

end Item
end Reckoner
