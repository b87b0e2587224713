import Reckoner.Proofs.Bracket.Balanced
import Reckoner.Proofs.Item.Placement
/-!
# Commas outside all brackets

Whether a formula text has a comma outside all brackets shows in the kinds of its tokens alone, by counting the brackets
that are open. Literals, names and signs do not matter, so the items of the text tell the same (`outerComma_foldSigns`),
and balanced items leave a comma in their run exactly when they have one outside all brackets (`outerComma_balanced`).
-/
namespace Reckoner

/-- Is there a comma outside all brackets, where `depth` brackets are open before the first of the kinds? -/
def TokenKind.outerComma (depth : Nat) : List TokenKind → Bool
  | [] => false
  | .leftParen :: rest => outerComma (depth + 1) rest
  | .rightParen :: rest => outerComma (depth - 1) rest
  | .comma :: rest => depth == 0 || outerComma depth rest
  | _ :: rest => outerComma depth rest

/-- Has the formula text a comma outside all brackets? -/
def Text.hasOuterComma (s : Text) : Bool := TokenKind.outerComma 0 ((Token.scan s).map Token.kind)

/-- The kind of the token that an item is; nodes count as names. -/
def Item.kind : Item → TokenKind
  | .node _ => .name
  | .token t => t.kind

@[simp] theorem Item.kind_node (n : Node) : (Item.node n).kind = .name := rfl

@[simp] theorem Item.kind_token (t : Token) : (Item.token t).kind = t.kind := rfl

namespace TokenKind

/-- What is neither a bracket nor a comma does not matter. -/
theorem outerComma_cons {kind : TokenKind} (left : kind ≠ .leftParen) (right : kind ≠ .rightParen)
    (comma : kind ≠ .comma) (depth : Nat) (rest : List TokenKind) :
    outerComma depth (kind :: rest) = outerComma depth rest := by
  cases kind <;> first | rfl | contradiction

@[simp] theorem outerComma_name (depth : Nat) (rest : List TokenKind) :
    outerComma depth (.name :: rest) = outerComma depth rest := rfl

end TokenKind

namespace Token

/-- A minus sign is scanned as an operator. -/
theorem operator_of_minus {offset : Nat} {s : Text} {t : Token} (member : t ∈ scanFrom offset s)
    (minus : t.isSymbol .minus = true) : t.kind = .operator := by
  fun_induction scanFrom offset s with
  | case1 => cases member
  | case2 offset c rest blank ih => exact ih member
  | case3 offset c rest visible kind n found ih =>
    rcases List.mem_cons.mp member with rfl | later
    · have text : c :: rest.take n = [.scalar '-'] := by simpa [isSymbol, Operator.symbol, Operator.sign] using minus
      obtain ⟨rfl, -⟩ := List.cons.inj text
      have sign : lexeme (.scalar '-') rest = (.operator, 0) := rfl
      rw [sign] at found
      cases found
      rfl
    · exact ih later

end Token

namespace Item

open TokenKind (outerComma)

theorem outerComma_of_classify {tokens : List Token} {items : List Item}
    (h : tokens.mapM Literal.classify = .ok items) (depth : Nat) :
    outerComma depth (items.map kind) = outerComma depth (tokens.map Token.kind) := by
  induction Outcome.mapM_eq_ok.mp h generalizing depth with
  | nil => rfl
  | @cons t item tokens items classified rest ih =>
    have ahead := ih (Outcome.mapM_eq_ok.mpr rest)
    rw [List.map_cons, List.map_cons]
    rcases Literal.classify_cases classified with ⟨kind, v, -, rfl⟩ | ⟨kind, rfl⟩ | ⟨kind, rfl⟩ | ⟨-, rfl⟩
    · rw [kind]
      exact ahead depth
    · rw [kind]
      exact ahead depth
    · rw [kind]
      exact ahead depth
    · rw [kind_token]
      cases t.kind <;> simp [outerComma, ahead]

/-- Folding signs takes operators away and puts numbers in the place of numbers. -/
theorem outerComma_foldSignsFrom {items : List Item}
    (signs : ∀ item ∈ items, item.isSymbol .minus = true → item.kind = .operator) (due : Bool) (depth : Nat) :
    outerComma depth ((foldSignsFrom due items).map kind) = outerComma depth (items.map kind) := by
  fun_induction foldSignsFrom due items generalizing depth with
  | case1 => rfl
  | case2 => rfl
  | case3 due item next rest sign folded negated ih =>
    have operator : item.kind = .operator := signs item (by simp) (Bool.and_eq_true_iff.mp sign).2
    have nextKind : next.kind = .name := by
      cases next with
      | node n => rfl
      | token t => cases negated
    have foldedKind : folded.kind = .name := by
      unfold negated? at negated
      split at negated
      · obtain ⟨v, -, rfl⟩ := Option.map_eq_some_iff.mp negated
        rfl
      · cases negated
    simp only [List.map_cons, operator, nextKind, foldedKind]
    exact ih (fun i m => signs i (by simp [m])) depth
  | case4 due item next rest sign notNumber ih =>
    have ahead := ih fun i m => signs i (by simp [List.mem_cons.mp m])
    rw [List.map_cons, List.map_cons]
    cases item.kind <;> simp [outerComma, ahead]
  | case5 due item next rest noSign ih =>
    have ahead := ih fun i m => signs i (by simp [List.mem_cons.mp m])
    rw [List.map_cons, List.map_cons]
    cases item.kind <;> simp [outerComma, ahead]

/-- The items of a text, at any offset, have a comma outside all brackets exactly when the text has one. -/
theorem outerComma_foldSigns {offset : Nat} {s : Text} {raw : List Item}
    (classified : (Token.scanFrom offset s).mapM Literal.classify = .ok raw) :
    outerComma 0 ((foldSigns raw).map kind) = s.hasOuterComma := by
  have signs : ∀ item ∈ raw, item.isSymbol .minus = true → item.kind = .operator := by
    intro item member minus
    obtain ⟨t, inside, became⟩ := Outcome.exists_of_mem_mapM classified member
    rcases Literal.classify_cases became with ⟨-, v, -, rfl⟩ | ⟨-, rfl⟩ | ⟨-, rfl⟩ | ⟨-, rfl⟩
    · cases minus
    · cases minus
    · cases minus
    · exact Token.operator_of_minus inside minus
  have kinds : (Token.scanFrom offset s).map Token.kind = (Token.scan s).map Token.kind := by
    have same := congrArg (List.map Token.kind) (Token.scanFrom_unplaced offset 0 s)
    rwa [List.map_map, List.map_map] at same
  rw [foldSigns, outerComma_foldSignsFrom signs, outerComma_of_classify classified, kinds, Text.hasOuterComma]

end Item

namespace Bracket

open TokenKind (outerComma)

theorem map_kind_pair (items inner : List Item) (t u : Token) (rest : List TokenKind) :
    (items ++ Item.token t :: (inner ++ [Item.token u])).map Item.kind ++ rest =
      items.map Item.kind ++ t.kind :: (inner.map Item.kind ++ u.kind :: rest) := by
  simp

/-- Balanced items have a comma outside all brackets exactly when they leave one, and they leave no bracket open. -/
theorem outerComma_balanced {items : List Item} {marks : List Mark} (balanced : Balanced items marks) (depth : Nat)
    (rest : List TokenKind) : outerComma depth (items.map Item.kind ++ rest) =
      ((depth == 0 && decide (.comma ∈ marks)) || outerComma depth rest) := by
  induction balanced generalizing depth rest with
  | nil => simp
  | @plain items marks item earlier notOpening notClosing ih =>
    have kinds : (items ++ [item]).map Item.kind ++ rest = items.map Item.kind ++ item.kind :: rest := by simp
    rw [kinds, ih]
    cases item with
    | node n => simp
    | token t =>
      have notLeft : t.kind ≠ .leftParen := fun kind => by simp [opens, Item.isKind, kind] at notOpening
      have notRight : t.kind ≠ .rightParen := fun kind => by simp [closes, Item.isKind, kind] at notClosing
      rw [Item.kind_token]
      by_cases comma : t.kind = .comma
      · rw [comma, outerComma]
        cases depth == 0 <;> simp [Item.mark, comma]
      · rw [TokenKind.outerComma_cons notLeft notRight comma]
        simp [Item.mark, comma]
  | @group items inner marks innerMarks t u earlier unnamed opening inside closing ihEarlier ihInside =>
    rw [map_kind_pair, opening, closing, ihEarlier, outerComma, ihInside, outerComma]
    simp
  | @call items inner marks innerMarks t u name earlier named opening inside closing ihEarlier ihInside =>
    rw [map_kind_pair, opening, closing, ihEarlier, outerComma, ihInside, outerComma]
    simp

end Bracket
end Reckoner
