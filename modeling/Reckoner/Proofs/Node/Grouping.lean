import Reckoner.Proofs.Bracket.Frame
import Reckoner.Proofs.Bracket.Placement
import Reckoner.Proofs.Node.Acceptance
import Reckoner.Proofs.Node.Identical
import Reckoner.Proofs.Item.Spelling
import Reckoner.Proofs.Token.Append
/-!
# Texts inside brackets

A text that has a tree has it inside brackets too, wherever the brackets stand (`Spells.enclosed`): its tokens are the
same before a closing bracket, signs are folded behind an opening bracket as they are at the start of a text, and the
bracket stack frames what is outside. So groups, operations on groups and calls are built from the trees of their
parts (`parse_grouping`).
-/
namespace Reckoner

open Token (Apart scanFrom)

namespace Token

/-- An opening and a closing bracket at their offsets. -/
def openingAt (offset : Nat) : Token := ⟨.leftParen, [.scalar '('], some offset⟩

def closingAt (offset : Nat) : Token := ⟨.rightParen, [.scalar ')'], some offset⟩

theorem scanFrom_enclosed {offset : Nat} {s : Text} (known : ∀ t ∈ scanFrom (offset + 1) s, t.kind ≠ .unknown)
    (rest : Text) :
    scanFrom offset ("(" ++ s ++ ")" ++ rest) =
      openingAt offset :: (scanFrom (offset + 1) s ++ [closingAt (offset + 1 + s.length)]) ++
        scanFrom (offset + ("(" ++ s ++ ")" : Text).length) rest := by
  have length : offset + ("(" ++ s ++ ")" : Text).length = offset + 1 + s.length + 1 := by
    simp [Text.ofString]
    omega
  have text : ("(" ++ s ++ ")" ++ rest : Text) = .scalar '(' :: (s ++ .scalar ')' :: rest) := by simp [Text.ofString]
  have opening : ∀ more, lexeme (.scalar '(') more = (.leftParen, 0) := fun _ => rfl
  have closing : ∀ more, lexeme (.scalar ')') more = (.rightParen, 0) := fun _ => rfl
  rw [length, text, scanFrom_single offset (by decide) opening,
    scanFrom_append known (.of_head rest (by decide) (by decide)), scanFrom_single _ (by decide) closing]
  simp [openingAt, closingAt]

end Token

theorem Literal.known_of_classify {t : Token} {item : Item} (h : classify t = .ok item) : t.kind ≠ .unknown := by
  rcases classify_cases h with ⟨kind, -⟩ | ⟨kind, -⟩ | ⟨kind, -⟩ | ⟨⟨-, -, -, known⟩, -⟩
  · simp [kind]
  · simp [kind]
  · simp [kind]
  · exact known

/-- Tokens that become items are known. -/
theorem Literal.known_of_mapM {tokens : List Token} {items : List Item} (h : tokens.mapM classify = .ok items) :
    ∀ t ∈ tokens, t.kind ≠ .unknown := by
  intro t member
  obtain ⟨item, became⟩ := Outcome.isOk_of_mem_mapM h member
  exact known_of_classify became

namespace Item

/-- Before an item that is no number, signs are folded as at the end of the items. -/
theorem foldSignsFrom_append {item : Item} (notNumber : item.negated? = none) (due : Bool) (items more : List Item) :
    ∃ after,
      foldSignsFrom due (items ++ item :: more) = foldSignsFrom due items ++ foldSignsFrom after (item :: more) := by
  fun_induction foldSignsFrom due items with
  | case1 due => exact ⟨due, rfl⟩
  | case2 due last =>
    refine ⟨last.opensOperand, ?_⟩
    rw [List.singleton_append, foldSignsFrom]
    split
    · rw [notNumber]
      rfl
    · rfl
  | case3 due first next rest sign folded negated ih =>
    obtain ⟨after, split⟩ := ih
    refine ⟨after, ?_⟩
    simp [foldSignsFrom, sign, negated, split]
  | case4 due first next rest sign unnegated ih =>
    obtain ⟨after, split⟩ := ih
    refine ⟨after, ?_⟩
    simp only [List.cons_append] at split ⊢
    rw [foldSignsFrom, if_pos sign, unnegated, split]
  | case5 due first next rest noSign ih =>
    obtain ⟨after, split⟩ := ih
    refine ⟨after, ?_⟩
    simp only [List.cons_append] at split ⊢
    rw [foldSignsFrom, if_neg noSign, split]

/-- Signs between brackets are folded as in a text of its own. -/
theorem reads_enclosed {tokens : List Token} {raw : List Item} (classified : tokens.mapM Literal.classify = .ok raw)
    (due : Bool) (start finish : Nat) :
    Reads due false (.openingAt start :: (tokens ++ [.closingAt finish]))
      (.token (.openingAt start) :: (foldSigns raw ++ [.token (.closingAt finish)])) := by
  refine ⟨.token (.openingAt start) :: (raw ++ [.token (.closingAt finish)]), ?_, fun more => ?_⟩
  · rw [List.mapM_cons, List.mapM_append, classified]
    rfl
  · have notNumber : (Item.token (.closingAt finish)).negated? = none := rfl
    obtain ⟨after, split⟩ := foldSignsFrom_append notNumber true raw more
    have opening : (due && (Item.token (.openingAt start)).isSymbol .minus) = false := by cases due <;> rfl
    have closing : (after && (Item.token (.closingAt finish)).isSymbol .minus) = false := by cases after <;> rfl
    have text : Item.token (.openingAt start) :: (raw ++ [.token (.closingAt finish)]) ++ more =
        .token (.openingAt start) :: (raw ++ .token (.closingAt finish) :: more) := by simp
    have due : (Item.token (.openingAt start)).opensOperand = true := rfl
    have notDue : (Item.token (.closingAt finish)).opensOperand = false := rfl
    rw [text, foldSignsFrom_plain opening, due, split, foldSignsFrom_plain closing, notDue, foldSigns]
    simp

namespace Spells

variable {after : Bool} {r s f : Text} {Q : List Item → Prop} {tree : Node}

/-- A text that has a tree, between brackets. -/
theorem enclosed (due : Bool) (h : Node.parse s = .ok tree) :
    Spells due false ("(" ++ s ++ ")") fun items => ∀ p : Bracket.Progress, p.read items = .ok (p.enclose tree) := by
  obtain ⟨items, read, resolved⟩ := Outcome.bind_eq_ok.mp h
  have clean := ofText_clean read
  intro offset rest _
  obtain ⟨raw, classified, same⟩ := ofText_placed read (offset + 1)
  have known := Literal.known_of_mapM classified
  refine ⟨_, _, Token.scanFrom_enclosed known rest, reads_enclosed classified due offset _, fun p => ?_⟩
  exact Bracket.read_enclosed Node.formed_inherited (fun _ => Node.Formed.isWritable) (clean_of_unplaced same clean)
    (Bracket.resolve_of_unplaced Node.formed_inherited (fun _ => Node.Formed.isWritable) same clean resolved)
    rfl rfl p

/-- A name directly before a text that cannot go on with it. -/
theorem behind_name (due : Bool) (isName : f.IsName) (apart : ∀ rest, Apart (r ++ rest))
    (h : Spells false after r Q) :
    Spells due after (f ++ r) fun items => ∃ more, items = .node (.property f) :: more ∧ Q more := by
  intro offset rest ends
  obtain ⟨tokens, items, scanned, reads, holds⟩ := h (offset + f.length) rest ends
  have name : scanFrom offset f = [⟨.name, f, some offset⟩] := by
    have alone := Token.scansAs_name isName offset [] .nil
    have nothing : scanFrom (offset + f.length) [] = [] := by rw [scanFrom]
    rwa [List.append_nil, nothing] at alone
  refine ⟨⟨.name, f, some offset⟩ :: tokens, .node (.property f) :: items, ?_, ?_, items, rfl, holds⟩
  · rw [List.append_assoc, Token.scanFrom_append (by simp [name]) (apart rest), name, scanned, List.length_append,
      Nat.add_assoc]
    rfl
  · have single : Reads due false [⟨.name, f, some offset⟩] [.node (.property f)] :=
      reads_single rfl (by cases due <;> rfl)
    exact single.append reads

end Spells

end Item

namespace Node

variable {s t f : Text} {left right : Node}

/-- A group has the tree of its inside, an operation on two groups has their trees as its operands, and a call has the
tree of its inside as its arguments. -/
theorem parse_grouping (op : Operator) (isName : f.IsName) (first : parse s = .ok left) (second : parse t = .ok right) :
    parse ("(" ++ s ++ ")") = .ok left ∧
      parse ("(" ++ s ++ ") " ++ op.symbol ++ " (" ++ t ++ ")") = .ok (.binary op.symbol left right) ∧
      parse (f ++ "(" ++ s ++ ")") = .ok (.call f left) := by
  refine ⟨?_, ?_, ?_⟩
  · obtain ⟨items, read, pushes⟩ := Item.ofText_of_spells (Item.Spells.enclosed true first)
    rw [parse_of_ofText read, Bracket.resolve_eq_read, pushes, Outcome.ok_bind]
    exact Run.reduce_node left
  · have text : ("(" ++ s ++ ") " ++ op.symbol ++ " (" ++ t ++ ")" : Text) =
        ("(" ++ s ++ ")" : Text) ++ .scalar ' ' :: (op.symbol ++ .scalar ' ' :: ("(" ++ t ++ ")" : Text)) := by
      simp [Text.ofString]
    have spells := (Item.Spells.enclosed true first).append
      ((Item.Spells.operator op).append (Item.Spells.enclosed true second))
    obtain ⟨items, read, group, _, rfl, pushLeft, _, other, rfl, ⟨sign, rfl, kind, symbol⟩, pushRight⟩ :=
      Item.ofText_of_spells spells
    rw [text, parse_of_ofText read, Bracket.resolve_eq_read, Bracket.Progress.read_append, pushLeft, Outcome.ok_bind,
      List.singleton_append, Bracket.read_operator _ (.inl kind), pushRight, Outcome.ok_bind]
    exact Run.reduce_operation left right symbol
  · have apart : ∀ rest, Apart (("(" ++ s ++ ")" : Text) ++ rest) := fun rest => .of_head _ (by decide) (by decide)
    have spells := Item.Spells.behind_name true isName apart (Item.Spells.enclosed false first)
    obtain ⟨items, read, pair, rfl, push⟩ := Item.ofText_of_spells spells
    have text : (f ++ "(" ++ s ++ ")" : Text) = f ++ ("(" ++ s ++ ")" : Text) := by simp
    rw [text, parse_of_ofText read, Bracket.resolve_eq_read, Bracket.Progress.read_cons,
      Bracket.Progress.step_plain _ _ rfl rfl, Outcome.ok_bind, push, Outcome.ok_bind]
    exact Run.reduce_node (.call f left)

/-- An argument list with a sign at its start and a quoted bracket, and a name. -/
theorem parse_grouping_list :
    Text.IsName "f" ∧
      parse "-1, ')'" = .ok (.constant (.tuple ([.constant (.int (-1)), .constant (.text ")")].map .node))) ∧
      parse "x" = .ok (.property "x") ∧
      parse ("(" ++ "-1, ')'" ++ ")") =
        .ok (.constant (.tuple ([.constant (.int (-1)), .constant (.text ")")].map .node))) ∧
      parse ("(" ++ "-1, ')'" ++ ") " ++ Operator.minus.symbol ++ " (" ++ "x" ++ ")") =
        .ok (.binary Operator.minus.symbol
          (.constant (.tuple ([.constant (.int (-1)), .constant (.text ")")].map .node))) (.property "x")) ∧
      parse ("f" ++ "(" ++ "-1, ')'" ++ ")") =
        .ok (.call "f" (.constant (.tuple ([.constant (.int (-1)), .constant (.text ")")].map .node)))) := by
  have isName : Text.IsName "f" := ⟨by decide, fun d member => (List.not_mem_nil member).elim⟩
  have first : parse "-1, ')'" =
      .ok (.constant (.tuple ([.constant (.int (-1)), .constant (.text ")")].map .node))) :=
    parse_eq_of_reads (by decide +kernel)
  have second : parse "x" = .ok (.property "x") := parse_eq_of_reads (by decide +kernel)
  exact ⟨isName, first, second, parse_grouping .minus isName first second⟩

end Node
end Reckoner
