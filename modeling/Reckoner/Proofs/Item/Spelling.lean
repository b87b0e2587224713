import Reckoner.Proofs.Item.Literal
import Reckoner.Proofs.Token.Word
/-!
# Texts that spell items

A text spells items when it is scanned into tokens of their own, whatever blank-separated text follows, and these
become the items once their signs are folded (`Spells`). The items are told up to the positions of tokens, by a
property. Texts with a blank between them spell what they spell one after the other.
-/
namespace Reckoner.Item

open Token (Ends ScansAs scanFrom)

/-- The items of some tokens, signs folded; `due` and `after` say whether an operand is due before and behind them. -/
def Reads (due after : Bool) (tokens : List Token) (items : List Item) : Prop :=
  ∃ raw, tokens.mapM Literal.classify = .ok raw ∧
    ∀ more, foldSignsFrom due (raw ++ more) = items ++ foldSignsFrom after more

/-- The text is scanned into tokens of its own, whose items have a property. -/
def Spells (due after : Bool) (r : Text) (Q : List Item → Prop) : Prop :=
  ∀ (offset : Nat) (rest : Text), Ends rest → ∃ tokens items,
    scanFrom offset (r ++ rest) = tokens ++ scanFrom (offset + r.length) rest ∧ Reads due after tokens items ∧ Q items

theorem foldSignsFrom_plain {due : Bool} {item : Item} (plain : (due && item.isSymbol .minus) = false)
    (more : List Item) : foldSignsFrom due (item :: more) = item :: foldSignsFrom item.opensOperand more := by
  cases more with
  | nil => rfl
  | cons next rest => rw [foldSignsFrom, if_neg (by simp [plain])]

theorem foldSignsFrom_negative {sign next folded : Item} (minus : sign.isSymbol .minus = true)
    (negated : next.negated? = some folded) (more : List Item) :
    foldSignsFrom true (sign :: next :: more) = folded :: foldSignsFrom false more := by
  rw [foldSignsFrom, minus]
  simp only [Bool.and_self, if_true, negated]

theorem foldSignsFrom_unnegated {sign next : Item} (minus : sign.isSymbol .minus = true)
    (notNumber : next.negated? = none) (more : List Item) :
    foldSignsFrom true (sign :: next :: more) = sign :: foldSignsFrom sign.opensOperand (next :: more) := by
  rw [foldSignsFrom, minus]
  simp only [Bool.and_self, if_true, notNumber]

theorem reads_single {due : Bool} {t : Token} {item : Item} (classified : Literal.classify t = .ok item)
    (plain : (due && item.isSymbol .minus) = false) : Reads due item.opensOperand [t] [item] :=
  ⟨[item], by rw [List.mapM_cons, classified]; rfl, fun more => foldSignsFrom_plain plain more⟩

theorem Reads.append {due middle after : Bool} {tokens others : List Token} {items more : List Item}
    (first : Reads due middle tokens items) (second : Reads middle after others more) :
    Reads due after (tokens ++ others) (items ++ more) := by
  obtain ⟨raw, classified, folds⟩ := first
  obtain ⟨raw', classified', folds'⟩ := second
  refine ⟨raw ++ raw', by rw [List.mapM_append, classified, classified']; rfl, fun rest => ?_⟩
  rw [List.append_assoc, folds, folds', List.append_assoc]

namespace Spells

variable {due middle after : Bool} {r s : Text} {Q R : List Item → Prop}

theorem mono (h : Spells due after r Q) (weaker : ∀ items, Q items → R items) : Spells due after r R := by
  intro offset rest ends
  obtain ⟨tokens, items, scanned, reads, holds⟩ := h offset rest ends
  exact ⟨tokens, items, scanned, reads, weaker items holds⟩

/-- Texts with a blank between them. -/
theorem append (first : Spells due middle r Q) (second : Spells middle after s R) :
    Spells due after (r ++ .scalar ' ' :: s) fun items => ∃ a b, items = a ++ b ∧ Q a ∧ R b := by
  intro offset rest ends
  obtain ⟨tokens, items, scanned, reads, holds⟩ := first offset (.scalar ' ' :: (s ++ rest)) (.blank _)
  obtain ⟨others, more, scannedMore, readsMore, holdsMore⟩ := second (offset + r.length + 1) rest ends
  refine ⟨tokens ++ others, items ++ more, ?_, reads.append readsMore, items, more, rfl, holds, holdsMore⟩
  have length : offset + (r ++ CodePoint.scalar ' ' :: s).length = offset + r.length + 1 + s.length := by
    rw [List.length_append, List.length_cons]
    omega
  rw [List.append_assoc, List.cons_append, scanned, Token.scanFrom_blank, scannedMore, length, List.append_assoc]

/-- Nothing at all before a blank. -/
theorem nil : Spells due due [] (· = []) := by
  intro offset rest ends
  exact ⟨[], [], rfl, ⟨[], rfl, fun more => rfl⟩, rfl⟩

/-- A code point that stays a token. -/
theorem single (kind : TokenKind) (c : CodePoint) (visible : c.isBlank = false)
    (lex : ∀ rest, Token.lexeme c rest = (kind, 0))
    (kept : ∀ position, Literal.classify ⟨kind, [c], position⟩ = .ok (.token ⟨kind, [c], position⟩))
    (plain : ∀ position, (due && (Item.token ⟨kind, [c], position⟩).isSymbol .minus) = false)
    (opens : ∀ position, (Item.token ⟨kind, [c], position⟩).opensOperand = after) :
    Spells due after [c] fun items => ∃ t : Token, items = [.token t] ∧ t.kind = kind ∧ t.text = [c] := by
  intro offset rest ends
  have reads := reads_single (kept (some offset)) (plain (some offset))
  rw [opens] at reads
  exact ⟨[⟨kind, [c], some offset⟩], _, Token.scanFrom_single offset visible lex rest, reads, _, rfl, rfl, rfl⟩

theorem opening : Spells due true [.scalar '('] fun items =>
    ∃ t : Token, items = [.token t] ∧ t.kind = .leftParen ∧ t.text = [.scalar '('] :=
  single .leftParen (.scalar '(') (by decide) (fun _ => rfl) (fun _ => rfl) (fun _ => by cases due <;> rfl)
    (fun _ => rfl)

theorem closing : Spells due false [.scalar ')'] fun items =>
    ∃ t : Token, items = [.token t] ∧ t.kind = .rightParen ∧ t.text = [.scalar ')'] :=
  single .rightParen (.scalar ')') (by decide) (fun _ => rfl) (fun _ => rfl) (fun _ => by cases due <;> rfl)
    (fun _ => rfl)

theorem comma : Spells due true [.scalar ','] fun items =>
    ∃ t : Token, items = [.token t] ∧ t.kind = .comma ∧ t.text = [.scalar ','] :=
  single .comma (.scalar ',') (by decide) (fun _ => rfl) (fun _ => rfl) (fun _ => by cases due <;> rfl)
    (fun _ => rfl)

theorem operator (op : Operator) : Spells false true op.symbol fun items =>
    ∃ t : Token, items = [.token t] ∧ t.kind = .operator ∧ t.text = op.symbol := by
  cases op <;>
    exact single .operator (.scalar (Operator.sign _)) (by decide) (fun _ => rfl) (fun _ => rfl) (fun _ => rfl)
      (fun _ => rfl)

/-- A word that is one literal or name. -/
theorem node {kind : TokenKind} {n : Node} (scans : ScansAs kind r)
    (classified : ∀ position, Literal.classify ⟨kind, r, position⟩ = .ok (.node n)) :
    Spells due false r (· = [.node n]) := by
  intro offset rest ends
  exact ⟨[⟨kind, r, some offset⟩], [.node n], scans offset rest ends,
    reads_single (classified _) (by cases due <;> rfl), rfl⟩

theorem scanFrom_minus (offset : Nat) (rest : Text) :
    scanFrom offset (.scalar '-' :: rest) = ⟨.operator, [.scalar '-'], some offset⟩ :: scanFrom (offset + 1) rest :=
  Token.scanFrom_single offset (by decide) (fun _ => rfl) rest

/-- A minus sign directly before a number. -/
theorem negative {kind : TokenKind} {n : Node} {folded : Item} (scans : ScansAs kind r)
    (classified : ∀ position, Literal.classify ⟨kind, r, position⟩ = .ok (.node n))
    (negated : (Item.node n).negated? = some folded) : Spells true false (.scalar '-' :: r) (· = [folded]) := by
  intro offset rest ends
  refine ⟨[⟨.operator, [.scalar '-'], some offset⟩, ⟨kind, r, some (offset + 1 : Nat)⟩], [folded], ?_,
    ⟨[.token ⟨.operator, [.scalar '-'], some offset⟩, .node n], ?_,
      fun more => foldSignsFrom_negative rfl negated more⟩, rfl⟩
  · rw [List.cons_append, scanFrom_minus, scans (offset + 1) rest ends, List.length_cons, Nat.add_right_comm,
      Nat.add_assoc]
    rfl
  · rw [List.mapM_cons, List.mapM_cons, classified]
    rfl

/-- A minus sign directly before a name stays a token. -/
theorem negativeName {kind : TokenKind} {n : Node} (scans : ScansAs kind r)
    (classified : ∀ position, Literal.classify ⟨kind, r, position⟩ = .ok (.node n))
    (notNumber : (Item.node n).negated? = none) : Spells true false (.scalar '-' :: r) fun items =>
      ∃ t : Token, items = [.token t, .node n] ∧ t.kind = .operator ∧ t.text = Operator.symbol .minus := by
  intro offset rest ends
  refine ⟨[⟨.operator, [.scalar '-'], some offset⟩, ⟨kind, r, some (offset + 1 : Nat)⟩],
    [.token ⟨.operator, [.scalar '-'], some offset⟩, .node n], ?_,
    ⟨[.token ⟨.operator, [.scalar '-'], some offset⟩, .node n], ?_, fun more => ?_⟩, _, rfl, rfl, rfl⟩
  · rw [List.cons_append, scanFrom_minus, scans (offset + 1) rest ends, List.length_cons, Nat.add_right_comm,
      Nat.add_assoc]
    rfl
  · rw [List.mapM_cons, List.mapM_cons, classified]
    rfl
  · exact (foldSignsFrom_unnegated rfl notNumber more).trans (congrArg _ (foldSignsFrom_plain (by rfl) more))

end Spells

/-- The items of a whole text. -/
theorem ofText_of_spells {after : Bool} {r : Text} {Q : List Item → Prop} (h : Spells true after r Q) :
    ∃ items, ofText r = .ok items ∧ Q items := by
  obtain ⟨tokens, items, scanned, ⟨raw, classified, folds⟩, holds⟩ := h 0 [] .nil
  have all : Token.scan r = tokens := by
    have end_ : scanFrom (0 + r.length) [] = [] := by rw [scanFrom]
    rw [List.append_nil, end_, List.append_nil] at scanned
    exact scanned
  refine ⟨items, ?_, holds⟩
  have folded := folds []
  rw [List.append_nil] at folded
  rw [ofText, all, classified, Outcome.ok_bind, foldSigns, folded]
  simp [foldSignsFrom]

end Reckoner.Item
