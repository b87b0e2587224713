import Reckoner.Item.Sign
import Mathlib.Data.List.Forall2
/-!
# Signs by their places

Which signs are folded is said place by place on the items as they were written (`SignAt`): what stands at a place
stays, is folded together with the number behind it, or is the number that was folded (`Becomes`). Folding from left to
right follows this rule (`exists_becomes_foldSignsFrom`), and the rule leaves no choice (`Becomes.unique`), so it says
what folding gives (`foldSigns_eq_iff`).
-/
namespace Reckoner

/-- The number of the other sign. A whole zero counts as positive, so the other zero is the negative binary64 one. -/
inductive Value.IsOpposite : Value → Value → Prop where
  | int {n : Int} (nonzero : n ≠ 0) : IsOpposite (.int n) (.int (-n))
  | zero : IsOpposite (.int 0) (.float (.finite true .zero))
  | finite (negative : Bool) (m : Magnitude) :
      IsOpposite (.float (.finite negative m)) (.float (.finite (!negative) m))
  | infinite (negative : Bool) : IsOpposite (.float (.infinite negative)) (.float (.infinite (!negative)))
  | nan : IsOpposite (.float .nan) (.float .nan)

namespace Item

/-- At the place an operand is due: it is the first one, or an opening bracket, a comma or a binary operator stands
right before it. -/
def DueAt (items : List Item) (i : Nat) : Prop :=
  i = 0 ∨ ∃ t, items[i - 1]? = some (.token t) ∧
    (t.kind = .leftParen ∨ t.kind = .comma ∨ t.kind = .operator ∧ ∃ op : Operator, t.text = op.symbol)

/-- At the place stands a minus that is the sign of the number behind it; with the sign the number is `folded`. -/
structure SignAt (items : List Item) (i : Nat) (folded : Item) : Prop where
  minus : ∃ t, items[i]? = some (.token t) ∧ t.text = Operator.minus.symbol
  number : ∃ v w, items[i + 1]? = some (.node (.constant v)) ∧ v.IsOpposite w ∧ folded = .node (.constant w)
  due : DueAt items i

/-- What the item at a place becomes. -/
inductive Becomes (items : List Item) : Nat → List Item → Prop where
  | sign {i : Nat} {folded : Item} (sign : SignAt items i folded) : Becomes items i [folded]
  | number {i : Nat} {folded : Item} (sign : SignAt items i folded) : Becomes items (i + 1) []
  | kept {i : Nat} {item : Item} (here : items[i]? = some item) (noSign : ∀ folded, ¬SignAt items i folded)
      (noNumber : ∀ j folded, i = j + 1 → ¬SignAt items j folded) : Becomes items i [item]

variable {items rest : List Item} {item next folded other : Item} {i : Nat} {due : Bool}

theorem Value.negated?_eq_some {v w : Value} : v.negated? = some w ↔ v.IsOpposite w := by
  constructor
  · intro h
    cases v with
    | int n =>
      by_cases zero : n = 0
      · subst zero
        cases h
        exact .zero
      · rw [Value.negated?, if_neg zero] at h
        cases h
        exact .int zero
    | float x =>
      cases h
      cases x with
      | nan => exact .nan
      | infinite negative => exact .infinite negative
      | finite negative m => exact .finite negative m
    | _ => cases h
  · intro h
    cases h with
    | int nonzero => rw [Value.negated?, if_neg nonzero]
    | _ => rfl

theorem negated?_eq_some :
    item.negated? = some folded ↔
      ∃ v w : Value, item = .node (.constant v) ∧ v.IsOpposite w ∧ folded = .node (.constant w) := by
  constructor
  · intro h
    unfold negated? at h
    split at h
    next v =>
      obtain ⟨w, opposite, rfl⟩ := Option.map_eq_some_iff.mp h
      exact ⟨v, w, rfl, Value.negated?_eq_some.mp opposite, rfl⟩
    next => cases h
  · intro given
    obtain ⟨v, w, rfl, opposite, rfl⟩ := given
    rw [negated?, Value.negated?_eq_some.mpr opposite, Option.map_some]

theorem opensOperand_iff :
    item.opensOperand = true ↔ ∃ t, item = .token t ∧
      (t.kind = .leftParen ∨ t.kind = .comma ∨ t.kind = .operator ∧ ∃ op : Operator, t.text = op.symbol) := by
  have symbol (t : Token) : (Operator.ofSymbol? t.text).isSome = true ↔ ∃ op : Operator, t.text = op.symbol := by
    rw [Option.isSome_iff_exists]
    refine exists_congr fun op => ⟨Operator.ofSymbol?_eq_some, fun text => ?_⟩
    rw [text, Operator.ofSymbol?_symbol]
  cases item with
  | node n => simp [opensOperand]
  | token t => simp [opensOperand, Token.opensOperand, Token.isBinaryOperator, symbol, or_assoc]

theorem isSymbol_iff {op : Operator} : item.isSymbol op = true ↔ ∃ t, item = .token t ∧ t.text = op.symbol := by
  cases item with
  | node n => simp [isSymbol]
  | token t => simp [isSymbol, Token.isSymbol]

/-- Behind an item an operand is due if the item says so. -/
theorem dueAt_succ (here : items[i]? = some item) : item.opensOperand = true ↔ DueAt items (i + 1) := by
  simp [opensOperand_iff, DueAt, here]

/-- What the fold looks at decides whether a sign stands at the place. -/
theorem signAt_iff (here : items[i]? = some item) (behind : items[i + 1]? = some next)
    (isDue : due = true ↔ DueAt items i) :
    SignAt items i folded ↔ (due && item.isSymbol .minus) = true ∧ next.negated? = some folded := by
  rw [Bool.and_eq_true, isDue, isSymbol_iff, negated?_eq_some]
  constructor
  · intro sign
    obtain ⟨t, isMinus, text⟩ := sign.minus
    obtain ⟨v, w, isNumber, opposite, result⟩ := sign.number
    rw [here, Option.some.injEq] at isMinus
    rw [behind, Option.some.injEq] at isNumber
    exact ⟨⟨sign.due, t, isMinus, text⟩, v, w, isNumber, opposite, result⟩
  · intro given
    obtain ⟨⟨dueHere, t, rfl, text⟩, v, w, rfl, opposite, result⟩ := given
    exact ⟨⟨t, here, text⟩, ⟨v, w, behind, opposite, result⟩, dueHere⟩

/-- A number that is folded is no sign itself. -/
theorem SignAt.not_succ (sign : SignAt items i folded) : ¬SignAt items (i + 1) other := by
  intro later
  obtain ⟨v, w, isNumber, -, -⟩ := sign.number
  obtain ⟨t, isMinus, -⟩ := later.minus
  rw [isNumber] at isMinus
  cases isMinus

/-- Behind a number that is folded no operand is due. -/
theorem SignAt.not_dueAt (sign : SignAt items i folded) : ¬DueAt items (i + 2) := by
  intro given
  obtain ⟨v, w, isNumber, -, -⟩ := sign.number
  rcases given with impossible | ⟨t, isToken, -⟩
  · cases impossible
  · rw [show i + 2 - 1 = i + 1 by rfl, isNumber] at isToken
    cases isToken

theorem SignAt.unique (first : SignAt items i folded) (second : SignAt items i other) : folded = other := by
  obtain ⟨v, w, number, opposite, rfl⟩ := first.number
  obtain ⟨v', w', number', opposite', rfl⟩ := second.number
  rw [number] at number'
  cases number'
  rw [← Value.negated?_eq_some] at opposite opposite'
  rw [opposite, Option.some.injEq] at opposite'
  rw [opposite']

/-- The rule leaves no choice. -/
theorem Becomes.unique {first second : List Item} (h : Becomes items i first) (h' : Becomes items i second) :
    first = second := by
  cases h with
  | sign sign =>
    cases h' with
    | sign again => rw [sign.unique again]
    | number before => exact absurd sign before.not_succ
    | kept here noSign noNumber => exact absurd sign (noSign _)
  | number sign =>
    cases h' with
    | sign later => exact absurd later sign.not_succ
    | number again => rfl
    | kept here noSign noNumber => exact absurd sign (noNumber _ _ rfl)
  | kept here noSign noNumber =>
    cases h' with
    | sign sign => exact absurd sign (noSign _)
    | number sign => exact absurd sign (noNumber _ _ rfl)
    | kept again =>
      rw [here] at again
      cases again
      rfl

/-- An item that is kept goes before what the rest becomes. -/
theorem exists_becomes_cons {out : List Item} (here : items[i]? = some item) (noSign : ∀ folded, ¬SignAt items i folded)
    (noNumber : ∀ j folded, i = j + 1 → ¬SignAt items j folded)
    (more : ∃ pieces, List.Forall₂ (Becomes items) (List.range' (i + 1) rest.length) pieces ∧ pieces.flatten = out) :
    ∃ pieces, List.Forall₂ (Becomes items) (List.range' i (item :: rest).length) pieces ∧
      pieces.flatten = item :: out := by
  obtain ⟨pieces, become, rfl⟩ := more
  exact ⟨[item] :: pieces, .cons (.kept here noSign noNumber) become, rfl⟩

/-- The fold of what stands from a place on follows the rule at every place. It has to know whether an operand is due
there, and it must not begin with a number that belongs to a sign before it. -/
theorem exists_becomes_foldSignsFrom {before : List Item} (whole : items = before ++ rest) (place : before.length = i)
    (isDue : due = true ↔ DueAt items i) (noNumber : ∀ j folded, i = j + 1 → ¬SignAt items j folded) :
    ∃ pieces, List.Forall₂ (Becomes items) (List.range' i rest.length) pieces ∧
      pieces.flatten = foldSignsFrom due rest := by
  have notSucc {i : Nat} (noSign : ∀ folded, ¬SignAt items i folded) :
      ∀ j folded, i + 1 = j + 1 → ¬SignAt items j folded := by
    rintro j folded ⟨⟩
    exact noSign folded
  fun_induction foldSignsFrom due rest generalizing i before with
  | case1 => exact ⟨[], .nil, rfl⟩
  | case2 due item =>
    have stands : items[i]? = some item := by simp [whole, ← place]
    have ends : items[i + 1]? = none := by simp [whole, ← place]
    refine ⟨[[item]], .cons (.kept stands (fun folded sign => ?_) noNumber) .nil, rfl⟩
    obtain ⟨v, w, isNumber, -⟩ := sign.number
    rw [ends] at isNumber
    cases isNumber
  | case3 due item next rest isSign folded isNumber ih =>
    have stands : items[i]? = some item := by simp [whole, ← place]
    have behind : items[i + 1]? = some next := by simp [whole, ← place]
    have sign : SignAt items i folded := (signAt_iff stands behind isDue).mpr ⟨isSign, isNumber⟩
    have wholeAgain : items = (before ++ [item, next]) ++ rest := by simp [whole]
    have placeAgain : (before ++ [item, next]).length = i + 2 := by simp [place]
    have notDue : false = true ↔ DueAt items (i + 2) := by simpa using sign.not_dueAt
    obtain ⟨pieces, become, together⟩ := ih wholeAgain placeAgain notDue (notSucc fun _ => sign.not_succ)
    refine ⟨[folded] :: [] :: pieces, .cons (.sign sign) (.cons (.number sign) become), ?_⟩
    rw [List.flatten_cons, List.flatten_cons, together, List.nil_append, List.singleton_append]
  | case4 due item next rest isSign notNumber ih =>
    have stands : items[i]? = some item := by simp [whole, ← place]
    have behind : items[i + 1]? = some next := by simp [whole, ← place]
    have noSign : ∀ folded, ¬SignAt items i folded := fun folded sign => by
      have isNumber := ((signAt_iff stands behind isDue).mp sign).2
      rw [notNumber] at isNumber
      cases isNumber
    have wholeAgain : items = (before ++ [item]) ++ next :: rest := by simp [whole]
    have placeAgain : (before ++ [item]).length = i + 1 := by simp [place]
    exact exists_becomes_cons stands noSign noNumber (ih wholeAgain placeAgain (dueAt_succ stands) (notSucc noSign))
  | case5 due item next rest notSign ih =>
    have stands : items[i]? = some item := by simp [whole, ← place]
    have behind : items[i + 1]? = some next := by simp [whole, ← place]
    have noSign : ∀ folded, ¬SignAt items i folded := fun folded sign =>
      notSign ((signAt_iff stands behind isDue).mp sign).1
    have wholeAgain : items = (before ++ [item]) ++ next :: rest := by simp [whole]
    have placeAgain : (before ++ [item]).length = i + 1 := by simp [place]
    exact exists_becomes_cons stands noSign noNumber (ih wholeAgain placeAgain (dueAt_succ stands) (notSucc noSign))

/-- Folding signs gives what the items become place by place. -/
theorem foldSigns_eq_iff (items out : List Item) :
    foldSigns items = out ↔
      ∃ pieces, List.Forall₂ (Becomes items) (List.range items.length) pieces ∧ pieces.flatten = out := by
  have start : true = true ↔ DueAt items 0 := by simp [DueAt]
  have unique : Relator.RightUnique (Becomes items) := fun _ _ _ => Becomes.unique
  obtain ⟨pieces, become, together⟩ := exists_becomes_foldSignsFrom (List.nil_append items).symm rfl start (by simp)
  rw [List.length_nil, ← List.range_eq_range'] at become
  constructor
  · rintro rfl
    exact ⟨pieces, become, together⟩
  · intro given
    obtain ⟨others, becomeToo, rfl⟩ := given
    rw [foldSigns, ← together, List.right_unique_forall₂' unique become becomeToo]

end Item
end Reckoner
