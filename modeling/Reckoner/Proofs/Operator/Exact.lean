import Reckoner.Proofs.Value.Spelling
/-!
# Operators on values that come back

An operator can tell what comes back from what was there only where both operands come back as whole numbers, one of
them having been binary64. Its result comes back too exactly when the operation is exact on these whole numbers
(`apply_comes`, `exactOn_of_agrees`). Equality does not see the sign of a zero, so the second direction also looks at
the reciprocals of the results, which have different signs then.
-/
namespace Reckoner

open Outcome (Matches)

namespace Binary64

theorem eq_zero_of_whole? {x : Binary64} {n : Int} (whole : x.whole? = some n) (zero : x.isZero = true) : n = 0 := by
  obtain ⟨negative, m, rfl, -, value⟩ := whole?_eq_some whole
  have units : m.units = 0 := Magnitude.units_of_isZero zero
  rw [value, units, Nat.zero_div]
  cases negative <;> rfl

/-- Equal numbers are one number, unless they are zeros of different signs. -/
theorem eq_of_equals {x y : Binary64} (equal : x.equals y = true)
    (signs : x.isZero = true → y.isZero = true → x.isNegative = y.isNegative) : x = y := by
  cases x with
  | nan => cases y <;> cases equal
  | infinite s =>
    cases y with
    | nan => cases equal
    | infinite t => exact beq_iff_eq.mp equal
    | finite t k => cases equal
  | finite s m =>
    cases y with
    | nan => cases equal
    | infinite t => cases equal
    | finite t k =>
      rcases Bool.or_eq_true_iff.mp equal with zeros | same
      · obtain ⟨left, right⟩ := Bool.and_eq_true_iff.mp zeros
        have sign : s = t := signs left right
        have first : m = .zero := Magnitude.eq_zero_of_units (Magnitude.units_of_isZero left)
        have second : k = .zero := Magnitude.eq_zero_of_units (Magnitude.units_of_isZero right)
        rw [sign, first, second]
      · obtain ⟨sign, magnitude⟩ := Bool.and_eq_true_iff.mp same
        rw [beq_iff_eq.mp sign, beq_iff_eq.mp magnitude]

end Binary64

namespace Value

/-- Equal values, where NaN matches NaN. -/
def Agrees (v' v : Value) : Prop := v' = v ∨ v'.equals v = true

theorem Agrees.refl (v : Value) : v.Agrees v := .inl rfl

theorem Comes.agrees {v' v : Value} (h : Comes v' v) : v'.Agrees v := by
  cases h with
  | same => exact .refl v'
  | whole x n spells =>
    refine .inr ?_
    simpa [equals, equalsNumber, Number.ofValue?, Number.equals] using Binary64.equalsInt_of_whole? spells.1
  | list nodes elements =>
    refine .inr ?_
    simpa [equals] using Node.equalsAll_map_node fun n member => Node.respelled_equals (elements n member)

end Value

namespace Number

theorem Comes.toValue {a' a : Number} (h : Comes a' a) : Value.Comes a'.toValue a.toValue := by
  cases h with
  | same => exact .same _
  | whole x n spells => exact .whole x n spells

/-- The reciprocal of a number. -/
def reciprocal (a : Number) : Value := (Operator.over.calculate (.int 1) a).toValue

theorem reciprocal_zero {a : Number} (zero : a.isZero = true) :
    a.reciprocal = .float (.infinite a.isNegative) := by
  unfold reciprocal Operator.calculate Operator.calculate?
  rw [if_pos ⟨rfl, zero⟩]
  show Value.float (.infinite (false != a.isNegative)) = _
  rw [Bool.false_bne]

/-- Zeros whose reciprocals agree have the same sign. -/
theorem isNegative_of_reciprocals {a b : Number} (left : a.isZero = true) (right : b.isZero = true)
    (agree : a.reciprocal.Agrees b.reciprocal) : a.isNegative = b.isNegative := by
  rw [reciprocal_zero left, reciprocal_zero right] at agree
  rcases agree with same | equal
  · simpa using same
  · simpa [Value.equals, Value.equalsNumber, ofValue?, equals, Binary64.equals] using equal

/-- What agrees with a binary64 number, reciprocals included, is that number or the whole number that it spells. -/
theorem comes_of_agrees {a : Number} {z : Binary64} (agree : a.toValue.Agrees (.float z))
    (reciprocals : a.reciprocal.Agrees (Number.float z).reciprocal) : Comes a (.float z) := by
  cases a with
  | int k =>
    have equal : z.equalsInt k = true := by
      rcases agree with same | equal
      · cases same
      · simpa [Number.toValue, Value.equals, Value.equalsNumber, ofValue?, equals] using equal
    have whole := Binary64.whole?_of_equalsInt equal
    refine .whole z k ⟨whole, ?_⟩
    by_contra negativeZero
    have parts : z.isZero = true ∧ z.isNegative = true := by simpa using negativeZero
    have zero : k = 0 := Binary64.eq_zero_of_whole? whole parts.1
    subst zero
    have sign := isNegative_of_reciprocals (a := .int 0) (b := .float z) rfl parts.1 reciprocals
    rw [show (Number.float z).isNegative = true from parts.2] at sign
    cases sign
  | float q =>
    have equal : q = z ∨ q.equals z = true := by
      rcases agree with same | equal
      · cases same
        exact .inl rfl
      · exact .inr (by simpa [Number.toValue, Value.equals, Value.equalsNumber, ofValue?, equals] using equal)
    rcases equal with rfl | equal
    · exact .same _
    · have signs (left : q.isZero = true) (right : z.isZero = true) : q.isNegative = z.isNegative :=
        isNegative_of_reciprocals (a := .float q) (b := .float z) left right reciprocals
      rw [Binary64.eq_of_equals equal signs]
      exact .same _

end Number

namespace Operator

/-- The operator is exact where its operands come back as whole numbers and were not so before. -/
def ExactOn (op : Operator) (l' l r' r : Value) : Prop :=
  ∀ m n, Number.ofValue? l' = some (.int m) → Number.ofValue? r' = some (.int n) → l' = l ∧ r' = r ∨ op.IsExact m n

variable {op : Operator} {l' l r' r : Value} {a b : Number}

/-- Where both operands come back as whole numbers but were not so, the operation was carried out on binary64 numbers. -/
theorem apply_of_changed {m n : Int} (left : Value.Comes l' l) (right : Value.Comes r' r)
    (leftWhole : Number.ofValue? l' = some (.int m)) (rightWhole : Number.ofValue? r' = some (.int n))
    (changed : ¬(l' = l ∧ r' = r)) : op.apply l r = .ok (.float (op.binary64Result (.int m) (.int n))) := by
  rcases left.ofValue? with ⟨none, -⟩ | ⟨a', a, leftIs, leftWas, leftComes⟩
  · rw [leftWhole] at none
    cases none
  rcases right.ofValue? with ⟨none, -⟩ | ⟨b', b, rightIs, rightWas, rightComes⟩
  · rw [rightWhole] at none
    cases none
  have notInts : ¬Number.BothInt a b := by
    intro given
    obtain ⟨p, q, rfl, rfl⟩ := given
    exact changed ⟨left.eq_of_int leftWas, right.eq_of_int rightWas⟩
  rw [leftWhole] at leftIs
  rw [rightWhole] at rightIs
  cases leftIs
  cases rightIs
  rw [apply_numbers leftWas rightWas, calculate_eq_binary64Result op notInts,
    binary64Result_comes op leftComes rightComes]
  rfl

theorem lacksOperand_comes (left : Value.Comes l' l) (right : Value.Comes r' r) :
    lacksOperand l' r' = lacksOperand l r := by
  cases left with
  | same =>
    cases right with
    | same => rfl
    | _ => cases l' <;> rfl
  | _ =>
    cases right with
    | same => cases r' <;> rfl
    | _ => rfl

/-- The outcome of an exact operator on values that come back comes back. -/
theorem apply_comes (left : Value.Comes l' l) (right : Value.Comes r' r) (exact : op.ExactOn l' l r' r) :
    Matches Value.Comes (op.apply l' r') (op.apply l r) := by
  by_cases whole : ∃ m n, Number.ofValue? l' = some (.int m) ∧ Number.ofValue? r' = some (.int n)
  · obtain ⟨m, n, leftWhole, rightWhole⟩ := whole
    by_cases changed : l' = l ∧ r' = r
    · obtain ⟨rfl, rfl⟩ := changed
      exact .refl .same _
    · have isExact := (exact m n leftWhole rightWhole).resolve_left changed
      rw [apply_numbers leftWhole rightWhole, apply_of_changed left right leftWhole rightWhole changed]
      exact .ok _ _ ((comes_iff_isExact op m n).mpr isExact).toValue
  · have joined : op.joins l' r' = op.joins l r := by rw [joins, joins, left.asText?, right.asText?]
    unfold apply
    rw [joined, left.display, right.display, lacksOperand_comes left right]
    split
    · exact .refl .same _
    split
    · exact .refl .same _
    rcases left.ofValue? with ⟨none', none⟩ | ⟨a', a, leftIs, leftWas, leftComes⟩
    · rw [none', none]
      exact .error _ _ rfl
    rcases right.ofValue? with ⟨none', none⟩ | ⟨b', b, rightIs, rightWas, rightComes⟩
    · rw [none', none, leftIs, leftWas]
      exact .error _ _ rfl
    have notInts : ¬Number.BothInt a' b' := by
      intro given
      obtain ⟨m, n, rfl, rfl⟩ := given
      exact whole ⟨m, n, leftIs, rightIs⟩
    rw [leftIs, leftWas, rightIs, rightWas]
    have same := calculate_comes op leftComes rightComes notInts
    exact .ok _ _ (same ▸ .same _)

theorem spellsInt_one : Binary64.one.SpellsInt 1 := by decide +kernel

/-- A reciprocal does not tell a number from the whole number that it spells. -/
theorem exactOn_reciprocal (comes : Value.Comes l' l) : Operator.over.ExactOn (.int 1) (.int 1) l' l := by
  intro m n one whole
  cases one
  cases comes with
  | same => exact .inl ⟨rfl, rfl⟩
  | whole x k spells =>
    cases whole
    exact .inr (isExact_over spellsInt_one spells)
  | list nodes elements => cases whole

/-- An operator whose results agree, their reciprocals included, is exact. -/
theorem exactOn_of_agrees (left : Value.Comes l' l) (right : Value.Comes r' r)
    (agree : Matches Value.Agrees (op.apply l' r') (op.apply l r))
    (reciprocals : Matches Value.Agrees (op.apply l' r' >>= Operator.over.apply (.int 1))
      (op.apply l r >>= Operator.over.apply (.int 1))) : op.ExactOn l' l r' r := by
  intro m n leftWhole rightWhole
  by_cases changed : l' = l ∧ r' = r
  · exact .inl changed
  · refine .inr ((comes_iff_isExact op m n).mp ?_)
    rw [apply_numbers leftWhole rightWhole, apply_of_changed left right leftWhole rightWhole changed] at agree reciprocals
    have reciprocalOf (a : Number) : Operator.over.apply (.int 1) a.toValue = .ok a.reciprocal :=
      apply_numbers rfl (by cases a <;> rfl)
    have asNumber : Value.float (op.binary64Result (.int m) (.int n)) = (Number.float _).toValue := rfl
    rw [Outcome.ok_bind, Outcome.ok_bind, reciprocalOf, asNumber, reciprocalOf] at reciprocals
    cases agree with
    | ok _ _ agree =>
      cases reciprocals with
      | ok _ _ reciprocals => exact Number.comes_of_agrees agree reciprocals

end Operator
end Reckoner
