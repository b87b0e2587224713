import Reckoner.FunctionTable
import Reckoner.Proofs.Outcome
/-!
# The end of a text from a position on

Whatever the start position is, a cut leaves a suffix of the display of a value. How long it is follows one rule for all
kinds of start: the start counts as a whole number (`Leaves`), and as many code points are skipped at the start, or
taken from the end if it is negative, as the text has. A start that is a text or a date is refused
(`substr_isSuffix`).
-/
namespace Reckoner

namespace Cut

/-- How many of `length` code points are left when `k` are skipped, or when `-k` are taken from the end. -/
def leftFrom (length : Nat) (k : Int) : Int := if 0 ≤ k then max 0 (length - k) else min length (-k)

theorem leftFrom_zero (length : Nat) : leftFrom length 0 = length := by
  simp [leftFrom]

theorem length_rest_ofInt (k : Int) (t : Text) : (((ofInt k).rest t).length : Int) = leftFrom t.length k := by
  unfold ofInt leftFrom
  split
  · rw [rest, List.length_drop]
    omega
  · rw [rest, List.length_drop]
    omega

theorem rest_isSuffix (cut : Cut) (t : Text) : cut.rest t <:+ t := by
  cases cut with
  | none => exact List.suffix_refl t
  | fromStart n => exact List.drop_suffix n t
  | fromEnd n => exact List.drop_suffix (t.length - n) t
  | whole => exact List.nil_suffix

end Cut

/-- The whole part of a finite number is its value with the fraction dropped. -/
theorem Binary64.truncate?_finite (negative : Bool) (m : Magnitude) :
    truncate? (.finite negative m) = some ((signedUnits negative m).tdiv unitsPerOne) := by
  cases negative with
  | false => rfl
  | true =>
    rw [truncate?, signedUnits, if_pos rfl, if_pos rfl, Int.neg_tdiv]
    rfl

namespace FunctionTable

/-- How many of `length` code points a start position leaves: the number counts with its fraction dropped, a truth value
counts as one or zero, an absent start and NaN as zero, and an infinity leaves nothing or everything. -/
inductive Leaves (length : Nat) : Value → Int → Prop where
  | absent : Leaves length .absent (Cut.leftFrom length 0)
  | bool (b : Bool) : Leaves length (.bool b) (Cut.leftFrom length (if b then 1 else 0))
  | int (k : Int) : Leaves length (.int k) (Cut.leftFrom length k)
  | nan : Leaves length (.float .nan) (Cut.leftFrom length 0)
  | finite (negative : Bool) (m : Magnitude) : Leaves length (.float (.finite negative m))
      (Cut.leftFrom length ((Binary64.signedUnits negative m).tdiv unitsPerOne))
  | infinite (negative : Bool) : Leaves length (.float (.infinite negative)) (if negative then length else 0)

/-- A start that is no position: a text of either kind, or a date with or without a time. -/
inductive IsTextOrDate : Value → Prop where
  | text (t : Text) : IsTextOrDate (.text t)
  | token (t : Token) : IsTextOrDate (.token t)
  | date (d : Date) : IsTextOrDate (.date d)
  | moment (m : Moment) : IsTextOrDate (.moment m)

variable {v start : Value} {s : Text}

/-- A start position asks for a cut that leaves as much as it says. -/
theorem cutAt_of_leaves {count : Int} (leaves : Leaves s.length start count) :
    ∃ cut, cutAt start = .ok cut ∧ ((cut.rest s).length : Int) = count := by
  cases leaves with
  | absent => exact ⟨.none, rfl, (Cut.leftFrom_zero s.length).symm⟩
  | bool b => exact ⟨_, rfl, Cut.length_rest_ofInt _ s⟩
  | int k => exact ⟨_, rfl, Cut.length_rest_ofInt k s⟩
  | nan => exact ⟨.none, rfl, (Cut.leftFrom_zero s.length).symm⟩
  | finite negative m =>
    refine ⟨_, rfl, ?_⟩
    rw [Cut.ofNumber, Binary64.truncate?_finite]
    · exact Cut.length_rest_ofInt _ s
    · simp
    · simp
  | infinite negative =>
    cases negative with
    | true => exact ⟨.none, rfl, rfl⟩
    | false => exact ⟨.whole, rfl, rfl⟩

/-- A value that is displayed is cut where its start asks for. -/
theorem substr_of_cutAt {cut : Cut} (shown : v.display = .ok s) (asked : cutAt start = .ok cut) :
    ∃ r, substr v start = .ok r ∧ r.asText? = some (cut.rest s) := by
  unfold substr
  rw [shown, Outcome.ok_bind, asked, Outcome.ok_bind]
  split
  next t =>
    cases shown
    exact ⟨.token t, rfl, rfl⟩
  next => exact ⟨.text (cut.rest s), rfl, rfl⟩

theorem cutAt_of_isTextOrDate (noPosition : IsTextOrDate start) :
    ∃ text, start.inspect = .ok text ∧ cutAt start = .fail (.startNotANumber text) := by
  cases noPosition <;> exact ⟨_, rfl, rfl⟩

/-- The cut of a value that is displayed is a suffix of its display, as long as the start position says. A start that is
a text or a date is refused. -/
theorem substr_isSuffix (shown : v.display = .ok s) :
    (∀ start count, Leaves s.length start count →
        ∃ r t, substr v start = .ok r ∧ r.asText? = some t ∧ t <:+ s ∧ (t.length : Int) = count) ∧
      ∀ start, IsTextOrDate start →
        ∃ text, start.inspect = .ok text ∧ substr v start = .fail (.startNotANumber text) := by
  constructor
  · intro start count leaves
    obtain ⟨cut, asked, length⟩ := cutAt_of_leaves leaves
    obtain ⟨r, result, isText⟩ := substr_of_cutAt shown asked
    exact ⟨r, _, result, isText, cut.rest_isSuffix s, length⟩
  · intro start noPosition
    obtain ⟨text, inspected, refused⟩ := cutAt_of_isTextOrDate noPosition
    refine ⟨text, inspected, ?_⟩
    rw [substr, shown, Outcome.ok_bind, refused]
    rfl

/-- The start `-0.5`, which counts as zero, and a start that is a text. -/
theorem substr_isSuffix_half :
    (Value.text "total").display = .ok "total" ∧
      Leaves 5 (.float (.finite true ⟨Nat.pow 2 52, 1021, by decide, by decide, .inr (by decide)⟩)) 5 ∧
      IsTextOrDate (.text "1") ∧
      (∃ r t, substr (.text "total")
          (.float (.finite true ⟨Nat.pow 2 52, 1021, by decide, by decide, .inr (by decide)⟩)) = .ok r ∧
        r.asText? = some t ∧ t <:+ "total" ∧ (t.length : Int) = 5) ∧
      ∃ text, (Value.text "1").inspect = .ok text ∧
        substr (.text "total") (.text "1") = .fail (.startNotANumber text) := by
  have count : Cut.leftFrom 5 ((Binary64.signedUnits true
      ⟨Nat.pow 2 52, 1021, by decide, by decide, .inr (by decide)⟩).tdiv unitsPerOne) = 5 := by decide +kernel
  have leaves : Leaves 5 (.float (.finite true ⟨Nat.pow 2 52, 1021, by decide, by decide, .inr (by decide)⟩)) 5 :=
    count ▸ .finite true _
  have suffix := substr_isSuffix (v := .text "total") (s := "total") rfl
  exact ⟨rfl, leaves, .text "1", suffix.1 _ 5 leaves, suffix.2 _ (.text "1")⟩

end FunctionTable
end Reckoner
