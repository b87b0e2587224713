import Reckoner.Proofs.Reference.Binding
/-!
# Where the names in a formula come from

The text that is read has placeholders where the formula has references. A token of that text is a placeholder that
stands for a reference, or it comes from the formula as it is; where a reference stands directly beside a name, or
beside another reference, one token may be made of both and then it has no origin (`Origin.of?`).
-/
namespace Reckoner

/-- A reference in the text that is read: where its placeholder starts, the placeholder, and the name it stands for. -/
structure Placed where
  start : Nat
  placeholder : Text
  name : Text
  deriving DecidableEq, Repr

namespace Placed

/-- The references among pieces whose replacements start at an offset. -/
def among (names : List Text) (offset : Nat) : List Piece → List Placed
  | [] => []
  | .plain _ :: rest => among names (offset + 1) rest
  | .reference written :: rest =>
    let placeholder := Substitution.replacement names (.reference written)
    ⟨offset, placeholder, written.strip⟩ :: among names (offset + placeholder.length) rest

/-- The references of a formula. -/
def ofFormula (formula : Text) : List Placed := among (Substitution.ofText formula).names 0 (Piece.ofText formula)

/-- Does the token share a code point with the placeholder? -/
def touches (p : Placed) (t : Token) : Bool :=
  match t.position with
  | some position => decide (p.start < position + t.text.length ∧ position < p.start + p.placeholder.length)
  | none => false

end Placed

/-- What a token of the text that is read comes from: a reference to a name, or the formula as it is. -/
inductive Origin where
  | reference (name : Text)
  | bare
  deriving DecidableEq, Repr

namespace Origin

/-- The origin of a token; there is none if it goes beyond a placeholder that it touches. -/
def of? (formula : Text) (t : Token) : Option Origin :=
  match (Placed.ofFormula formula).find? (·.touches t) with
  | none => some .bare
  | some p => if t.position = some (p.start : Int) ∧ t.text = p.placeholder then some (.reference p.name) else none

/-- The name that a token of this origin should read. -/
def ownName (t : Token) : Origin → Text
  | .reference name => name
  | .bare => t.text

end Origin

namespace Placed

/-- Every reference is listed, in the order of the formula. -/
theorem map_name_among (names : List Text) (offset : Nat) (pieces : List Piece) :
    (among names offset pieces).map name = pieces.filterMap Piece.name? := by
  induction pieces generalizing offset with
  | nil => rfl
  | cons piece pieces ih =>
    cases piece with
    | plain c => exact ih (offset + 1)
    | reference written => exact congrArg (written.strip :: ·) (ih _)

theorem placeholder_of_mem {names : List Text} {offset : Nat} {pieces : List Piece} {p : Placed}
    (member : p ∈ among names offset pieces) : p.placeholder = Substitution.placeholder (names.idxOf p.name) := by
  induction pieces generalizing offset with
  | nil => cases member
  | cons piece pieces ih =>
    cases piece with
    | plain c => exact ih member
    | reference written =>
      rcases List.mem_cons.mp member with rfl | member
      · rfl
      · exact ih member

/-- The placeholder of a reference stands for its name. -/
theorem stands?_placeholder {formula : Text} {p : Placed} (member : p ∈ ofFormula formula) :
    (Substitution.ofText formula).stands? p.placeholder = some p.name := by
  have listed : p.name ∈ (Piece.ofText formula).filterMap Piece.name? :=
    map_name_among _ 0 _ ▸ List.mem_map_of_mem member
  have inNames : p.name ∈ (Substitution.ofText formula).names := List.mem_eraseDups.mpr listed
  rw [placeholder_of_mem member]
  exact Substitution.stands?_eq_some.mpr ⟨_, List.getElem?_idxOf inNames, rfl⟩

end Placed

namespace Origin

/-- A token that comes from a reference is the placeholder that stands for its name. -/
theorem stands?_of_reference {formula name : Text} {t : Token} (h : of? formula t = some (.reference name)) :
    (Substitution.ofText formula).stands? t.text = some name := by
  unfold of? at h
  split at h
  next => cases h
  next p found =>
    split at h
    next here =>
      cases h
      rw [here.2]
      exact Placed.stands?_placeholder (List.mem_of_find?_eq_some found)
    next => cases h

end Origin
end Reckoner
