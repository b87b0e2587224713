import Reckoner.Text.Basic
import Mathlib.Data.List.Nodup
/-!
# The order of texts

Texts are ordered by the first code point in which they differ. The order is total, and no two texts stand in it both
ways. So entries with keys that differ have one order only, in which sorting puts them.
-/
namespace Reckoner.Text

theorem le_cons_iff {a b : CodePoint} {s t : Text} :
    le (a :: s) (b :: t) = true ↔ a.toNat < b.toNat ∨ a = b ∧ le s t = true := by
  simp [le]

theorem le_total (s t : Text) : (le s t || le t s) = true := by
  induction s generalizing t with
  | nil => rfl
  | cons a s ih =>
    cases t with
    | nil => rfl
    | cons b t =>
      have rest := ih t
      rw [Bool.or_eq_true] at rest ⊢
      rw [le_cons_iff, le_cons_iff]
      rcases Nat.lt_trichotomy a.toNat b.toNat with below | same | above
      · exact .inl (.inl below)
      · have equal := CodePoint.toNat_injective same
        exact rest.imp (fun h => .inr ⟨equal, h⟩) (fun h => .inr ⟨equal.symm, h⟩)
      · exact .inr (.inl above)

theorem le_trans {s t u : Text} (first : le s t = true) (second : le t u = true) : le s u = true := by
  induction s generalizing t u with
  | nil => rfl
  | cons a s ih =>
    match t, u with
    | [], _ => cases first
    | _ :: _, [] => cases second
    | b :: t, c :: u =>
      rw [le_cons_iff] at first second ⊢
      rcases first with below | ⟨rfl, first⟩
      · rcases second with higher | ⟨rfl, -⟩
        · exact .inl (Nat.lt_trans below higher)
        · exact .inl below
      · exact second.imp id fun h => ⟨h.1, ih first h.2⟩

theorem le_antisymm {s t : Text} (first : le s t = true) (second : le t s = true) : s = t := by
  induction s generalizing t with
  | nil =>
    cases t with
    | nil => rfl
    | cons b t => cases second
  | cons a s ih =>
    cases t with
    | nil => cases first
    | cons b t =>
      rw [le_cons_iff] at first second
      rcases first with below | ⟨rfl, first⟩
      · rcases second with above | ⟨rfl, -⟩
        · omega
        · exact absurd below (Nat.lt_irrefl _)
      · rw [ih first (second.resolve_left (Nat.lt_irrefl _)).2]

/-- Entries in the order of their keys. -/
def sortedByKey {α : Type} (entries : List (Text × α)) : List (Text × α) := entries.mergeSort fun a b => le a.1 b.1

variable {α β : Type} {entries : List (Text × α)}

theorem perm_sortedByKey (entries : List (Text × α)) : (sortedByKey entries).Perm entries := List.mergeSort_perm _ _

theorem pairwise_sortedByKey (entries : List (Text × α)) :
    (sortedByKey entries).Pairwise fun a b => le a.1 b.1 = true :=
  List.pairwise_mergeSort (fun a b c => le_trans (s := a.1) (t := b.1) (u := c.1))
    (fun a b => le_total a.1 b.1) entries

/-- Sorting by the keys leaves what is done to the values to each entry. -/
theorem map_sortedByKey (f : Text × α → Text × β) (keeps : ∀ entry, (f entry).1 = entry.1) :
    (sortedByKey entries).map f = sortedByKey (entries.map f) :=
  List.map_mergeSort fun a _ b _ => by rw [keeps, keeps]

/-- Entries with keys that differ have one order. -/
theorem sortedByKey_eq {ordered : List (Text × α)} (perm : ordered.Perm entries)
    (inOrder : ordered.Pairwise fun a b => le a.1 b.1 = true) (differ : (entries.map Prod.fst).Nodup) :
    sortedByKey entries = ordered := by
  refine List.Perm.eq_of_pairwise (fun a b first second ab ba => ?_) (pairwise_sortedByKey entries) inOrder
    ((perm_sortedByKey entries).trans perm.symm)
  have inside := (perm_sortedByKey entries).subset first
  exact List.inj_on_of_nodup_map differ inside (perm.subset second) (le_antisymm ab ba)

end Reckoner.Text
