import Reckoner.Text.Basic
import Mathlib.Data.List.Dedup
import Mathlib.Data.List.Induction
import Mathlib.Data.Nat.Init
/-!
# Texts listed once

A list without its repetitions holds each text where the text appears first (`pairwise_idxOf_eraseDups`). Sorting moves
texts past each other only where their order asks for it: texts of a class in which all of them tie stay as they stand
(`filter_mergeSort_of_tied`).
-/
namespace Reckoner.Text

theorem nodup_eraseDups (names : List Text) : names.eraseDups.Nodup := by
  induction length : names.length using Nat.strong_induction_on generalizing names with
  | _ n ih =>
    cases names with
    | nil => simp
    | cons name names =>
      rw [List.eraseDups_cons, List.nodup_cons, List.mem_eraseDups]
      have shorter := List.length_filter_le (fun other => !other == name) names
      rw [List.length_cons] at length
      exact ⟨by simp, ih _ (by omega) _ rfl⟩

/-- One more name is listed behind the others, unless it is among them already. -/
theorem eraseDups_concat (names : List Text) (name : Text) :
    (names ++ [name]).eraseDups = if name ∈ names then names.eraseDups else names.eraseDups ++ [name] := by
  rw [List.eraseDups_append]
  by_cases known : name ∈ names
  · simp [known, List.removeAll]
  · simp [known, List.removeAll, List.eraseDups_cons]

/-- Names that are listed once each stand in the order of their first appearance. -/
theorem pairwise_idxOf_eraseDups (names : List Text) :
    names.eraseDups.Pairwise fun x y => names.idxOf x < names.idxOf y := by
  induction names using List.reverseRecOn with
  | nil => simp
  | append_singleton names name ih =>
    -- among the names before, the first appearances are where they were
    have before : names.eraseDups.Pairwise fun x y => (names ++ [name]).idxOf x < (names ++ [name]).idxOf y := by
      refine ih.imp_of_mem fun first second ahead => ?_
      rwa [List.idxOf_append_of_mem (List.mem_eraseDups.mp first),
        List.idxOf_append_of_mem (List.mem_eraseDups.mp second)]
    rw [eraseDups_concat]
    split
    next => exact before
    next new =>
      refine List.pairwise_append.mpr ⟨before, List.pairwise_singleton _ _, fun x listed y last => ?_⟩
      have inside := List.mem_eraseDups.mp listed
      rw [List.mem_singleton.mp last, List.idxOf_append_of_mem inside, List.idxOf_append_of_notMem new]
      exact Nat.lt_of_lt_of_le (List.idxOf_lt_length_of_mem inside) (Nat.le_add_right _ _)

theorem length_eraseDups (names : List Text) : names.eraseDups.length = names.dedup.length :=
  ((List.perm_ext_iff_of_nodup (nodup_eraseDups names) (List.nodup_dedup names)).mpr fun name => by
    rw [List.mem_eraseDups, List.mem_dedup]).length_eq

/-- The texts of a class in which any two tie are left in their order when a list is sorted. -/
theorem filter_mergeSort_of_tied {le : Text → Text → Bool} {p : Text → Bool}
    (trans : ∀ a b c, le a b = true → le b c = true → le a c = true) (total : ∀ a b, (le a b || le b a) = true)
    (tied : ∀ a b, p a = true → p b = true → le a b = true) (texts : List Text) :
    (texts.mergeSort le).filter p = texts.filter p := by
  have inOrder : (texts.filter p).Pairwise fun a b => le a b = true :=
    List.pairwise_of_forall_mem_list fun a isIn b isIn' =>
      tied a b (List.mem_filter.mp isIn).2 (List.mem_filter.mp isIn').2
  have kept : (texts.filter p).Sublist (texts.mergeSort le) :=
    List.sublist_mergeSort trans total inOrder List.filter_sublist
  have inside : (texts.filter p).Sublist ((texts.mergeSort le).filter p) := by
    simpa using kept.filter p
  exact (inside.eq_of_length ((List.mergeSort_perm texts le).filter p).length_eq.symm).symm

end Reckoner.Text
