import Reckoner.Proofs.Text.Listed
import Reckoner.Proofs.Token.Behind
/-!
# The symbols of operators

A scanner tries the symbols of operators one after the other and takes the first that the text starts with. The list
that it tries is made of two tables, that of further operators in front of the binary one. Whatever the symbols are,
each of them is in the list once, the longest first, and those of one length as the tables have them
(`pairwise_symbols`). So the symbol that is taken is the longest that stands at the place (`symbols_first_isLongest`).
With the binary table alone it is the operator that is scanned there (`Token.lexeme_operator_iff`).
-/
namespace Reckoner.Operator

/-- The two tables as one. A symbol that is in both is in it twice. -/
def table (further : List Text) : List Text := further ++ foldOrder.map symbol

/-- A symbol stands before those that are shorter, and before those of its length that are listed later. -/
def Precedes (listed : List Text) (a b : Text) : Prop :=
  b.length < a.length ∨ a.length = b.length ∧ listed.idxOf a < listed.idxOf b

/-- A listed symbol that a text starts with, when the text starts with none that is longer. -/
structure IsLongestAt (listed : List Text) (t s : Text) : Prop where
  mem : s ∈ listed
  starts : s <+: t
  longest : ∀ r ∈ listed, r <+: t → r.length ≤ s.length

variable {listed further : List Text} {t s r : Text}

/-- Of the symbols that one text starts with no two have the same length. -/
theorem IsLongestAt.unique (first : IsLongestAt listed t s) (second : IsLongestAt listed t r) : s = r := by
  have shorter := second.longest s first.mem first.starts
  have longer := first.longest r second.mem second.starts
  exact (List.prefix_of_prefix_length_le first.starts second.starts shorter).eq_of_length_le longer

theorem IsLongestAt.congr {other : List Text} (same : ∀ r, r ∈ listed ↔ r ∈ other) :
    IsLongestAt listed t s ↔ IsLongestAt other t s :=
  ⟨fun h => ⟨(same s).mp h.mem, h.starts, fun r isIn => h.longest r ((same r).mpr isIn)⟩,
    fun h => ⟨(same s).mpr h.mem, h.starts, fun r isIn => h.longest r ((same r).mp isIn)⟩⟩

theorem symbolAt?_eq_none_iff : symbolAt? listed t = none ↔ ∀ s ∈ listed, ¬s <+: t := by
  simp [symbolAt?, List.find?_eq_none]

/-- Where longer symbols are listed first, the first that a text starts with is the longest. -/
theorem symbolAt?_eq_some_iff (longestFirst : listed.Pairwise fun a b => b.length ≤ a.length) :
    symbolAt? listed t = some s ↔ IsLongestAt listed t s := by
  induction listed with
  | nil => exact ⟨fun found => (Option.some_ne_none s found.symm).elim, fun h => (List.not_mem_nil h.mem).elim⟩
  | cons head rest ih =>
    obtain ⟨ahead, restFirst⟩ := List.pairwise_cons.mp longestFirst
    by_cases starts : head <+: t
    · have isLongest : IsLongestAt (head :: rest) t head :=
        ⟨List.mem_cons_self, starts, List.forall_mem_cons.mpr ⟨fun _ => Nat.le_refl _, fun r isIn _ => ahead r isIn⟩⟩
      have found : symbolAt? (head :: rest) t = some head :=
        List.find?_cons_of_pos (List.isPrefixOf_iff_prefix.mpr starts)
      rw [found, Option.some_inj]
      exact ⟨fun same => same ▸ isLongest, fun h => isLongest.unique h⟩
    · have skipped : symbolAt? (head :: rest) t = symbolAt? rest t :=
        List.find?_cons_of_neg (by rwa [List.isPrefixOf_iff_prefix])
      rw [skipped, ih restFirst]
      constructor
      · intro h
        exact ⟨List.mem_cons_of_mem _ h.mem, h.starts,
          List.forall_mem_cons.mpr ⟨fun isPrefix => absurd isPrefix starts, h.longest⟩⟩
      · intro h
        have notHead : s ≠ head := fun same => starts (same ▸ h.starts)
        exact ⟨(List.mem_cons.mp h.mem).resolve_left notHead, h.starts, (List.forall_mem_cons.mp h.longest).2⟩

/-! ### The list of symbols -/

theorem perm_symbols (further : List Text) : (symbols further).Perm (table further).eraseDups :=
  List.mergeSort_perm _ _

theorem mem_symbols : s ∈ symbols further ↔ s ∈ table further := by
  rw [(perm_symbols further).mem_iff, List.mem_eraseDups]

theorem nodup_symbols (further : List Text) : (symbols further).Nodup :=
  (perm_symbols further).nodup_iff.mpr (Text.nodup_eraseDups _)

theorem longestFirst_trans (a b c : Text) (first : decide (b.length ≤ a.length) = true)
    (second : decide (c.length ≤ b.length) = true) : decide (c.length ≤ a.length) = true := by
  rw [decide_eq_true_iff] at first second ⊢
  exact Nat.le_trans second first

theorem longestFirst_total (a b : Text) : (decide (b.length ≤ a.length) || decide (a.length ≤ b.length)) = true := by
  rw [Bool.or_eq_true, decide_eq_true_iff, decide_eq_true_iff]
  exact Nat.le_total _ _

theorem longestFirst_symbols (further : List Text) :
    (symbols further).Pairwise fun a b => b.length ≤ a.length :=
  (List.pairwise_mergeSort longestFirst_trans longestFirst_total _).imp of_decide_eq_true

/-- The symbols of one length stand as in the tables, apart from the repetitions. -/
theorem filter_symbols (further : List Text) (n : Nat) :
    (symbols further).filter (·.length = n) = (table further).eraseDups.filter (·.length = n) := by
  refine Text.filter_mergeSort_of_tied longestFirst_trans longestFirst_total (fun a b isLong isLong' => ?_) _
  rw [decide_eq_true_iff] at isLong isLong' ⊢
  exact Nat.le_of_eq (isLong'.trans isLong.symm)

theorem pairwise_symbols (further : List Text) : (symbols further).Pairwise (Precedes (table further)) := by
  rw [List.pairwise_iff_forall_sublist]
  intro a b ahead
  have longest := List.pairwise_iff_forall_sublist.mp (longestFirst_symbols further) ahead
  rcases Nat.lt_or_eq_of_le longest with shorter | same
  · exact .inl shorter
  · -- both are among the symbols of their length, which the sort has left in the order of the tables
    have tied : [a, b].Sublist ((table further).eraseDups.filter (·.length = a.length)) := by
      rw [← filter_symbols]
      simpa [same] using ahead.filter (·.length = a.length)
    exact .inr ⟨same.symm, List.pairwise_iff_forall_sublist.mp (Text.pairwise_idxOf_eraseDups _)
      (tied.trans List.filter_sublist)⟩

theorem Precedes.asymm {a b : Text} (first : Precedes listed a b) (second : Precedes listed b a) : False := by
  unfold Precedes at first second
  omega

theorem Precedes.ne {a b : Text} (h : Precedes listed a b) : a ≠ b := by
  rintro rfl
  exact h.asymm h

/-- There is one way to list the symbols of the tables like this. -/
theorem symbols_eq {ordered : List Text} (same : ∀ s, s ∈ ordered ↔ s ∈ table further)
    (inOrder : ordered.Pairwise (Precedes (table further))) : symbols further = ordered := by
  have perm : (symbols further).Perm ordered :=
    (List.perm_ext_iff_of_nodup (nodup_symbols further) (inOrder.imp Precedes.ne)).mpr fun s =>
      mem_symbols.trans (same s).symm
  exact perm.eq_of_pairwise (fun a b _ _ ab ba => (ab.asymm ba).elim) (pairwise_symbols further) inOrder

/-- The first symbol that a text starts with is the longest of both tables, and there is none only if the text starts
with no symbol. The list has each symbol once, and symbols of one length in the order of the tables. -/
theorem symbols_first_isLongest (further : List Text) :
    (∀ t s, symbolAt? (symbols further) t = some s ↔ IsLongestAt (table further) t s) ∧
      (∀ t, symbolAt? (symbols further) t = none ↔ ∀ s ∈ table further, ¬s <+: t) ∧
      (∀ s, (symbols further).count s = if s ∈ table further then 1 else 0) ∧
      (symbols further).Pairwise (Precedes (table further)) := by
  refine ⟨fun t s => ?_, fun t => ?_, fun s => ?_, pairwise_symbols further⟩
  · rw [symbolAt?_eq_some_iff (longestFirst_symbols further)]
    exact IsLongestAt.congr fun r => mem_symbols
  · rw [symbolAt?_eq_none_iff]
    exact forall_congr' fun s => by rw [mem_symbols]
  · rw [(nodup_symbols further).count]
    exact if_congr mem_symbols rfl rfl

example : symbols [">", ">=", "-", "="] = [">=", ">", "-", "=", "*", "/", "+"] := by cbv

/-! ### The binary symbols alone -/

theorem symbols_nil : symbols [] = foldOrder.map symbol := by
  refine symbols_eq (fun s => Iff.rfl) ?_
  unfold Precedes
  decide

theorem symbolAt?_symbols_nil (c : CodePoint) (rest : Text) :
    symbolAt? (symbols []) (c :: rest) = (ofSymbol? [c]).map symbol := by
  have names : ∀ op : Operator, op.symbol.isPrefixOf (c :: rest) = decide (op.symbol = [c]) := by
    intro op
    simp [symbol, List.isPrefixOf, Bool.beq_eq_decide_eq]
  rw [symbols_nil, symbolAt?, List.find?_map, ofSymbol?]
  exact congrArg (fun p => (foldOrder.find? p).map symbol) (funext names)

end Reckoner.Operator

namespace Reckoner.Token

open Operator (symbolAt? symbols symbolAt?_symbols_nil)

variable {c : CodePoint} {rest s : Text}

theorem lexeme_sign (op : Operator) (rest : Text) : lexeme (.scalar op.sign) rest = (.operator, 0) := by
  cases op <;> rfl

/-- The operator that is scanned at a place is the symbol that is taken there. -/
theorem lexeme_operator_iff : ((lexeme c rest).1 = .operator ∧ c :: rest.take (lexeme c rest).2 = s) ↔
    symbolAt? (symbols []) (c :: rest) = some s := by
  rw [symbolAt?_symbols_nil]
  constructor
  · rintro ⟨isOperator, rfl⟩
    obtain ⟨op, sign⟩ := lexeme_eq_operator isOperator
    obtain ⟨rfl, -⟩ := List.cons.inj sign
    rw [lexeme_sign, sign, Operator.ofSymbol?_symbol]
    rfl
  · intro found
    obtain ⟨op, named, rfl⟩ := Option.map_eq_some_iff.mp found
    obtain ⟨rfl, -⟩ := List.cons.inj (Operator.ofSymbol?_eq_some named)
    rw [lexeme_sign]
    exact ⟨rfl, rfl⟩

end Reckoner.Token
