import Reckoner.Proofs.Node.Reread
/-!
# Equality of a tree and what it reads back as

Trees that are equal have equally many constants, whatever kinds their numbers have. The respelled tree is equal to
the tree, since a whole binary64 number equals the whole number with its value.
-/
namespace Reckoner

namespace Binary64

theorem whole?_eq_some {x : Binary64} {n : Int} (h : x.whole? = some n) :
    ∃ negative m, x = .finite negative m ∧ m.units % unitsPerOne = 0 ∧
      n = if negative then -((m.units / unitsPerOne : Nat) : Int) else ((m.units / unitsPerOne : Nat) : Int) := by
  cases x with
  | nan => cases h
  | infinite negative => cases h
  | finite negative m =>
    by_cases whole : m.units % unitsPerOne = 0
    · rw [whole?, if_pos whole] at h
      exact ⟨negative, m, rfl, whole, (Option.some.inj h).symm⟩
    · rw [whole?, if_neg whole] at h
      cases h

/-- A whole number is equal to its value. -/
theorem equalsInt_of_whole? {x : Binary64} {n : Int} (h : x.whole? = some n) : x.equalsInt n = true := by
  obtain ⟨negative, m, rfl, whole, value⟩ := whole?_eq_some h
  have units : m.units / unitsPerOne * unitsPerOne = m.units := Nat.div_mul_cancel (Nat.dvd_of_mod_eq_zero whole)
  have scaled : ((m.units / unitsPerOne : Nat) : Int) * (unitsPerOne : Int) = (m.units : Int) := by
    rw [← Int.natCast_mul, units]
  rw [equalsInt, beq_iff_eq, value]
  cases negative with
  | true => simp only [signedUnits, if_true, Int.neg_mul, scaled]
  | false => simp only [signedUnits, Bool.false_eq_true, if_false, scaled]

theorem equals_self {x : Binary64} (number : x ≠ .nan) : x.equals x = true := by
  cases x with
  | nan => exact absurd rfl number
  | infinite negative => simp [equals]
  | finite negative m => simp [equals]

theorem respelled_equals {x : Binary64} (number : x ≠ .nan) : x.respelled.equals (.float x) = true := by
  have same : (Value.float x).equals (.float x) = true := by
    simpa [Value.equals, Value.equalsNumber, Number.ofValue?, Number.equals] using equals_self number
  unfold respelled
  split
  next n whole =>
    split
    · exact same
    · simpa [Value.equals, Value.equalsNumber, Number.ofValue?, Number.equals] using equalsInt_of_whole? whole
  next => exact same

end Binary64

namespace Node

/-- Nothing but a tuple is equal to a tuple. -/
theorem eq_tuple_of_equals {v : Value} {items : List Value} (h : v.equals (.tuple items) = true) :
    ∃ others, v = .tuple others ∧ Value.equalsAll others items = true := by
  cases v
  case tuple others => exact ⟨others, rfl, by simpa [Value.equals] using h⟩
  all_goals simp [Value.equals, Value.equalsNumber, Number.ofValue?, Value.asText?] at h

/-- A constant that is no tuple is equal to none. -/
theorem ne_tuple_of_equals {v w : Value} (h : v.equals w = true) (notList : ∀ items, w ≠ .tuple items)
    (items : List Value) : v ≠ .tuple items := by
  rintro rfl
  unfold Value.equals at h
  split at h
  next ys => exact notList ys rfl
  next => cases h

theorem eq_constant_of_equals {u : Node} {w : Value} (h : u.equals (.constant w) = true) :
    ∃ v, u = .constant v ∧ v.equals w = true := by
  cases u with
  | constant v => exact ⟨v, rfl, by simpa [Node.equals] using h⟩
  | property name => simp [Node.equals] at h
  | binary op left right => simp [Node.equals] at h
  | call name args => simp [Node.equals] at h

theorem constants_leaf_of_equals {u : Node} {w : Value} (notList : ∀ items, w ≠ .tuple items)
    (h : u.equals (.constant w) = true) : u.constants = (Node.constant w).constants := by
  obtain ⟨v, rfl, equal⟩ := eq_constant_of_equals h
  rw [constants_leaf (ne_tuple_of_equals equal notList), constants_leaf notList]

theorem eq_node_of_equals {v : Value} {n : Node} (h : v.equals (.node n) = true) :
    ∃ m, v = .node m ∧ m.equals n = true := by
  cases v
  case node m => exact ⟨m, rfl, by simpa [Value.equals] using h⟩
  all_goals simp [Value.equals, Value.equalsNumber, Number.ofValue?, Value.asText?] at h

theorem constantsAll_of_equalsAll {nodes : List Node}
    (each : ∀ n ∈ nodes, ∀ u : Node, u.equals n = true → u.constants = n.constants) {items : List Value}
    (h : Value.equalsAll items (nodes.map .node) = true) : constantsAll items = (nodes.map constants).sum := by
  induction nodes generalizing items with
  | nil =>
    cases items with
    | nil => rfl
    | cons v items => simp [Value.equalsAll] at h
  | cons n nodes ih =>
    cases items with
    | nil => simp [Value.equalsAll] at h
    | cons v items =>
      rw [List.map_cons, Value.equalsAll, Bool.and_eq_true] at h
      obtain ⟨m, rfl, equal⟩ := eq_node_of_equals h.1
      rw [constantsAll_cons_node, List.map_cons, List.sum_cons, each n (by simp) m equal,
        ih (fun k member => each k (by simp [member])) h.2]

/-- Equal trees have equally many constants. -/
theorem constants_of_equals {tree : Node} (formed : tree.Formed) {u : Node} (h : u.equals tree = true) :
    u.constants = tree.constants := by
  induction formed generalizing u with
  | int n short => exact constants_leaf_of_equals (by simp) h
  | float x number => exact constants_leaf_of_equals (by simp) h
  | text t => exact constants_leaf_of_equals (by simp) h
  | list nodes elements ih =>
    obtain ⟨v, rfl, equal⟩ := eq_constant_of_equals h
    obtain ⟨items, rfl, equalAll⟩ := eq_tuple_of_equals equal
    rw [constants_list, constants_tuple, constantsAll_of_equalsAll (fun n member u => ih n member) equalAll]
  | property name isName =>
    cases u with
    | property other => rfl
    | _ => simp [Node.equals] at h
  | binary op left right _ _ ihLeft ihRight =>
    cases u with
    | binary other l r =>
      simp only [Node.equals, Bool.and_eq_true] at h
      rw [constants, constants, ihLeft h.1.2, ihRight h.2]
    | _ => simp [Node.equals] at h
  | call name args _ _ ihArgs =>
    cases u with
    | call other a =>
      simp only [Node.equals, Bool.and_eq_true] at h
      rw [constants, constants, ihArgs h.2]
    | _ => simp [Node.equals] at h

theorem equalsAll_map_node {nodes : List Node} {next : Node → Node}
    (each : ∀ n ∈ nodes, (next n).equals n = true) :
    Value.equalsAll ((nodes.map next).map .node) (nodes.map .node) = true := by
  induction nodes with
  | nil => simp [Value.equalsAll]
  | cons n nodes ih =>
    simp only [List.map_cons, Value.equalsAll, Bool.and_eq_true]
    exact ⟨by simpa [Value.equals] using each n (by simp), ih fun m member => each m (by simp [member])⟩

/-- The respelled tree is equal to the tree. -/
theorem respelled_equals {tree : Node} (formed : tree.Formed) : tree.respelled.equals tree = true := by
  induction formed with
  | int n short => simp [Node.equals, Value.equals, Value.equalsNumber, Number.ofValue?, Number.equals]
  | float x number => simpa [Node.equals] using Binary64.respelled_equals number
  | text t => simp [Node.equals, Value.equals, Value.asText?]
  | list nodes elements ih =>
    rw [respelled_list]
    simpa [Node.equals, Value.equals] using equalsAll_map_node ih
  | property name isName => simp [Node.equals]
  | binary op left right _ _ ihLeft ihRight => simp [Node.equals, ihLeft, ihRight]
  | call name args _ _ ihArgs => simp [Node.equals, ihArgs]

end Node
end Reckoner
