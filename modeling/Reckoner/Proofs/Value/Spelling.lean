import Reckoner.FunctionTable
import Reckoner.Proofs.Node.Spelling
import Reckoner.Proofs.Number.Spelling
/-!
# Values of a tree that was written out and read back

A tree that comes back with whole numbers in place of binary64 numbers has values that come back in the same way
(`Comes`): a number may have become the whole number it spells, and the elements of a list of nodes may be respelled.
Neither shows when the value is written out, so joining and cutting texts cannot tell the two apart. Outcomes are
compared up to the kind of a fault, because the message of a fault names the kinds of the operands.
-/
namespace Reckoner

namespace Node

theorem isShort_of_spellsInt {x : Binary64} {n : Int} (spells : x.SpellsInt n) : Numeral.IsShort n := by
  obtain ⟨m, rfl, units⟩ := spells.eq_finite
  have bound := isShort_of_magnitude m
  rwa [units, Nat.mul_div_cancel _ unitsPerOne_pos, Numeral.IsShort, Int.natAbs_natCast] at bound

/-- A whole number is written as the binary64 number that spells it. -/
theorem ofInt?_of_spellsInt {x : Binary64} {n : Int} (spells : x.SpellsInt n) :
    Numeral.ofInt? n = .ok (Numeral.ofBinary64 x) := by
  have short := isShort_of_spellsInt spells
  obtain ⟨m, rfl, units⟩ := spells.eq_finite
  have whole : m.units % unitsPerOne = 0 := by rw [units, Nat.mul_mod_left]
  have value : m.units / unitsPerOne = n.natAbs := by rw [units, Nat.mul_div_cancel _ unitsPerOne_pos]
  rw [Numeral.ofInt?_of_isShort short, Numeral.ofBinary64, if_pos whole, value, Numeral.ofInt, Numeral.signed]
  simp only [decide_eq_true_eq]

theorem renderAll_congr {nodes : List Node} {next : Node → Node} (each : ∀ n ∈ nodes, (next n).render = n.render) :
    renderAll ((nodes.map next).map .node) = renderAll (nodes.map .node) := by
  induction nodes with
  | nil => rfl
  | cons n nodes ih =>
    simp only [List.map_cons, renderAll, each n (by simp), ih fun m member => each m (by simp [member])]

theorem render_respelled_float (x : Binary64) :
    (Node.constant x.respelled).render = (Node.constant (.float x)).render := by
  rcases x.respelled_cases with same | ⟨n, whole, spells⟩
  · rw [same]
  · rw [whole, render_int, render_float, ofInt?_of_spellsInt spells]
    rfl

/-- An argument of a call is written without brackets in both trees or in neither. -/
theorem isBare_respelled {tree : Node} (formed : tree.Formed) : tree.respelled.isBare = tree.isBare := by
  cases formed with
  | int n short => rw [respelled_int]
  | text t => rw [respelled_text]
  | property name isName => rw [respelled_property]
  | float x number =>
    rcases x.respelled_cases with same | ⟨n, whole, -⟩
    · rw [respelled_float, same]
    · rw [respelled_float, whole]
      rfl
  | list nodes elements =>
    rw [respelled_list]
    rfl
  | binary op left right => rw [respelled_binary]; rfl
  | call name args => rw [respelled_call]; rfl

/-- The respelled tree has the rendering of the tree. -/
theorem render_respelled {tree : Node} (formed : tree.Formed) : tree.respelled.render = tree.render := by
  induction formed with
  | int n short => rw [respelled_int]
  | text t => rw [respelled_text]
  | property name isName => rw [respelled_property]
  | float x number =>
    rw [respelled_float]
    exact render_respelled_float x
  | list nodes elements ih => rw [respelled_list, render_list, render_list, renderAll_congr ih]
  | binary op left right _ _ ihLeft ihRight => rw [respelled_binary, render_binary, render_binary, ihLeft, ihRight]
  | call name args isName argsFormed ih =>
    rw [respelled_call]
    cases bare : args.isBare with
    | true =>
      have bareAgain := (isBare_respelled argsFormed).trans bare
      rw [render_call_bare name bare, render_call_bare name bareAgain, ih]
    | false =>
      have bareAgain := (isBare_respelled argsFormed).trans bare
      rw [render_call_enclosed name bare, render_call_enclosed name bareAgain, ih]

theorem Formed.respelled {tree : Node} (formed : tree.Formed) : tree.respelled.Formed := by
  induction formed with
  | int n short =>
    rw [respelled_int]
    exact .int n short
  | text t =>
    rw [respelled_text]
    exact .text t
  | property name isName =>
    rw [respelled_property]
    exact .property name isName
  | float x number =>
    rw [respelled_float]
    rcases x.respelled_cases with same | ⟨n, whole, spells⟩
    · rw [same]
      exact .float x number
    · rw [whole]
      exact .int n (isShort_of_spellsInt spells)
  | list nodes elements ih =>
    rw [respelled_list]
    refine .list _ fun n member => ?_
    obtain ⟨m, inside, rfl⟩ := List.mem_map.mp member
    exact ih m inside
  | binary op left right _ _ ihLeft ihRight =>
    rw [respelled_binary]
    exact .binary op _ _ ihLeft ihRight
  | call name args isName _ ih =>
    rw [respelled_call]
    exact .call name _ isName ih

theorem inspect_tuple_isOk {nodes : List Node} (each : ∀ n ∈ nodes, ∃ t, n.inspect = .ok t) :
    ∃ t, (Value.tuple (nodes.map .node)).inspect = .ok t := by
  have all : ∃ texts, Value.inspectAll (nodes.map .node) = .ok texts := by
    induction nodes with
    | nil => exact ⟨[], rfl⟩
    | cons n nodes ih =>
      obtain ⟨t, shown⟩ := each n (by simp)
      obtain ⟨others, rest⟩ := ih fun m member => each m (by simp [member])
      exact ⟨t :: others, by simp [Value.inspectAll, Value.inspect, shown, rest]⟩
  obtain ⟨texts, shown⟩ := all
  rw [Value.inspect, shown, Outcome.ok_bind]
  split
  · exact ⟨_, rfl⟩
  · exact ⟨_, rfl⟩

/-- A formed tree has a diagnostic form, since its whole numbers are short. -/
theorem inspect_isOk {tree : Node} (formed : tree.Formed) : ∃ t, tree.inspect = .ok t := by
  induction formed with
  | int n short =>
    refine ⟨"ValueNode(value=" ++ Numeral.ofInt n ++ ")", ?_⟩
    rw [inspect, Value.inspect, Numeral.ofInt?_of_isShort short]
    rfl
  | float x number => exact ⟨_, by rw [inspect, Value.inspect]; rfl⟩
  | text t => exact ⟨_, by rw [inspect, Value.inspect]; rfl⟩
  | property name isName => exact ⟨_, by rw [inspect]⟩
  | list nodes elements ih =>
    obtain ⟨t, shown⟩ := inspect_tuple_isOk ih
    exact ⟨_, by rw [inspect, shown]; rfl⟩
  | binary op left right _ _ ihLeft ihRight =>
    obtain ⟨l, left⟩ := ihLeft
    obtain ⟨r, right⟩ := ihRight
    exact ⟨_, by rw [inspect, left, right]; rfl⟩
  | call name args _ _ ih =>
    obtain ⟨t, shown⟩ := ih
    exact ⟨_, by rw [inspect, shown]; rfl⟩

end Node

namespace Value

/-- A value and what it may come back as: itself, the whole number that it spells, or a list of respelled nodes. -/
inductive Comes : Value → Value → Prop where
  | same (v : Value) : Comes v v
  | whole (x : Binary64) (n : Int) (spells : x.SpellsInt n) : Comes (.int n) (.float x)
  | list (nodes : List Node) (elements : ∀ n ∈ nodes, n.Formed) :
      Comes (.tuple ((nodes.map Node.respelled).map .node)) (.tuple (nodes.map .node))

namespace Comes

variable {v' v : Value}

theorem asText? (h : Comes v' v) : v'.asText? = v.asText? := by
  cases h <;> rfl

/-- A value is displayed as what it comes back as. -/
theorem display (h : Comes v' v) : v'.display = v.display := by
  cases h with
  | same => rfl
  | whole x n spells =>
    show Outcome.ofDigits (Numeral.ofInt? n) = .ok (Numeral.ofBinary64 x)
    rw [Node.ofInt?_of_spellsInt spells]
    rfl
  | list nodes elements =>
    rw [Value.display, Value.display, Node.renderAll_congr fun n member => Node.render_respelled (elements n member)]

/-- A value that is a number comes back as one, and any other value does not. -/
theorem ofValue? (h : Comes v' v) :
    (Number.ofValue? v' = none ∧ Number.ofValue? v = none) ∨
      ∃ a' a, Number.ofValue? v' = some a' ∧ Number.ofValue? v = some a ∧ Number.Comes a' a := by
  cases h with
  | same =>
    cases number : Number.ofValue? v' with
    | none => exact .inl ⟨rfl, rfl⟩
    | some a => exact .inr ⟨a, a, rfl, rfl, .same a⟩
  | whole x n spells => exact .inr ⟨.int n, .float x, rfl, rfl, .whole x n spells⟩
  | list nodes elements => exact .inl ⟨rfl, rfl⟩

/-- What comes back as a whole number is that number or binary64. -/
theorem eq_of_int {n : Int} (h : Comes v' v) (whole : Number.ofValue? v = some (.int n)) : v' = v := by
  cases h with
  | same => rfl
  | whole x n spells => cases whole
  | list nodes elements => cases whole

end Comes
end Value
end Reckoner
