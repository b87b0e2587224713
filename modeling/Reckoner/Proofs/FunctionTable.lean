import Reckoner.Proofs.Operator.Exact
/-!
# Calls on values that come back

Two of the functions in the table are operators under a name, and the third cuts the display of a value. A cut asks
for a number and drops its fraction, so it cannot tell a binary64 number from the whole number that it spells. A call
on values that come back therefore comes back if the operator it stands for, if any, is exact on them (`call_comes`).
-/
namespace Reckoner.FunctionTable

open Outcome (Matches)

/-- The operator that a function of the table stands for. -/
def operator? (name : Text) : Option Operator :=
  if name = "Add" then some .plus else if name = "Sub" then some .minus else none

theorem call_operator {name : Text} {op : Operator} (stands : operator? name = some op) (x y : Value) :
    builtin.call name [x, y] = op.apply x y := by
  unfold operator? at stands
  split at stands
  next add =>
    cases stands
    rw [add]
    rfl
  next =>
    split at stands
    next sub =>
      cases stands
      rw [sub]
      rfl
    next => cases stands

variable {v' v start' start : Value}

theorem truncate?_of_whole? {x : Binary64} {n : Int} (whole : x.whole? = some n) : x.truncate? = some n := by
  obtain ⟨negative, m, rfl, -, value⟩ := Binary64.whole?_eq_some whole
  rw [Binary64.truncate?, value]

theorem ofNumber_of_spellsInt {x : Binary64} {n : Int} (spells : x.SpellsInt n) :
    Cut.ofNumber (.int n) = Cut.ofNumber (.float x) := by
  have truncated := truncate?_of_whole? spells.1
  obtain ⟨m, rfl, -⟩ := spells.eq_finite
  show Cut.ofInt n = Cut.ofInt (Option.getD _ 0)
  rw [truncated]
  rfl

/-- A list is no start position. -/
theorem cutAt_list (nodes : List Node) (elements : ∀ n ∈ nodes, n.Formed) :
    ∃ shown, cutAt (.tuple (nodes.map .node)) = .fail (.startNotANumber shown) := by
  obtain ⟨shown, inspected⟩ := Node.inspect_tuple_isOk fun n member => Node.inspect_isOk (elements n member)
  exact ⟨shown, by unfold cutAt; rw [inspected]; rfl⟩

theorem cutAt_comes (h : start'.Comes start) : Matches (· = ·) (cutAt start') (cutAt start) := by
  cases h with
  | same => exact .refl (fun _ => rfl) _
  | whole x n spells => exact .ok _ _ (ofNumber_of_spellsInt spells)
  | list nodes elements =>
    obtain ⟨shown, failed⟩ := cutAt_list nodes elements
    obtain ⟨shown', failed'⟩ := cutAt_list (nodes.map Node.respelled) fun n member => by
      obtain ⟨m, inside, rfl⟩ := List.mem_map.mp member
      exact (elements m inside).respelled
    rw [failed, failed']
    exact .error _ _ rfl

theorem substr_comes (value : v'.Comes v) (position : start'.Comes start) :
    Matches Value.Comes (substr v' start') (substr v start) := by
  unfold substr
  rw [value.display]
  refine .bind (R := (· = ·)) (.refl (fun _ => rfl) _) fun _ t _ _ same => ?_
  refine .bind (cutAt_comes position) fun cut' cut _ _ sameCut => ?_
  subst same sameCut
  cases value with
  | same => exact .refl .same _
  | whole x n spells => exact .ok _ _ (.same _)
  | list nodes elements => exact .ok _ _ (.same _)

/-- A function that is found is one of the three, and takes two arguments. -/
theorem find_builtin {name : Text} {entry : FunctionEntry} (found : builtin.find name = .ok entry) :
    entry.arity = 2 ∧ ((∃ op, operator? name = some op) ∨ name = "Substr") := by
  unfold find at found
  split at found
  next other first =>
    cases found
    have named : entry.name = name := by simpa using List.find?_some first
    have member := List.mem_of_find?_eq_some first
    simp only [builtin, List.mem_cons, List.not_mem_nil, or_false] at member
    rcases member with rfl | rfl | rfl
    · cases named
      exact ⟨rfl, .inl ⟨.plus, rfl⟩⟩
    · cases named
      exact ⟨rfl, .inl ⟨.minus, rfl⟩⟩
    · cases named
      exact ⟨rfl, .inr rfl⟩
  next => cases found

/-- A call of a built-in function on values that come back comes back if its operator is exact on them. -/
theorem call_comes {name : Text} {values' values : List Value} (each : List.Forall₂ Value.Comes values' values)
    (exact : ∀ op l' l r' r, operator? name = some op → values' = [l', r'] → values = [l, r] → op.ExactOn l' l r' r) :
    Matches Value.Comes (builtin.call name values') (builtin.call name values) := by
  have lengths := each.length_eq
  cases found : builtin.find name with
  | error e =>
    unfold call
    rw [found]
    exact .error e e rfl
  | ok entry =>
    obtain ⟨two, known⟩ := find_builtin found
    by_cases arity : values.length = 2
    · obtain ⟨l, r, rfl⟩ := List.length_eq_two.mp arity
      obtain ⟨l', r', rfl⟩ := List.length_eq_two.mp (lengths.trans arity)
      obtain ⟨left, rest⟩ := List.forall₂_cons.mp each
      obtain ⟨right, -⟩ := List.forall₂_cons.mp rest
      rcases known with ⟨op, stands⟩ | rfl
      · rw [call_operator stands, call_operator stands]
        exact Operator.apply_comes left right (exact op l' l r' r stands rfl rfl)
      · exact substr_comes left right
    · have wrong : entry.arity ≠ (values.length : Int) := by omega
      unfold call
      rw [found, Outcome.ok_bind, Outcome.ok_bind, lengths, if_neg wrong, if_neg wrong]
      exact .error _ _ rfl

end Reckoner.FunctionTable
