import Reckoner.Node.Parse
/-!
# Comparing a tree with a given one

Equality of nodes is equality as formulas see it, in which a whole number equals a binary64 number. To say what the tree
of a formula is, its kinds have to be compared as well. `identical` does this for the trees that formulas have; it
computes, so the tree of a given formula is checked by evaluation (`parse_eq_of_reads`).
-/
namespace Reckoner

mutual

/-- Are these the same tree, the kinds of its numbers included? -/
def Node.identical : Node → Node → Bool
  | .constant v, n =>
    match n with
    | .constant w => v.identical w
    | _ => false
  | .property s, n =>
    match n with
    | .property t => s == t
    | _ => false
  | .binary op left right, n =>
    match n with
    | .binary op' left' right' => op == op' && left.identical left' && right.identical right'
    | _ => false
  | .call name args, n =>
    match n with
    | .call name' args' => name == name' && args.identical args'
    | _ => false

def Value.identical : Value → Value → Bool
  | .int m, v =>
    match v with
    | .int n => m == n
    | _ => false
  | .float x, v =>
    match v with
    | .float y => x == y
    | _ => false
  | .text s, v =>
    match v with
    | .text t => s == t
    | _ => false
  | .tuple items, v =>
    match v with
    | .tuple others => Value.allIdentical items others
    | _ => false
  | .node n, v =>
    match v with
    | .node m => n.identical m
    | _ => false
  | _, _ => false

def Value.allIdentical : List Value → List Value → Bool
  | [], others => others.isEmpty
  | v :: items, others =>
    match others with
    | w :: rest => v.identical w && Value.allIdentical items rest
    | [] => false

end

mutual

theorem Node.eq_of_identical {m n : Node} (h : m.identical n = true) : m = n := by
  cases m with
  | constant v =>
    cases n with
    | constant w => rw [Value.eq_of_identical (v := v) (w := w) h]
    | _ => cases h
  | property s =>
    cases n with
    | property t => rw [beq_iff_eq.mp h]
    | _ => cases h
  | binary op left right =>
    cases n with
    | binary op' left' right' =>
      obtain ⟨parts, second⟩ := Bool.and_eq_true_iff.mp h
      obtain ⟨sign, first⟩ := Bool.and_eq_true_iff.mp parts
      rw [beq_iff_eq.mp sign, Node.eq_of_identical first, Node.eq_of_identical second]
    | _ => cases h
  | call name args =>
    cases n with
    | call name' args' =>
      obtain ⟨names, arguments⟩ := Bool.and_eq_true_iff.mp h
      rw [beq_iff_eq.mp names, Node.eq_of_identical arguments]
    | _ => cases h

theorem Value.eq_of_identical {v w : Value} (h : v.identical w = true) : v = w := by
  cases v with
  | int m =>
    cases w with
    | int n => rw [beq_iff_eq.mp h]
    | _ => cases h
  | float x =>
    cases w with
    | float y => rw [beq_iff_eq.mp h]
    | _ => cases h
  | text s =>
    cases w with
    | text t => rw [beq_iff_eq.mp h]
    | _ => cases h
  | tuple items =>
    cases w with
    | tuple others => rw [Value.eq_of_allIdentical (v := items) (w := others) h]
    | _ => cases h
  | node m =>
    cases w with
    | node n => rw [Node.eq_of_identical (m := m) (n := n) h]
    | _ => cases h
  | _ => cases h

theorem Value.eq_of_allIdentical {v w : List Value} (h : Value.allIdentical v w = true) : v = w := by
  cases v with
  | nil =>
    cases w with
    | nil => rfl
    | cons x others => cases h
  | cons x items =>
    cases w with
    | nil => cases h
    | cons y others =>
      obtain ⟨first, rest⟩ := Bool.and_eq_true_iff.mp h
      rw [Value.eq_of_identical first, Value.eq_of_allIdentical rest]

end

namespace Node

/-- Is this the tree of the formula text? -/
def reads (s : Text) (tree : Node) : Bool :=
  match parse s with
  | .ok u => u.identical tree
  | .error _ => false

theorem parse_eq_of_reads {s : Text} {tree : Node} (h : reads s tree = true) : parse s = .ok tree := by
  unfold reads at h
  split at h
  next u parsed => rw [parsed, eq_of_identical h]
  next => cases h

end Node
end Reckoner
