import Reckoner.Proofs.Node.Values
/-!
# Trees that write a number of too many digits

Working a tree out overruns exactly when it reaches a tree in it that writes out a whole number of more than 4300
digits (`compute_overruns_iff`). A tree is reached when everything before it has a value: the operands of an operation
or a call are worked out from left to right, and its own step comes last. Where names have scalars, what the tree writes
out is an operand that is such a number itself (`writesOverlong_iff_writes`).
-/
namespace Reckoner.Node

open FunctionTable (builtin cutAt operator?)
open Outcome (Overruns)

/-- Working out the first tree arrives at the second one. -/
inductive Reaches (ctx : Context) : Node → Node → Prop where
  | self (n : Node) : Reaches ctx n n
  | operand {n a m : Node} {before after : List Node} (split : n.operands = before ++ a :: after)
      (done : ∀ b ∈ before, ∃ v, b.compute builtin ctx = .ok v) (inside : Reaches ctx a m) : Reaches ctx n m

/-- The operands of the tree have values, but its own step has to write one out that cannot be written: it joins two
texts, or it cuts a text from a position that is refused and shown. -/
inductive WritesOverlong (ctx : Context) : Node → Prop where
  | joined {n left right : Node} {op : Operator} {x y : Value} (operation : n.operation? = some (op, left, right))
      (first : left.compute builtin ctx = .ok x) (second : right.compute builtin ctx = .ok y)
      (joins : op.joins x y = true)
      (overruns : x.display.Overruns ∨ (∃ t, x.display = .ok t) ∧ y.display.Overruns) : WritesOverlong ctx n
  | cut {args subject start : Node} {x y : Value} (two : args.arguments = [subject, start])
      (first : subject.compute builtin ctx = .ok x) (second : start.compute builtin ctx = .ok y)
      (overruns : x.display.Overruns ∨
        (∃ t, x.display = .ok t) ∧ y ≠ .absent ∧ Number.ofValue? y = none ∧ y.inspect.Overruns) :
      WritesOverlong ctx (.call "Substr" args)

variable {ctx : Context} {n : Node}

theorem bind_const_overruns {first : Outcome Text} {α : Type} {second : Outcome α} :
    (first >>= fun _ => second).Overruns ↔ first.Overruns ∨ (∃ t, first = .ok t) ∧ second.Overruns := by
  rw [Overruns.bind_iff, ← exists_and_right]

/-- The two operands of an operation are worked out before its sign is applied. -/
theorem writesOverlong_iff_apply {left right : Node} {op : Operator} {x y : Value}
    (operation : n.operation? = some (op, left, right)) (first : left.compute builtin ctx = .ok x)
    (second : right.compute builtin ctx = .ok y) : n.WritesOverlong ctx ↔ (op.apply x y).Overruns := by
  rw [Operator.apply_overruns, bind_const_overruns]
  constructor
  · intro writes
    cases writes with
    | joined again first' second' joins overruns =>
      rw [operation] at again
      cases again
      rw [first] at first'
      rw [second] at second'
      cases first'
      cases second'
      exact ⟨joins, overruns⟩
    | cut two first' second' overruns =>
      obtain ⟨stands, -⟩ := operation?_call operation
      cases stands
  · intro given
    exact .joined operation first second given.1 given.2

theorem writesOverlong_binary {symbol : Text} {left right : Node} :
    (Node.binary symbol left right).WritesOverlong ctx ↔ ∃ x y, left.compute builtin ctx = .ok x ∧
      right.compute builtin ctx = .ok y ∧ (Operator.applySymbol symbol x y).Overruns := by
  cases named : Operator.ofSymbol? symbol with
  | none =>
    refine iff_of_false (fun writes => ?_) (by simp [Operator.applySymbol, named])
    cases writes with
    | joined operation _ _ _ _ => simp [operation?, named] at operation
  | some op =>
    have operation : (Node.binary symbol left right).operation? = some (op, left, right) := by
      simp [operation?, named]
    simp only [Operator.applySymbol, named]
    constructor
    · intro writes
      cases writes with
      | joined again first second joins overruns =>
        have writes : (Node.binary symbol left right).WritesOverlong ctx := .joined again first second joins overruns
        rw [operation] at again
        cases again
        exact ⟨_, _, first, second, (writesOverlong_iff_apply operation first second).mp writes⟩
    · intro given
      obtain ⟨x, y, first, second, overruns⟩ := given
      exact (writesOverlong_iff_apply operation first second).mpr overruns

theorem mapM_two {f : Node → Outcome Value} {nodes : List Node} {x y : Value} :
    nodes.mapM f = .ok [x, y] ↔ ∃ left right, nodes = [left, right] ∧ f left = .ok x ∧ f right = .ok y := by
  simp only [Outcome.mapM_eq_ok, List.forall₂_cons_right_iff, List.forall₂_nil_right_iff]
  constructor
  · rintro ⟨left, _, first, ⟨right, _, second, rfl, rfl⟩, rfl⟩
    exact ⟨left, right, rfl, first, second⟩
  · rintro ⟨left, right, rfl, first, second⟩
    exact ⟨left, [right], first, ⟨right, [], second, rfl, rfl⟩, rfl⟩

theorem writesOverlong_call {name : Text} {args : Node} :
    (Node.call name args).WritesOverlong ctx ↔
      ∃ values, args.arguments.mapM (compute builtin ctx) = .ok values ∧ (builtin.call name values).Overruns := by
  constructor
  · intro writes
    cases writes with
    | joined operation first second joins overruns =>
      obtain ⟨stands, two⟩ := operation?_call operation
      have applied := (Operator.apply_overruns _ _ _).mpr ⟨joins, bind_const_overruns.mpr overruns⟩
      exact ⟨_, mapM_two.mpr ⟨_, _, two, first, second⟩,
        FunctionTable.call_overruns.mpr ⟨_, _, rfl, .inl ⟨_, stands, applied⟩⟩⟩
    | cut two first second overruns =>
      refine ⟨_, mapM_two.mpr ⟨_, _, two, first, second⟩, FunctionTable.call_overruns.mpr ⟨_, _, rfl, .inr ⟨rfl, ?_⟩⟩⟩
      rwa [FunctionTable.substr_overruns, bind_const_overruns, FunctionTable.cutAt_overruns]
  · intro given
    obtain ⟨values, computed, called⟩ := given
    obtain ⟨x, y, rfl, ⟨op, stands, overruns⟩ | ⟨rfl, overruns⟩⟩ := FunctionTable.call_overruns.mp called
    all_goals obtain ⟨left, right, two, first, second⟩ := mapM_two.mp computed
    · have operation : (Node.call name args).operation? = some (op, left, right) := by
        simp only [operation?, stands, two]
      exact (writesOverlong_iff_apply operation first second).mpr overruns
    · rw [FunctionTable.substr_overruns, bind_const_overruns, FunctionTable.cutAt_overruns] at overruns
      exact .cut two first second overruns

/-- A tree overruns in one of its operands, or by what it writes out itself. -/
theorem compute_overruns (n : Node) :
    (n.compute builtin ctx).Overruns ↔ (n.operands.mapM (compute builtin ctx)).Overruns ∨ n.WritesOverlong ctx := by
  cases n with
  | constant payload =>
    rw [compute]
    refine iff_of_false (by simp) (not_or_intro (by simp [operands]) fun writes => ?_)
    cases writes with
    | joined operation => cases operation
  | property name =>
    rw [compute]
    refine iff_of_false (by simp) (not_or_intro (by simp [operands]) fun writes => ?_)
    cases writes with
    | joined operation => cases operation
  | binary symbol left right =>
    rw [compute, writesOverlong_binary, operands, List.mapM_cons, mapM_one]
    cases first : left.compute builtin ctx with
    | error e => simp [Overruns]
    | ok x =>
      cases second : right.compute builtin ctx with
      | error e => simp [Overruns]
      | ok y => simp
  | call name args => rw [compute_call, writesOverlong_call, operands, Overruns.bind_iff]

theorem overruns_of_reaches {m : Node} (reaches : n.Reaches ctx m) (writes : m.WritesOverlong ctx) :
    (n.compute builtin ctx).Overruns := by
  induction reaches with
  | self n => exact (compute_overruns n).mpr (.inr writes)
  | operand split done inside ih =>
    exact (compute_overruns _).mpr (.inl (Overruns.mapM_iff.mpr ⟨_, _, _, split, done, ih writes⟩))

/-- A tree that overruns does so by what it writes out itself, or arrives at what does through one of its operands. -/
theorem reaches_of_overruns {tree : Node} (formed : tree.Formed) :
    (tree.compute builtin ctx).Overruns → ∃ m, tree.Reaches ctx m ∧ m.WritesOverlong ctx := by
  refine formed.operand_induction fun n _ ih overruns => ?_
  rcases (compute_overruns n).mp overruns with inOperand | writes
  · obtain ⟨before, a, after, split, done, overrunsThere⟩ := Overruns.mapM_iff.mp inOperand
    obtain ⟨m, reaches, writes⟩ := ih a (by simp [split]) overrunsThere
    exact ⟨m, .operand split done reaches, writes⟩
  · exact ⟨n, .self n, writes⟩

/-- Working a tree out overruns exactly when it reaches a tree that writes out a number of too many digits. -/
theorem compute_overruns_iff {tree : Node} (formed : tree.Formed) :
    (tree.compute builtin ctx).Overruns ↔ ∃ m, tree.Reaches ctx m ∧ m.WritesOverlong ctx := by
  constructor
  · exact reaches_of_overruns formed
  · intro given
    obtain ⟨m, reaches, writes⟩ := given
    exact overruns_of_reaches reaches writes

theorem Reaches.contains {m : Node} (reaches : n.Reaches ctx m) : n.Contains m := by
  induction reaches with
  | self n => exact .self n
  | operand split done inside ih => exact (contains_operand (by simp [split])).trans ih

/-- The operands of the tree have values, and its own step writes this one out in a text. -/
inductive Writes (ctx : Context) : Node → Value → Prop where
  | left {n left right : Node} {op : Operator} {x y : Value} (operation : n.operation? = some (op, left, right))
      (first : left.compute builtin ctx = .ok x) (second : right.compute builtin ctx = .ok y)
      (joins : op.joins x y = true) : Writes ctx n x
  | right {n left right : Node} {op : Operator} {x y : Value} (operation : n.operation? = some (op, left, right))
      (first : left.compute builtin ctx = .ok x) (second : right.compute builtin ctx = .ok y)
      (joins : op.joins x y = true) : Writes ctx n y
  | cut {args subject start : Node} {x y : Value} (two : args.arguments = [subject, start])
      (first : subject.compute builtin ctx = .ok x) (second : start.compute builtin ctx = .ok y) :
      Writes ctx (.call "Substr" args) x

theorem contains_operation {left right : Node} {op : Operator} (operation : n.operation? = some (op, left, right)) :
    n.Contains left ∧ n.Contains right := by
  have both : n.operands = [left, right] := by
    cases n with
    | constant payload => cases operation
    | property name => cases operation
    | binary symbol l r =>
      obtain ⟨other, -, same⟩ := Option.map_eq_some_iff.mp operation
      cases same
      rfl
    | call name args => exact (operation?_call operation).2
  exact ⟨contains_operand (by simp [both]), contains_operand (by simp [both])⟩

/-- Where names have scalars, a tree writes something out that it cannot exactly when it writes out a whole number of
too many digits. -/
theorem writesOverlong_iff_writes (formed : n.Formed) (scalars : ∀ name, (ctx.read name).IsScalar) :
    n.WritesOverlong ctx ↔ ∃ v, n.Writes ctx v ∧ v.IsOverlong := by
  have ordinary {a : Node} {v : Value} (inside : n.Contains a) (value : a.compute builtin ctx = .ok v) : v.Ordinary :=
    compute_ordinary (formed.of_contains inside) scalars v value
  constructor
  · intro writes
    cases writes with
    | @joined _ left right op x y operation first second joins overruns =>
      obtain ⟨inLeft, inRight⟩ := contains_operation operation
      rcases overruns with here | ⟨-, there⟩
      · exact ⟨x, .left operation first second joins, (ordinary inLeft first).display_overruns_iff.mp here⟩
      · exact ⟨y, .right operation first second joins, (ordinary inRight second).display_overruns_iff.mp there⟩
    | @cut args subject start x y two first second overruns =>
      have inSubject : (Node.call "Substr" args).Contains subject := contains_operand (by simp [operands, two])
      have inStart : (Node.call "Substr" args).Contains start := contains_operand (by simp [operands, two])
      rcases overruns with here | ⟨-, -, notNumber, there⟩
      · exact ⟨x, .cut two first second, (ordinary inSubject first).display_overruns_iff.mp here⟩
      · exact absurd there ((ordinary inStart second).inspect_not_overruns notNumber)
  · intro given
    obtain ⟨v, writes, long⟩ := given
    cases writes with
    | left operation first second joins =>
      exact .joined operation first second joins (.inl ⟨_, long.display⟩)
    | @right _ left right op x _ operation first second joins =>
      have leftOrdinary := ordinary (contains_operation operation).1 first
      refine .joined operation first second joins ?_
      by_cases leftLong : x.IsOverlong
      · exact .inl ⟨_, leftLong.display⟩
      · exact .inr ⟨leftOrdinary.display_isOk leftLong, ⟨_, long.display⟩⟩
    | cut two first second => exact .cut two first second (.inl ⟨_, long.display⟩)

end Reckoner.Node
