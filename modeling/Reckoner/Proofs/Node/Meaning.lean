import Reckoner.Proofs.Node.Operation
import Reckoner.Proofs.Node.RoundTrip
/-!
# The meaning of a rendering

A tree whose rendering reads back as an equal tree may still mean something else, because whole binary64 literals come
back as whole numbers and whole numbers are calculated without rounding: a formula keeps its meaning exactly when the
respelled tree has an equal outcome. `ComputesExactly` says where this cannot fail: wherever the tree applies an
operator, and both operands come back as whole numbers one of which was binary64, the binary64 result is exact. Then
every tree in it keeps its meaning, and so does its reciprocal. A tree that computes somewhere inexactly has another
value there, or a zero of another sign, which its reciprocal tells (`keeps_iff`).
-/
namespace Reckoner.Node

open FunctionTable (builtin)
open Outcome (Matches)

/-- If the tree applies an operator, then it is exact on the values of its parts. -/
def ExactAt (ctx : Context) (n : Node) : Prop :=
  ∀ op left right, n.operation? = some (op, left, right) → ∀ l' l r' r : Value,
    left.respelled.compute builtin ctx = .ok l' → left.compute builtin ctx = .ok l →
    right.respelled.compute builtin ctx = .ok r' → right.compute builtin ctx = .ok r → op.ExactOn l' l r' r

/-- Every operator in the tree is exact where whole numbers come back for binary64 ones. -/
def ComputesExactly (ctx : Context) (tree : Node) : Prop := ∀ n, tree.Contains n → n.ExactAt ctx

variable {ctx : Context}

/-- The outcome of the tree comes back from the respelled tree. -/
def Returns (ctx : Context) (n : Node) : Prop :=
  Matches Value.Comes (n.respelled.compute builtin ctx) (n.compute builtin ctx)

theorem Returns.comes {n : Node} (returns : n.Returns ctx) {v' v : Value}
    (after : n.respelled.compute builtin ctx = .ok v') (before : n.compute builtin ctx = .ok v) : v'.Comes v := by
  unfold Returns at returns
  rw [after, before] at returns
  cases returns
  assumption

theorem returns_leaf {n : Node} (same : n.respelled = n) : n.Returns ctx := by
  rw [Returns, same]
  exact .refl .same _

theorem returns_operation {n left right : Node} {op : Operator} (formed : n.Formed)
    (h : n.operation? = some (op, left, right)) (exact : n.ExactAt ctx) (leftReturns : left.Returns ctx)
    (rightReturns : right.Returns ctx) : n.Returns ctx := by
  rw [Returns, compute_operation h, compute_operation (operation?_respelled formed h)]
  refine leftReturns.bind fun l' l leftAfter leftBefore leftComes => ?_
  refine rightReturns.bind fun r' r rightAfter rightBefore rightComes => ?_
  exact Operator.apply_comes leftComes rightComes
    (exact op left right h l' l r' r leftAfter leftBefore rightAfter rightBefore)

/-- The values of nodes that come back one by one come back together. -/
theorem returns_all {nodes : List Node} (each : ∀ n ∈ nodes, n.Returns ctx) :
    Matches (List.Forall₂ Value.Comes) ((nodes.map respelled).mapM (compute builtin ctx))
      (nodes.mapM (compute builtin ctx)) := by
  induction nodes with
  | nil => exact .ok _ _ .nil
  | cons n nodes ih =>
    rw [List.map_cons, List.mapM_cons, List.mapM_cons]
    refine (each n (by simp)).bind fun v' v _ _ comes => ?_
    refine (ih fun m member => each m (by simp [member])).bind fun others' others _ _ rest => ?_
    exact .ok _ _ (.cons comes rest)

theorem returns_call {name : Text} {args : Node} (argsFormed : args.Formed) (exact : (Node.call name args).ExactAt ctx)
    (each : ∀ n ∈ args.arguments, n.Returns ctx) : (Node.call name args).Returns ctx := by
  rw [Returns, respelled_call, compute_call, compute_call, arguments_respelled argsFormed]
  refine (returns_all each).bind fun values' values after before comes => ?_
  refine FunctionTable.call_comes comes ?_
  rintro op l' l r' r stands rfl rfl
  obtain ⟨left, rest, leftBefore, more, two⟩ := List.forall₂_cons_right_iff.mp (Outcome.mapM_eq_ok.mp before)
  obtain ⟨right, none, rightBefore, nothing, last⟩ := List.forall₂_cons_right_iff.mp more
  cases List.forall₂_nil_right_iff.mp nothing
  subst last
  rw [two] at after
  obtain ⟨leftAfter, moreAfter⟩ := List.forall₂_cons.mp (Outcome.mapM_eq_ok.mp after)
  obtain ⟨rightAfter, -⟩ := List.forall₂_cons.mp moreAfter
  have operation : (Node.call name args).operation? = some (op, left, right) := by
    rw [operation?]
    simp only [stands, two]
  exact exact op left right operation l' l r' r leftAfter leftBefore rightAfter rightBefore

theorem computesExactly_leaf {tree : Node} (alone : ∀ u, tree.Contains u → u = tree) (none : tree.operation? = none) :
    tree.ComputesExactly ctx := by
  intro u inside op left right h
  rw [alone u inside, none] at h
  cases h

theorem computesExactly_list {nodes : List Node} :
    (Node.constant (.tuple (nodes.map .node))).ComputesExactly ctx ↔ ∀ n ∈ nodes, n.ComputesExactly ctx := by
  constructor
  · intro exact n member u inside
    exact exact u (.element _ n u (List.mem_map_of_mem member) inside)
  · intro each u inside
    cases inside with
    | self => rintro op left right ⟨⟩
    | element _ m _ member within =>
      obtain ⟨n, inNodes, same⟩ := List.mem_map.mp member
      cases same
      exact each m inNodes u within

theorem computesExactly_binary {op : Text} {left right : Node} :
    (Node.binary op left right).ComputesExactly ctx ↔
      (Node.binary op left right).ExactAt ctx ∧ left.ComputesExactly ctx ∧ right.ComputesExactly ctx := by
  constructor
  · intro exact
    exact ⟨exact _ (.self _), fun u inside => exact u (.left op left right u inside),
      fun u inside => exact u (.right op left right u inside)⟩
  · intro given u inside
    obtain ⟨exactHere, leftExact, rightExact⟩ := given
    cases inside with
    | self => exact exactHere
    | left _ _ _ _ within => exact leftExact u within
    | right _ _ _ _ within => exact rightExact u within

theorem computesExactly_call {name : Text} {args : Node} :
    (Node.call name args).ComputesExactly ctx ↔ (Node.call name args).ExactAt ctx ∧ args.ComputesExactly ctx := by
  constructor
  · intro exact
    exact ⟨exact _ (.self _), fun u inside => exact u (.args name args u inside)⟩
  · intro given u inside
    obtain ⟨exactHere, argsExact⟩ := given
    cases inside with
    | self => exact exactHere
    | args _ _ _ within => exact argsExact u within

/-- Where every operator is exact, every tree comes back with its value. -/
theorem returns_of_computesExactly {tree u : Node} (formed : tree.Formed) (exact : tree.ComputesExactly ctx)
    (inside : tree.Contains u) : u.Returns ctx := by
  induction formed generalizing u with
  | int n short =>
    cases inside
    exact returns_leaf (by simp)
  | text t =>
    cases inside
    exact returns_leaf (by simp)
  | property name isName =>
    cases inside
    exact returns_leaf (by simp)
  | float x number =>
    cases inside
    rcases x.respelled_cases with same | ⟨n, whole, spells⟩
    · exact returns_leaf (by rw [respelled_float, same])
    · rw [Returns, respelled_float, whole, compute, compute]
      exact .ok _ _ (.whole x n spells)
  | list nodes elements ih =>
    cases inside with
    | self =>
      rw [Returns, respelled_list, compute, compute]
      exact .ok _ _ (.list nodes elements)
    | element _ m _ member within =>
      obtain ⟨n, inNodes, same⟩ := List.mem_map.mp member
      cases same
      exact ih m inNodes (computesExactly_list.mp exact m inNodes) within
  | binary op left right leftFormed rightFormed ihLeft ihRight =>
    obtain ⟨exactHere, leftExact, rightExact⟩ := computesExactly_binary.mp exact
    cases inside with
    | self =>
      exact returns_operation (.binary op left right leftFormed rightFormed) (operation?_binary op left right)
        exactHere (ihLeft leftExact (.self left)) (ihRight rightExact (.self right))
    | left _ _ _ _ within => exact ihLeft leftExact within
    | right _ _ _ _ within => exact ihRight rightExact within
  | call name args isName argsFormed ih =>
    obtain ⟨exactHere, argsExact⟩ := computesExactly_call.mp exact
    cases inside with
    | self =>
      exact returns_call argsFormed exactHere fun n member => ih argsExact (contains_argument member)
    | args _ _ _ within => exact ih argsExact within

/-- The outcomes of a tree and of the respelled tree agree, and so do those of their reciprocals. -/
structure Agrees (ctx : Context) (n : Node) : Prop where
  outcome : Matches Value.Agrees (n.respelled.compute builtin ctx) (n.compute builtin ctx)
  reciprocal : Matches Value.Agrees (n.respelled.compute builtin ctx >>= Operator.over.apply (.int 1))
    (n.compute builtin ctx >>= Operator.over.apply (.int 1))

/-- An operation that agrees is exact, if its parts come back. -/
theorem exactAt_of_agrees {n : Node} (formed : n.Formed) (agrees : n.Agrees ctx)
    (parts : ∀ op left right, n.operation? = some (op, left, right) → left.Returns ctx ∧ right.Returns ctx) :
    n.ExactAt ctx := by
  intro op left right h l' l r' r leftAfter leftBefore rightAfter rightBefore
  obtain ⟨leftReturns, rightReturns⟩ := parts op left right h
  have before : n.compute builtin ctx = op.apply l r := by
    rw [compute_operation h, leftBefore, Outcome.ok_bind, rightBefore, Outcome.ok_bind]
  have after : n.respelled.compute builtin ctx = op.apply l' r' := by
    rw [compute_operation (operation?_respelled formed h), leftAfter, Outcome.ok_bind, rightAfter, Outcome.ok_bind]
  obtain ⟨outcome, reciprocal⟩ := agrees
  rw [before, after] at outcome reciprocal
  exact Operator.exactOn_of_agrees (leftReturns.comes leftAfter leftBefore) (rightReturns.comes rightAfter rightBefore)
    outcome reciprocal

theorem agrees_of_returns {n : Node} (returns : n.Returns ctx) : n.Agrees ctx where
  outcome := returns.imp fun _ _ comes => comes.agrees
  reciprocal := by
    refine returns.bind fun v' v _ _ comes => ?_
    have again := Operator.apply_comes (.same (.int 1)) comes (Operator.exactOn_reciprocal comes)
    exact again.imp fun _ _ quotients => quotients.agrees

/-- A tree in which every tree agrees computes exactly. -/
theorem computesExactly_of_agrees {tree : Node} (formed : tree.Formed)
    (agree : ∀ u, tree.Contains u → u.Agrees ctx) : tree.ComputesExactly ctx := by
  induction formed with
  | int n short =>
    refine computesExactly_leaf (fun u inside => ?_) rfl
    cases inside
    rfl
  | text t =>
    refine computesExactly_leaf (fun u inside => ?_) rfl
    cases inside
    rfl
  | property name isName =>
    refine computesExactly_leaf (fun u inside => ?_) rfl
    cases inside
    rfl
  | float x number =>
    refine computesExactly_leaf (fun u inside => ?_) rfl
    cases inside
    rfl
  | list nodes elements ih =>
    refine computesExactly_list.mpr fun n member => ih n member fun k deeper => ?_
    exact agree k (.element _ n k (List.mem_map_of_mem member) deeper)
  | binary op left right leftFormed rightFormed ihLeft ihRight =>
    have leftExact := ihLeft fun k within => agree k (.left op.symbol left right k within)
    have rightExact := ihRight fun k within => agree k (.right op.symbol left right k within)
    refine computesExactly_binary.mpr ⟨?_, leftExact, rightExact⟩
    refine exactAt_of_agrees (.binary op left right leftFormed rightFormed) (agree _ (.self _)) fun other l r h => ?_
    rw [operation?_binary] at h
    cases h
    exact ⟨returns_of_computesExactly leftFormed leftExact (.self left),
      returns_of_computesExactly rightFormed rightExact (.self right)⟩
  | call name args isName argsFormed ih =>
    have argsExact := ih fun k within => agree k (.args name args k within)
    refine computesExactly_call.mpr ⟨?_, argsExact⟩
    refine exactAt_of_agrees (.call name args isName argsFormed) (agree _ (.self _)) fun op left right h => ?_
    obtain ⟨-, two⟩ := operation?_call h
    have returns (n : Node) (member : n ∈ args.arguments) : n.Returns ctx :=
      returns_of_computesExactly argsFormed argsExact (contains_argument member)
    exact ⟨returns left (by rw [two]; simp), returns right (by rw [two]; simp)⟩

/-- The rendering of the tree reads back as a tree whose outcome is an equal value or a fault of the same kind. -/
def Keeps (ctx : Context) (tree : Node) : Prop :=
  ∃ r u, tree.render = .ok r ∧ parse r = .ok u ∧
    Matches Value.Agrees (u.compute builtin ctx) (tree.compute builtin ctx)

theorem keeps_iff_matches {tree : Node} (formed : tree.Formed) (rereadable : tree.Rereadable) :
    tree.Keeps ctx ↔ Matches Value.Agrees (tree.respelled.compute builtin ctx) (tree.compute builtin ctx) := by
  obtain ⟨r, rendered, reads⟩ := parse_render formed
  rw [reread_of_rereadable formed rereadable, Outcome.toOption_eq_some] at reads
  constructor
  · intro given
    obtain ⟨r', u, rendered', read, agree⟩ := given
    rw [rendered] at rendered'
    cases rendered'
    rw [reads] at read
    cases read
    exact agree
  · intro agree
    exact ⟨r, tree.respelled, rendered, reads, agree⟩

/-- One divided by the tree. -/
def reciprocal (n : Node) : Node := .binary Operator.over.symbol (.constant (.int 1)) n

theorem compute_reciprocal (n : Node) :
    n.reciprocal.compute builtin ctx = n.compute builtin ctx >>= Operator.over.apply (.int 1) := by
  rw [reciprocal, compute_operation (operation?_binary _ _ _), compute]
  rfl

theorem respelled_reciprocal (n : Node) : n.reciprocal.respelled = n.respelled.reciprocal := by
  rw [reciprocal, respelled_binary, respelled_int, reciprocal]

theorem formed_reciprocal {n : Node} (formed : n.Formed) : n.reciprocal.Formed := by
  have short : Numeral.IsShort 1 := Nat.lt_of_lt_of_le (by decide : 1 < 10) (Nat.le_self_pow (by decide) 10)
  exact .binary .over (.constant (.int 1)) n (.int 1 short) formed

/-- A tree and its reciprocal keep their meaning exactly when the outcomes agree. -/
theorem keeps_iff_agrees {n : Node} (formed : n.Formed) (rereadable : n.Rereadable) :
    n.Keeps ctx ∧ n.reciprocal.Keeps ctx ↔ n.Agrees ctx := by
  have rereadableAlso : n.reciprocal.Rereadable := rereadable_binary.mpr ⟨rereadable_int 1, rereadable⟩
  rw [keeps_iff_matches formed rereadable, keeps_iff_matches (formed_reciprocal formed) rereadableAlso,
    respelled_reciprocal, compute_reciprocal, compute_reciprocal]
  exact ⟨fun ⟨outcome, reciprocal⟩ => ⟨outcome, reciprocal⟩, fun ⟨outcome, reciprocal⟩ => ⟨outcome, reciprocal⟩⟩

/-- A formula keeps its meaning when it is written out and read back exactly when the respelled tree has the same
outcome. All trees in it do, together with their reciprocals, exactly when the tree computes exactly. -/
theorem keeps_iff {s : Text} {tree : Node} (parsed : parse s = .ok tree) (rereadable : tree.Rereadable)
    (ctx : Context) :
    (tree.Keeps ctx ↔ Matches Value.Agrees (tree.respelled.compute builtin ctx) (tree.compute builtin ctx)) ∧
      ((∀ u, tree.Contains u → u.Keeps ctx ∧ u.reciprocal.Keeps ctx) ↔ tree.ComputesExactly ctx) := by
  have formed := parse_formed parsed
  refine ⟨keeps_iff_matches formed rereadable, ?_⟩
  have each : ∀ u, tree.Contains u → (u.Keeps ctx ∧ u.reciprocal.Keeps ctx ↔ u.Agrees ctx) := fun u inside =>
    keeps_iff_agrees (formed.of_contains inside) (rereadable.of_contains inside)
  constructor
  · intro keeps
    exact computesExactly_of_agrees formed fun u inside => (each u inside).mp (keeps u inside)
  · intro exact u inside
    exact (each u inside).mpr (agrees_of_returns (returns_of_computesExactly formed exact inside))

/-- The product of two and three is exact. -/
theorem keeps_iff_product :
    ∃ tree, parse "2.0 * 3" = .ok tree ∧ tree.Rereadable ∧
      ∀ u, tree.Contains u → u.Keeps [] ∧ u.reciprocal.Keeps [] := by
  have parsed : parse "2.0 * 3" =
      .ok (.binary Operator.times.symbol (.constant (.float (.ofInt 2))) (.constant (.int 3))) :=
    parse_eq_of_reads (by decide +kernel)
  have rereadable : Rereadable (.binary Operator.times.symbol (.constant (.float (.ofInt 2))) (.constant (.int 3))) :=
    rereadable_binary.mpr ⟨rereadable_float.mpr (by decide +kernel), rereadable_int 3⟩
  refine ⟨_, parsed, rereadable, (keeps_iff parsed rereadable []).2.mpr ?_⟩
  refine computesExactly_binary.mpr ⟨?_, computesExactly_leaf (fun u inside => ?_) rfl,
    computesExactly_leaf (fun u inside => ?_) rfl⟩
  · intro op left right h l' l r' r leftAfter leftBefore rightAfter rightBefore m n leftWhole rightWhole
    rw [operation?_binary] at h
    cases h
    have two : Binary64.SpellsInt (.ofInt 2) 2 := by decide +kernel
    rw [respelled_float, two.respelled, compute] at leftAfter
    rw [respelled_int, compute] at rightAfter
    cases leftAfter
    cases leftWhole
    cases rightAfter
    cases rightWhole
    exact .inr (by decide +kernel)
  · cases inside
    rfl
  · cases inside
    rfl

/-- The sum of `2^53` and one is rounded in the formula and is not rounded in its rendering. -/
theorem not_keeps_sum :
    ∃ tree, parse "9007199254740992.0 + 1" = .ok tree ∧ tree.Rereadable ∧ ¬tree.Keeps [] := by
  have parsed : parse "9007199254740992.0 + 1" =
      .ok (.binary Operator.plus.symbol (.constant (.float (.ofInt 9007199254740992))) (.constant (.int 1))) :=
    parse_eq_of_reads (by decide +kernel)
  have rereadable : Rereadable (.binary Operator.plus.symbol (.constant (.float (.ofInt 9007199254740992)))
      (.constant (.int 1))) := rereadable_binary.mpr ⟨rereadable_float.mpr (by decide +kernel), rereadable_int 1⟩
  refine ⟨_, parsed, rereadable, ?_⟩
  rw [keeps_iff_matches (parse_formed parsed) rereadable]
  have spells : Binary64.SpellsInt (.ofInt 9007199254740992) 9007199254740992 := by decide +kernel
  have rounded : Operator.plus.calculate (.float (.ofInt 9007199254740992)) (.int 1) =
      .float (.ofInt 9007199254740992) := by decide +kernel
  have before : (Node.binary Operator.plus.symbol (.constant (.float (.ofInt 9007199254740992)))
      (.constant (.int 1))).compute builtin [] = .ok (.float (.ofInt 9007199254740992)) := by
    rw [compute_operation (operation?_binary _ _ _), compute, compute, Outcome.ok_bind, Outcome.ok_bind,
      Operator.apply_numbers rfl rfl, rounded]
    rfl
  have after : (Node.binary Operator.plus.symbol (.constant (.float (.ofInt 9007199254740992)))
      (.constant (.int 1))).respelled.compute builtin [] = .ok (.int 9007199254740993) := by
    rw [respelled_binary, respelled_float, respelled_int, spells.respelled,
      compute_operation (operation?_binary _ _ _), compute, compute, Outcome.ok_bind, Outcome.ok_bind,
      Operator.apply_numbers rfl rfl]
    rfl
  rw [before, after]
  intro agree
  cases agree with
  | ok _ _ related =>
    rcases related with same | equal
    · cases same
    · revert equal
      decide +kernel

end Reckoner.Node
