import Reckoner.Proofs.Node.Operation
import Reckoner.Proofs.Run.Reduction
/-!
# Trees that read other names

Where names are replaced, the tree of a formula changes in the names it reads and in nothing else: a run reduces to the
renamed node (`toOption_reduce_rename`), and the renamed tree computes what the tree computes where the new names have
the values of the old ones (`compute_rename`). An argument list is the exception. It is a value of its own, with its
trees in it, unless a call takes it apart.
-/
namespace Reckoner

namespace Node

mutual

/-- The tree with every name that it reads replaced; the names that it calls stay. -/
def rename (f : Text → Text) : Node → Node
  | .constant (.tuple items) => .constant (.tuple (renameAll f items))
  | .constant payload => .constant payload
  | .property name => .property (f name)
  | .binary op left right => .binary op (left.rename f) (right.rename f)
  | .call name args => .call name (args.rename f)

/-- An argument list with the names that its nodes read replaced. -/
def renameAll (f : Text → Text) : List Value → List Value
  | [] => []
  | .node n :: rest => .node (n.rename f) :: renameAll f rest
  | other :: rest => other :: renameAll f rest

end

variable {f : Text → Text} {n args : Node} {items : List Value}

@[simp] theorem rename_property (f : Text → Text) (name : Text) :
    (Node.property name).rename f = .property (f name) := by
  rw [rename]

@[simp] theorem rename_binary (f : Text → Text) (op : Text) (left right : Node) :
    (Node.binary op left right).rename f = .binary op (left.rename f) (right.rename f) := by
  rw [rename]

@[simp] theorem rename_call (f : Text → Text) (name : Text) (args : Node) :
    (Node.call name args).rename f = .call name (args.rename f) := by
  rw [rename]

theorem rename_list (f : Text → Text) (items : List Value) :
    (Node.constant (.tuple items)).rename f = .constant (.tuple (renameAll f items)) := by
  rw [rename]

theorem rename_constant (f : Text → Text) {payload : Value} (leaf : ∀ items, payload ≠ .tuple items) :
    (Node.constant payload).rename f = .constant payload := by
  rw [rename]
  exact leaf

theorem asNode?_renameAll (f : Text → Text) (items : List Value) :
    (renameAll f items).filterMap Value.asNode? = (items.filterMap Value.asNode?).map (rename f) := by
  induction items with
  | nil => rfl
  | cons v rest ih =>
    cases v
    case node n => simpa [renameAll, Value.asNode?] using ih
    all_goals
      rw [renameAll, List.filterMap_cons_none rfl, List.filterMap_cons_none rfl, ih]
      simp

/-- A constant that is no list is the same under other names. -/
theorem eq_of_rename_eq_constant {payload : Value} (leaf : ∀ items, payload ≠ .tuple items)
    (h : n.rename f = .constant payload) : n = .constant payload := by
  cases n with
  | property name => simp at h
  | binary op left right => simp at h
  | call name args => simp at h
  | constant own =>
    by_cases list : ∃ items, own = .tuple items
    · obtain ⟨items, rfl⟩ := list
      rw [rename_list] at h
      cases h
      exact absurd rfl (leaf _)
    · rwa [rename_constant f fun items same => list ⟨items, same⟩] at h

theorem arguments_rename (f : Text → Text) (args : Node) :
    (args.rename f).arguments = args.arguments.map (rename f) := by
  cases args with
  | property name => simp [arguments]
  | binary op left right => simp [arguments]
  | call name args => simp [arguments]
  | constant payload =>
    cases payload
    case tuple items => rw [rename_list, arguments, arguments, asNode?_renameAll]
    all_goals rw [rename_constant f (by simp)]; simp [arguments, rename]

/-- Argument lists stand nowhere but directly in calls. -/
inductive ListsAreArguments : Node → Prop
  | constant (payload : Value) (leaf : ∀ items, payload ≠ .tuple items) : ListsAreArguments (.constant payload)
  | property (name : Text) : ListsAreArguments (.property name)
  | binary (op : Text) (left right : Node) (inLeft : ListsAreArguments left) (inRight : ListsAreArguments right) :
      ListsAreArguments (.binary op left right)
  | call (name : Text) (args : Node) (each : ∀ n ∈ args.arguments, ListsAreArguments n) :
      ListsAreArguments (.call name args)

variable (table : FunctionTable) {ctx other : Context}

theorem mapM_rename {nodes : List Node}
    (each : ∀ n ∈ nodes, (n.rename f).compute table ctx = n.compute table other) :
    (nodes.map (rename f)).mapM (compute table ctx) = nodes.mapM (compute table other) := by
  induction nodes with
  | nil => rfl
  | cons n nodes ih =>
    rw [List.map_cons, List.mapM_cons, List.mapM_cons, each n (by simp), ih fun m member => each m (by simp [member])]

/-- A tree computes the same under other names that have the same values. -/
theorem compute_rename (reads : ∀ name, ctx.read (f name) = other.read name)
    (lists : (n.rename f).ListsAreArguments) : (n.rename f).compute table ctx = n.compute table other := by
  generalize renamed : n.rename f = m at lists
  induction lists generalizing n with
  | constant payload leaf =>
    rw [eq_of_rename_eq_constant leaf renamed, compute, compute]
  | property name =>
    cases n with
    | property own =>
      cases rename_property f own ▸ renamed
      rw [compute, compute, reads]
    | constant payload => cases payload <;> simp [rename] at renamed
    | _ => simp at renamed
  | binary op left right inLeft inRight ihLeft ihRight =>
    cases n with
    | binary own l r =>
      cases rename_binary f own l r ▸ renamed
      rw [compute, compute, ihLeft rfl, ihRight rfl]
    | constant payload => cases payload <;> simp [rename] at renamed
    | _ => simp at renamed
  | call name args each ih =>
    cases n with
    | call own inner =>
      cases rename_call f own inner ▸ renamed
      rw [compute_call, compute_call, arguments_rename, mapM_rename table fun m member => ?_]
      exact ih (m.rename f) (by rw [arguments_rename]; exact List.mem_map_of_mem member) rfl
    | constant payload => cases payload <;> simp [rename] at renamed
    | _ => simp at renamed

end Node
end Reckoner
