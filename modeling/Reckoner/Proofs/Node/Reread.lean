import Reckoner.Value.Equality
import Reckoner.Proofs.Node.Formed
/-!
# What the rendering of a tree reads back as

A rendering is text, and reading it gives a tree again, but not every literal says in its text what it was. A whole
binary64 number is written without a fraction and comes back as a whole number, positive infinity is written by a word
that is a name, and a list of one element loses its list. Nothing is read at all where a minus sign stands before that
word, or where a list is empty. `reread` puts this down as a function on trees.

Only trees without infinities and short lists come back as equal trees, because each of the other changes costs a
constant (`constants_reread`) and equal trees have equally many of them.
-/
namespace Reckoner

/-- The literal a finite number comes back as: whole numbers other than negative zero lose their kind. -/
def Binary64.respelled (x : Binary64) : Value :=
  match x.whole? with
  | some n => if x.isZero && x.isNegative then .float x else .int n
  | none => .float x

namespace Node

/-- What the text of a binary64 literal reads back as. -/
def rereadFloat : Binary64 → Option Node
  | .finite negative m => some (.constant (Binary64.respelled (.finite negative m)))
  | .infinite false => some (.property "inf")
  | .infinite true => none
  | .nan => some (.property "nan")

/-- What the text of a list reads back as, given its elements: a list only if commas stand in it. -/
def ofElements : List Node → Option Node
  | [] => none
  | [n] => some n
  | elements => some (.constant (.tuple (elements.map .node)))

mutual

/-- What the rendering of a tree reads back as; `none` if it cannot be read. -/
def reread : Node → Option Node
  | .constant (.float x) => rereadFloat x
  | .constant (.tuple items) => (rereadAll items).bind ofElements
  | .binary op left right => left.reread.bind fun l => right.reread.map fun r => .binary op l r
  | .call name args => args.reread.map (.call name)
  | other => some other

def rereadAll : List Value → Option (List Node)
  | [] => some []
  | .node n :: rest => n.reread.bind fun m => (rereadAll rest).map (m :: ·)
  | _ :: _ => none

end

mutual

/-- The tree in which every whole binary64 literal other than negative zero is the equal whole number. -/
def respelled : Node → Node
  | .constant (.float x) => .constant x.respelled
  | .constant (.tuple items) => .constant (.tuple (respelledAll items))
  | .binary op left right => .binary op left.respelled right.respelled
  | .call name args => .call name args.respelled
  | other => other

def respelledAll : List Value → List Value
  | [] => []
  | .node n :: rest => .node n.respelled :: respelledAll rest
  | other :: rest => other :: respelledAll rest

end

@[simp] theorem reread_int (n : Int) : (Node.constant (.int n)).reread = some (.constant (.int n)) := rfl

@[simp] theorem reread_text (t : Text) : (Node.constant (.text t)).reread = some (.constant (.text t)) := rfl

@[simp] theorem reread_property (name : Text) : (Node.property name).reread = some (.property name) := rfl

theorem reread_float (x : Binary64) : (Node.constant (.float x)).reread = rereadFloat x := rfl

theorem reread_binary (op : Text) (left right : Node) :
    (Node.binary op left right).reread = left.reread.bind fun l => right.reread.map fun r => .binary op l r := rfl

theorem reread_call (name : Text) (args : Node) : (Node.call name args).reread = args.reread.map (.call name) := rfl

theorem rereadAll_cons_node (n : Node) (items : List Value) :
    rereadAll (.node n :: items) = n.reread.bind fun m => (rereadAll items).map (m :: ·) := rfl

@[simp] theorem respelled_int (n : Int) : (Node.constant (.int n)).respelled = .constant (.int n) := rfl

@[simp] theorem respelled_float (x : Binary64) : (Node.constant (.float x)).respelled = .constant x.respelled := rfl

@[simp] theorem respelled_text (t : Text) : (Node.constant (.text t)).respelled = .constant (.text t) := rfl

@[simp] theorem respelled_property (name : Text) : (Node.property name).respelled = .property name := rfl

@[simp] theorem respelled_binary (op : Text) (left right : Node) :
    (Node.binary op left right).respelled = .binary op left.respelled right.respelled := rfl

@[simp] theorem respelled_call (name : Text) (args : Node) :
    (Node.call name args).respelled = .call name args.respelled := rfl

theorem respelledAll_cons_node (n : Node) (items : List Value) :
    respelledAll (.node n :: items) = .node n.respelled :: respelledAll items := rfl

/-- One tree stands somewhere in another. -/
inductive Contains : Node → Node → Prop where
  | self (n : Node) : Contains n n
  | left (op : Text) (left right n : Node) (inside : Contains left n) : Contains (.binary op left right) n
  | right (op : Text) (left right n : Node) (inside : Contains right n) : Contains (.binary op left right) n
  | args (name : Text) (args n : Node) (inside : Contains args n) : Contains (.call name args) n
  | element (items : List Value) (m n : Node) (member : .node m ∈ items) (inside : Contains m n) :
      Contains (.constant (.tuple items)) n

theorem Contains.trans {a b c : Node} (outer : a.Contains b) (inner : b.Contains c) : a.Contains c := by
  induction outer with
  | self => exact inner
  | left op left right _ _ ih => exact .left op left right _ (ih inner)
  | right op left right _ _ ih => exact .right op left right _ (ih inner)
  | args name args _ _ ih => exact .args name args _ (ih inner)
  | element items m _ member _ ih => exact .element items m _ member (ih inner)

theorem Formed.of_contains {tree u : Node} (formed : tree.Formed) (inside : tree.Contains u) : u.Formed := by
  induction inside with
  | self => exact formed
  | left op left right _ _ ih =>
    cases formed
    exact ih ‹_›
  | right op left right _ _ ih =>
    cases formed
    exact ih ‹_›
  | args name args _ _ ih =>
    cases formed
    exact ih ‹_›
  | element items m _ member _ ih =>
    cases formed with
    | list nodes elements =>
      obtain ⟨n, inNodes, same⟩ := List.mem_map.mp member
      cases same
      exact ih (elements m inNodes)

/-- A list literal of fewer than two elements. -/
def IsShortList (n : Node) : Prop := ∃ items : List Value, n = .constant (.tuple items) ∧ items.length < 2

/-- A literal that is an infinity. -/
def IsInfinite (n : Node) : Prop := ∃ negative : Bool, n = .constant (.float (.infinite negative))

/-- A tree with neither short lists nor infinities in it. -/
def Rereadable (tree : Node) : Prop := ∀ n, tree.Contains n → ¬n.IsShortList ∧ ¬n.IsInfinite

theorem mapM_reread_cons {n : Node} {nodes us : List Node} :
    (n :: nodes).mapM reread = some us ↔ ∃ u others, n.reread = some u ∧ nodes.mapM reread = some others ∧
      us = u :: others := by
  rw [List.mapM_cons]
  cases n.reread with
  | none => simp
  | some u =>
    cases nodes.mapM reread with
    | none => simp
    | some others => simp [eq_comm]

theorem rereadAll_map_node (nodes : List Node) : rereadAll (nodes.map .node) = nodes.mapM reread := by
  induction nodes with
  | nil => rfl
  | cons n nodes ih =>
    rw [List.map_cons, rereadAll_cons_node, ih, List.mapM_cons]
    cases n.reread with
    | none => rfl
    | some m => cases nodes.mapM reread <;> rfl

theorem respelledAll_map_node (nodes : List Node) :
    respelledAll (nodes.map .node) = (nodes.map respelled).map .node := by
  induction nodes with
  | nil => rfl
  | cons n nodes ih => simp only [List.map_cons, respelledAll_cons_node, ih]

@[simp] theorem respelled_list (nodes : List Node) :
    (Node.constant (.tuple (nodes.map .node))).respelled = .constant (.tuple ((nodes.map respelled).map .node)) :=
  congrArg (fun items => Node.constant (.tuple items)) (respelledAll_map_node nodes)

theorem reread_list (nodes : List Node) :
    (Node.constant (.tuple (nodes.map .node))).reread = (nodes.mapM reread).bind ofElements :=
  congrArg (·.bind ofElements) (rereadAll_map_node nodes)

namespace Rereadable

variable {l r n : Node} {op name : Text} {nodes : List Node}

theorem left (h : Rereadable (.binary op l r)) : l.Rereadable := fun n inside => h n (.left op l r n inside)

theorem right (h : Rereadable (.binary op l r)) : r.Rereadable := fun n inside => h n (.right op l r n inside)

theorem args (h : Rereadable (.call name n)) : n.Rereadable := fun m inside => h m (.args name n m inside)

theorem element (h : Rereadable (.constant (.tuple (nodes.map .node)))) (member : n ∈ nodes) : n.Rereadable :=
  fun m inside => h m (.element _ n m (List.mem_map_of_mem member) inside)

theorem two_le (h : Rereadable (.constant (.tuple (nodes.map .node)))) : 2 ≤ nodes.length := by
  by_contra short
  exact (h _ (.self _)).1 ⟨_, rfl, by simpa using short⟩

end Rereadable

theorem Rereadable.of_contains {tree u : Node} (rereadable : tree.Rereadable) (inside : tree.Contains u) :
    u.Rereadable := fun n within => rereadable n (inside.trans within)

theorem rereadable_binary {op : Text} {left right : Node} :
    Rereadable (.binary op left right) ↔ left.Rereadable ∧ right.Rereadable := by
  refine ⟨fun h => ⟨h.left, h.right⟩, ?_⟩
  intro given n inside
  obtain ⟨l, r⟩ := given
  cases inside with
  | self => exact ⟨by simp [IsShortList], by simp [IsInfinite]⟩
  | left _ _ _ _ inside => exact l n inside
  | right _ _ _ _ inside => exact r n inside

theorem rereadable_call {name : Text} {args : Node} : Rereadable (.call name args) ↔ args.Rereadable := by
  refine ⟨fun h => h.args, ?_⟩
  intro h n inside
  cases inside with
  | self => exact ⟨by simp [IsShortList], by simp [IsInfinite]⟩
  | args _ _ _ inside => exact h n inside

theorem rereadable_list {nodes : List Node} :
    Rereadable (.constant (.tuple (nodes.map .node))) ↔ 2 ≤ nodes.length ∧ ∀ n ∈ nodes, n.Rereadable := by
  refine ⟨fun h => ⟨h.two_le, fun n member => h.element member⟩, ?_⟩
  intro given n inside
  obtain ⟨long, elements⟩ := given
  cases inside with
  | self =>
    refine ⟨?_, by simp [IsInfinite]⟩
    intro given
    obtain ⟨items, same, short⟩ := given
    cases same
    rw [List.length_map] at short
    omega
  | element _ m _ member inside =>
    obtain ⟨k, inNodes, same⟩ := List.mem_map.mp member
    cases same
    exact elements m inNodes n inside

/-- The leaves of formulas contain nothing but themselves. -/
theorem rereadable_leaf {n : Node} (alone : ∀ m, n.Contains m → m = n) (notList : ¬n.IsShortList)
    (notInfinite : ¬n.IsInfinite) : n.Rereadable := by
  intro m inside
  rw [alone m inside]
  exact ⟨notList, notInfinite⟩

theorem rereadable_int (n : Int) : Rereadable (.constant (.int n)) := by
  refine rereadable_leaf (fun m inside => ?_) (by simp [IsShortList]) (by simp [IsInfinite])
  cases inside
  rfl

theorem rereadable_text (t : Text) : Rereadable (.constant (.text t)) := by
  refine rereadable_leaf (fun m inside => ?_) (by simp [IsShortList]) (by simp [IsInfinite])
  cases inside
  rfl

theorem rereadable_property (name : Text) : Rereadable (.property name) := by
  refine rereadable_leaf (fun m inside => ?_) (by simp [IsShortList]) (by simp [IsInfinite])
  cases inside
  rfl

theorem rereadable_float {x : Binary64} : Rereadable (.constant (.float x)) ↔ ∀ negative, x ≠ .infinite negative := by
  constructor
  · rintro h negative rfl
    exact (h _ (.self _)).2 ⟨negative, rfl⟩
  · intro finite
    refine rereadable_leaf (fun m inside => ?_) (by simp [IsShortList]) (by simpa [IsInfinite] using finite)
    cases inside
    rfl

theorem mapM_reread_of_forall {nodes : List Node} {next : Node → Node}
    (each : ∀ n ∈ nodes, n.reread = some (next n)) : nodes.mapM reread = some (nodes.map next) := by
  induction nodes with
  | nil => rfl
  | cons n nodes ih =>
    exact mapM_reread_cons.mpr ⟨_, _, each n (by simp), ih fun m member => each m (by simp [member]), rfl⟩

theorem ofElements_of_two_le {nodes : List Node} (long : 2 ≤ nodes.length) :
    ofElements nodes = some (.constant (.tuple (nodes.map .node))) := by
  match nodes, long with
  | n :: m :: others, _ => rfl

/-- Without short lists and infinities only whole numbers change. -/
theorem reread_of_rereadable {tree : Node} (formed : tree.Formed) (rereadable : tree.Rereadable) :
    tree.reread = some tree.respelled := by
  induction formed with
  | int n short => rw [reread_int, respelled_int]
  | text t => rw [reread_text, respelled_text]
  | property name isName => rw [reread_property, respelled_property]
  | float x number =>
    rw [reread_float, respelled_float]
    cases x with
    | nan => exact absurd rfl number
    | infinite negative => exact absurd rfl (rereadable_float.mp rereadable negative)
    | finite negative m => rfl
  | list nodes elements ih =>
    obtain ⟨long, each⟩ := rereadable_list.mp rereadable
    rw [reread_list, mapM_reread_of_forall fun n member => ih n member (each n member), respelled_list]
    exact ofElements_of_two_le (by simpa using long)
  | binary op left right _ _ ihLeft ihRight =>
    rw [reread_binary, ihLeft rereadable.left, ihRight rereadable.right, respelled_binary]
    rfl
  | call name args _ _ ihArgs =>
    rw [reread_call, ihArgs rereadable.args, respelled_call]
    rfl

mutual

/-- How many constants a tree has, lists and their elements included. -/
def constants : Node → Nat
  | .constant (.tuple items) => constantsAll items + 1
  | .constant _ => 1
  | .property _ => 0
  | .binary _ left right => left.constants + right.constants
  | .call _ args => args.constants

def constantsAll : List Value → Nat
  | [] => 0
  | .node n :: rest => n.constants + constantsAll rest
  | _ :: rest => constantsAll rest

end

theorem constants_tuple (items : List Value) : (Node.constant (.tuple items)).constants = constantsAll items + 1 := rfl

theorem constantsAll_cons_node (n : Node) (items : List Value) :
    constantsAll (.node n :: items) = n.constants + constantsAll items := rfl

theorem constantsAll_map_node (nodes : List Node) : constantsAll (nodes.map .node) = (nodes.map constants).sum := by
  induction nodes with
  | nil => rfl
  | cons n nodes ih => simp only [List.map_cons, constantsAll_cons_node, ih, List.sum_cons]

theorem constants_list (nodes : List Node) :
    (Node.constant (.tuple (nodes.map .node))).constants = (nodes.map constants).sum + 1 := by
  rw [constants_tuple, constantsAll_map_node]

theorem constants_leaf {v : Value} (notList : ∀ items, v ≠ .tuple items) : (Node.constant v).constants = 1 := by
  cases v
  case tuple items => exact absurd rfl (notList items)
  all_goals rfl

theorem respelled_ne_tuple (x : Binary64) (items : List Value) : x.respelled ≠ .tuple items := by
  unfold Binary64.respelled
  split
  · split <;> simp
  · simp

/-- What is known of the constants of a tree and of what its rendering reads back as. -/
structure Loses (tree u : Node) : Prop where
  le : u.constants ≤ tree.constants
  lt : ¬tree.Rereadable → u.constants < tree.constants

theorem Loses.refl {tree : Node} (rereadable : tree.Rereadable) : Loses tree tree :=
  ⟨Nat.le_refl _, fun not => absurd rereadable not⟩

/-- The constants lost by several trees together. -/
theorem loses_sum {nodes us : List Node} (each : ∀ n ∈ nodes, ∀ u, n.reread = some u → Loses n u)
    (h : nodes.mapM reread = some us) :
    us.length = nodes.length ∧ (us.map constants).sum ≤ (nodes.map constants).sum ∧
      ((∃ n ∈ nodes, ¬n.Rereadable) → (us.map constants).sum < (nodes.map constants).sum) := by
  induction nodes generalizing us with
  | nil =>
    cases h
    simp
  | cons n nodes ih =>
    obtain ⟨u, others, first, rest, rfl⟩ := mapM_reread_cons.mp h
    have head := each n (by simp) u first
    obtain ⟨length, le, lt⟩ := ih (fun m member => each m (by simp [member])) rest
    simp only [List.map_cons, List.sum_cons, List.length_cons]
    refine ⟨by omega, Nat.add_le_add head.le le, ?_⟩
    intro given
    obtain ⟨m, member, not⟩ := given
    rcases List.mem_cons.mp member with rfl | member
    · exact Nat.add_lt_add_of_lt_of_le (head.lt not) le
    · exact Nat.add_lt_add_of_le_of_lt head.le (lt ⟨m, member, not⟩)

theorem Loses.binary {op : Text} {left right l r : Node} (leftLoses : Loses left l) (rightLoses : Loses right r) :
    Loses (.binary op left right) (.binary op l r) where
  le := Nat.add_le_add leftLoses.le rightLoses.le
  lt not := by
    rw [rereadable_binary, not_and_or] at not
    rcases not with notLeft | notRight
    · exact Nat.add_lt_add_of_lt_of_le (leftLoses.lt notLeft) rightLoses.le
    · exact Nat.add_lt_add_of_le_of_lt leftLoses.le (rightLoses.lt notRight)

theorem Loses.call {name : Text} {args a : Node} (argsLose : Loses args a) : Loses (.call name args) (.call name a) where
  le := argsLose.le
  lt not := argsLose.lt (rereadable_call.not.mp not)

/-- A list of one element loses its list, and a longer one what its elements lose. -/
theorem Loses.list {nodes us : List Node} {u : Node} (each : ∀ n ∈ nodes, ∀ u, n.reread = some u → Loses n u)
    (read : nodes.mapM reread = some us) (gathered : ofElements us = some u) :
    Loses (.constant (.tuple (nodes.map .node))) u := by
  obtain ⟨length, le, lt⟩ := loses_sum each read
  match us, gathered with
  | [v], gathered =>
    cases gathered
    have drops : u.constants < (nodes.map constants).sum + 1 := by
      rw [List.map_singleton, List.sum_singleton] at le
      omega
    exact ⟨by rw [constants_list]; omega, fun _ => by rw [constants_list]; exact drops⟩
  | v :: w :: others, gathered =>
    cases gathered
    rw [List.length_cons, List.length_cons] at length
    refine ⟨?_, fun not => ?_⟩
    · rw [constants_list, constants_list]
      omega
    · have lost : ∃ n ∈ nodes, ¬n.Rereadable := by
        by_contra none
        push Not at none
        exact not (rereadable_list.mpr ⟨by omega, none⟩)
      have fewer := lt lost
      rw [constants_list, constants_list]
      omega

/-- A number is not lost, unless it is an infinity. -/
theorem Loses.float {x : Binary64} {u : Node} (number : x ≠ .nan) (read : rereadFloat x = some u) :
    Loses (.constant (.float x)) u := by
  have one : (Node.constant (.float x)).constants = 1 := constants_leaf (by simp)
  cases x with
  | nan => exact absurd rfl number
  | infinite negative =>
    cases negative with
    | true => cases read
    | false =>
      cases read
      exact ⟨Nat.zero_le _, fun _ => by rw [one]; decide⟩
  | finite negative m =>
    cases read
    refine ⟨?_, fun not => absurd (rereadable_float.mpr (by simp)) not⟩
    rw [one, constants_leaf (respelled_ne_tuple _)]

/-- Reading back gains no constants, and loses some from a tree with a short list or an infinity. -/
theorem constants_reread {tree : Node} (formed : tree.Formed) {u : Node} (h : tree.reread = some u) :
    Loses tree u := by
  induction formed generalizing u with
  | int n short =>
    cases h
    exact .refl (rereadable_int n)
  | text t =>
    cases h
    exact .refl (rereadable_text t)
  | property name isName =>
    cases h
    exact .refl (rereadable_property name)
  | float x number =>
    rw [reread_float] at h
    exact .float number h
  | list nodes elements ih =>
    rw [reread_list] at h
    obtain ⟨us, read, gathered⟩ := Option.bind_eq_some_iff.mp h
    exact .list (fun n member u => ih n member) read gathered
  | binary op left right _ _ ihLeft ihRight =>
    rw [reread_binary] at h
    obtain ⟨l, leftReread, rest⟩ := Option.bind_eq_some_iff.mp h
    obtain ⟨r, rightReread, same⟩ := Option.map_eq_some_iff.mp rest
    cases same
    exact .binary (ihLeft leftReread) (ihRight rightReread)
  | call name args _ _ ihArgs =>
    rw [reread_call] at h
    obtain ⟨a, first, same⟩ := Option.map_eq_some_iff.mp h
    cases same
    exact .call (ihArgs first)

end Node
end Reckoner
