import Reckoner.Node.Render
import Reckoner.Proofs.Outcome
/-!
# Trees that can be written out

Rendering fails for whole numbers of too many digits and for argument lists with something else than nodes in them.
A tree built from parts that can be written out can be written out itself; this is one case of a property that
operations, calls and argument lists inherit from their parts.
-/
namespace Reckoner.Node

/-- A property of nodes that operations, calls and argument lists have as soon as their parts have it. -/
structure Inherited (P : Node → Prop) : Prop where
  binary : ∀ (op : Operator) (left right : Node), P left → P right → P (.binary op.symbol left right)
  call : ∀ (name : Text) (args : Node), P (.property name) → P args → P (.call name args)
  list : ∀ nodes : List Node, (∀ n ∈ nodes, P n) → P (.constant (.tuple (nodes.map .node)))

@[simp] theorem render_int (n : Int) : (Node.constant (.int n)).render = .ofDigits (Numeral.ofInt? n) := rfl

@[simp] theorem render_float (x : Binary64) : (Node.constant (.float x)).render = .ok (Numeral.ofBinary64 x) := rfl

@[simp] theorem render_text (t : Text) : (Node.constant (.text t)).render = .ok (t.quoted .unicode) := rfl

@[simp] theorem render_property (name : Text) : (Node.property name).render = .ok name := rfl

theorem render_list (items : List Value) :
    (Node.constant (.tuple items)).render = renderAll items >>= fun elements => .ok (bracketed elements) := rfl

theorem render_binary (op : Text) (left right : Node) :
    (Node.binary op left right).render =
      left.render >>= fun l => right.render >>= fun r => .ok ("( " ++ l ++ " " ++ op ++ " " ++ r ++ " )") := rfl

theorem render_call_list (name : Text) (items : List Value) :
    (Node.call name (.constant (.tuple items))).render =
      renderAll items >>= fun elements => .ok ("( " ++ name ++ " " ++ bracketed elements ++ " )") := rfl

theorem renderAll_cons_node (n : Node) (items : List Value) :
    renderAll (.node n :: items) = n.render >>= fun first => renderAll items >>= fun rest => .ok (first :: rest) := rfl

/-- An argument that is written without brackets of its own. -/
def isBare : Node → Bool
  | .property _ => true
  | .constant (.tuple _) => false
  | .constant _ => true
  | _ => false

/-- A bare argument gets brackets from the call. -/
theorem render_call_bare (name : Text) {args : Node} (bare : args.isBare = true) :
    (Node.call name args).render =
      args.render >>= fun argument => .ok ("( " ++ name ++ " ( " ++ argument ++ " ) )") := by
  cases args with
  | property argument => rfl
  | binary op left right => cases bare
  | call inner rest => cases bare
  | constant payload =>
    cases payload
    case tuple items => cases bare
    all_goals rfl

/-- Any other argument brings its brackets along. -/
theorem render_call_enclosed (name : Text) {args : Node} (bare : args.isBare = false) :
    (Node.call name args).render = args.render >>= fun argument => .ok ("( " ++ name ++ " " ++ argument ++ " )") := by
  cases args with
  | property argument => cases bare
  | binary op left right => rfl
  | call inner rest => rfl
  | constant payload =>
    cases payload
    case tuple items =>
      rw [render_call_list, render_list]
      cases renderAll items <;> rfl
    all_goals cases bare

/-- A node that can be written out. -/
def IsWritable (n : Node) : Prop := ∃ t, n.render = .ok t

theorem renderAll_map_node {nodes : List Node} (writable : ∀ n ∈ nodes, n.IsWritable) :
    ∃ texts, renderAll (nodes.map .node) = .ok texts := by
  induction nodes with
  | nil => exact ⟨[], rfl⟩
  | cons n nodes ih =>
    obtain ⟨t, written⟩ := writable n (by simp)
    obtain ⟨others, rest⟩ := ih fun m member => writable m (by simp [member])
    exact ⟨t :: others, by rw [List.map_cons, renderAll_cons_node, written, Outcome.ok_bind, rest]; rfl⟩

theorem isWritable_inherited : Inherited IsWritable where
  binary op left right := by
    rintro ⟨l, left⟩ ⟨r, right⟩
    exact ⟨_, by rw [render_binary, left, right]; rfl⟩
  call name args := by
    rintro - ⟨t, written⟩
    cases bare : args.isBare with
    | true => exact ⟨_, by rw [render_call_bare name bare, written]; rfl⟩
    | false => exact ⟨_, by rw [render_call_enclosed name bare, written]; rfl⟩
  list nodes writable := by
    obtain ⟨texts, written⟩ := renderAll_map_node writable
    exact ⟨bracketed texts, by rw [render_list, written]; rfl⟩

end Reckoner.Node
