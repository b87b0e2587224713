import Reckoner.Proofs.Bracket.OuterComma
import Reckoner.Proofs.Node.Grouping
import Reckoner.Proofs.Node.Operation
import Reckoner.Proofs.Run.Separated
/-!
# Calls and their arguments

A call receives just the trees of its argument texts, in their order, whatever these are: texts with a comma between
them are read each by itself (`parse_join`), for neither a sign nor an operator nor a bracket reaches across a comma
outside all brackets. So a call is carried out on the values of its arguments (`parse_application`), and a call of one
of the two functions that are operators under a name is the operation itself.
-/
namespace Reckoner

namespace Bracket

open TokenKind (outerComma)

/-- The items list some trees: the run that they leave is folded to these trees, with commas between them. -/
def Lists (items : List Item) (trees : List Node) : Prop :=
  ∃ added out, Leaves items (.ok added) ∧ Run.foldAll Operator.foldOrder added.reverse = .ok out ∧
    Run.Enumerates trees out

variable {P : Node → Prop} {items more : List Item} {trees : List Node} {t : Token}

theorem lastName_behind_token (items more : List Item) (t : Token) :
    lastName (items ++ .token t :: more) = lastName more := by
  cases more with
  | nil => exact lastName_concat items (.token t)
  | cons item more => simp [lastName, List.getLast?_append, List.getLast?_cons]

/-- Items with a comma between them leave their runs with the comma between them. -/
theorem Leaves.separated {added others : List Item} (first : Leaves items (.ok added)) (kind : t.kind = .comma)
    (later : Leaves more (.ok others)) : Leaves (items ++ .token t :: more) (.ok (others ++ .token t :: added)) := by
  intro p unnamed
  rw [Progress.read_append, first p unnamed, Outcome.ok_bind, Outcome.ok_bind, read_operator _ (.inr kind),
    later _ rfl, Outcome.ok_bind, Outcome.ok_bind, lastName_behind_token]
  simp

theorem Lists.separated {n : Node} (first : Lists items [n]) (kind : t.kind = .comma) (text : t.text = [.scalar ','])
    (later : Lists more trees) : Lists (items ++ .token t :: more) (n :: trees) := by
  obtain ⟨added, out, leaves, folds, one⟩ := first
  obtain ⟨others, rest, leavesLater, foldsLater, enumerates⟩ := later
  obtain rfl := one.eq_of_one
  refine ⟨_, _, leaves.separated kind leavesLater, ?_, enumerates.more n t kind⟩
  have run : (others ++ .token t :: added).reverse = added.reverse ++ .token t :: others.reverse := by simp
  rw [run, Run.foldAll_separated text folds foldsLater]
  rfl

/-- Items with a tree and without a comma outside all brackets list this one tree. -/
theorem lists_of_resolve (inherited : Node.Inherited P) (writable : ∀ n, P n → n.IsWritable)
    (clean : ∀ item ∈ items, item.IsClean P) {tree : Node} (h : resolve items = .ok tree)
    (noComma : outerComma 0 (items.map Item.kind) = false) : Lists items [tree] := by
  obtain ⟨q, read, -, segment, reduced⟩ := resolve_eq_ok inherited writable clean h
  obtain ⟨outcome, leaves, -⟩ := segment.balanced.leaves
  rw [leaves Progress.start rfl] at read
  obtain ⟨added, rfl, same⟩ := Outcome.bind_eq_ok.mp read
  cases same
  simp only [Progress.start, List.append_nil] at segment reduced
  have noneLeft : added.reverse.any Run.isComma = false := by
    have marks := outerComma_balanced segment.balanced 0 []
    rw [List.append_nil, noComma] at marks
    rw [← Bool.not_eq_true, ← Run.comma_mem_marks_iff]
    rw [eq_comm, Bool.or_eq_false_iff] at marks
    simpa using marks.1
  have flat : ∀ item ∈ added.reverse, item.IsFlat := fun item member => segment.flat item (by simpa using member)
  exact ⟨added, _, leaves, Run.foldAll_of_reduce flat noneLeft reduced, .one tree⟩

theorem Lists.resolve (lists : Lists items trees) : resolve items = .ok (Node.ofArguments trees) := by
  obtain ⟨added, out, leaves, folds, enumerates⟩ := lists
  rw [resolve_eq_read, leaves Progress.start rfl, Outcome.ok_bind, Outcome.ok_bind]
  simp only [Progress.finish, Progress.start, List.append_nil]
  rw [Run.reduce_eq_foldAll, folds, Outcome.ok_bind, Run.close_enumerates enumerates]

end Bracket

/-- The text lists some trees, wherever it stands. -/
def Text.Lists (s : Text) (trees : List Node) : Prop :=
  ∀ offset, ∃ raw, (Token.scanFrom offset s).mapM Literal.classify = .ok raw ∧
    Bracket.Lists (Item.foldSigns raw) trees

namespace Text

variable {s t : Text} {n : Node} {trees : List Node}

theorem lists_of_parse (h : Node.parse s = .ok n) (noComma : s.hasOuterComma = false) : s.Lists [n] := by
  obtain ⟨items, read, resolved⟩ := Outcome.bind_eq_ok.mp h
  have clean := Item.ofText_clean read
  intro offset
  obtain ⟨raw, classified, same⟩ := Item.ofText_placed read offset
  refine ⟨raw, classified, ?_⟩
  exact Bracket.lists_of_resolve Node.formed_inherited (fun _ => Node.Formed.isWritable)
    (Item.clean_of_unplaced same clean)
    (Bracket.resolve_of_unplaced Node.formed_inherited (fun _ => Node.Formed.isWritable) same clean resolved)
    ((Item.outerComma_foldSigns classified).trans noComma)

/-- Behind a comma a text is read as at its start. -/
theorem Lists.separated (first : s.Lists [n]) (later : t.Lists trees) : (s ++ ", " ++ t).Lists (n :: trees) := by
  intro offset
  obtain ⟨raw, classified, lists⟩ := first offset
  obtain ⟨others, classifiedLater, listsLater⟩ := later (offset + s.length + 2)
  have known := Literal.known_of_mapM classified
  let comma : Token := ⟨.comma, [.scalar ','], some (offset + s.length : Nat)⟩
  have text : (s ++ ", " ++ t : Text) = s ++ .scalar ',' :: .scalar ' ' :: t := by simp [Text.ofString]
  have isComma : ∀ rest, Token.lexeme (.scalar ',') rest = (.comma, 0) := fun _ => rfl
  have scanned : Token.scanFrom offset (s ++ ", " ++ t) =
      Token.scanFrom offset s ++ comma :: Token.scanFrom (offset + s.length + 2) t := by
    rw [text, Token.scanFrom_append known (.of_head _ (by decide) (by decide)),
      Token.scanFrom_single _ (by decide) isComma, Token.scanFrom_blank]
  refine ⟨raw ++ .token comma :: others, ?_, ?_⟩
  · rw [scanned, List.mapM_append, classified, List.mapM_cons, classifiedLater]
    rfl
  · have notNumber : (Item.token comma).negated? = none := rfl
    obtain ⟨after, split⟩ := Item.foldSignsFrom_append notNumber true raw others
    have plain : (after && (Item.token comma).isSymbol .minus) = false := by cases after <;> rfl
    rw [Item.foldSigns, split, Item.foldSignsFrom_plain plain]
    exact lists.separated rfl rfl listsLater

theorem lists_join {texts : List Text} (nonempty : texts ≠ [])
    (each : List.Forall₂ (fun a n => Node.parse a = .ok n) texts trees)
    (noComma : ∀ a ∈ texts, a.hasOuterComma = false) : (join ", " texts).Lists trees := by
  induction each with
  | nil => exact absurd rfl nonempty
  | @cons a n texts trees first rest ih =>
    have here := lists_of_parse first (noComma a (by simp))
    cases rest with
    | nil => exact here
    | cons second others => exact here.separated (ih (by simp) fun b member => noComma b (by simp [member]))

theorem Lists.parse (lists : s.Lists trees) : Node.parse s = .ok (Node.ofArguments trees) := by
  obtain ⟨raw, classified, listed⟩ := lists 0
  have read : Item.ofText s = .ok (Item.foldSigns raw) := by
    rw [Item.ofText, Token.scan, classified]
    rfl
  rw [Node.parse_of_ofText read, listed.resolve]

end Text

namespace Node

open FunctionTable (builtin operator?)

variable {s t f : Text} {texts : List Text} {left right tree : Node} {trees : List Node}

/-- A name directly before a text inside brackets calls the tree of this text. -/
theorem parse_call (isName : f.IsName) (h : parse s = .ok tree) :
    parse (f ++ "(" ++ s ++ ")") = .ok (.call f tree) := by
  have apart : ∀ rest, Token.Apart (("(" ++ s ++ ")" : Text) ++ rest) := fun rest => .of_head _ (by decide) (by decide)
  have spells := Item.Spells.behind_name true isName apart (Item.Spells.enclosed false h)
  obtain ⟨items, read, pair, rfl, push⟩ := Item.ofText_of_spells spells
  have text : (f ++ "(" ++ s ++ ")" : Text) = f ++ ("(" ++ s ++ ")" : Text) := by simp
  rw [text, parse_of_ofText read, Bracket.resolve_eq_read, Bracket.Progress.read_cons,
    Bracket.Progress.step_plain _ _ rfl rfl, Outcome.ok_bind, push, Outcome.ok_bind]
  exact Run.reduce_node (.call f tree)

/-- An operator between two texts inside brackets. -/
theorem parse_operation (op : Operator) (first : parse s = .ok left) (second : parse t = .ok right) :
    parse ("(" ++ s ++ ") " ++ op.symbol ++ " (" ++ t ++ ")") = .ok (.binary op.symbol left right) := by
  have text : ("(" ++ s ++ ") " ++ op.symbol ++ " (" ++ t ++ ")" : Text) =
      ("(" ++ s ++ ")" : Text) ++ .scalar ' ' :: (op.symbol ++ .scalar ' ' :: ("(" ++ t ++ ")" : Text)) := by
    simp [Text.ofString]
  have spells := (Item.Spells.enclosed true first).append
    ((Item.Spells.operator op).append (Item.Spells.enclosed true second))
  obtain ⟨items, read, group, _, rfl, pushLeft, _, other, rfl, ⟨sign, rfl, kind, symbol⟩, pushRight⟩ :=
    Item.ofText_of_spells spells
  rw [text, parse_of_ofText read, Bracket.resolve_eq_read, Bracket.Progress.read_append, pushLeft, Outcome.ok_bind,
    List.singleton_append, Bracket.read_operator _ (.inl kind), pushRight, Outcome.ok_bind]
  exact Run.reduce_operation left right symbol

/-- An argument list. -/
def IsList (n : Node) : Prop := ∃ items, n = .constant (.tuple items)

theorem arguments_of_not_isList {n : Node} (notList : ¬n.IsList) : n.arguments = [n] := by
  unfold arguments
  split
  next items => exact absurd ⟨items, rfl⟩ notList
  next => rfl

theorem arguments_ofArguments (single : ∀ n, trees = [n] → ¬n.IsList) : (ofArguments trees).arguments = trees := by
  unfold ofArguments
  split
  next n => exact arguments_of_not_isList (single n rfl)
  next => exact arguments_list trees

/-- What a call of a function on some trees comes to. -/
structure Applies (table : FunctionTable) (ctx : Context) (f : Text) (trees : List Node) (outcome : Outcome Value) :
    Prop where
  /-- The trees are worked out in their order, and the first one that fails ends the call. -/
  fault : ∀ before n after e, trees = before ++ n :: after → (∀ m ∈ before, ∃ v, m.compute table ctx = .ok v) →
    n.compute table ctx = .error e → outcome = .error e
  /-- Then the name has to be in the table. -/
  undefined : ∀ values, List.Forall₂ (fun n v => n.compute table ctx = .ok v) trees values →
    f ∉ table.map FunctionEntry.name → outcome = .fail (.undefinedFunction f)
  /-- The function has to take as many arguments. -/
  arity : ∀ values entry, List.Forall₂ (fun n v => n.compute table ctx = .ok v) trees values →
    table.find f = .ok entry → entry.arity ≠ trees.length →
      outcome = .fail (.arityMismatch f entry.arity trees.length)
  /-- It is carried out on just the values of the trees. -/
  applied : ∀ values entry, List.Forall₂ (fun n v => n.compute table ctx = .ok v) trees values →
    table.find f = .ok entry → entry.arity = trees.length → outcome = entry.body values

theorem applies_call (table : FunctionTable) (ctx : Context) (f : Text) (trees : List Node) :
    Applies table ctx f trees (trees.mapM (compute table ctx) >>= table.call f) where
  fault before n after e split done failed := by
    rw [Outcome.mapM_eq_error.mpr ⟨before, n, after, split, done, failed⟩]
    rfl
  undefined values worked absent := by
    have missing : table.find f = .fail (.undefinedFunction f) := by
      rw [FunctionTable.find, List.find?_eq_none.mpr]
      intro entry member named
      exact absent (List.mem_map.mpr ⟨entry, member, by simpa using named⟩)
    rw [Outcome.mapM_eq_ok.mpr worked, Outcome.ok_bind, FunctionTable.call, missing]
    rfl
  arity values entry worked found wrong := by
    rw [Outcome.mapM_eq_ok.mpr worked, Outcome.ok_bind, FunctionTable.call, found, Outcome.ok_bind,
      ← worked.length_eq, if_neg wrong]
  applied values entry worked found right := by
    rw [Outcome.mapM_eq_ok.mpr worked, Outcome.ok_bind, FunctionTable.call, found, Outcome.ok_bind,
      ← worked.length_eq, if_pos right]

/-- A call on two trees of the function that stands for an operator is the operation. -/
theorem compute_call_operator {op : Operator} (stands : operator? f = some op) (left right : Node) (ctx : Context) :
    (Node.call f (ofArguments [left, right])).compute builtin ctx =
      (Node.binary op.symbol left right).compute builtin ctx := by
  have arguments : (ofArguments [left, right]).arguments = [left, right] := arguments_list [left, right]
  have operation : (Node.call f (ofArguments [left, right])).operation? = some (op, left, right) := by
    rw [operation?]
    simp only [stands, arguments]
  rw [compute_operation operation, compute_operation (operation?_binary op left right)]

/-- A call written with argument texts, none of which has a comma outside brackets, applies the function to their
trees, and the functions that stand for a sum and a difference give what these give. -/
theorem parse_application (isName : f.IsName) (nonempty : texts ≠ [])
    (each : List.Forall₂ (fun a n => parse a = .ok n) texts trees) (noComma : ∀ a ∈ texts, a.hasOuterComma = false)
    (single : ∀ n, trees = [n] → ¬n.IsList) :
    ∃ tree, parse (f ++ "(" ++ Text.join ", " texts ++ ")") = .ok tree ∧
      (∀ table ctx, Applies table ctx f trees (tree.compute table ctx)) ∧
      ∀ a b op, texts = [a, b] → f = "Add" ∧ op = Operator.plus ∨ f = "Sub" ∧ op = Operator.minus →
        ∃ operation, parse ("(" ++ a ++ ") " ++ op.symbol ++ " (" ++ b ++ ")") = .ok operation ∧
          ∀ ctx, tree.compute builtin ctx = operation.compute builtin ctx := by
  refine ⟨_, parse_call isName (Text.lists_join nonempty each noComma).parse, fun table ctx => ?_, ?_⟩
  · rw [compute_call, arguments_ofArguments single]
    exact applies_call table ctx f trees
  · rintro a b op rfl named
    obtain ⟨left, others, first, rest, rfl⟩ := List.forall₂_cons_left_iff.mp each
    obtain ⟨right, none, second, nothing, rfl⟩ := List.forall₂_cons_left_iff.mp rest
    cases List.forall₂_nil_left_iff.mp nothing
    have stands : operator? f = some op := by
      rcases named with ⟨rfl, rfl⟩ | ⟨rfl, rfl⟩ <;> rfl
    exact ⟨_, parse_operation op first second, compute_call_operator stands left right⟩

/-- A sum of a signed number and a list, with a comma in a text and one inside brackets. -/
theorem parse_application_sum :
    Text.IsName "Add" ∧ (["-1", "(x, ',')"] : List Text) ≠ [] ∧
      List.Forall₂ (fun a n => parse a = .ok n) ["-1", "(x, ',')"]
        [.constant (.int (-1)), .constant (.tuple ([.property "x", .constant (.text ",")].map .node))] ∧
      (∀ a ∈ (["-1", "(x, ',')"] : List Text), a.hasOuterComma = false) ∧
      ∃ tree, parse ("Add" ++ "(" ++ Text.join ", " ["-1", "(x, ',')"] ++ ")") = .ok tree ∧
        (∀ table ctx, Applies table ctx "Add" [.constant (.int (-1)), .constant (.tuple ([.property "x",
          .constant (.text ",")].map .node))] (tree.compute table ctx)) ∧
        ∃ operation, parse ("(" ++ "-1" ++ ") " ++ Operator.plus.symbol ++ " (" ++ "(x, ',')" ++ ")") = .ok operation ∧
          ∀ ctx, tree.compute builtin ctx = operation.compute builtin ctx := by
  have isName : Text.IsName "Add" := ⟨by decide, by decide⟩
  have nonempty : (["-1", "(x, ',')"] : List Text) ≠ [] := by simp
  have each : List.Forall₂ (fun a n => parse a = .ok n) ["-1", "(x, ',')"]
      [.constant (.int (-1)), .constant (.tuple ([.property "x", .constant (.text ",")].map .node))] :=
    .cons (parse_eq_of_reads (by decide +kernel)) (.cons (parse_eq_of_reads (by decide +kernel)) .nil)
  have noComma : ∀ a ∈ (["-1", "(x, ',')"] : List Text), a.hasOuterComma = false := by decide +kernel
  obtain ⟨tree, parsed, applies, operation⟩ := parse_application isName nonempty each noComma (by simp)
  exact ⟨isName, nonempty, each, noComma, tree, parsed, applies, operation _ _ .plus rfl (.inl ⟨rfl, rfl⟩)⟩

end Node
end Reckoner
