import Reckoner.Proofs.Item.Renamed
import Reckoner.Proofs.Bracket.Placement
/-!
# Formulas that read other names

Where the names among the items of a formula are replaced, its tree is the renamed tree, or there is none as before
(`toOption_resolve_rename`). Every step of the reduction is taken on the renamed items as it is on the items themselves.
The one step that looks at a name is an opening bracket, which makes the name directly before it a callee. So a text
whose tokens differ from those of a formula in the names that they read has the tree of the formula with these names
(`parse_rename`).
-/
namespace Reckoner

namespace Run

variable (f : Text → Text)

theorem foldFrom_rename (op : Operator) (folded rest : List Item) :
    foldFrom op (folded.map (Item.rename f)) (rest.map (Item.rename f)) =
      (foldFrom op folded rest).map (List.map (Item.rename f)) :=
  foldFrom_map (Item.rename_node f) (fun t => ⟨t, rfl⟩) (fun item => item.isSymbol_rename f op)
    (fun left right => Node.rename_binary f op.symbol left right) folded rest

theorem toOption_foldBy (op : Operator) (run : List Item) : (foldBy op run).toOption = foldFrom op [] run := by
  unfold foldBy
  cases foldFrom op [] run with
  | some folded => rfl
  | none => cases describe run <;> rfl

theorem toOption_foldAll_rename (ops : List Operator) (run : List Item) :
    (foldAll ops (run.map (Item.rename f))).toOption =
      (foldAll ops run).toOption.map (List.map (Item.rename f)) := by
  induction ops generalizing run with
  | nil => rfl
  | cons op ops ih =>
    have fold : foldFrom op [] (run.map (Item.rename f)) = _ := foldFrom_rename f op [] run
    rw [foldAll_cons, foldAll_cons, Outcome.toOption_bind, Outcome.toOption_bind, toOption_foldBy, toOption_foldBy,
      fold]
    cases foldFrom op [] run with
    | none => rfl
    | some folded => exact ih folded

theorem toOption_close_of_not_comma {run : List Item} (noComma : run.any isComma = false)
    (notSingle : ∀ n, run ≠ [.node n]) : (close run).toOption = none := by
  unfold close
  rw [if_neg (by simp [noComma])]
  split
  next n => exact absurd rfl (notSingle n)
  next => cases describe run <;> rfl

theorem toOption_close_rename (run : List Item) :
    (close (run.map (Item.rename f))).toOption = (close run).toOption.map (Node.rename f) := by
  have same : isComma ∘ Item.rename f = isComma := funext fun item => Item.isKind_rename f item .comma
  have any : (run.map (Item.rename f)).any isComma = run.any isComma := by rw [List.any_map, same]
  have others : (run.map (Item.rename f)).filter (fun item => !isComma item) =
      (run.filter fun item => !isComma item).map (Item.rename f) := by
    rw [List.filter_map]
    congr 2
    exact funext fun item => congrArg _ (congrFun same item)
  cases comma : run.any isComma with
  | true =>
    rw [close.eq_def, close.eq_def, any, others, Item.map_toValue_rename, if_pos comma, if_pos comma]
    simp [Except.toOption, Node.rename_list]
  | false =>
    by_cases single : ∃ n, run = [.node n]
    · obtain ⟨n, rfl⟩ := single
      rfl
    · have renamed : ∀ n, run.map (Item.rename f) ≠ [.node n] := by
        intro n only
        obtain ⟨item, one, became⟩ := List.map_eq_singleton_iff.mp only
        cases item with
        | node m => exact single ⟨m, one⟩
        | token t => cases became
      rw [toOption_close_of_not_comma comma (not_exists.mp single),
        toOption_close_of_not_comma (any.trans comma) renamed]
      rfl

/-- A run of renamed items reduces to the renamed node. -/
theorem toOption_reduce_rename (run : List Item) :
    (reduce (run.map (Item.rename f))).toOption = (reduce run).toOption.map (Node.rename f) := by
  rw [reduce_eq_foldAll, reduce_eq_foldAll, Outcome.toOption_bind, Outcome.toOption_bind, toOption_foldAll_rename]
  cases (foldAll Operator.foldOrder run).toOption with
  | none => rfl
  | some out => exact toOption_close_rename f out

end Run

namespace Bracket

variable {f : Text → Text} {p q : Progress} {item : Item} {items : List Item}

/-- The pending bracket with the names outside it replaced. -/
def Pending.rename (f : Text → Text) (b : Pending) : Pending := { b with outer := b.outer.map (Item.rename f) }

/-- The progress with the names that it reads replaced. -/
def Progress.rename (f : Text → Text) (p : Progress) : Progress where
  run := p.run.map (Item.rename f)
  pending := p.pending.map (Pending.rename f)
  stray := p.stray
  name := p.name.map f

theorem groupNode_rename (f : Text → Text) (callee : Option Text) (inner : Node) :
    (Progress.groupNode callee inner).rename f = Progress.groupNode callee (inner.rename f) := by
  cases callee <;> simp [Progress.groupNode]

theorem openPair_rename (kept : ∀ name ∈ p.name, f name = name) (position : Option Int) :
    (p.rename f).openPair position = (p.openPair position).rename f := by
  cases called : p.name with
  | none => simp [Progress.openPair, Progress.rename, Pending.rename, called]
  | some name => simp [Progress.openPair, Progress.rename, Pending.rename, called, kept name called]

/-- Renamed items change what is renamed as they change it under the old names. -/
theorem toOption_step_rename (kept : opens item = true → ∀ name ∈ p.name, f name = name) :
    ((p.rename f).step (item.rename f)).toOption = (p.step item).toOption.map (Progress.rename f) := by
  cases o : opens item with
  | true =>
    obtain ⟨t, rfl, opening⟩ := eq_token_of_opens o
    rw [Item.rename_token, Progress.step_opening p t opening, Progress.step_opening _ t opening,
      openPair_rename (kept o)]
    rfl
  | false =>
    cases c : closes item with
    | false =>
      rw [Progress.step_plain p item o c, Progress.step_plain _ (item.rename f) (by simpa using o) (by simpa using c),
        nameOf_rename]
      rfl
    | true =>
      obtain ⟨u, rfl, closing⟩ := eq_token_of_closes c
      rw [Item.rename_token]
      cases pending : p.pending with
      | nil =>
        have none : (p.rename f).pending = [] := by simp [Progress.rename, pending]
        rw [Progress.step_closing_stray p u closing pending, Progress.step_closing_stray _ u closing none]
        simp [Progress.rename, Except.toOption]
      | cons b outer =>
        have some : (p.rename f).pending = b.rename f :: outer.map (Pending.rename f) := by
          simp [Progress.rename, pending]
        have run : (p.rename f).run.reverse = p.run.reverse.map (Item.rename f) := List.map_reverse.symm
        rw [Progress.step_closing_pending p u closing b outer pending,
          Progress.step_closing_pending _ u closing _ _ some, Outcome.toOption_bind, Outcome.toOption_bind, run,
          Run.toOption_reduce_rename]
        cases (Run.reduce p.run.reverse).toOption with
        | none => rfl
        | some inner => simp [Progress.rename, Pending.rename, Except.toOption, groupNode_rename]

theorem toOption_read_rename (first : ∀ item ∈ items.head?, opens item = true → ∀ name ∈ p.name, f name = name)
    (kept : items.IsChain (KeepsCallee f)) :
    ((p.rename f).read (items.map (Item.rename f))).toOption =
      (p.read items).toOption.map (Progress.rename f) := by
  induction items generalizing p with
  | nil => rfl
  | cons item items ih =>
    have step := toOption_step_rename (first item rfl)
    rw [List.map_cons, Progress.read_cons, Progress.read_cons, Outcome.toOption_bind, Outcome.toOption_bind, step]
    cases outcome : p.step item with
    | error e => rfl
    | ok q =>
      refine ih (fun next head opening name called => ?_) kept.tail
      rw [Progress.step_name outcome] at called
      exact (List.isChain_cons.mp kept).1 next head opening name called

theorem toOption_finish_rename (f : Text → Text) (p : Progress) :
    (p.rename f).finish.toOption = p.finish.toOption.map (Node.rename f) := by
  cases pending : p.pending with
  | cons b outer =>
    simp only [Progress.finish, Progress.rename, pending]
    rfl
  | nil =>
    cases stray : p.stray with
    | some position =>
      simp only [Progress.finish, Progress.rename, pending, stray]
      rfl
    | none =>
      simp only [Progress.finish, Progress.rename, pending, stray, List.map_nil, ← List.map_reverse]
      exact Run.toOption_reduce_rename f p.run.reverse

/-- Renamed items have the renamed tree. -/
theorem toOption_resolve_rename (kept : items.IsChain (KeepsCallee f)) :
    (resolve (items.map (Item.rename f))).toOption = (resolve items).toOption.map (Node.rename f) := by
  have start : Progress.start.rename f = Progress.start := rfl
  have unnamed : ∀ item ∈ items.head?, opens item = true → ∀ name ∈ Progress.start.name, f name = name := by
    simp [Progress.start]
  have read := toOption_read_rename unnamed kept
  rw [start] at read
  rw [resolve_eq_read, resolve_eq_read, Outcome.toOption_bind, Outcome.toOption_bind, read]
  cases Progress.start.read items with
  | error e => rfl
  | ok q => exact toOption_finish_rename f q

end Bracket

namespace Item

/-- Tokens that differ in positions alone from tokens that become items become items that do so too. -/
theorem ofTokens_of_unplaced {tokens others : List Token} {items : List Item}
    (same : others.map Token.unplaced = tokens.map Token.unplaced) (read : ofTokens tokens = .ok items) :
    ∃ found, ofTokens others = .ok found ∧ found.map unplaced = items.map unplaced := by
  have matched := ofTokens_matches same
  rw [read] at matched
  exact matched.of_ok_right

end Item

namespace Node

/-- A text whose tokens are those of a formula once its names are replaced has a tree, and this is the tree of the
formula once the names that it reads are replaced. -/
theorem parse_rename {f : Text → Text} {s t : Text} {tree : Node}
    (same : ((Token.scan s).map (Token.rename f)).map Token.unplaced = (Token.scan t).map Token.unplaced)
    (kept : (Token.scan s).IsChain (Item.KeepsCalleeToken f)) (parsed : parse t = .ok tree) :
    ∃ other, parse s = .ok other ∧ other.rename f = tree := by
  obtain ⟨items, read, resolved⟩ := Outcome.bind_eq_ok.mp parsed
  have clean := Item.ofText_clean read
  obtain ⟨renamed, readRenamed, unplaced⟩ := Item.ofTokens_of_unplaced same read
  have resolvedRenamed :=
    Bracket.resolve_of_unplaced formed_inherited (fun _ => Formed.isWritable) unplaced clean resolved
  rw [Item.ofTokens_rename] at readRenamed
  cases readHere : Item.ofTokens (Token.scan s) with
  | error e =>
    rw [readHere] at readRenamed
    cases readRenamed
  | ok own =>
    rw [readHere] at readRenamed
    cases readRenamed
    have resolves := Bracket.toOption_resolve_rename (Item.keepsCallee_ofTokens kept readHere)
    rw [resolvedRenamed] at resolves
    obtain ⟨other, resolvedHere, isRenamed⟩ := Option.map_eq_some_iff.mp resolves.symm
    rw [Outcome.toOption_eq_some] at resolvedHere
    refine ⟨other, ?_, isRenamed⟩
    rw [parse, Item.ofText_eq_ofTokens, readHere, Outcome.ok_bind, resolvedHere]

end Node
end Reckoner
