import Reckoner.Proofs.Run.Segment
/-!
# Runs of segments and commas

Runs that stand beside each other are folded each by itself as long as the second one does not start with an operator
(`foldAll_beside`): a fold reaches back one item, and for an operator only. So the folds of a run that consists of
segments and commas (`Run.Segmented`) put the tree of each segment in its place and keep the commas
(`Segmented.folds`).
-/
namespace Reckoner.Run

variable {op : Operator} {ops : List Operator} {folded rest run more out others : List Item}

/-- What lies behind the items that a fold has done already stays as it is, for a fold reaches back one item. -/
theorem foldFrom_behind (base : List Item) (nonempty : folded ≠ []) :
    foldFrom op (folded ++ base) rest = (foldFrom op folded rest).map (base.reverse ++ ·) := by
  fun_induction foldFrom op folded rest with
  | case1 folded => simp [foldFrom]
  | case2 item isOp left before right after ih =>
    rw [List.cons_append, foldFrom.eq_def]
    simpa [isOp] using ih (by simp)
  | case3 folded item rest isOp lacking =>
    rw [foldFrom.eq_def]
    simp only [isOp, if_true, Option.map_none]
    -- the operand that is lacking stands next to the operator, so `base` cannot supply it
    obtain ⟨last, before, rfl⟩ := List.exists_cons_of_ne_nil nonempty
    cases last with
    | token t => rfl
    | node left =>
      cases rest with
      | nil => rfl
      | cons next after =>
        cases next with
        | token t => rfl
        | node right => exact (lacking left before right after rfl rfl).elim
  | case4 folded item rest notOp ih =>
    rw [foldFrom.eq_def]
    simpa [notOp] using ih (by simp)

/-- The first item of a run stays the first one, or is folded into a node. -/
theorem foldFrom_starts (nonempty : folded ≠ []) (h : foldFrom op folded rest = some out) :
    out.head? = folded.getLast? ∨ ∃ n, out.head? = some (.node n) := by
  fun_induction foldFrom op folded rest with
  | case1 folded =>
    cases h
    exact .inl (by simp)
  | case2 item isOp left before right after ih =>
    rcases ih (by simp) h with same | node
    · cases before with
      | nil => exact .inr ⟨_, same⟩
      | cons item before => exact .inl (by simpa using same)
    · exact .inr node
  | case3 => cases h
  | case4 folded item rest notOp ih =>
    rcases ih (by simp) h with same | node
    · obtain ⟨last, before, rfl⟩ := List.exists_cons_of_ne_nil nonempty
      exact .inl (by simpa using same)
    · exact .inr node

/-- A run that does not start with an operator. -/
def StartsPlain (run : List Item) : Prop := ∀ item ∈ run.head?, ∀ op, item.isSymbol op = false

theorem foldBy_startsPlain (start : StartsPlain run) (h : foldBy op run = .ok out) : StartsPlain out := by
  rw [foldBy_eq_ok] at h
  cases run with
  | nil =>
    cases h
    exact start
  | cons item run =>
    rw [foldFrom.eq_def] at h
    have plain := start item rfl
    simp only [plain op, Bool.false_eq_true, if_false] at h
    rcases foldFrom_starts (by simp) h with same | ⟨n, node⟩
    · rw [StartsPlain, same]
      simpa using plain
    · rw [StartsPlain, node]
      simp [Item.isSymbol]

/-- Runs are folded each by itself when the second one does not start with an operator. -/
theorem foldBy_beside (start : StartsPlain more) (first : foldBy op run = .ok out) (second : foldBy op more = .ok others) :
    foldBy op (run ++ more) = .ok (out ++ others) := by
  rw [foldBy_eq_ok] at first second ⊢
  rw [foldFrom_append first]
  cases more with
  | nil =>
    cases second
    simp [foldFrom]
  | cons item more =>
    have plain := start item rfl op
    rw [foldFrom.eq_def] at second ⊢
    simp only [plain, Bool.false_eq_true, if_false] at second ⊢
    have behind : foldFrom op ([item] ++ out.reverse) more = _ := foldFrom_behind out.reverse (by simp)
    rw [List.singleton_append] at behind
    rw [behind, second]
    simp

theorem foldAll_beside (start : StartsPlain more) (first : foldAll ops run = .ok out)
    (second : foldAll ops more = .ok others) : foldAll ops (run ++ more) = .ok (out ++ others) := by
  induction ops generalizing run more with
  | nil =>
    cases first
    cases second
    rfl
  | cons op ops ih =>
    rw [foldAll_cons] at first second ⊢
    obtain ⟨middle, fold, rest⟩ := Outcome.bind_eq_ok.mp first
    obtain ⟨middle', fold', rest'⟩ := Outcome.bind_eq_ok.mp second
    rw [foldBy_beside start fold fold', Outcome.ok_bind]
    exact ih (foldBy_startsPlain start fold') rest rest'

/-- A run of segments and commas. -/
inductive Segmented : List Item → Prop where
  | nil : Segmented []
  | comma {rest : List Item} (t : Token) (kind : t.kind = .comma) (text : t.text = [.scalar ',']) (later : Segmented rest) :
      Segmented (.token t :: rest)
  | segment {part rest : List Item} (alternates : Alternates (fun t => t.isBinaryOperator = true) part)
      (later : Segmented rest) : Segmented (part ++ rest)

theorem Segmented.starts (h : Segmented run) : ∀ item ∈ run.head?, item.isNode = true ∨ isComma item = true := by
  cases h with
  | nil => simp
  | comma t kind text later => simp [isComma, Item.isKind, kind]
  | segment alternates later =>
    obtain ⟨n, more, rfl⟩ := alternates.starts
    simp [Item.isNode]

theorem Segmented.startsPlain (h : Segmented run) : StartsPlain run := by
  cases h with
  | nil => simp [StartsPlain]
  | comma t kind text later => simpa [StartsPlain] using not_isSymbol_comma text
  | segment alternates later =>
    obtain ⟨n, more, rfl⟩ := alternates.starts
    simp [StartsPlain, Item.isSymbol]

/-- An operation on its first node makes the first segment longer. -/
theorem Segmented.operation {n m : Node} {t : Token} (isOperator : t.isBinaryOperator = true)
    (h : Segmented (.node m :: rest)) : Segmented (.node n :: .token t :: .node m :: rest) := by
  generalize same : Item.node m :: rest = run at h ⊢
  cases h with
  | nil => cases same
  | comma => cases same
  | segment alternates later => exact .segment (.more n t isOperator alternates) later

/-- There is no comma in a segment. -/
theorem not_isComma_of_alternates (h : Alternates (fun t => t.isBinaryOperator = true) run) :
    ∀ item ∈ run, isComma item = false :=
  h.not_any (fun n => rfl) fun t isOp => by
    have kind : t.kind = .operator := by
      simp only [Token.isBinaryOperator, Bool.and_eq_true, beq_iff_eq] at isOp
      exact isOp.1
    simp [isComma, Item.isKind, kind]

theorem segments_comma {t : Token} (kind : t.kind = .comma) (rest : List Item) :
    segments (.token t :: rest) = segments rest := by
  have comma : isComma (.token t) = true := by simp [isComma, Item.isKind, kind]
  simp [segments, List.splitOnP_cons_eq_if_modifyHead, comma]

/-- A piece without a cut in it is part of the first piece. -/
theorem splitOnP_append {α : Type} {p : α → Bool} {l more first : List α} {pieces : List (List α)}
    (uncut : ∀ x ∈ l, p x = false) (h : more.splitOnP p = first :: pieces) :
    (l ++ more).splitOnP p = (l ++ first) :: pieces := by
  induction l with
  | nil => exact h
  | cons x l ih =>
    rw [List.cons_append, List.splitOnP_cons_eq_if_modifyHead, if_neg (by simp [uncut x]),
      ih fun y member => uncut y (by simp [member])]
    rfl

/-- The first piece of a run that starts with a node or a comma starts with a node, if it is not empty. -/
theorem splitOnP_starts {first : List Item} {pieces : List (List Item)}
    (start : ∀ item ∈ run.head?, item.isNode = true ∨ isComma item = true)
    (h : run.splitOnP isComma = first :: pieces) : ∀ item ∈ first.head?, item.isNode = true := by
  cases run with
  | nil =>
    rw [List.splitOnP_nil] at h
    cases h
    simp
  | cons item run =>
    obtain ⟨later, others, pieces⟩ := List.exists_cons_of_ne_nil (List.splitOnP_ne_nil isComma run)
    rw [List.splitOnP_cons_eq_if_modifyHead, pieces] at h
    split at h
    · cases h
      simp
    next notComma =>
      cases h
      simpa [notComma] using start

theorem segments_append {part : List Item} (alternates : Alternates (fun t => t.isBinaryOperator = true) part)
    (start : ∀ item ∈ rest.head?, item.isNode = true ∨ isComma item = true) :
    segments (part ++ rest) = part :: segments rest := by
  obtain ⟨first, pieces, cut⟩ := List.exists_cons_of_ne_nil (List.splitOnP_ne_nil isComma rest)
  have apart : ∀ a ∈ part.getLast?, ∀ b ∈ first.head?, together a b = false := by
    obtain ⟨n, last⟩ := alternates.ends
    intro a isLast b isFirst
    rw [last] at isLast
    cases isLast
    rw [together, splitOnP_starts start cut b isFirst]
    rfl
  rw [segments, segments, splitOnP_append (not_isComma_of_alternates alternates) cut, cut, List.flatMap_cons, List.flatMap_cons, List.splitBy_append apart,
    List.splitBy_of_isChain ?_ alternates.isChain_together]
  · rfl
  · obtain ⟨n, more, rfl⟩ := alternates.starts
    simp

/-- Between operators a segment has its tree, and the folds leave it. -/
theorem exists_tree (h : Alternates (fun t => t.isBinaryOperator = true) run) :
    ∃ n, tree run = some n ∧ foldAll Operator.foldOrder run = .ok [.node n] := by
  have symbols : Alternates (fun t => ∃ op ∈ [.minus, .plus, .over, .times], (Item.token t).isSymbol op = true) run :=
    h.mono fun t isOp => by
      simp only [Token.isBinaryOperator, Bool.and_eq_true, beq_iff_eq, Option.isSome_iff_exists] at isOp
      obtain ⟨-, op, found⟩ := isOp
      refine ⟨op, by cases op <;> simp, ?_⟩
      simp [Item.isSymbol, Token.isSymbol, Operator.ofSymbol?_eq_some found]
  obtain ⟨n, isTree⟩ := exists_treeBy symbols
  exact ⟨n, isTree, foldAll_of_treeBy (by decide) isTree⟩

/-- The folds leave the trees of the segments, and the commas. -/
theorem Segmented.folds (h : Segmented run) : ∃ out, foldAll Operator.foldOrder run = .ok out ∧
    (segments run).mapM tree = some (nodes out) ∧ out.any isComma = run.any isComma := by
  induction h with
  | nil => exact ⟨[], rfl, rfl, rfl⟩
  | comma t kind text later ih =>
    obtain ⟨out, folded, trees, commas⟩ := ih
    have alone : foldAll Operator.foldOrder [] = .ok [] := rfl
    refine ⟨.token t :: out, foldAll_separated text alone folded, ?_, by simp [commas]⟩
    rw [segments_comma kind, trees, nodes_token]
  | @segment part rest alternates later ih =>
    obtain ⟨out, folded, trees, commas⟩ := ih
    obtain ⟨n, isTree, alone⟩ := exists_tree alternates
    refine ⟨.node n :: out, foldAll_beside later.startsPlain alone folded, ?_, ?_⟩
    · rw [segments_append alternates later.starts, List.mapM_cons, isTree, trees]
      rfl
    · have noComma : part.any isComma = false := by simpa using not_isComma_of_alternates alternates
      rw [List.any_append, noComma, List.any_cons, commas]
      rfl

end Reckoner.Run
