import Reckoner.Proofs.Item.Literal
/-!
# Items whatever their positions

Where a token stands does not matter to what it becomes: texts are scanned at any offset into tokens that differ in
their positions alone (`scanFrom_unplaced`), and so do the items of such tokens (`ofTokens_unplaced`) and the nodes of
their runs not at all (`reduce_unplaced`). Tokens are compared with their positions forgotten; that there is one is
kept, because an unpaired closing bracket is reported only if it has a position.
-/
namespace Reckoner

open Outcome (Matches)

/-- The token as it would be at the start of a text. -/
def Token.unplaced (t : Token) : Token := { t with position := t.position.map fun _ => 0 }

namespace Item

/-- The item with the position of its token forgotten. -/
def unplaced : Item → Item
  | .node n => .node n
  | .token t => .token t.unplaced

@[simp] theorem unplaced_node (n : Node) : (Item.node n).unplaced = .node n := rfl

@[simp] theorem unplaced_token (t : Token) : (Item.token t).unplaced = .token t.unplaced := rfl

@[simp] theorem isSymbol_unplaced (item : Item) (op : Operator) : item.unplaced.isSymbol op = item.isSymbol op := by
  cases item <;> rfl

@[simp] theorem isKind_unplaced (item : Item) (kind : TokenKind) : item.unplaced.isKind kind = item.isKind kind := by
  cases item <;> rfl

@[simp] theorem opensOperand_unplaced (item : Item) : item.unplaced.opensOperand = item.opensOperand := by
  cases item <;> rfl

@[simp] theorem negated?_unplaced (item : Item) : item.unplaced.negated? = item.negated? := by cases item <;> rfl

theorem unplaced_of_negated? {item folded : Item} (h : item.negated? = some folded) : folded.unplaced = folded := by
  unfold negated? at h
  split at h
  · obtain ⟨v, -, rfl⟩ := Option.map_eq_some_iff.mp h
    rfl
  · cases h

/-- Signs are folded in the same way among items that are changed in nothing that folding looks at. -/
theorem foldSignsFrom_map {g : Item → Item} (sign : ∀ item, (g item).isSymbol .minus = item.isSymbol .minus)
    (opens : ∀ item, (g item).opensOperand = item.opensOperand) (negated : ∀ item, (g item).negated? = item.negated?)
    (fixed : ∀ item folded : Item, item.negated? = some folded → g folded = folded) (due : Bool) (items : List Item) :
    foldSignsFrom due (items.map g) = (foldSignsFrom due items).map g := by
  fun_induction foldSignsFrom due items with
  | case1 => rfl
  | case2 => rfl
  | case3 due item next rest isSign folded isNumber ih =>
    simp [foldSignsFrom, sign, isSign, negated, isNumber, ih, fixed next folded isNumber]
  | case4 due item next rest isSign notNumber ih =>
    simpa [foldSignsFrom, sign, isSign, negated, notNumber, opens] using ih
  | case5 due item next rest noSign ih =>
    rw [List.map_cons, List.map_cons, foldSignsFrom, if_neg (by simpa [sign] using noSign), opens]
    simpa using ih

theorem foldSignsFrom_unplaced (due : Bool) (items : List Item) :
    foldSignsFrom due (items.map unplaced) = (foldSignsFrom due items).map unplaced :=
  foldSignsFrom_map (fun item => item.isSymbol_unplaced .minus) opensOperand_unplaced negated?_unplaced
    (fun _ _ => unplaced_of_negated?) due items

end Item

namespace Token

theorem scanFrom_unplaced (offset other : Nat) (s : Text) :
    (scanFrom offset s).map unplaced = (scanFrom other s).map unplaced := by
  fun_induction scanFrom offset s generalizing other with
  | case1 => simp [scanFrom]
  | case2 offset c rest blank ih => rw [scanFrom.eq_2 other, if_pos blank, ih (other + 1)]
  | case3 offset c rest visible kind n found ih =>
    rw [scanFrom.eq_2 other, if_neg visible, found]
    dsimp only
    rw [List.map_cons, List.map_cons, ih (other + 1 + n)]
    rfl

end Token

theorem Literal.classify_unplaced (t : Token) :
    Matches (fun a b => a = b.unplaced) (classify t.unplaced) (classify t) := by
  have sameKind : t.unplaced.kind = t.kind := rfl
  unfold classify
  rw [sameKind]
  cases t.kind with
  | number =>
    refine .bind (R := (· = ·)) (.refl (fun _ => rfl) _) fun v w _ _ same => ?_
    rw [same]
    exact .ok _ _ rfl
  | unknown => exact .error _ _ rfl
  | _ => exact .ok _ _ rfl

namespace Item

/-- The items of tokens, signs folded. -/
def ofTokens (tokens : List Token) : Outcome (List Item) :=
  tokens.mapM Literal.classify >>= fun items => .ok (foldSigns items)

theorem ofText_eq_ofTokens (s : Text) : ofText s = ofTokens (Token.scan s) := rfl

theorem ofTokens_unplaced (tokens : List Token) :
    Matches (fun a b => a = b.map unplaced) (ofTokens (tokens.map Token.unplaced)) (ofTokens tokens) := by
  have classified : Matches (fun a b => a = b.map unplaced) ((tokens.map Token.unplaced).mapM Literal.classify)
      (tokens.mapM Literal.classify) := by
    induction tokens with
    | nil => exact .ok _ _ rfl
    | cons t tokens ih =>
      rw [List.map_cons, List.mapM_cons, List.mapM_cons]
      refine .bind (Literal.classify_unplaced t) fun a b _ _ same => ?_
      refine .bind ih fun as bs _ _ others => ?_
      rw [same, others]
      exact .ok _ _ rfl
  refine .bind classified fun as bs _ _ same => ?_
  rw [same]
  exact .ok _ _ (foldSignsFrom_unplaced true bs)

/-- Tokens that differ in positions alone become items that do so too, or fail in the same way. -/
theorem ofTokens_matches {tokens others : List Token} (same : others.map Token.unplaced = tokens.map Token.unplaced) :
    Matches (fun a b => a.map unplaced = b.map unplaced) (ofTokens others) (ofTokens tokens) := by
  have there := ofTokens_unplaced others
  rw [same] at there
  exact there.common (ofTokens_unplaced tokens)

/-- The items of a text at any offset differ in positions alone. -/
theorem ofText_placed {s : Text} {items : List Item} (h : ofText s = .ok items) (offset : Nat) :
    ∃ raw, (Token.scanFrom offset s).mapM Literal.classify = .ok raw ∧
      (foldSigns raw).map unplaced = items.map unplaced := by
  have matched := ofTokens_matches (Token.scanFrom_unplaced offset 0 s)
  rw [← Token.scan, ← ofText_eq_ofTokens, h] at matched
  obtain ⟨others, readThere, same⟩ := matched.of_ok_right
  obtain ⟨raw, classified, folded⟩ := Outcome.bind_eq_ok.mp readThere
  cases folded
  exact ⟨raw, classified, same⟩

theorem isClean_unplaced {P : Node → Prop} (item : Item) : item.unplaced.IsClean P ↔ item.IsClean P := by
  cases item with
  | node n => rfl
  | token t => simp [IsClean, IsFlat, Token.unplaced]

theorem clean_of_unplaced {P : Node → Prop} {items others : List Item}
    (same : others.map unplaced = items.map unplaced) (clean : ∀ item ∈ items, item.IsClean P) :
    ∀ item ∈ others, item.IsClean P := by
  intro item member
  obtain ⟨origin, inside, became⟩ := List.mem_map.mp (same ▸ List.mem_map_of_mem member)
  rw [← isClean_unplaced, ← became, isClean_unplaced]
  exact clean origin inside

end Item

namespace Run

variable {run : List Item}

theorem describe_unplaced (run : List Item) : describe (run.map Item.unplaced) = describe run := by
  induction run with
  | nil => rfl
  | cons item run ih =>
    cases item with
    | node n => simp only [List.map_cons, Item.unplaced_node, describe, ih]
    | token t =>
      simp only [List.map_cons, Item.unplaced_token, describe, ih]
      rfl

/-- A fold takes the same steps on items that are changed in nothing that it looks at, where the nodes it makes are
changed with their parts. -/
theorem foldFrom_map {op : Operator} {g : Item → Item} {h : Node → Node} (node : ∀ n, g (.node n) = .node (h n))
    (token : ∀ t, ∃ u, g (.token t) = .token u) (symbol : ∀ item, (g item).isSymbol op = item.isSymbol op)
    (binary : ∀ left right, h (.binary op.symbol left right) = .binary op.symbol (h left) (h right))
    (folded rest : List Item) :
    foldFrom op (folded.map g) (rest.map g) = (foldFrom op folded rest).map (List.map g) := by
  fun_induction foldFrom op folded rest with
  | case1 folded => simp [foldFrom]
  | case2 item isOp left before right after ih =>
    have isOp' : (g item).isSymbol op = true := by rw [symbol, isOp]
    simpa [foldFrom, isOp', node, binary] using ih
  | case3 folded item rest isOp lacking =>
    rw [List.map_cons, foldFrom.eq_def]
    simp only [symbol, isOp, if_true]
    -- one of the two operands is not there, or is a token
    cases folded with
    | nil => rfl
    | cons last before =>
      cases last with
      | token t =>
        obtain ⟨u, same⟩ := token t
        simp [same]
      | node left =>
        cases rest with
        | nil => simp [node]
        | cons next after =>
          cases next with
          | token t =>
            obtain ⟨u, same⟩ := token t
            simp [node, same]
          | node right => exact (lacking left before right after rfl rfl).elim
  | case4 folded item rest notOp ih =>
    rw [List.map_cons, foldFrom.eq_def]
    simpa [symbol, notOp] using ih

theorem foldFrom_unplaced (op : Operator) (folded rest : List Item) :
    foldFrom op (folded.map Item.unplaced) (rest.map Item.unplaced) =
      (foldFrom op folded rest).map (List.map Item.unplaced) :=
  foldFrom_map (h := id) (fun _ => rfl) (fun t => ⟨t.unplaced, rfl⟩) (fun item => item.isSymbol_unplaced op)
    (fun _ _ => rfl) folded rest

theorem foldAll_unplaced (ops : List Operator) (run : List Item) :
    foldAll ops (run.map Item.unplaced) = (foldAll ops run).map (List.map Item.unplaced) := by
  induction ops generalizing run with
  | nil => rfl
  | cons op ops ih =>
    have fold := foldFrom_unplaced op [] run
    rw [List.map_nil] at fold
    rw [foldAll_cons, foldAll_cons, foldBy, foldBy, fold, describe_unplaced]
    cases foldFrom op [] run with
    | some folded => exact ih folded
    | none => cases describe run <;> rfl

@[simp] theorem nodes_unplaced (run : List Item) : nodes (run.map Item.unplaced) = nodes run := by
  induction run with
  | nil => rfl
  | cons item run ih => cases item <;> simp [ih]

theorem isComma_unplaced (item : Item) : isComma item.unplaced = isComma item := Item.isKind_unplaced item .comma

theorem close_unplaced (commas : ∀ t, .token t ∈ run → isComma (.token t) = true) :
    close (run.map Item.unplaced) = close run := by
  have commas' : ∀ t, .token t ∈ run.map Item.unplaced → isComma (.token t) = true := by
    intro t member
    obtain ⟨item, inside, same⟩ := List.mem_map.mp member
    cases item with
    | node n => cases same
    | token u =>
      rw [← same, isComma_unplaced]
      exact commas u inside
  have any : (run.map Item.unplaced).any isComma = run.any isComma := by
    rw [List.any_map]
    exact congrArg run.any (funext isComma_unplaced)
  cases comma : run.any isComma with
  | true => rw [close_of_comma commas comma, close_of_comma commas' (any.trans comma), nodes_unplaced]
  | false =>
    have same := eq_map_node_of_not_comma commas' (any.trans comma)
    rw [nodes_unplaced, ← eq_map_node_of_not_comma commas comma] at same
    rw [same]

/-- The reduction of a run does not look at positions. -/
theorem reduce_unplaced (flat : ∀ item ∈ run, item.IsFlat) : reduce (run.map Item.unplaced) = reduce run := by
  rw [reduce_eq_foldAll, reduce_eq_foldAll, foldAll_unplaced]
  cases folds : foldAll Operator.foldOrder run with
  | error e => rfl
  | ok out => exact close_unplaced fun t => comma_of_folded flat (foldAll_folded flat folds)

end Run
end Reckoner
