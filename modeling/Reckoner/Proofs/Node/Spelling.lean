import Reckoner.Proofs.Bracket.Standing
import Reckoner.Proofs.Item.Spelling
import Reckoner.Proofs.Numeral.Positional
import Reckoner.Proofs.Text.Quoted
/-!
# What the rendering of a tree spells

The literals and names of a formed tree are written as words that spell themselves again, up to the kind of whole
numbers and the word for infinity. Operations, calls and lists are written between brackets, and what stands there
fills the pair with the tree. So the rendering of every formed tree spells items that stand for it (`spells_render`).
-/
namespace Reckoner

open Item (Spells)
open Reckoner.Bracket (Stands Fills Separated outerMarks)

namespace Bracket

theorem stands_node {n u : Node} (operand : outerMarks n = [.operand]) (reread : n.reread = some u) :
    Stands n [.node u] where
  balanced := by
    rw [operand]
    exact Balanced.nil.plain (.node u) rfl rfl
  read v same p unnamed := by
    rw [reread] at same
    cases same
    exact ⟨_, by rw [Progress.read_cons, Progress.step_plain p _ rfl rfl]; rfl⟩
  stuck unread := by
    rw [reread] at unread
    cases unread

theorem stands_negativeInfinity {t : Token} (kind : t.kind = .operator) (n : Node) :
    Stands (.constant (.float (.infinite true))) [.token t, .node n] where
  balanced := by
    have sign := Balanced.nil.plain (.token t) (by simp [opens, Item.isKind, kind]) (by simp [closes, Item.isKind, kind])
    simpa [Item.mark, kind, outerMarks] using sign.plain (.node n) rfl rfl
  read v same := by
    rw [Node.reread] at same
    cases same
  stuck _ := .inr ⟨[], [.operand], rfl, by simp⟩

end Bracket

namespace Literal

theorem classify_ofNat {n : Nat} (short : Numeral.IsShort n) (position : Option Int) :
    classify ⟨.number, Numeral.ofNat n, position⟩ = .ok (.node (.constant (.int n))) := by
  have length : (Numeral.ofNat n).length ≤ Numeral.maxDigits := by
    rw [Numeral.length_ofNat_le_iff (by decide)]
    rwa [Numeral.IsShort, Int.natAbs_natCast, Nat.pow_eq] at short
  simp [classify, number_of_isDigits (Numeral.isDigits_ofNat n), readNat?_of_short length, Outcome.ofDigits,
    Except.mapError, Numeral.decimalNumber_ofNat]

theorem classify_pointed {whole : Text} (digits : whole.IsDigits) (fraction : Text) (position : Option Int) :
    classify ⟨.number, whole ++ .scalar '.' :: fraction, position⟩ =
      .ok (.node (.constant (.float (Numeral.readPointed whole fraction)))) := by
  simp [classify, number_of_point digits]

end Literal

namespace Node

theorem spells_int {n : Int} (short : Numeral.IsShort n) :
    Spells true false (Numeral.ofInt n) (· = [.node (.constant (.int n))]) := by
  have scans := Token.scansAs_digits (Numeral.isDigits_ofNat n.natAbs) (Numeral.ofNat_ne_nil n.natAbs)
  have classified := Literal.classify_ofNat (n := n.natAbs) (by rwa [Numeral.IsShort, Int.natAbs_natCast])
  unfold Numeral.ofInt
  split
  next negative =>
    refine Spells.negative scans classified ?_
    have nonzero : (n.natAbs : Int) ≠ 0 := by omega
    have value : -(n.natAbs : Int) = n := by omega
    simp only [Item.negated?, Value.negated?, if_neg nonzero, Option.map_some, value]
  next nonnegative =>
    have value : (n.natAbs : Int) = n := by omega
    rw [value] at classified
    exact Spells.node scans classified

theorem isShort_of_magnitude (m : Magnitude) : Numeral.IsShort ((m.units / unitsPerOne : Nat) : Int) := by
  have bound : m.units / unitsPerOne < 2 ^ 1024 := by
    rw [Nat.div_lt_iff_lt_mul unitsPerOne_pos, unitsPerOne_eq, ← Nat.pow_add, Magnitude.units, Nat.pow_eq]
    calc m.significand * 2 ^ m.scale < 2 ^ 53 * 2 ^ m.scale :=
          Nat.mul_lt_mul_of_pos_right m.significand_lt (Nat.two_pow_pos m.scale)
      _ = 2 ^ (53 + m.scale) := (Nat.pow_add 2 53 m.scale).symm
      _ ≤ 2 ^ (1024 + 1074) := Nat.pow_le_pow_right (by decide) (by have := m.scale_le; omega)
  rw [Numeral.IsShort, Int.natAbs_natCast, Nat.pow_eq]
  calc m.units / unitsPerOne < 2 ^ 1024 := bound
    _ ≤ 10 ^ 1024 := Nat.pow_le_pow_left (by decide) _
    _ ≤ 10 ^ Numeral.maxDigits := Nat.pow_le_pow_right (by decide) (by decide)

/-- A whole number is written as its digits, and reads back as the whole number unless it is negative zero. -/
theorem spells_whole {m : Magnitude} (whole : m.units % unitsPerOne = 0) (negative : Bool) :
    Spells true false (Numeral.signed negative (Numeral.ofNat (m.units / unitsPerOne)))
      (· = [.node (.constant (Binary64.respelled (.finite negative m)))]) := by
  have scans := Token.scansAs_digits (Numeral.isDigits_ofNat (m.units / unitsPerOne))
    (Numeral.ofNat_ne_nil (m.units / unitsPerOne))
  have classified := Literal.classify_ofNat (isShort_of_magnitude m)
  cases negative with
  | false =>
    have value : Binary64.respelled (.finite false m) = .int (m.units / unitsPerOne : Nat) := by
      rw [Binary64.respelled, Binary64.whole?, if_pos whole]
      simp only [Binary64.isNegative, Bool.and_false, Bool.false_eq_true, if_false]
    rw [value]
    exact Spells.node scans classified
  | true =>
    refine Spells.negative scans classified ?_
    by_cases zero : m.units / unitsPerOne = 0
    · have noUnits : m.units = 0 := by
        rw [← Nat.div_mul_cancel (Nat.dvd_of_mod_eq_zero whole), zero, Nat.zero_mul]
      have none := Magnitude.eq_zero_of_units noUnits
      subst none
      have value : Binary64.respelled (.finite true .zero) = .float (.finite true .zero) := by
        rw [Binary64.respelled, Binary64.whole?, if_pos whole]
        rfl
      simp [Item.negated?, Value.negated?, zero, value]
    · have someUnits : m.isZero = false := by
        rw [Magnitude.isZero, beq_eq_false_iff_ne]
        intro significand
        rw [Magnitude.units, significand, Nat.zero_mul, Nat.zero_div] at zero
        exact zero rfl
      have value : Binary64.respelled (.finite true m) = .int (-(m.units / unitsPerOne : Nat)) := by
        rw [Binary64.respelled, Binary64.whole?, if_pos whole]
        simp only [Binary64.isZero, someUnits, Bool.false_and, Bool.false_eq_true, if_false, if_true]
      have nonzero : ((m.units / unitsPerOne : Nat) : Int) ≠ 0 := by omega
      simp only [Item.negated?, Value.negated?, if_neg nonzero, Option.map_some, value]

/-- A number with a fraction is written with a point, and reads back as itself. -/
theorem spells_fraction {m : Magnitude} (fraction : m.units % unitsPerOne ≠ 0) (negative : Bool) :
    Spells true false (Numeral.signed negative (Numeral.positional m.shortest))
      (· = [.node (.constant (Binary64.respelled (.finite negative m)))]) := by
  obtain ⟨before, behind, split, beforeDigits, nonempty, behindDigits, reads⟩ := Numeral.readPointed_shortest fraction
  have scans := Token.scansAs_pointed beforeDigits nonempty behindDigits
  have classified := Literal.classify_pointed beforeDigits behind
  have value : Binary64.respelled (.finite negative m) = .float (.finite negative m) := by
    simp [Binary64.respelled, Binary64.whole?, fraction]
  rw [split, value]
  rw [reads] at classified
  cases negative with
  | false => exact Spells.node scans classified
  | true => exact Spells.negative scans classified rfl

/-- A finite number is written as a literal that reads back as an equal number. -/
theorem spells_finite (negative : Bool) (m : Magnitude) :
    Spells true false (Numeral.ofBinary64 (.finite negative m))
      (· = [.node (.constant (Binary64.respelled (.finite negative m)))]) := by
  rw [Numeral.ofBinary64]
  split
  next whole => exact spells_whole whole negative
  next fraction => exact spells_fraction fraction negative

theorem spells_float {x : Binary64} (number : x ≠ .nan) :
    Spells true false (Numeral.ofBinary64 x) (Stands (.constant (.float x))) := by
  have infinity : Text.IsName "inf" := ⟨rfl, by decide⟩
  cases x with
  | nan => exact absurd rfl number
  | infinite negative =>
    have scans := Token.scansAs_name infinity
    have classified : ∀ position, Literal.classify ⟨.name, "inf", position⟩ = .ok (.node (.property "inf")) :=
      fun _ => rfl
    cases negative with
    | false =>
      refine (Spells.node scans classified).mono ?_
      rintro items rfl
      exact Bracket.stands_node rfl (by rw [reread, rereadFloat])
    | true =>
      refine (Spells.negativeName scans classified rfl).mono ?_
      intro items spelled
      obtain ⟨t, rfl, kind, -⟩ := spelled
      exact Bracket.stands_negativeInfinity kind _
  | finite negative m =>
    refine (spells_finite negative m).mono ?_
    rintro items rfl
    exact Bracket.stands_node rfl (by rw [reread, rereadFloat])

/-- What a pair of brackets with blanks inside it spells. -/
theorem spells_pair {due after : Bool} {inner : Text} {n : Node} (h : Spells true after inner (Fills n)) :
    Spells due false ("( " ++ inner ++ " )") fun items => ∃ (t u : Token) (inside : List Item),
      items = .token t :: (inside ++ [.token u]) ∧ t.kind = .leftParen ∧ u.kind = .rightParen ∧ Fills n inside := by
  have text : ("( " ++ inner ++ " )" : Text) =
      [.scalar '('] ++ .scalar ' ' :: (inner ++ .scalar ' ' :: [.scalar ')']) := by
    simp [Text.ofString]
  rw [text]
  refine (Spells.opening.append (h.append Spells.closing)).mono ?_
  intro items spelled
  obtain ⟨_, _, rfl, ⟨t, rfl, opening, -⟩, inside, _, rfl, fills, u, rfl, closing, -⟩ := spelled
  exact ⟨t, u, inside, rfl, opening, closing, fills⟩

/-- What a tree is written as: a word, or something between brackets. -/
inductive Written : Node → Text → Prop where
  | bare {n : Node} {r : Text} (isBare : n.isBare = true) (stands : Spells true false r (Stands n)) : Written n r
  | enclosed {n : Node} {inner : Text} {after : Bool} (notBare : n.isBare = false) (operand : outerMarks n = [.operand])
      (fills : Spells true after inner (Fills n)) : Written n ("( " ++ inner ++ " )")

theorem Written.stands {n : Node} {r : Text} (h : Written n r) : Spells true false r (Stands n) := by
  cases h with
  | bare isBare stands => exact stands
  | enclosed notBare operand fills =>
    refine (spells_pair fills).mono ?_
    intro items spelled
    obtain ⟨t, u, inside, rfl, opening, closing, fills⟩ := spelled
    exact fills.group opening closing operand

theorem Written.fills {n : Node} {r : Text} (h : Written n r) :
    ∃ inner after, Spells true after inner (Fills n) ∧ r = if n.isBare then inner else "( " ++ inner ++ " )" := by
  cases h with
  | bare isBare stands => exact ⟨r, false, stands.mono fun items stand => stand.fills, by rw [if_pos isBare]⟩
  | @enclosed inner after notBare operand fills => exact ⟨inner, after, fills, by rw [if_neg (by simp [notBare])]⟩

theorem written_binary {left right : Node} {l r : Text} (op : Operator) (leftWritten : Written left l)
    (rightWritten : Written right r) :
    Written (.binary op.symbol left right) ("( " ++ (l ++ " " ++ op.symbol ++ " " ++ r) ++ " )") := by
  have text : (l ++ " " ++ op.symbol ++ " " ++ r : Text) = l ++ .scalar ' ' :: (op.symbol ++ .scalar ' ' :: r) := by
    simp [Text.ofString]
  have fills : Spells true false (l ++ " " ++ op.symbol ++ " " ++ r) (Fills (.binary op.symbol left right)) := by
    rw [text]
    refine (leftWritten.stands.append ((Spells.operator op).append rightWritten.stands)).mono ?_
    intro items spelled
    obtain ⟨lefts, _, rfl, stands, _, rights, rfl, ⟨t, rfl, kind, symbol⟩, standsRight⟩ := spelled
    exact Fills.binary stands standsRight kind symbol
  exact .enclosed rfl rfl fills

theorem written_call {args : Node} {inner : Text} {after : Bool} {name : Text} (isName : name.IsName)
    (argsFill : Spells true after inner (Fills args)) :
    Written (.call name args) ("( " ++ (name ++ " ( " ++ inner ++ " )") ++ " )") := by
  have text : (name ++ " ( " ++ inner ++ " )" : Text) = name ++ .scalar ' ' :: ("( " ++ inner ++ " )" : Text) := by
    simp [Text.ofString]
  have fills : Spells true false (name ++ " ( " ++ inner ++ " )") (Fills (.call name args)) := by
    rw [text]
    have nameNode : Spells true false name (· = [.node (.property name)]) :=
      Spells.node (Token.scansAs_name isName) fun _ => rfl
    refine (nameNode.append (spells_pair argsFill)).mono ?_
    intro items spelled
    obtain ⟨_, _, rfl, rfl, t, u, inside, rfl, opening, closing, argsInside⟩ := spelled
    exact argsInside.call name opening closing
  exact .enclosed rfl rfl fills

/-- A call is written in one way, whether or not its argument brings brackets along. -/
theorem render_call_eq {args : Node} {inner : Text} (name : Text)
    (rendered : args.render = .ok (if args.isBare then inner else "( " ++ inner ++ " )")) :
    (Node.call name args).render = .ok ("( " ++ (name ++ " ( " ++ inner ++ " )") ++ " )") := by
  cases bare : args.isBare with
  | true =>
    rw [bare, if_pos rfl] at rendered
    rw [render_call_bare name bare, rendered, Outcome.ok_bind]
    simp [Text.ofString]
  | false =>
    rw [bare, if_neg (by decide)] at rendered
    rw [render_call_enclosed name bare, rendered, Outcome.ok_bind]
    simp [Text.ofString]

theorem spells_separated {nodes : List Node} {texts : List Text} (written : List.Forall₂ Written nodes texts) :
    ∃ after, Spells true after (Text.join " , " texts) (Separated nodes) := by
  induction written with
  | nil =>
    refine ⟨true, Spells.nil.mono ?_⟩
    rintro items rfl
    exact .nil
  | @cons n r nodes texts first rest ih =>
    cases rest with
    | nil => exact ⟨false, first.stands.mono fun items stands => .single stands⟩
    | @cons m s nodes texts second others =>
      obtain ⟨after, spells⟩ := ih
      have text : Text.join " , " (r :: s :: texts) =
          r ++ .scalar ' ' :: ([CodePoint.scalar ','] ++ .scalar ' ' :: Text.join " , " (s :: texts)) := by
        rw [Text.join]
        · simp [Text.ofString]
        · simp
      refine ⟨after, ?_⟩
      rw [text]
      refine (first.stands.append (Spells.comma.append spells)).mono ?_
      intro items spelled
      obtain ⟨firsts, _, rfl, stands, _, more, rfl, ⟨t, rfl, kind, comma⟩, separated⟩ := spelled
      exact .cons t stands kind comma separated

theorem renderAll_written {nodes : List Node} (each : ∀ n ∈ nodes, ∃ r, n.render = .ok r ∧ Written n r) :
    ∃ texts, renderAll (nodes.map .node) = .ok texts ∧ List.Forall₂ Written nodes texts := by
  induction nodes with
  | nil => exact ⟨[], rfl, .nil⟩
  | cons n nodes ih =>
    obtain ⟨r, rendered, written⟩ := each n (by simp)
    obtain ⟨texts, others, writtenOthers⟩ := ih fun m member => each m (by simp [member])
    exact ⟨r :: texts, by simp [renderAll, rendered, others], .cons written writtenOthers⟩

/-- Every formed tree has a rendering, which is written as the tree is. -/
theorem render_written {tree : Node} (formed : tree.Formed) : ∃ r, tree.render = .ok r ∧ Written tree r := by
  induction formed with
  | int n short =>
    refine ⟨Numeral.ofInt n, ?_, .bare rfl ((spells_int short).mono ?_)⟩
    · rw [render_int, Numeral.ofInt?_of_isShort short]
      rfl
    · rintro items rfl
      exact Bracket.stands_node rfl (reread_int n)
  | float x number => exact ⟨_, render_float x, .bare rfl (spells_float number)⟩
  | text t =>
    have classified : ∀ position, Literal.classify ⟨.string, t.quoted .unicode, position⟩ =
        .ok (.node (.constant (.text t))) := by
      intro position
      simp [Literal.classify, Literal.decodeString_quoted]
    refine ⟨_, render_text t, .bare rfl ((Spells.node (Token.scansAs_quoted t) classified).mono ?_)⟩
    rintro items rfl
    exact Bracket.stands_node rfl (reread_text t)
  | list nodes elements ih =>
    obtain ⟨texts, rendered, written⟩ := renderAll_written ih
    obtain ⟨after, spells⟩ := spells_separated written
    exact ⟨_, by rw [render_list, rendered]; rfl,
      .enclosed rfl rfl (spells.mono fun items separated => separated.fills)⟩
  | property name isName =>
    have spells : Spells true false name (· = [.node (.property name)]) :=
      Spells.node (Token.scansAs_name isName) fun _ => rfl
    refine ⟨name, render_property name, .bare rfl (spells.mono ?_)⟩
    rintro items rfl
    exact Bracket.stands_node rfl (reread_property name)
  | binary op left right _ _ ihLeft ihRight =>
    obtain ⟨l, leftRendered, leftWritten⟩ := ihLeft
    obtain ⟨r, rightRendered, rightWritten⟩ := ihRight
    refine ⟨_, ?_, written_binary op leftWritten rightWritten⟩
    rw [render_binary, leftRendered, rightRendered]
    simp [Text.ofString]
  | call name args isName _ ihArgs =>
    obtain ⟨a, rendered, written⟩ := ihArgs
    obtain ⟨inner, after, fills, rfl⟩ := written.fills
    exact ⟨_, render_call_eq name rendered, written_call isName fills⟩

/-- Every formed tree has a rendering, and this spells items that stand for the tree. -/
theorem spells_render {tree : Node} (formed : tree.Formed) :
    ∃ r, tree.render = .ok r ∧ Spells true false r (Stands tree) := by
  obtain ⟨r, rendered, written⟩ := render_written formed
  exact ⟨r, rendered, written.stands⟩

end Node
end Reckoner
