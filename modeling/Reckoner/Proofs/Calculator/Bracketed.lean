import Reckoner.Proofs.Bracket.Renamed
import Reckoner.Proofs.Calculator.Answers
import Reckoner.Proofs.Node.Grouping
import Reckoner.Proofs.Reference.Bracketed
/-!
# Bare and bracketed names

A name that a formula reads may be written bare or between brackets. As long as neither the formula nor the variables
have a name that is a placeholder, both spellings are worked out alike, whichever of the names are bracketed
(`evaluate_bracketed`): the text that is read for the bracketed formula has the tokens of the formula with placeholders
among them, so its tree is the tree of the formula with placeholders for names, and these have the values of the names.
-/
namespace Reckoner

namespace Substitution

/-- The name that a text stands for, which is the text itself unless it is a placeholder. -/
def original (s : Substitution) (x : Text) : Text := (s.stands? x).getD x

theorem original_of_ne {x : Text} (other : ∀ i, x ≠ placeholder i) (s : Substitution) : s.original x = x := by
  have none : s.stands? x = none := by
    rw [Option.eq_none_iff_forall_ne_some]
    intro name stands
    obtain ⟨i, -, same⟩ := stands?_eq_some.mp stands
    exact other i same
  rw [original, none]
  rfl

theorem original_of_reference {formula written : Text} (piece : .reference written ∈ Piece.ofText formula) :
    (ofText formula).original (placeholder ((ofText formula).names.idxOf written.strip)) = written.strip := by
  have listed : written.strip ∈ (ofText formula).names :=
    List.mem_eraseDups.mpr (List.mem_filterMap.mpr ⟨_, piece, rfl⟩)
  rw [original, stands?_eq_some.mpr ⟨_, List.getElem?_idxOf listed, rfl⟩]
  rfl

theorem ne_placeholder_of_head {x : Text} (other : x.head? ≠ some (.scalar 'p')) (i : Nat) : x ≠ placeholder i := by
  rintro rfl
  exact other rfl

end Substitution

namespace Calculator

open Substitution (ofText placeholder)

variable {c : Calculator} {values : Context} {chosen : Token → Bool} {formula : Text} {tree : Node}

/-- If no variable is called like a placeholder, every name reads the value of the name it stands for. -/
theorem read_context_eq (keys : ∀ entry ∈ c.named values, ∀ i, entry.1 ≠ placeholder i) (s : Substitution) (x : Text) :
    (c.context s values).read x = (c.named values).read (s.original x) := by
  cases stands : s.stands? x with
  | none =>
    rw [read_context_of_unbound (by simp [stands]), Substitution.original, stands]
    rfl
  | some name =>
    have own : s.original x = name := by
      rw [Substitution.original, stands]
      rfl
    cases value : (c.named values).get? name with
    | some v => rw [read_context_of_bound stands value, own, Context.read_of_get? value]
    | none =>
      have unbound : ∀ other, s.stands? x = some other → (c.named values).get? other = none := by
        intro other same
        rw [stands] at same
        cases same
        exact value
      have missing : (c.named values).get? x = none := by
        obtain ⟨i, -, rfl⟩ := Substitution.stands?_eq_some.mp stands
        refine List.lookup_eq_none_iff.mpr fun entry member => ?_
        simpa using (keys entry member i).symm
      rw [read_context_of_unbound unbound, own, Context.read_of_get?_none value, Context.read_of_get?_none missing]

end Calculator

namespace Token

open Substitution (ofText placeholder)

variable {formula : Text}

/-- The text that is read for a bracketed formula has its tokens, once names are put in the place of placeholders, and
no placeholder is called. -/
theorem scan_bracketed (chosen : Token → Bool) (known : ∀ t ∈ scan formula, t.kind ≠ .unknown)
    (quoted : ∀ t ∈ scan formula, t.kind = .string → ∀ written, .reference written ∉ Piece.ofText t.text)
    (names : ∀ t ∈ scan formula, t.kind = .name → ∀ i, t.text ≠ placeholder i) :
    ((scan (ofText (formula.bracketed chosen)).text).map
        (rename (ofText (formula.bracketed chosen)).original)).map unplaced = (scan formula).map unplaced ∧
      (scan (ofText (formula.bracketed chosen)).text).IsChain
        (Item.KeepsCalleeToken (ofText (formula.bracketed chosen)).original) := by
  obtain ⟨lexemes, apart⟩ := Lexeme.scan_bracketFrom chosen known quoted
  generalize text : formula.bracketed chosen = written
  have labels : (scan (ofText written).text).map (fun t => (t.kind, t.text)) =
      (spelled chosen (scan formula)).map (Lexeme.label (ofText written).names) := by
    rw [Substitution.text_ofText, scan, (Lexeme.map_label_scan_iff _ _ 0).mpr (text ▸ apart), scan, ← lexemes,
      List.map_map, ← text]
    rfl
  have fixed : ∀ t ∈ scan formula, t.kind = .name → (ofText written).original t.text = t.text :=
    fun t member isName => Substitution.original_of_ne (names t member isName) _
  have original : ∀ name, .reference name ∈ spelled chosen (scan formula) →
      (ofText written).original (placeholder ((ofText written).names.idxOf name.strip)) = name := by
    intro name member
    obtain ⟨t, inside, isName, rfl⟩ := mem_of_reference member
    rw [scan, ← lexemes] at member
    obtain ⟨⟨lexeme, behind⟩, entry, rfl⟩ := List.mem_map.mp member
    rw [Substitution.original_of_reference (text ▸ Lexeme.reference_mem_ofText entry)]
    exact ((isLexeme_of_mem_scan inside).name isName).strip
  constructor
  · refine map_unplaced_of_labels (fun t member => ?_) (fun t member => (isLexeme_of_mem_scan member).position) ?_
    · obtain ⟨u, inside, rfl⟩ := List.mem_map.mp member
      rw [position_rename]
      exact (isLexeme_of_mem_scan inside).position
    · rw [map_label_rename, labels, List.map_map]
      exact map_label_spelled original fixed
  · have kept := isChain_spelled chosen (ofText written).names fixed
    rw [← labels, List.isChain_map] at kept
    exact kept

end Token

namespace Calculator

open Substitution (ofText placeholder)

variable {values : Context} {chosen : Token → Bool} {formula : Text} {tree : Node}

/-- A formula with some of its names between brackets is worked out as its tree is on the variables themselves. -/
theorem evaluate_of_bracketed (c : Calculator) (values : Context) (chosen : Token → Bool)
    (parsed : Node.parse formula = .ok tree) (lists : tree.ListsAreArguments)
    (quoted : ∀ t ∈ Token.scan formula, t.kind = .string → ∀ written, .reference written ∉ Piece.ofText t.text)
    (names : ∀ t ∈ Token.scan formula, t.kind = .name → ∀ i, t.text ≠ placeholder i)
    (keys : ∀ entry ∈ c.named values, ∀ i, entry.1 ≠ placeholder i) :
    (c.evaluate (formula.bracketed chosen) values).map Evaluation.value =
      tree.compute c.functions (c.named values) >>= fun v => v.display >>= fun _ => .ok v := by
  obtain ⟨items, read, -⟩ := Outcome.bind_eq_ok.mp parsed
  obtain ⟨raw, classified, -⟩ := Outcome.bind_eq_ok.mp read
  obtain ⟨same, kept⟩ := Token.scan_bracketed chosen (Literal.known_of_mapM classified) quoted names
  obtain ⟨other, parsedHere, rfl⟩ := Node.parse_rename same kept parsed
  have reads := fun name => (read_context_eq keys (ofText (formula.bracketed chosen)) name).symm
  have value := Node.compute_rename c.functions reads lists
  rw [evaluate, compute, parsedHere, Outcome.ok_bind, value]
  cases other.compute c.functions (c.context (ofText (formula.bracketed chosen)) values) with
  | error e => rfl
  | ok v =>
    obtain ⟨rendered, presents⟩ := present_eq (ofText (formula.bracketed chosen)).text (Node.parse_formed parsedHere) v
    simp only [Outcome.ok_bind, Outcome.pure_eq_ok, presents]
    cases v.display <;> rfl

/-- Bracketed and bare names give the same value, or the same fault. -/
theorem evaluate_bracketed (c : Calculator) (values : Context) (chosen : Token → Bool)
    (parsed : Node.parse formula = .ok tree) (lists : tree.ListsAreArguments)
    (quoted : ∀ t ∈ Token.scan formula, t.kind = .string → ∀ written, .reference written ∉ Piece.ofText t.text)
    (names : ∀ t ∈ Token.scan formula, t.kind = .name → ∀ i, t.text ≠ placeholder i)
    (keys : ∀ entry ∈ c.named values, ∀ i, entry.1 ≠ placeholder i) :
    (c.evaluate (formula.bracketed chosen) values).map Evaluation.value =
      (c.evaluate formula values).map Evaluation.value := by
  have bare : formula.bracketed (fun _ => false) = formula := Token.bracketFrom_none 0 formula
  have here := evaluate_of_bracketed c values (fun _ => false) parsed lists quoted names keys
  rw [bare] at here
  rw [evaluate_of_bracketed c values chosen parsed lists quoted names keys, here]

/-- Two of three operands between brackets, one of them a name that is read twice, beside a callee and a string literal
with a bracket in it. -/
theorem evaluate_bracketed_product :
    Text.bracketed (fun t => t.position != some 12) "Add(x, y) * x + '[b'" = "Add( [x] ,  [y] ) * x + '[b'" ∧
      ((withDefaults [("y", .int 2)]).evaluate "Add( [x] ,  [y] ) * x + '[b'" [("x", .int 1)]).map Evaluation.value =
        ((withDefaults [("y", .int 2)]).evaluate "Add(x, y) * x + '[b'" [("x", .int 1)]).map Evaluation.value := by
  have spelled : Text.bracketed (fun t => t.position != some 12) "Add(x, y) * x + '[b'" =
      "Add( [x] ,  [y] ) * x + '[b'" := by decide +kernel
  have parsed : Node.parse "Add(x, y) * x + '[b'" = .ok (.binary "+" (.binary "*" (.call "Add" (.constant (.tuple
      ([.property "x", .property "y"].map .node)))) (.property "x")) (.constant (.text "[b"))) :=
    Node.parse_eq_of_reads (by decide +kernel)
  have arguments : ∀ n ∈ (Node.constant (.tuple ([.property "x", .property "y"].map .node))).arguments,
      n.ListsAreArguments := by
    rw [Node.arguments_list]
    simp [Node.ListsAreArguments.property]
  have pieces : ∀ t ∈ Token.scan "Add(x, y) * x + '[b'", t.kind = .string →
      (Piece.ofText t.text).filterMap Piece.name? = [] := by decide +kernel
  have heads : ∀ t ∈ Token.scan "Add(x, y) * x + '[b'", t.text.head? ≠ some (.scalar 'p') := by decide +kernel
  refine ⟨spelled, spelled ▸ evaluate_bracketed _ _ _ parsed
    (.binary _ _ _ (.binary _ _ _ (.call _ _ arguments) (.property _)) (.constant _ (by simp)))
    (fun t member isString written piece => ?_)
    (fun t member _ => Substitution.ne_placeholder_of_head (heads t member))
    fun entry member => Substitution.ne_placeholder_of_head ?_⟩
  · have named : written.strip ∈ (Piece.ofText t.text).filterMap Piece.name? :=
      List.mem_filterMap.mpr ⟨_, piece, rfl⟩
    rw [pieces t member isString] at named
    cases named
  · have keys : entry.1 = "x" ∨ entry.1 = "y" := by
      simp only [named, withDefaults, List.cons_append, List.nil_append, List.mem_cons, List.not_mem_nil,
        or_false] at member
      rcases member with rfl | rfl
      · exact .inl rfl
      · exact .inr rfl
    rcases keys with key | key <;> rw [key] <;> decide

end Calculator
end Reckoner
