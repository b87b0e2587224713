import Reckoner.Proofs.Bracket.Placement
import Reckoner.Proofs.Item.Renamed
import Reckoner.Proofs.Token.Spacing
/-!
# Formulas with other blanks

What is read from a text depends on the kinds and texts of its tokens (`parse_of_unplaced`), so a formula with other
blanks between its tokens has the same tree or is refused for the same kind of reason.
-/
namespace Reckoner

open Outcome (Matches)

/-- Texts with tokens that differ in positions alone have the same tree, or fail in the same way. -/
theorem Node.parse_of_unplaced {s other : Text}
    (same : (Token.scan other).map Token.unplaced = (Token.scan s).map Token.unplaced) :
    Matches (· = ·) (parse other) (parse s) := by
  refine .bind (Item.ofTokens_matches same) fun others items _ read unplaced => ?_
  exact Bracket.resolve_matches formed_inherited (fun _ => Formed.isWritable) unplaced (Item.ofText_clean read)

namespace Token

/-- Blanks between tokens do not matter: a text of the same words with other blanks between them has the same tokens,
and the same tree or a fault of the same kind. -/
theorem scan_parse_of_isSpacing {s spaced : Text} (known : ∀ t ∈ scan s, t.kind ≠ .unknown)
    (spacing : IsSpacing ((scan s).map text) spaced) :
    (scan spaced).map label = (scan s).map label ∧ Matches (· = ·) (Node.parse spaced) (Node.parse s) := by
  have labels := label_scan_of_isSpacing known spacing
  have placed (text : Text) : ∀ t ∈ scan text, t.position.isSome := fun t member =>
    (isLexeme_of_mem_scan member).position
  exact ⟨labels, Node.parse_of_unplaced (map_unplaced_of_labels (placed spaced) (placed s) labels)⟩

/-- A quoted blank stays, and the blanks around the tokens can be any. -/
theorem scan_parse_of_isSpacing_call :
    (scan " -\t1.5\n*  f\x0b( 'a b' ,\t.5 )\x0d").map label = (scan "-1.5*f('a b',.5)").map label ∧
      Matches (· = ·) (Node.parse " -\t1.5\n*  f\x0b( 'a b' ,\t.5 )\x0d") (Node.parse "-1.5*f('a b',.5)") := by
  have words : (scan "-1.5*f('a b',.5)").map text = ["-", "1.5", "*", "f", "(", "'a b'", ",", ".5", ")"] := by
    decide +kernel
  have known : ∀ t ∈ scan "-1.5*f('a b',.5)", t.kind ≠ .unknown := by decide +kernel
  have last := Joined.cons "," "\t" (by decide) (by decide) (.cons ".5" " " (by decide) (by decide) (.single ")"))
  have call := Joined.cons "(" " " (by decide) (by decide) (.cons "'a b'" " " (by decide) (by decide) last)
  have product := Joined.cons "*" "  " (by decide) (by decide) (.cons "f" "\x0b" (by decide) (by decide) call)
  have joined := Joined.cons "-" "\t" (by decide) (by decide) (.cons "1.5" "\n" (by decide) (by decide) product)
  refine scan_parse_of_isSpacing known (words ▸ ⟨" ", _, "\x0d", ?_, by decide, by decide, joined⟩)
  decide +kernel

end Token
end Reckoner
