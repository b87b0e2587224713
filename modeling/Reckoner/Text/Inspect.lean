import Reckoner.Text.Printable
/-!
# Diagnostic quotation

Messages name a text between single quotes, or between double quotes when it holds a single quote and no double
one. Characters without a visible form are written as escapes of two, four or eight hexadecimal digits.
-/
namespace Reckoner.Text

/-- The quote a diagnostic quotation of the text uses. -/
def inspectQuote (t : Text) : CodePoint :=
  if .scalar '\'' ∈ t ∧ .scalar '"' ∉ t then .scalar '"' else .scalar '\''

/-- How one code point stands between diagnostic quotes. -/
def inspectChar (quote c : CodePoint) : Text :=
  if c = quote ∨ c = .scalar '\\' then [.scalar '\\', c]
  else if c = .scalar '\n' then "\\n"
  else if c = .scalar '\r' then "\\r"
  else if c = .scalar '\t' then "\\t"
  else if c.isPrintable then [c]
  else if c.toNat ≤ 0xFF then "\\x" ++ hex 2 c.toNat
  else if c.toNat ≤ 0xFFFF then "\\u" ++ hex 4 c.toNat
  else "\\U" ++ hex 8 c.toNat

/-- The text as a message names it. -/
def inspect (t : Text) : Text :=
  let quote := inspectQuote t
  quote :: t.flatMap (inspectChar quote) ++ [quote]

end Reckoner.Text
