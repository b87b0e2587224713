import Reckoner.Node.Render
/-!
# Redaction

Before a mapping is written down, the values of keys that name secrets are replaced by a mark, at every level that is
reached through mappings alone. Texts that stay are cut to 256 code points. A key names a secret when one of a few
words occurs in it, in either case of its letters.
-/
namespace Reckoner.Redaction

/-- The words that make a key name a secret. -/
def words : List Text :=
  ["password", "passwd", "secret", "token", "api_key", "apikey", "authorization", "cookie", "session", "bearer"]

/-- The small ASCII letter that a code point is a case of, or the code point itself. The long and the undotted
letters and the sign of the kelvin count among the cases. -/
def smallLetter (c : CodePoint) : CodePoint :=
  match c with
  | .scalar '\u017f' => .scalar 's'
  | .scalar '\u212a' => .scalar 'k'
  | .scalar '\u0130' => .scalar 'i'
  | .scalar '\u0131' => .scalar 'i'
  | .scalar d => .scalar d.toLower
  | c => c

/-- Does the word occur in the text? -/
def occurs (word : Text) : Text → Bool
  | [] => word.isEmpty
  | c :: rest => word.isPrefixOf (c :: rest) || occurs word rest

/-- Does the text name a secret? -/
def namesSecret (t : Text) : Bool := words.any (occurs · (t.map smallLetter))

/-- Does the key name a secret? -/
def isSecretKey (key : Value) : Outcome Bool := return namesSecret (← key.plain)

/-- What stands for a secret. -/
def mark : Text := "[REDACTED]"

/-- How many code points of a text are kept. -/
def maxLength : Nat := 256

/-- What follows a text that was cut. -/
def cutMark : Text := "...[truncated]"

/-- The text as it is kept. -/
def shortened (t : Text) : Text := if maxLength < t.length then t.take maxLength ++ cutMark else t

mutual

/-- The value as it is kept under a key that names no secret. -/
def keep : Value → Outcome Value
  | .mapping entries => return .mapping (← redact entries)
  | .text t => .ok (.text (shortened t))
  | .token t => .ok (if maxLength < t.text.length then .text (shortened t.text) else .token t)
  | v => .ok v

/-- The entries as they are kept. This fails only at a key that cannot be written out. -/
def redact : List (Value × Value) → Outcome (List (Value × Value))
  | [] => .ok []
  | (key, v) :: rest => do
    let kept ← if ← isSecretKey key then .ok (.text mark) else keep v
    return (key, kept) :: (← redact rest)

end

end Reckoner.Redaction
