import Reckoner.Number
import Reckoner.Calendar
/-!
# Equality of values

Numbers are equal when they are the same number, whatever their kind, and NaN differs from everything. Texts compare
by their code points, lists and tuples by their elements, mappings by their entries in any order, and nodes by kind
and fields.
-/
namespace Reckoner

namespace Number

/-- Equality as exact numbers. -/
def equals : Number → Number → Bool
  | .int m, .int n => m == n
  | .int m, .float y => y.equalsInt m
  | .float x, .int n => x.equalsInt n
  | .float x, .float y => x.equals y

end Number

namespace Token

/-- Tokens of one kind with one text are equal, wherever they stand. -/
def equals (s t : Token) : Bool := s.kind == t.kind && s.text == t.text

end Token

namespace Moment

/-- Two moments are equal when both clocks are unrelated to universal time and show the same, or both are related to
it and name the same instant. -/
def equals (a b : Moment) : Bool :=
  match a.offset, b.offset with
  | none, none => a == b
  | some s, some t =>
    a.minutes - s == b.minutes - t && a.second == b.second && a.microsecond == b.microsecond
  | _, _ => false

end Moment

mutual

/-- Equality of values as formulas and settings see it. -/
def Value.equals : Value → Value → Bool
  | .list xs, v =>
    match v with
    | .list ys => Value.equalsAll xs ys
    | _ => false
  | .tuple xs, v =>
    match v with
    | .tuple ys => Value.equalsAll xs ys
    | _ => false
  | .mapping xs, v =>
    match v with
    | .mapping ys => xs.length == ys.length && Value.entriesIn xs ys
    | _ => false
  | .node n, v =>
    match v with
    | .node m => n.equals m
    | _ => false
  | .absent, v =>
    match v with
    | .absent => true
    | _ => false
  | .date d, v =>
    match v with
    | .date e => d == e
    | _ => false
  | .moment m, v =>
    match v with
    | .moment n => m.equals n
    | _ => false
  | .token s, v =>
    match v with
    | .token t => s.equals t
    | .text t => s.text == t
    | _ => false
  | .text s, v => v.asText? == some s
  | .bool b, v => Value.equalsNumber (.int (if b then 1 else 0)) v
  | .int n, v => Value.equalsNumber (.int n) v
  | .float x, v => Value.equalsNumber (.float x) v

/-- Equality of a number with a value. -/
def Value.equalsNumber (a : Number) (v : Value) : Bool :=
  match Number.ofValue? v with
  | some b => a.equals b
  | none => false

/-- Equality of two lists of values, element by element. -/
def Value.equalsAll : List Value → List Value → Bool
  | [], [] => true
  | x :: xs, y :: ys => x.equals y && Value.equalsAll xs ys
  | _, _ => false

/-- Has every entry of the first list an equal value under its key in the second? -/
def Value.entriesIn : List (Value × Value) → List (Value × Value) → Bool
  | [], _ => true
  | (key, v) :: rest, entries =>
    (entries.find? fun entry => key.equals entry.1).any (fun entry => v.equals entry.2) &&
      Value.entriesIn rest entries

/-- Equality of nodes: the same kind with equal fields. -/
def Node.equals : Node → Node → Bool
  | .constant v, n =>
    match n with
    | .constant w => v.equals w
    | _ => false
  | .property s, n =>
    match n with
    | .property t => s == t
    | _ => false
  | .binary op left right, n =>
    match n with
    | .binary op' left' right' => op == op' && left.equals left' && right.equals right'
    | _ => false
  | .call name args, n =>
    match n with
    | .call name' args' => name == name' && args.equals args'
    | _ => false

end

/-- The value kept under a key. -/
def Value.entryFor? (key : Value) (entries : List (Value × Value)) : Option Value :=
  (entries.find? fun entry => entry.1.equals key).map Prod.snd

/-- The entries with a value under a key, where `same` says which keys are one: a key that is there already keeps its
place and its first form. -/
def Value.withEntryBy (same : Value → Value → Bool) (key v : Value) : List (Value × Value) → List (Value × Value)
  | [] => [(key, v)]
  | entry :: rest => if same entry.1 key then (entry.1, v) :: rest else entry :: withEntryBy same key v rest

/-- The entries with a value under a key; equal keys are one. -/
def Value.withEntry (key v : Value) (entries : List (Value × Value)) : List (Value × Value) :=
  withEntryBy Value.equals key v entries

/-- The entries of a mapping built one after the other, where `same` says which keys are one. -/
def Value.ofEntriesBy (same : Value → Value → Bool) (entries : List (Value × Value)) : List (Value × Value) :=
  entries.foldl (fun built entry => withEntryBy same entry.1 entry.2 built) []

/-- The entries of a mapping built one after the other; equal keys are one. -/
def Value.ofEntries (entries : List (Value × Value)) : List (Value × Value) := ofEntriesBy Value.equals entries

end Reckoner
