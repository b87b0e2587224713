import Reckoner.Item.Run
/-!
# Brackets

Items are read from left to right; an opening bracket sets the current run aside and a closing one reduces it to a
node of the run outside. A name directly before an opening bracket makes the pair a call of that name. A closing
bracket that nothing opened stays in the outermost run, and a pair left open, or else such a closing bracket with a
known position, is reported once all items are read.
-/
namespace Reckoner.Bracket

/-- An open bracket: the name it calls, its position, and the run outside it in reverse. -/
structure Pending where
  callee : Option Text
  position : Option Int
  outer : List Item

/-- What has been read: the current run in reverse, the open brackets from the inside out, the position of the first
closing bracket that nothing opened, and the name that the last item was. -/
structure Progress where
  run : List Item
  pending : List Pending
  stray : Option Int
  name : Option Text

namespace Progress

def start : Progress := ⟨[], [], none, none⟩

/-- One more item of the current run. -/
def push (p : Progress) (item : Item) : Progress :=
  { p with run := item :: p.run, name := none }

/-- An opening bracket; a name directly before it leaves the run and becomes the callee. -/
def openPair (p : Progress) (position : Option Int) : Progress :=
  let outer := if p.name.isSome then p.run.tail else p.run
  { p with run := [], pending := ⟨p.name, position, outer⟩ :: p.pending, name := none }

/-- The node of a reduced pair. -/
def groupNode (callee : Option Text) (inner : Node) : Node :=
  match callee with
  | some name => .call name inner
  | none => inner

/-- A closing bracket. -/
def closePair (p : Progress) (t : Token) : Outcome Progress :=
  match p.pending with
  | [] => .ok { p.push (.token t) with stray := p.stray.or t.position }
  | innermost :: pending => do
    let inner ← Run.reduce p.run.reverse
    return { p with
      run := .node (groupNode innermost.callee inner) :: innermost.outer
      pending := pending
      name := none }

/-- What one item changes. -/
def step (p : Progress) (item : Item) : Outcome Progress :=
  match item with
  | .node (.property name) => .ok { p.push item with name := some name }
  | .node _ => .ok (p.push item)
  | .token t =>
    if t.kind = .leftParen then .ok (p.openPair t.position)
    else if t.kind = .rightParen then p.closePair t
    else .ok (p.push item)

/-- The node that all items leave. -/
def finish (p : Progress) : Outcome Node :=
  match p.pending, p.stray with
  | innermost :: _, _ => .fail (.mismatchedBrackets innermost.position)
  | [], some position => .fail (.mismatchedBrackets (some position))
  | [], none => Run.reduce p.run.reverse

end Progress

/-- The node a list of items with brackets reduces to. -/
def resolve (items : List Item) : Outcome Node := do
  let read ← items.foldlM Progress.step Progress.start
  read.finish

end Reckoner.Bracket
