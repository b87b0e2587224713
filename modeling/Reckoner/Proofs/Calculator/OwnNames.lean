import Reckoner.Proofs.Node.Operands
import Reckoner.Proofs.Reference.Origin
/-!
# Which value each name of a formula reads

A reference should read the value of the name between its brackets, and any other name its own value, whatever values
there are beside it. Placeholders share their names with the variables of the user, so this holds only as long as
nothing else is called like a placeholder (`readsOwnNames_iff`).
-/
namespace Reckoner.Calculator

open Substitution (ofText)

/-- The operand names in the text that a formula is read as. -/
def operandTokens (formula : Text) : List Token := Token.operands (Token.scan (ofText formula).text)

/-- What an operand reads while the formula is worked out. -/
def reading (c : Calculator) (formula : Text) (values : Context) (t : Token) : Outcome Value :=
  (Node.property t.text).compute c.functions (c.context (ofText formula) values)

/-- Every operand reads the value of its own name, absent if it has none, and a reference and a bare name have nothing
to do with each other unless their names are equal. -/
structure ReadsOwnNames (c : Calculator) (formula : Text) (values : Context) : Prop where
  own : ∀ t ∈ operandTokens formula, ∃ origin, Origin.of? formula t = some origin ∧
    c.reading formula values t = .ok ((c.named values).read (origin.ownName t))
  apart : ∀ t ∈ operandTokens formula, ∀ u ∈ operandTokens formula, ∀ name,
    Origin.of? formula t = some (.reference name) → Origin.of? formula u = some .bare → name ≠ u.text → ∀ v,
      c.reading formula ((u.text, v) :: values) t = c.reading formula values t ∧
        c.reading formula ((name, v) :: values) u = c.reading formula values u

/-- Nothing else is called like a placeholder, or at least its value is that of the name the placeholder stands for. -/
structure KeepsPlaceholders (c : Calculator) (formula : Text) (values : Context) : Prop where
  /-- No operand is made of a reference and of what stands directly beside it. -/
  whole : ∀ t ∈ operandTokens formula, ∃ origin, Origin.of? formula t = some origin
  /-- There is no variable with the name of a placeholder whose reference has no value. -/
  unbound : ∀ t ∈ operandTokens formula, ∀ name, Origin.of? formula t = some (.reference name) →
    (c.named values).get? name = none → (c.named values).read t.text = .absent
  /-- A bare name that is a placeholder has the value of the reference, if that has one. -/
  taken : ∀ t ∈ operandTokens formula, Origin.of? formula t = some .bare → ∀ name,
    (ofText formula).stands? t.text = some name → (c.named values).get? name ≠ none →
      (c.named values).read name = (c.named values).read t.text
  /-- A bare name that is the placeholder of a reference beside it is the name of that reference. -/
  distinct : ∀ t ∈ operandTokens formula, ∀ u ∈ operandTokens formula, ∀ name,
    Origin.of? formula t = some (.reference name) → Origin.of? formula u = some .bare → u.text = t.text →
      name = u.text

variable {c : Calculator} {formula : Text} {values : Context} {t u : Token} {name : Text}

theorem reading_eq : c.reading formula values t = .ok ((c.context (ofText formula) values).read t.text) := by
  rw [reading, Node.compute]

/-- What a placeholder reads. -/
theorem reading_of_bound {v : Value} (stands : (ofText formula).stands? t.text = some name)
    (bound : (c.named values).get? name = some v) : c.reading formula values t = .ok v := by
  rw [reading_eq, read_context_of_bound stands bound]

theorem reading_of_unbound
    (unbound : ∀ name, (ofText formula).stands? t.text = some name → (c.named values).get? name = none) :
    c.reading formula values t = .ok ((c.named values).read t.text) := by
  rw [reading_eq, read_context_of_unbound unbound]

/-- A placeholder whose name has no value reads the variable that is called like the placeholder. -/
theorem reading_of_missing (stands : (ofText formula).stands? t.text = some name)
    (missing : (c.named values).get? name = none) :
    c.reading formula values t = .ok ((c.named values).read t.text) := by
  refine reading_of_unbound fun other again => ?_
  rw [stands] at again
  cases again
  exact missing

/-- What a token reads does not depend on a name that is neither its own text nor the one it stands for. -/
theorem reading_cons {other : Text} (v : Value) (notText : t.text ≠ other)
    (notStanding : (ofText formula).stands? t.text ≠ some other) :
    c.reading formula ((other, v) :: values) t = c.reading formula values t := by
  have sameName : ∀ name, (ofText formula).stands? t.text = some name →
      (c.named ((other, v) :: values)).get? name = (c.named values).get? name := by
    intro name stands
    have different : name ≠ other := by
      rintro rfl
      exact notStanding stands
    rw [named_cons, Context.get?_cons_of_ne v different]
  rcases (ofText formula).bound_or_unbound (c.named values) t.text with ⟨name, w, stands, value⟩ | unbound
  · rw [reading_of_bound stands value, reading_of_bound stands ((sameName name stands).trans value)]
  · rw [reading_of_unbound unbound,
      reading_of_unbound fun name stands => (sameName name stands).trans (unbound name stands), named_cons,
      Context.read_cons_of_ne v notText]

theorem ReadsOwnNames.reading_eq {origin : Origin} (reads : c.ReadsOwnNames formula values)
    (operand : t ∈ operandTokens formula) (comes : Origin.of? formula t = some origin) :
    c.reading formula values t = .ok ((c.named values).read (origin.ownName t)) := by
  obtain ⟨same, comes', value⟩ := reads.own t operand
  rw [comes] at comes'
  cases comes'
  exact value

theorem keepsPlaceholders_of_readsOwnNames (reads : c.ReadsOwnNames formula values) :
    c.KeepsPlaceholders formula values where
  whole t operand := by
    obtain ⟨origin, comes, -⟩ := reads.own t operand
    exact ⟨origin, comes⟩
  unbound t operand name comes missing := by
    have value := reads.reading_eq operand comes
    have stands := Origin.stands?_of_reference comes
    rw [reading_of_missing stands missing, Origin.ownName, Context.read_of_get?_none missing] at value
    exact Except.ok.inj value
  taken t operand comes name stands bound := by
    have value := reads.reading_eq operand comes
    obtain ⟨v, isValue⟩ := Option.ne_none_iff_exists'.mp bound
    rw [reading_of_bound stands isValue] at value
    rw [Context.read_of_get? isValue]
    exact Except.ok.inj value
  distinct t operand u other name comes comesOther same := by
    by_contra ne
    have stands : (ofText formula).stands? u.text = some name := same ▸ Origin.stands?_of_reference comes
    -- the bare name would read every value that the reference is given
    have follows (v : Value) : c.reading formula values u = .ok v := by
      rw [← (reads.apart t operand u other name comes comesOther ne v).2]
      exact reading_of_bound stands (Context.get?_cons_self v)
    have two := (follows .absent).symm.trans (follows (.bool true))
    cases two

theorem readsOwnNames_of_keepsPlaceholders (keeps : c.KeepsPlaceholders formula values) :
    c.ReadsOwnNames formula values where
  own t operand := by
    obtain ⟨origin, comes⟩ := keeps.whole t operand
    refine ⟨origin, comes, ?_⟩
    cases origin with
    | reference name =>
      have stands := Origin.stands?_of_reference comes
      rw [Origin.ownName]
      cases value : (c.named values).get? name with
      | some v => rw [reading_of_bound stands value, Context.read_of_get? value]
      | none =>
        rw [reading_of_missing stands value, keeps.unbound t operand name comes value,
          Context.read_of_get?_none value]
    | bare =>
      rw [Origin.ownName]
      rcases (ofText formula).bound_or_unbound (c.named values) t.text with ⟨name, v, stands, value⟩ | unbound
      · rw [reading_of_bound stands value, ← keeps.taken t operand comes name stands (by simp [value]),
          Context.read_of_get? value]
      · exact reading_of_unbound unbound
  apart t operand u other name comes comesOther ne v := by
    have stands := Origin.stands?_of_reference comes
    have differ : t.text ≠ u.text := fun same =>
      ne (keeps.distinct t operand u other name comes comesOther same.symm)
    refine ⟨reading_cons v differ fun itself => ?_, reading_cons v ne.symm fun itself => ?_⟩
    · rw [stands] at itself
      exact ne (Option.some.inj itself)
    · exact differ (Substitution.eq_of_stands? stands itself)

/-- Every operand reads its own name exactly when nothing else is called like a placeholder; and the operands are the
names that the tree of the formula reads, in their order. -/
theorem readsOwnNames_iff (c : Calculator) (formula : Text) (values : Context) :
    (c.ReadsOwnNames formula values ↔ c.KeepsPlaceholders formula values) ∧
      ∀ tree, Node.parse (ofText formula).text = .ok tree →
        tree.operandNames = (operandTokens formula).map Token.text :=
  ⟨⟨keepsPlaceholders_of_readsOwnNames, readsOwnNames_of_keepsPlaceholders⟩, fun _ => Node.operandNames_parse⟩

/-- In `[a] + prop1` the bare name is also the placeholder of the reference, so it reads 1 and not its own value 10. -/
theorem not_readsOwnNames_sum :
    ¬(withDefaults []).ReadsOwnNames "[a] + prop1" [("a", .int 1), ("prop1", .int 10)] := by
  intro reads
  have operand : ⟨.name, "prop1", some 8⟩ ∈ operandTokens "[a] + prop1" := by decide +kernel
  have bare : Origin.of? "[a] + prop1" ⟨.name, "prop1", some 8⟩ = some .bare := by decide +kernel
  have stands : (ofText "[a] + prop1").stands? "prop1" = some "a" := by decide +kernel
  have bound : ((withDefaults []).named [("a", .int 1), ("prop1", .int 10)]).get? "a" = some (.int 1) := by rfl
  have value := reads.reading_eq operand bare
  rw [reading_of_bound stands bound] at value
  cases value

end Reckoner.Calculator
