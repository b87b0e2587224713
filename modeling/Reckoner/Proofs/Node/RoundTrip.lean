import Reckoner.Proofs.Node.Acceptance
import Reckoner.Proofs.Node.Identical
import Reckoner.Proofs.Node.Respelled
import Reckoner.Proofs.Node.Spelling
/-!
# Reading a rendering back

Every tree of a formula text has a rendering, and reading that gives what `reread` says (`parse_render`). An equal tree
comes back exactly when the tree has neither short lists nor infinities in it, and then the only change is that whole
binary64 literals have become whole numbers (`round_trip_iff`).
-/
namespace Reckoner

namespace Bracket

/-- Items that stand for a tree are resolved to what the tree reads back as. -/
theorem resolve_stands {n : Node} {items : List Item} (stands : Stands n items)
    (clean : ∀ item ∈ items, item.IsClean Node.Formed) : (resolve items).toOption = n.reread := by
  cases reread : n.reread with
  | some u =>
    obtain ⟨name, read⟩ := stands.read u reread Progress.start rfl
    rw [resolve_eq_read, read, Outcome.ok_bind, Outcome.toOption_eq_some]
    exact Run.reduce_node u
  | none =>
    have verdict := resolve_verdict Node.formed_inherited (fun _ => Node.Formed.isWritable) clean
    have fails : IsIrreducible (resolve items) := by
      rcases stands.stuck reread with spoiled | lacking
      · exact verdict.spoiled spoiled
      · by_cases spoiled : Spoiled items
        · exact verdict.spoiled spoiled
        · exact (verdict.outer spoiled _ stands.balanced).2 lacking.not_reducible
    obtain ⟨run, operator, failed⟩ := fails
    rw [failed]
    rfl

end Bracket

namespace Node

/-- What reading the rendering of a tree gives. -/
theorem parse_render {tree : Node} (formed : tree.Formed) :
    ∃ r, tree.render = .ok r ∧ (parse r).toOption = tree.reread := by
  obtain ⟨r, rendered, spells⟩ := spells_render formed
  obtain ⟨items, read, stands⟩ := Item.ofText_of_spells spells
  refine ⟨r, rendered, ?_⟩
  rw [parse_of_ofText read]
  exact Bracket.resolve_stands stands (Item.ofText_clean read)

/-- A tree whose rendering reads back as an equal tree has neither short lists nor infinities in it. -/
theorem rereadable_of_equals {tree u : Node} (formed : tree.Formed) (reread : tree.reread = some u)
    (equal : u.equals tree = true) : tree.Rereadable := by
  by_contra not
  have fewer := (constants_reread formed reread).lt not
  rw [constants_of_equals formed equal] at fewer
  exact Nat.lt_irrefl _ fewer

/-- Reading a rendering back gives an equal tree exactly when there is neither a short list nor an infinity in the
tree, and then only whole binary64 literals have changed, into the equal whole numbers. -/
theorem round_trip_iff {s : Text} {tree : Node} (parsed : parse s = .ok tree) :
    ((∃ r u, tree.render = .ok r ∧ parse r = .ok u ∧ u.equals tree = true) ↔ tree.Rereadable) ∧
      ∀ r u, tree.render = .ok r → parse r = .ok u → u.equals tree = true → u = tree.respelled := by
  have formed := parse_formed parsed
  obtain ⟨r, rendered, reads⟩ := parse_render formed
  have reread_of_parse : ∀ r' u, tree.render = .ok r' → parse r' = .ok u → tree.reread = some u := by
    intro r' u rendered' read
    rw [rendered] at rendered'
    cases rendered'
    rw [← reads, Outcome.toOption_eq_some]
    exact read
  refine ⟨⟨?_, fun rereadable => ?_⟩, ?_⟩
  · intro given
    obtain ⟨r', u, rendered', read, equal⟩ := given
    exact rereadable_of_equals formed (reread_of_parse r' u rendered' read) equal
  · rw [reread_of_rereadable formed rereadable, Outcome.toOption_eq_some] at reads
    exact ⟨r, tree.respelled, rendered, reads, respelled_equals formed⟩
  · intro r' u rendered' read equal
    have reread := reread_of_parse r' u rendered' read
    have rereadable := rereadable_of_equals formed reread equal
    rw [reread_of_rereadable formed rereadable] at reread
    exact (Option.some.inj reread).symm

/-- A call of a number and a quoted bracket, less a name. -/
theorem round_trip_iff_difference :
    parse "max(1, '(') - x" = .ok (.binary "-" (.call "max" (.constant (.tuple ([.constant (.int 1),
      .constant (.text "(")].map .node)))) (.property "x")) ∧
      ∃ r u, (Node.binary "-" (.call "max" (.constant (.tuple ([.constant (.int 1),
        .constant (.text "(")].map .node)))) (.property "x")).render = .ok r ∧ parse r = .ok u ∧
        u.equals (.binary "-" (.call "max" (.constant (.tuple ([.constant (.int 1),
          .constant (.text "(")].map .node)))) (.property "x")) = true := by
  have parsed : parse "max(1, '(') - x" = .ok (.binary "-" (.call "max" (.constant (.tuple ([.constant (.int 1),
      .constant (.text "(")].map .node)))) (.property "x")) := parse_eq_of_reads (by decide +kernel)
  refine ⟨parsed, (round_trip_iff parsed).1.mpr ?_⟩
  refine rereadable_binary.mpr ⟨rereadable_call.mpr (rereadable_list.mpr ⟨by decide, fun n member => ?_⟩),
    rereadable_property "x"⟩
  rcases List.mem_cons.mp member with rfl | member
  · exact rereadable_int 1
  · rw [List.mem_singleton.mp member]
    exact rereadable_text "("

end Node
end Reckoner
