import Reckoner.Proofs.Journal.Append
import Mathlib.Data.List.Forall2
/-!
# A journal of events alone

A journal that was written by events alone holds one ended line for each of them in their order (`Holds`), another event
adds its line, and as long as no text in the events has anything to join reading gives all of them, the newest first
(`Holds.read`).
-/
namespace Reckoner.Journal

/-- The line that an event has at a time. -/
def IsLineOf (formats : Formats) (told : Text × Event) (line : Text) : Prop :=
  ∃ j, told.2.toJson formats told.1 = .ok j ∧ j.write = .ok line

/-- The value that is read for an event which was written at a time. -/
def IsRecordOf (formats : Formats) (told : Text × Event) (k : Json) : Prop :=
  ∃ j, told.2.toJson formats told.1 = .ok j ∧ k = j.sorted

/-- No text in the event has two halves of a surrogate pair side by side. -/
def IsUnbroken (formats : Formats) (told : Text × Event) : Prop :=
  ∀ j, told.2.toJson formats told.1 = .ok j → j.sorted.joined = j.sorted

/-- The journal holds the lines of the events, each ended, and nothing else. -/
def Holds (formats : Formats) (journal : Journal) (events : List (Text × Event)) : Prop :=
  ∃ lines, List.Forall₂ (IsLineOf formats) events lines ∧
    (Text.Utf8.decode (journal.bytes?.getD [])).lines = lines ++ [[]]

variable {journal : Journal} {events : List (Text × Event)} {told : Text × Event} {line : Text} {q : Query}
  {formats : Formats}

theorem holds_nil (none : journal.bytes? = .none) : journal.Holds formats [] := by
  refine ⟨[], .nil, ?_⟩
  rw [none]
  rfl

theorem Holds.withDirectory (holds : journal.Holds formats events) : journal.withDirectory.Holds formats events := by
  unfold Holds
  rw [bytes?_withDirectory]
  exact holds

theorem IsLineOf.strip (own : IsLineOf formats told line) : line ≠ [] ∧ line.strip = line := by
  obtain ⟨j, made, written⟩ := own
  obtain ⟨nonempty, first, last⟩ := Event.visible_of_write made written
  exact ⟨nonempty, Text.strip_append [] nonempty first last⟩

/-- Another event adds its line. -/
theorem Holds.append (holds : journal.Holds formats events) (directory : journal ≠ .noDirectory)
    (own : IsLineOf formats told line) :
    (journal.append formats told.1 told.2).Holds formats (events ++ [told]) := by
  obtain ⟨lines, each, content⟩ := holds
  obtain ⟨j, made, written⟩ := own
  have after : (journal.append formats told.1 told.2).bytes? =
      some (journal.bytes?.getD [] ++ Text.Utf8.encode line ++ [10]) := by
    rw [Journal.append, Event.line?_eq_some.mpr ⟨j, made, written⟩]
    cases journal with
    | noDirectory => exact absurd rfl directory
    | noFile => rfl
    | file bytes => rfl
  refine ⟨lines ++ [line], List.rel_append each (.cons ⟨j, made, written⟩ .nil), ?_⟩
  rw [after, Option.getD_some, lines_append (Json.isPrintableAscii_write written), Text.endedLines_of_lines content,
    Text.openLine_of_lines content, List.nil_append]

/-- The lines of events are what a journal of them holds. -/
theorem Holds.records (lines : List Text) (each : List.Forall₂ (IsLineOf formats) events lines) :
    records (lines ++ [[]]) = lines := by
  have empty : Journal.records [[]] = [] := rfl
  rw [records_append, empty, List.append_nil]
  induction each with
  | nil => rfl
  | @cons told line events lines own others ih =>
    obtain ⟨nonempty, same⟩ := own.strip
    have single : Journal.records [line] = [line] := by simp [Journal.records, same, nonempty]
    rw [← List.singleton_append, records_append, single, ih]

/-- Lines of events are legible, and hold the events with their keys sorted. -/
theorem held_lines {lines : List Text} (each : List.Forall₂ (IsLineOf formats) events lines)
    (unbroken : ∀ told ∈ events, IsUnbroken formats told) :
    (∀ line ∈ lines, IsLegible line) ∧ List.Forall₂ (IsRecordOf formats) events (held lines) := by
  induction each with
  | nil => exact ⟨by simp, .nil⟩
  | @cons told line events lines own others ih =>
    obtain ⟨j, made, written⟩ := own
    obtain ⟨legible, records⟩ := ih fun other member => unbroken other (by simp [member])
    have whole := Json.read_write written
    rw [unbroken told (by simp) j made] at whole
    obtain ⟨own, single⟩ := held_line whole
    have split : held (line :: lines) = [j.sorted] ++ held lines := by
      rw [← single, ← held_append]
      rfl
    refine ⟨List.forall_mem_cons.mpr ⟨own, legible⟩, ?_⟩
    rw [split]
    exact .cons ⟨j, made, rfl⟩ records

/-- A query without filters that takes in the whole file and asks for all events gives them all, the newest first. -/
theorem Holds.read (holds : journal.Holds formats events) (unbroken : ∀ told ∈ events, IsUnbroken formats told)
    (noLevel : q.level = []) (noKind : q.kind = []) (limit : (events.length : Int) ≤ q.limit)
    (few : events.length ≤ 2000) (covers : ((journal.bytes?.getD []).length : Int) ≤ q.tailBytes) :
    ∃ found, Journal.read q journal = .ok found ∧ List.Forall₂ (IsRecordOf formats) events.reverse found := by
  obtain ⟨lines, each, content⟩ := holds
  obtain ⟨legible, records⟩ := held_lines each unbroken
  have all : events.length ≤ quota q := le_quota limit (Int.ofNat_le.mpr few)
  refine ⟨(held lines).reverse, ?_, List.forall₂_reverse_iff.mpr records⟩
  rw [read_of_covers noLevel noKind (by omega) covers, readLines_iff.mpr ⟨?_, rfl⟩, content, Holds.records lines each]
  · show Except.ok _ = _
    rw [List.take_of_length_le]
    rw [List.length_reverse, ← records.length_eq]
    exact all
  · rw [content, Holds.records lines each]
    exact legible

end Reckoner.Journal
