import Reckoner.Json.Write
import Reckoner.Proofs.Json.Canonical
import Reckoner.Proofs.Text.Utf8.Strict
/-!
# Values that JSON has

Absent values, truth values, whole numbers of at most 4300 digits, texts of characters, lists, and mappings of such
texts are values that JSON has: each is a JSON value as it is (`Json.ofValue?`), of which the last one of a key counts,
and this can be written (`Json.ofValue?_isSound`).
-/
namespace Reckoner

namespace Text

/-- In a text of characters there is nothing to join. -/
theorem IsWhole.joinPairs {t : Text} (whole : t.IsWhole) : Json.joinPairs t = t := by
  fun_induction Json.joinPairs t with
  | case1 => rfl
  | case2 => rfl
  | case3 c d rest e joined ih =>
    obtain ⟨c', rfl⟩ := whole c (by simp)
    cases joined
  | case4 c d rest apart ih => rw [ih fun x member => whole x (by simp [member])]

end Text

/-- A value that JSON has. -/
inductive Value.IsJson : Value → Prop where
  | absent : IsJson .absent
  | bool (b : Bool) : IsJson (.bool b)
  | int (n : Int) (short : n.natAbs < Nat.pow 10 Numeral.maxDigits) : IsJson (.int n)
  | text (t : Text) (whole : t.IsWhole) : IsJson (.text t)
  | list (items : List Value) (each : ∀ v ∈ items, IsJson v) : IsJson (.list items)
  | mapping (entries : List (Value × Value)) (names : ∀ entry ∈ entries, ∃ t : Text, entry.1 = .text t ∧ t.IsWhole)
      (each : ∀ entry ∈ entries, IsJson entry.2) : IsJson (.mapping entries)

/-- Entries under names of characters whose values JSON has. -/
structure Value.AreJson (entries : List (Value × Value)) : Prop where
  names : ∀ entry ∈ entries, ∃ t : Text, entry.1 = .text t ∧ t.IsWhole
  each : ∀ entry ∈ entries, entry.2.IsJson

namespace Value.AreJson

theorem nil : AreJson [] := ⟨by simp, by simp⟩

theorem cons {t : Text} {v : Value} {entries : List (Value × Value)} (name : t.IsWhole) (value : v.IsJson)
    (others : AreJson entries) : AreJson ((.text t, v) :: entries) :=
  ⟨List.forall_mem_cons.mpr ⟨⟨t, rfl, name⟩, others.names⟩, List.forall_mem_cons.mpr ⟨value, others.each⟩⟩

end Value.AreJson

namespace Json

mutual

/-- The JSON value that a value is, if it is one. -/
def ofValue? : Value → Option Json
  | .absent => some .null
  | .bool b => some (.bool b)
  | .int n => some (.int n)
  | .float (.finite negative m) => some (.float (.finite negative m))
  | .text t => some (.text t)
  | .list items => (ofValues? items).map .list
  | .mapping entries => (ofValueEntries? entries).map ofEntries
  | _ => none

def ofValues? : List Value → Option (List Json)
  | [] => some []
  | v :: rest => (ofValue? v).bind fun j => (ofValues? rest).map (j :: ·)

def ofValueEntries? : List (Value × Value) → Option (List (Text × Json))
  | [] => some []
  | (.text key, v) :: rest => (ofValue? v).bind fun j => (ofValueEntries? rest).map ((key, j) :: ·)
  | _ => none

end

/-- A value that can be written, with texts of characters alone. -/
structure IsSound (j : Json) : Prop where
  writes : ∃ t, j.write = .ok t
  whole : ∀ t ∈ j.texts, t.IsWhole

theorem isSound_list {items : List Json} (each : ∀ j ∈ items, j.IsSound) : (Json.list items).IsSound := by
  have writes : ∃ parts, writeItems items = .ok parts := by
    induction items with
    | nil => exact ⟨[], rfl⟩
    | cons j rest ih =>
      obtain ⟨t, first⟩ := (each j (by simp)).writes
      obtain ⟨parts, others⟩ := ih fun k member => each k (by simp [member])
      exact ⟨t :: parts, Except.bind_eq_ok.mpr ⟨t, first, Except.bind_eq_ok.mpr ⟨parts, others, rfl⟩⟩⟩
  obtain ⟨parts, written⟩ := writes
  refine ⟨⟨_, Except.bind_eq_ok.mpr ⟨parts, written, rfl⟩⟩, fun t member => ?_⟩
  obtain ⟨j, inside, own⟩ := mem_textsOfItems.mp member
  exact (each j inside).whole t own

theorem isSound_object {entries : List (Text × Json)} (names : ∀ entry ∈ entries, entry.1.IsWhole)
    (each : ∀ entry ∈ entries, entry.2.IsSound) : (Json.object entries).IsSound := by
  have writes : ∃ parts, writeEntries entries = .ok parts := by
    clear names
    induction entries with
    | nil => exact ⟨[], rfl⟩
    | cons entry rest ih =>
      obtain ⟨t, first⟩ := (each entry (by simp)).writes
      obtain ⟨parts, others⟩ := ih fun k member => each k (by simp [member])
      exact ⟨(entry.1, t) :: parts, Except.bind_eq_ok.mpr ⟨t, first, Except.bind_eq_ok.mpr ⟨parts, others, rfl⟩⟩⟩
  obtain ⟨parts, written⟩ := writes
  refine ⟨⟨_, Except.bind_eq_ok.mpr ⟨parts, written, rfl⟩⟩, fun t member => ?_⟩
  obtain ⟨entry, inside, rfl | own⟩ := mem_textsOfEntries.mp member
  · exact names entry inside
  · exact (each entry inside).whole t own

theorem isSound_ofEntries {entries : List (Text × Json)} (names : ∀ entry ∈ entries, entry.1.IsWhole)
    (each : ∀ entry ∈ entries, entry.2.IsSound) : (ofEntries entries).IsSound := by
  have among : ∀ entry ∈ gathered [] entries, entry ∈ entries := fun entry member =>
    (mem_gathered member).elim (fun none => by cases none) id
  exact isSound_object (fun entry member => names entry (among entry member))
    fun entry member => each entry (among entry member)

theorem isSound_text {t : Text} (whole : t.IsWhole) : (Json.text t).IsSound :=
  ⟨⟨_, rfl⟩, by simpa [texts] using whole⟩

theorem ofValues?_isSound {items : List Value} (each : ∀ v ∈ items, ∃ j, ofValue? v = some j ∧ j.IsSound) :
    ∃ kept, ofValues? items = some kept ∧ ∀ j ∈ kept, j.IsSound := by
  induction items with
  | nil => exact ⟨[], rfl, by simp⟩
  | cons v rest ih =>
    obtain ⟨j, first, sound⟩ := each v (by simp)
    obtain ⟨kept, others, soundOthers⟩ := ih fun w member => each w (by simp [member])
    exact ⟨j :: kept, by simp [ofValues?, first, others], List.forall_mem_cons.mpr ⟨sound, soundOthers⟩⟩

theorem ofValueEntries?_isSound {entries : List (Value × Value)}
    (names : ∀ entry ∈ entries, ∃ t : Text, entry.1 = .text t ∧ t.IsWhole)
    (each : ∀ entry ∈ entries, ∃ j, ofValue? entry.2 = some j ∧ j.IsSound) :
    ∃ kept, ofValueEntries? entries = some kept ∧ (∀ entry ∈ kept, entry.1.IsWhole) ∧
      ∀ entry ∈ kept, entry.2.IsSound := by
  induction entries with
  | nil => exact ⟨[], rfl, by simp, by simp⟩
  | cons entry rest ih =>
    obtain ⟨key, v⟩ := entry
    obtain ⟨t, rfl, name⟩ := names (key, v) (by simp)
    obtain ⟨j, first, sound⟩ := each (.text t, v) (by simp)
    obtain ⟨kept, others, wholeOthers, soundOthers⟩ :=
      ih (fun entry member => names entry (by simp [member])) fun entry member => each entry (by simp [member])
    exact ⟨(t, j) :: kept, by simp [ofValueEntries?, first, others], List.forall_mem_cons.mpr ⟨name, wholeOthers⟩,
      List.forall_mem_cons.mpr ⟨sound, soundOthers⟩⟩

/-- A value that JSON has is a JSON value that can be written. -/
theorem ofValue?_isSound {v : Value} (json : v.IsJson) : ∃ j, ofValue? v = some j ∧ j.IsSound := by
  induction json with
  | absent => exact ⟨_, rfl, ⟨_, rfl⟩, by simp [texts]⟩
  | bool b => exact ⟨_, rfl, ⟨_, rfl⟩, by simp [texts]⟩
  | int n short =>
    have written : Numeral.ofInt? n = .ok (Numeral.ofInt n) := if_neg (Nat.not_le.mpr short)
    exact ⟨_, rfl, ⟨_, written⟩, by simp [texts]⟩
  | text t whole => exact ⟨_, rfl, isSound_text whole⟩
  | list items _ ih =>
    obtain ⟨kept, made, sound⟩ := ofValues?_isSound ih
    exact ⟨_, by rw [ofValue?, made]; rfl, isSound_list sound⟩
  | mapping entries names _ ih =>
    obtain ⟨kept, made, whole, sound⟩ := ofValueEntries?_isSound names ih
    exact ⟨_, by rw [ofValue?, made]; rfl, isSound_ofEntries whole sound⟩

end Json
end Reckoner
