import Reckoner.Json.Read
import Reckoner.Proofs.Text.Order
import Mathlib.Data.List.Basic
import Mathlib.Data.List.Perm.Subperm
/-!
# JSON values as they are read back

Writing puts the entries of every object in the order of their keys (`sorted`), and reading joins the halves of
surrogate pairs that stand side by side in texts and keys (`joined`). A value whose objects have no key twice comes
through the joining unchanged exactly when there is nothing to join in any of its texts (`joined_eq_self_iff`).
-/
namespace Reckoner.Json

mutual

/-- The value with the entries of its objects in the order of their keys. -/
def sorted : Json → Json
  | .list items => .list (sortedItems items)
  | .object entries => .object (Text.sortedByKey (sortedEntries entries))
  | j => j

def sortedItems : List Json → List Json
  | [] => []
  | j :: rest => j.sorted :: sortedItems rest

def sortedEntries : List (Text × Json) → List (Text × Json)
  | [] => []
  | (key, j) :: rest => (key, j.sorted) :: sortedEntries rest

end

mutual

/-- The value with the surrogate pairs in its texts and keys joined; of entries whose keys become one the last one
counts. -/
def joined : Json → Json
  | .text t => .text (joinPairs t)
  | .list items => .list (joinedItems items)
  | .object entries => .ofEntries (joinedEntries entries)
  | j => j

def joinedItems : List Json → List Json
  | [] => []
  | j :: rest => j.joined :: joinedItems rest

def joinedEntries : List (Text × Json) → List (Text × Json)
  | [] => []
  | (key, j) :: rest => (joinPairs key, j.joined) :: joinedEntries rest

end

mutual

/-- The texts in a value, keys included. -/
def texts : Json → List Text
  | .text t => [t]
  | .list items => textsOfItems items
  | .object entries => textsOfEntries entries
  | _ => []

def textsOfItems : List Json → List Text
  | [] => []
  | j :: rest => j.texts ++ textsOfItems rest

def textsOfEntries : List (Text × Json) → List Text
  | [] => []
  | (key, j) :: rest => key :: j.texts ++ textsOfEntries rest

end

variable {items : List Json} {entries : List (Text × Json)}

theorem sortedItems_eq_map (items : List Json) : sortedItems items = items.map sorted := by
  induction items with
  | nil => rfl
  | cons j rest ih => rw [sortedItems, ih, List.map_cons]

theorem sortedEntries_eq_map (entries : List (Text × Json)) :
    sortedEntries entries = entries.map fun entry => (entry.1, entry.2.sorted) := by
  induction entries with
  | nil => rfl
  | cons entry rest ih => rw [sortedEntries, ih, List.map_cons]

theorem joinedItems_eq_map (items : List Json) : joinedItems items = items.map joined := by
  induction items with
  | nil => rfl
  | cons j rest ih => rw [joinedItems, ih, List.map_cons]

theorem joinedEntries_eq_map (entries : List (Text × Json)) :
    joinedEntries entries = entries.map fun entry => (joinPairs entry.1, entry.2.joined) := by
  induction entries with
  | nil => rfl
  | cons entry rest ih => rw [joinedEntries, ih, List.map_cons]

theorem mem_textsOfItems {t : Text} : t ∈ textsOfItems items ↔ ∃ j ∈ items, t ∈ j.texts := by
  induction items with
  | nil => simp [textsOfItems]
  | cons j rest ih => simp [textsOfItems, ih]

theorem mem_textsOfEntries {t : Text} :
    t ∈ textsOfEntries entries ↔ ∃ entry ∈ entries, t = entry.1 ∨ t ∈ entry.2.texts := by
  induction entries with
  | nil => simp [textsOfEntries]
  | cons entry rest ih => simp [textsOfEntries, ih, or_assoc]

/-- No object in the value has a key twice. -/
inductive KeysDiffer : Json → Prop where
  | null : KeysDiffer .null
  | bool (b : Bool) : KeysDiffer (.bool b)
  | int (n : Int) : KeysDiffer (.int n)
  | float (x : Binary64) : KeysDiffer (.float x)
  | text (t : Text) : KeysDiffer (.text t)
  | list (items : List Json) (each : ∀ j ∈ items, KeysDiffer j) : KeysDiffer (.list items)
  | object (entries : List (Text × Json)) (differ : (entries.map Prod.fst).Nodup)
      (each : ∀ entry ∈ entries, KeysDiffer entry.2) : KeysDiffer (.object entries)

/-- The entries that entries given one after the other leave behind others. -/
def gathered (built entries : List (Text × Json)) : List (Text × Json) :=
  entries.foldl (fun built entry => withEntry entry.1 entry.2 built) built

theorem ofEntries_eq (entries : List (Text × Json)) : ofEntries entries = .object (gathered [] entries) := rfl

theorem withEntry_of_new {key : Text} {built : List (Text × Json)} (new : key ∉ built.map Prod.fst) (j : Json) :
    withEntry key j built = built ++ [(key, j)] := by
  induction built with
  | nil => rfl
  | cons entry rest ih =>
    rw [List.map_cons, List.mem_cons, not_or] at new
    rw [withEntry, if_neg (Ne.symm new.1), ih new.2, List.cons_append]

/-- An entry under a key that is there already replaces one, and any other one is put at the end. -/
theorem keys_withEntry (key : Text) (j : Json) (built : List (Text × Json)) :
    (withEntry key j built).map Prod.fst =
      if key ∈ built.map Prod.fst then built.map Prod.fst else built.map Prod.fst ++ [key] := by
  induction built with
  | nil => rfl
  | cons entry rest ih =>
    rw [withEntry]
    by_cases same : entry.1 = key
    · simp [same]
    · rw [if_neg same, List.map_cons, ih]
      by_cases later : key ∈ rest.map Prod.fst
      · simp [later]
      · simp [later, Ne.symm same]

/-- Entries with keys that differ stay as they are. -/
theorem gathered_of_differ {built : List (Text × Json)} (differ : ((built ++ entries).map Prod.fst).Nodup) :
    gathered built entries = built ++ entries := by
  induction entries generalizing built with
  | nil => exact (List.append_nil _).symm
  | cons entry rest ih =>
    have new : entry.1 ∉ built.map Prod.fst := by
      rw [List.map_append, List.nodup_append] at differ
      intro member
      exact differ.2.2 _ member _ (by simp) rfl
    show gathered (withEntry entry.1 entry.2 built) rest = _
    have split : built ++ entry :: rest = (built ++ [entry]) ++ rest := by simp
    rw [withEntry_of_new new, split]
    exact ih (by rwa [← split])

theorem ofEntries_of_differ (differ : (entries.map Prod.fst).Nodup) : ofEntries entries = .object entries := by
  rw [ofEntries_eq, gathered_of_differ (by simpa using differ), List.nil_append]

/-- Gathered entries have no key twice, and no keys but those of the entries they were gathered from. -/
theorem keys_gathered (built entries : List (Text × Json))
    (differ : (built.map Prod.fst).Nodup) :
    ((gathered built entries).map Prod.fst).Nodup ∧
      (gathered built entries).map Prod.fst ⊆ built.map Prod.fst ++ entries.map Prod.fst := by
  induction entries generalizing built with
  | nil => exact ⟨differ, by simp [gathered]⟩
  | cons entry rest ih =>
    have keys := keys_withEntry entry.1 entry.2 built
    have next : ((withEntry entry.1 entry.2 built).map Prod.fst).Nodup := by
      rw [keys]
      split
      · exact differ
      next new => exact List.nodup_append.mpr ⟨differ, List.nodup_singleton _, by
          intro a member b single
          rw [List.mem_singleton.mp single]
          rintro rfl
          exact new member⟩
    obtain ⟨nodup, subset⟩ := ih _ next
    refine ⟨nodup, fun key member => ?_⟩
    have inside := subset member
    rw [keys] at inside
    split at inside
    all_goals
      simp only [List.mem_append, List.map_cons, List.mem_cons] at inside ⊢
      tauto

theorem mem_withEntry {key : Text} {j : Json} {built : List (Text × Json)} {entry : Text × Json}
    (member : entry ∈ withEntry key j built) : entry = (key, j) ∨ entry ∈ built := by
  induction built with
  | nil => exact .inl (List.mem_singleton.mp member)
  | cons first rest ih =>
    rw [withEntry] at member
    split at member
    · rcases List.mem_cons.mp member with own | later
      · exact .inl own
      · exact .inr (List.mem_cons_of_mem _ later)
    · rcases List.mem_cons.mp member with own | later
      · exact .inr (own ▸ List.mem_cons_self)
      · exact (ih later).imp_right (List.mem_cons_of_mem _)

theorem mem_gathered {built : List (Text × Json)} {entry : Text × Json} (member : entry ∈ gathered built entries) :
    entry ∈ built ∨ entry ∈ entries := by
  induction entries generalizing built with
  | nil => exact .inl member
  | cons first rest ih =>
    rcases ih member with early | later
    · rcases mem_withEntry early with own | before
      · exact .inr (own ▸ List.mem_cons_self)
      · exact .inl before
    · exact .inr (List.mem_cons_of_mem _ later)

/-- Objects made of entries have no key twice. -/
theorem keysDiffer_ofEntries (each : ∀ entry ∈ entries, entry.2.KeysDiffer) : (ofEntries entries).KeysDiffer :=
  .object _ (keys_gathered [] entries List.nodup_nil).1 fun entry member =>
    (mem_gathered member).elim (fun none => by cases none) (each entry)

/-- If entries are gathered into as many as they were, then no key has been twice among them. -/
theorem differ_of_length (entries : List (Text × Json)) (h : (gathered [] entries).length = entries.length) :
    (entries.map Prod.fst).Nodup := by
  obtain ⟨nodup, subset⟩ := keys_gathered [] entries List.nodup_nil
  have perm := (List.subperm_of_subset nodup subset).perm_of_length_le (by simp [h])
  exact perm.nodup_iff.mp nodup

theorem map_eq_self_iff {α : Type} {f : α → α} {as : List α} : as.map f = as ↔ ∀ a ∈ as, f a = a := by
  simpa using List.map_inj_left (l := as) (f := f) (g := id)

theorem joinedEntries_eq_self_iff (differ : (entries.map Prod.fst).Nodup) :
    ofEntries (joinedEntries entries) = .object entries ↔
      ∀ entry ∈ entries, joinPairs entry.1 = entry.1 ∧ entry.2.joined = entry.2 := by
  have each : joinedEntries entries = entries ↔
      ∀ entry ∈ entries, joinPairs entry.1 = entry.1 ∧ entry.2.joined = entry.2 := by
    rw [joinedEntries_eq_map, map_eq_self_iff]
    simp only [Prod.ext_iff]
  rw [← each]
  constructor
  · intro same
    rw [ofEntries_eq, object.injEq] at same
    -- Joining could make two keys one, but then an entry would be missing.
    have length : (joinedEntries entries).length = entries.length := by rw [joinedEntries_eq_map, List.length_map]
    have nodup := differ_of_length (joinedEntries entries) (by rw [same, length])
    rwa [gathered_of_differ (by simpa using nodup), List.nil_append] at same
  · intro same
    rw [same, ofEntries_of_differ differ]

/-- Joining changes nothing in a value exactly when there is nothing to join in its texts. -/
theorem joined_eq_self_iff {j : Json} (differ : j.KeysDiffer) : j.joined = j ↔ ∀ t ∈ j.texts, joinPairs t = t := by
  induction differ with
  | null => simp [joined, texts]
  | bool b => simp [joined, texts]
  | int n => simp [joined, texts]
  | float x => simp [joined, texts]
  | text t => simp [joined, texts]
  | list items each ih =>
    rw [joined, list.injEq, joinedItems_eq_map, map_eq_self_iff]
    simp only [texts, mem_textsOfItems]
    constructor
    · rintro same t ⟨j, member, inside⟩
      exact (ih j member).mp (same j member) t inside
    · intro whole j member
      exact (ih j member).mpr fun t inside => whole t ⟨j, member, inside⟩
  | object entries differ each ih =>
    rw [joined, joinedEntries_eq_self_iff differ]
    simp only [texts, mem_textsOfEntries]
    constructor
    · rintro same t ⟨entry, member, rfl | inside⟩
      · exact (same entry member).1
      · exact (ih entry member).mp (same entry member).2 t inside
    · intro whole entry member
      exact ⟨whole _ ⟨entry, member, .inl rfl⟩,
        (ih entry member).mpr fun t inside => whole t ⟨entry, member, .inr inside⟩⟩

theorem mem_sortedByKey {α : Type} {entries : List (Text × α)} {entry : Text × α} :
    entry ∈ Text.sortedByKey entries ↔ entry ∈ entries :=
  (Text.perm_sortedByKey entries).mem_iff

theorem KeysDiffer.sorted {j : Json} (differ : j.KeysDiffer) : j.sorted.KeysDiffer := by
  induction differ with
  | null => exact .null
  | bool b => exact .bool b
  | int n => exact .int n
  | float x => exact .float x
  | text t => exact .text t
  | list items each ih =>
    rw [Json.sorted, sortedItems_eq_map]
    refine .list _ fun j member => ?_
    obtain ⟨item, inside, rfl⟩ := List.mem_map.mp member
    exact ih item inside
  | object entries differ each ih =>
    rw [Json.sorted, sortedEntries_eq_map]
    refine .object _ ?_ fun entry member => ?_
    · rw [((Text.perm_sortedByKey _).map Prod.fst).nodup_iff, List.map_map]
      exact differ
    · obtain ⟨before, inside, rfl⟩ := List.mem_map.mp (mem_sortedByKey.mp member)
      exact ih before inside

/-- Sorting keeps the texts of a value. -/
theorem mem_texts_sorted {j : Json} (differ : j.KeysDiffer) {t : Text} : t ∈ j.sorted.texts ↔ t ∈ j.texts := by
  induction differ with
  | null => rfl
  | bool b => rfl
  | int n => rfl
  | float x => rfl
  | text t => rfl
  | list items each ih =>
    rw [Json.sorted, sortedItems_eq_map, texts, texts, mem_textsOfItems, mem_textsOfItems]
    simp only [List.mem_map, exists_exists_and_eq_and]
    exact exists_congr fun j => and_congr_right fun member => ih j member
  | object entries differ each ih =>
    rw [Json.sorted, sortedEntries_eq_map, texts, texts, mem_textsOfEntries, mem_textsOfEntries]
    simp only [mem_sortedByKey, List.mem_map, exists_exists_and_eq_and]
    exact exists_congr fun entry => and_congr_right fun member => or_congr_right (ih entry member)

/-- A value is read back with its keys sorted and nothing else changed exactly when there is nothing to join in it. -/
theorem joined_sorted_iff {j : Json} (differ : j.KeysDiffer) :
    j.sorted.joined = j.sorted ↔ ∀ t ∈ j.texts, joinPairs t = t := by
  rw [joined_eq_self_iff differ.sorted]
  simp only [mem_texts_sorted differ]

end Reckoner.Json
