import Reckoner.Formats.Standard
import Reckoner.Proofs.Formats
/-!
# The JSON of the program

In what the program keeps of a value no object has a key twice, and a JSON value is kept as it is.
-/
namespace Reckoner

namespace Json

mutual

/-- No object in what is kept of a value has a key twice. -/
theorem keysDiffer_toJson (v : Value) {j : Json} (h : v.toJson = .ok j) : j.KeysDiffer := by
  cases v with
  | absent =>
    cases h
    exact .null
  | bool b =>
    cases h
    exact .bool b
  | int n =>
    cases h
    exact .int n
  | float x =>
    cases x with
    | finite negative m =>
      cases h
      exact .float _
    | infinite negative =>
      cases h
      exact .null
    | nan =>
      cases h
      exact .null
  | text t =>
    cases h
    exact .text t
  | list items =>
    obtain ⟨kept, each, done⟩ := Except.bind_eq_ok.mp h
    cases done
    exact .list kept (keysDiffer_toJsons items each)
  | tuple items =>
    obtain ⟨kept, each, done⟩ := Except.bind_eq_ok.mp h
    cases done
    exact .list kept (keysDiffer_toJsons items each)
  | mapping entries =>
    obtain ⟨kept, each, done⟩ := Except.bind_eq_ok.mp h
    cases done
    exact keysDiffer_ofEntries (keysDiffer_toJsonEntries entries each)
  | date d =>
    cases h
    exact .text _
  | moment m =>
    cases h
    exact .text _
  | token t =>
    cases h
    exact .text _
  | node n => exact keysDiffer_toJsonNode n h

theorem keysDiffer_toJsons (items : List Value) {kept : List Json} (h : Value.toJsons items = .ok kept) :
    ∀ j ∈ kept, j.KeysDiffer := by
  cases items with
  | nil =>
    cases h
    simp
  | cons v rest =>
    obtain ⟨j, first, h⟩ := Except.bind_eq_ok.mp h
    obtain ⟨others, each, done⟩ := Except.bind_eq_ok.mp h
    cases done
    exact List.forall_mem_cons.mpr ⟨keysDiffer_toJson v first, keysDiffer_toJsons rest each⟩

theorem keysDiffer_toJsonEntries (entries : List (Value × Value)) {kept : List (Text × Json)}
    (h : Value.toJsonEntries entries = .ok kept) : ∀ entry ∈ kept, entry.2.KeysDiffer := by
  cases entries with
  | nil =>
    cases h
    simp
  | cons entry rest =>
    obtain ⟨key, v⟩ := entry
    obtain ⟨name, -, h⟩ := Except.bind_eq_ok.mp h
    obtain ⟨j, first, h⟩ := Except.bind_eq_ok.mp h
    obtain ⟨others, each, done⟩ := Except.bind_eq_ok.mp h
    cases done
    exact List.forall_mem_cons.mpr ⟨keysDiffer_toJson v first, keysDiffer_toJsonEntries rest each⟩

theorem keysDiffer_toJsonNode (n : Node) {j : Json} (h : n.toJson = .ok j) : j.KeysDiffer := by
  cases n with
  | constant payload =>
    obtain ⟨kept, value, done⟩ := Except.bind_eq_ok.mp h
    cases done
    exact .object _ (by simp) (by simpa using keysDiffer_toJson payload value)
  | property name =>
    cases h
    exact .object _ (by simp) (by simpa using KeysDiffer.text name)
  | binary op left right =>
    obtain ⟨first, leftKept, h⟩ := Except.bind_eq_ok.mp h
    obtain ⟨second, rightKept, done⟩ := Except.bind_eq_ok.mp h
    cases done
    have own := KeysDiffer.text op
    have onLeft := keysDiffer_toJsonNode left leftKept
    have onRight := keysDiffer_toJsonNode right rightKept
    exact .object _ (by decide : (["op", "left", "right"] : List Text).Nodup) (by simp [own, onLeft, onRight])
  | call name args =>
    obtain ⟨kept, argsKept, done⟩ := Except.bind_eq_ok.mp h
    cases done
    have own := KeysDiffer.text name
    have onArgs := keysDiffer_toJsonNode args argsKept
    exact .object _ (by decide : (["name", "args"] : List Text).Nodup) (by simp [own, onArgs])

end

mutual

/-- A JSON value is kept as it is. -/
theorem toJson_of_ofValue? (v : Value) {j : Json} (h : ofValue? v = some j) : v.toJson = .ok j := by
  cases v with
  | absent | bool | int | text =>
    cases h
    rfl
  | float x =>
    cases x with
    | finite negative m =>
      cases h
      rfl
    | infinite negative => cases h
    | nan => cases h
  | list items =>
    obtain ⟨kept, each, rfl⟩ := Option.map_eq_some_iff.mp h
    exact Except.bind_eq_ok.mpr ⟨kept, toJsons_of_ofValues? items each, rfl⟩
  | mapping entries =>
    obtain ⟨kept, each, rfl⟩ := Option.map_eq_some_iff.mp h
    exact Except.bind_eq_ok.mpr ⟨kept, toJsonEntries_of_ofValueEntries? entries each, rfl⟩
  | tuple | date | moment | token | node => cases h

theorem toJsons_of_ofValues? (items : List Value) {kept : List Json} (h : ofValues? items = some kept) :
    Value.toJsons items = .ok kept := by
  cases items with
  | nil =>
    cases h
    rfl
  | cons v rest =>
    obtain ⟨j, first, h⟩ := Option.bind_eq_some_iff.mp h
    obtain ⟨others, each, rfl⟩ := Option.map_eq_some_iff.mp h
    exact Except.bind_eq_ok.mpr ⟨j, toJson_of_ofValue? v first,
      Except.bind_eq_ok.mpr ⟨others, toJsons_of_ofValues? rest each, rfl⟩⟩

theorem toJsonEntries_of_ofValueEntries? (entries : List (Value × Value)) {kept : List (Text × Json)}
    (h : ofValueEntries? entries = some kept) : Value.toJsonEntries entries = .ok kept := by
  cases entries with
  | nil =>
    cases h
    rfl
  | cons entry rest =>
    obtain ⟨key, v⟩ := entry
    cases key with
    | text name =>
      obtain ⟨j, first, h⟩ := Option.bind_eq_some_iff.mp h
      obtain ⟨others, each, rfl⟩ := Option.map_eq_some_iff.mp h
      exact Except.bind_eq_ok.mpr ⟨name, rfl, Except.bind_eq_ok.mpr ⟨j, toJson_of_ofValue? v first,
        Except.bind_eq_ok.mpr ⟨others, toJsonEntries_of_ofValueEntries? rest each, rfl⟩⟩⟩
    | _ => cases h

end

end Json

namespace Formats

theorem standard_keysDiffer : standard.KeysDiffer := fun v _ h => Json.keysDiffer_toJson v h

theorem standard_keepsJson : standard.KeepsJson := fun v _ _ h => Json.toJson_of_ofValue? v h

end Formats
end Reckoner
