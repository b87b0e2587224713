import Reckoner.Event
import Reckoner.Proofs.Formats
import Reckoner.Proofs.Json.RoundTrip
import Reckoner.Proofs.Json.Torn
import Reckoner.Proofs.Outcome
/-!
# The line of an event

An event is kept as an object of seven fields, and no object in it has a key twice. Its line is printable ASCII, begins
with the context, which is the first of its keys (`journalLine_of_write`).
-/
namespace Reckoner

namespace Event

/-- The fields of an event in the order in which they are made. -/
def fields {α : Type} (schema ts level kind context message code : α) : List (Text × α) :=
  [("schema_version", schema), ("ts", ts), ("level", level), ("event_type", kind), ("context", context),
    ("message", message), ("error_code", code)]

/-- The fields of an event in the order of their keys. -/
def fieldsInOrder {α : Type} (schema ts level kind context message code : α) : List (Text × α) :=
  [("context", context), ("error_code", code), ("event_type", kind), ("level", level), ("message", message),
    ("schema_version", schema), ("ts", ts)]

/-- The keys of an event in the order in which they are made. -/
def keys : List Text := ["schema_version", "ts", "level", "event_type", "context", "message", "error_code"]

/-- The keys of an event in their own order. -/
def keysInOrder : List Text := ["context", "error_code", "event_type", "level", "message", "schema_version", "ts"]

theorem nodup_keys : keys.Nodup := by decide

theorem nodup_keysInOrder : keysInOrder.Nodup := by decide

theorem pairwise_keysInOrder : keysInOrder.Pairwise fun a b => Text.le a b = true := by decide

theorem sortedByKey_fields {α : Type} (schema ts level kind context message code : α) :
    Text.sortedByKey (fields schema ts level kind context message code) =
      fieldsInOrder schema ts level kind context message code := by
  have differ : ((fields schema ts level kind context message code).map Prod.fst).Nodup := nodup_keys
  have differInOrder : ((fieldsInOrder schema ts level kind context message code).map Prod.fst).Nodup :=
    nodup_keysInOrder
  have inOrder : ((fieldsInOrder schema ts level kind context message code).map Prod.fst).Pairwise
      fun a b => Text.le a b = true := pairwise_keysInOrder
  refine Text.sortedByKey_eq ?_ (List.pairwise_map.mp inOrder) differ
  refine (List.perm_ext_iff_of_nodup differInOrder.of_map differ.of_map).mpr fun entry => ?_
  simp only [fields, fieldsInOrder, List.mem_cons, List.not_mem_nil, or_false]
  grind

/-- The context of an event as the journal keeps it, with its secrets blanked. -/
def keptContext (formats : Formats) (e : Event) : Outcome Json := do
  let context ← Redaction.redact (e.context.map fun (name, v) => (.text name, v))
  formats.toJson (.mapping context)

/-- The event with its context as the journal keeps it. -/
def asJson (time : Text) (e : Event) (kept : Json) : Json :=
  .object (fields (.int 1) (.text time) (.text e.level.label) (.text e.kind.label) kept (.text e.message)
    ((e.errorCode.map Json.text).getD .null))

variable {formats : Formats} {e : Event} {time line : Text} {j : Json}

theorem toJson_of_kept {kept : Json} (known : e.keptContext formats = .ok kept) (time : Text) :
    e.toJson formats time = .ok (e.asJson time kept) := by
  obtain ⟨context, redacted, converted⟩ := Except.bind_eq_ok.mp known
  exact Except.bind_eq_ok.mpr ⟨context, redacted, Except.bind_eq_ok.mpr ⟨kept, converted, rfl⟩⟩

theorem toJson_eq_ok :
    e.toJson formats time = .ok j ↔ ∃ kept, e.keptContext formats = .ok kept ∧ j = e.asJson time kept := by
  constructor
  · intro h
    obtain ⟨context, redacted, h⟩ := Except.bind_eq_ok.mp h
    obtain ⟨kept, converted, done⟩ := Except.bind_eq_ok.mp h
    cases done
    exact ⟨kept, Except.bind_eq_ok.mpr ⟨context, redacted, converted⟩, rfl⟩
  · rintro ⟨kept, known, rfl⟩
    exact toJson_of_kept known time

theorem line?_eq_some :
    e.line? formats time = some line ↔ ∃ j, e.toJson formats time = .ok j ∧ j.write = .ok line := by
  unfold line?
  cases made : e.toJson formats time with
  | error f => simp [Except.toOption]
  | ok j =>
    cases written : j.write with
    | error l => simp [Except.toOption, written]
    | ok t => simp [Except.toOption, written]

theorem keysDiffer_toJson (differ : formats.KeysDiffer) (h : e.toJson formats time = .ok j) : j.KeysDiffer := by
  obtain ⟨kept, known, rfl⟩ := toJson_eq_ok.mp h
  obtain ⟨context, -, converted⟩ := Except.bind_eq_ok.mp known
  have context := differ _ _ converted
  have code : ((e.errorCode.map Json.text).getD .null).KeysDiffer := by
    cases e.errorCode with
    | none => exact .null
    | some t => exact .text t
  refine .object _ nodup_keys ?_
  simp only [fields, List.mem_cons, List.not_mem_nil, or_false]
  rintro entry (rfl | rfl | rfl | rfl | rfl | rfl | rfl)
  · exact .int 1
  · exact .text _
  · exact .text _
  · exact .text _
  · exact context
  · exact .text _
  · exact code

end Event

namespace Json

theorem keys_writeEntries (entries : List (Text × Json)) {written : List (Text × Text)}
    (h : writeEntries entries = .ok written) :
    (written.map fun w => (w.1, ())) = entries.map fun entry => (entry.1, ()) := by
  induction entries generalizing written with
  | nil =>
    cases h
    rfl
  | cons entry rest ih =>
    obtain ⟨t, -, h⟩ := Except.bind_eq_ok.mp h
    obtain ⟨others, each, done⟩ := Except.bind_eq_ok.mp h
    cases done
    rw [List.map_cons, List.map_cons, ih each]

end Json

namespace Event

variable {formats : Formats} {e : Event} {time line : Text} {j : Json}

theorem ofInt?_one : Numeral.ofInt? 1 = .ok "1" := by
  have short : ∀ places : Nat, places ≠ 0 → ¬Nat.pow 10 places ≤ (1 : Int).natAbs :=
    fun places some => Nat.not_le.mpr (Nat.one_lt_pow some (by decide))
  rw [Numeral.ofInt?, if_neg (short Numeral.maxDigits (by decide))]
  rfl

/-- An event is written if its context is. -/
theorem write_asJson (time : Text) (e : Event) {kept : Json} {t : Text} (context : kept.write = .ok t) :
    (e.asJson time kept).write =
      .ok (Json.writeObject (fields "1" (time.quoted .ascii) (e.level.label.quoted .ascii)
        (e.kind.label.quoted .ascii) t (e.message.quoted .ascii)
        ((e.errorCode.map (Text.quoted .ascii)).getD "null"))) := by
  have code : ((e.errorCode.map Json.text).getD .null).write =
      .ok ((e.errorCode.map (Text.quoted .ascii)).getD "null") := by cases e.errorCode <;> rfl
  refine Except.bind_eq_ok.mpr ⟨_, ?_, rfl⟩
  simp only [fields, Json.writeEntries, code, context]
  simp only [Json.write, ofInt?_one]
  rfl

/-- The line of an event begins with its context and ends with a bracket. -/
theorem journalLine_of_write (made : e.toJson formats time = .ok j) (written : j.write = .ok line) :
    (∃ more, line = Json.journalLine more) ∧ line.getLast? = some (.scalar '\x7d') := by
  obtain ⟨kept, -, rfl⟩ := toJson_eq_ok.mp made
  obtain ⟨parts, each, done⟩ := Except.bind_eq_ok.mp written
  cases done
  have inOrder : ((Text.sortedByKey parts).map fun w => (w.1, ())) = fieldsInOrder () () () () () () () := by
    rw [Text.map_sortedByKey (fun w : Text × Text => (w.1, ())) fun _ => rfl, Json.keys_writeEntries _ each]
    exact sortedByKey_fields () () () () () () ()
  obtain ⟨first, others, known, context, -⟩ := List.map_eq_cons_iff.mp inOrder
  have key : first.1 = "context" := congrArg Prod.fst context
  have shape : Json.writeObject parts =
      "\x7b" ++ Text.join ", " ((Text.sortedByKey parts).map Json.writeEntry) ++ "\x7d" := rfl
  rw [shape]
  refine ⟨?_, List.getLast?_concat⟩
  obtain ⟨behind, starts⟩ := Json.join_starts (Json.writeEntry first) (others.map Json.writeEntry) "\x7d"
  rw [List.append_assoc, known, List.map_cons, starts]
  have entry : Json.writeEntry first ++ behind = Json.keyed "context" (first.2 ++ behind) := by
    rw [← key]
    exact Json.writeEntry_append first.1 first.2 behind
  rw [entry]
  exact ⟨("ntext" : Text).flatMap (Text.quotedChar .ascii) ++
    .scalar '"' :: .scalar ':' :: .scalar ' ' :: (first.2 ++ behind), rfl⟩

/-- The line of an event has no blanks at its ends. -/
theorem visible_of_write (made : e.toJson formats time = .ok j) (written : j.write = .ok line) :
    line ≠ [] ∧ (∀ c ∈ line.head?, c.isBlank = false) ∧ ∀ c ∈ line.getLast?, c.isBlank = false := by
  obtain ⟨⟨more, rfl⟩, last⟩ := journalLine_of_write made written
  refine ⟨List.cons_ne_nil _ _, fun c first => ?_, fun c final => ?_⟩
  · cases first
    decide
  · rw [last] at final
    cases final
    decide

end Event
end Reckoner
