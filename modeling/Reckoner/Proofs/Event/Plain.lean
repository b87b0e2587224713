import Reckoner.Proofs.Event.Line
/-!
# Plain events

An event is plain if its texts are made of characters and its context holds what JSON has. Blanking its secrets keeps it
so, and in whatever formats its context is kept as a JSON value. So a plain event has a line, which is read as the event
with its keys sorted (`IsPlain.line`).
-/
namespace Reckoner

namespace Redaction

theorem isWhole_shortened {t : Text} (whole : t.IsWhole) : (shortened t).IsWhole := by
  unfold shortened
  split
  · exact Text.IsWhole.append (fun c member => whole c (List.mem_of_mem_take member)) (Text.isWhole_ofString _)
  · exact whole

/-- Entries stay what JSON has if their values do. -/
theorem redact_of_keep {entries : List (Value × Value)} (are : Value.AreJson entries)
    (keeps : ∀ entry ∈ entries, ∃ v, keep entry.2 = .ok v ∧ v.IsJson) :
    ∃ kept, redact entries = .ok kept ∧ Value.AreJson kept := by
  induction entries with
  | nil => exact ⟨[], rfl, .nil⟩
  | cons entry rest ih =>
    obtain ⟨key, v⟩ := entry
    obtain ⟨t, rfl, name⟩ := are.names (key, v) (by simp)
    obtain ⟨others, redacted, areOthers⟩ := ih
      ⟨fun entry member => are.names entry (by simp [member]), fun entry member => are.each entry (by simp [member])⟩
      fun entry member => keeps entry (by simp [member])
    have own : isSecretKey (.text t) = .ok (namesSecret t) := rfl
    rw [redact, own, redacted]
    -- the mark of a secret is a text, so what stood there does not matter
    cases secret : namesSecret t with
    | true => exact ⟨_, rfl, .cons name (.text mark (Text.isWhole_ofString _)) areOthers⟩
    | false =>
      obtain ⟨w, kept, json⟩ := keeps (.text t, v) (by simp)
      simp only [Outcome.ok_bind, Bool.false_eq_true, if_false, kept]
      exact ⟨_, rfl, .cons name json areOthers⟩

/-- What JSON has is kept as something that JSON has. -/
theorem keep_isJson {v : Value} (json : v.IsJson) : ∃ w, keep v = .ok w ∧ w.IsJson := by
  induction json with
  | absent => exact ⟨_, rfl, .absent⟩
  | bool b => exact ⟨_, rfl, .bool b⟩
  | int n short => exact ⟨_, rfl, .int n short⟩
  | text t whole => exact ⟨_, rfl, .text _ (isWhole_shortened whole)⟩
  | list items each _ => exact ⟨_, rfl, .list items each⟩
  | mapping entries names each ih =>
    obtain ⟨kept, redacted, are⟩ := redact_of_keep ⟨names, each⟩ ih
    exact ⟨.mapping kept, by rw [keep, redacted]; rfl, .mapping kept are.names are.each⟩

theorem redact_areJson {entries : List (Value × Value)} (are : Value.AreJson entries) :
    ∃ kept, redact entries = .ok kept ∧ Value.AreJson kept :=
  redact_of_keep are fun entry member => keep_isJson (are.each entry member)

end Redaction

namespace Event

/-- An event of texts of characters, with a context that JSON has. -/
structure IsPlain (e : Event) : Prop where
  message : e.message.IsWhole
  errorCode : ∀ t ∈ e.errorCode, t.IsWhole
  context : ∀ entry ∈ e.context, entry.1.IsWhole ∧ entry.2.IsJson

variable {formats : Formats} {e : Event} {time : Text}

theorem isWhole_kind (k : EventKind) : k.label.IsWhole := by cases k <;> exact Text.isWhole_ofString _

theorem isWhole_level (l : EventLevel) : l.label.IsWhole := by cases l <;> exact Text.isWhole_ofString _

theorem isSound_asJson (whole : time.IsWhole) (plain : e.IsPlain) {kept : Json} (sound : kept.IsSound) :
    (e.asJson time kept).IsSound := by
  have code : ((e.errorCode.map Json.text).getD .null).IsSound := by
    cases known : e.errorCode with
    | none => exact ⟨⟨_, rfl⟩, by simp [Json.texts]⟩
    | some t => exact Json.isSound_text (plain.errorCode t known)
  refine Json.isSound_object ?_ ?_
  · simp only [fields, List.forall_mem_cons, List.not_mem_nil, false_implies, implies_true, and_true]
    exact ⟨Text.isWhole_ofString _, Text.isWhole_ofString _, Text.isWhole_ofString _, Text.isWhole_ofString _,
      Text.isWhole_ofString _, Text.isWhole_ofString _, Text.isWhole_ofString _⟩
  · simp only [fields, List.forall_mem_cons, List.not_mem_nil, false_implies, implies_true, and_true]
    exact ⟨⟨⟨_, ofInt?_one⟩, by simp [Json.texts]⟩, Json.isSound_text whole, Json.isSound_text (isWhole_level _),
      Json.isSound_text (isWhole_kind _), sound, Json.isSound_text plain.message, code⟩

/-- The context of a plain event, with its secrets blanked, is a JSON value. -/
theorem IsPlain.context_isJson (plain : e.IsPlain) :
    ∃ redacted, Redaction.redact (e.context.map fun (name, v) => (.text name, v)) = .ok redacted ∧
      (Value.mapping redacted).IsJson := by
  have are : Value.AreJson (e.context.map fun entry => (.text entry.1, entry.2)) := by
    refine ⟨fun entry member => ?_, fun entry member => ?_⟩
    · obtain ⟨own, inside, rfl⟩ := List.mem_map.mp member
      exact ⟨own.1, rfl, (plain.context own inside).1⟩
    · obtain ⟨own, inside, rfl⟩ := List.mem_map.mp member
      exact (plain.context own inside).2
  obtain ⟨redacted, known, areKept⟩ := Redaction.redact_areJson are
  exact ⟨redacted, known, .mapping redacted areKept.names areKept.each⟩

/-- The JSON value of a context with its secrets blanked. -/
def IsContextOf (e : Event) (kept : Json) : Prop :=
  ∃ redacted, Redaction.redact (e.context.map fun (name, v) => (.text name, v)) = .ok redacted ∧
    Json.ofValue? (.mapping redacted) = some kept

/-- Whatever the formats, the context of a plain event is kept as its JSON value. -/
theorem IsPlain.kept (plain : e.IsPlain) (keeps : formats.KeepsJson) :
    ∃ kept, e.IsContextOf kept ∧ e.keptContext formats = .ok kept ∧ kept.IsSound := by
  obtain ⟨redacted, known, json⟩ := plain.context_isJson
  obtain ⟨kept, value, sound⟩ := Json.ofValue?_isSound json
  exact ⟨kept, ⟨redacted, known, value⟩, Except.bind_eq_ok.mpr ⟨redacted, known, keeps _ _ json value⟩, sound⟩

/-- A plain event has a line, and no text of it has anything to join. -/
theorem IsPlain.line (plain : e.IsPlain) (differ : formats.KeysDiffer) (keeps : formats.KeepsJson)
    (whole : time.IsWhole) :
    ∃ j line, e.toJson formats time = .ok j ∧ j.write = .ok line ∧ j.sorted.joined = j.sorted := by
  obtain ⟨kept, -, known, sound⟩ := plain.kept keeps
  have made := toJson_of_kept known time
  have soundEvent := isSound_asJson whole plain sound
  obtain ⟨line, written⟩ := soundEvent.writes
  refine ⟨_, line, made, written, (Json.joined_sorted_iff (keysDiffer_toJson differ made)).mpr fun t member => ?_⟩
  exact (soundEvent.whole t member).joinPairs

end Event
end Reckoner
