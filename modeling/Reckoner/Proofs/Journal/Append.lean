import Reckoner.Proofs.Event.Line
import Reckoner.Proofs.Formats.Standard
import Reckoner.Proofs.Journal.Reading
import Reckoner.Proofs.Text.Lines
import Reckoner.Proofs.Text.Utf8
/-!
# An event behind anything

A line that is written goes on with the open line of what the journal holds already. So the event is read first exactly
when that line is blank and nothing before it stops the reading, or when the same event has been there before
(`append_readsFirst_iff`).
-/
namespace Reckoner.Journal

/-- Whatever query without filters takes in the whole file and asks for an event at least, it gives the value first. -/
def ReadsFirst (journal : Journal) (j : Json) : Prop :=
  ∀ q : Query, q.level = [] → q.kind = [] → 1 ≤ q.limit → ((journal.bytes?.getD []).length : Int) ≤ q.tailBytes →
    ∃ others, read q journal = .ok (j :: others)

variable {journal : Journal} {q : Query} {bytes prior : List UInt8} {j : Json} {line time : Text} {e : Event}
  {formats : Formats}

theorem lastBytes_of_covers (covers : (bytes.length : Int) ≤ q.tailBytes) : lastBytes q.tailBytes bytes = bytes :=
  if_neg (by omega)

/-- A query without filters that takes in the whole journal gives its newest values. -/
theorem read_of_covers (noLevel : q.level = []) (noKind : q.kind = []) (limit : 0 ≤ q.limit)
    (covers : ((journal.bytes?.getD []).length : Int) ≤ q.tailBytes) :
    read q journal = readLines (Text.Utf8.decode (journal.bytes?.getD [])) >>= fun events =>
      .ok (events.reverse.take (quota q)) := by
  have none : (q.level.isEmpty && q.kind.isEmpty) = true := by rw [noLevel, noKind]; rfl
  cases known : journal.bytes? with
  | none =>
    rw [read, known, select_of_no_filter limit none, List.reverse_nil, List.take_nil]
    show _ = Except.ok (([] : List Json).take (quota q))
    rw [List.take_nil]
  | some bytes =>
    rw [known] at covers
    change (bytes.length : Int) ≤ q.tailBytes at covers
    rw [read, known]
    show (readLines (Text.Utf8.decode (lastBytes q.tailBytes bytes)) >>= fun events => select q events) = _
    rw [lastBytes_of_covers covers]
    simp only [select_of_no_filter limit none]
    rfl

/-- As many events as a query asks for, up to the greatest number, are within its quota. -/
theorem le_quota {n : Nat} (limit : (n : Int) ≤ q.limit) (few : (n : Int) ≤ Query.maxLimit) : n ≤ quota q := by
  rw [quota]
  omega

theorem one_le_quota (limit : 1 ≤ q.limit) : 1 ≤ quota q := le_quota limit (by decide)

theorem take_reverse_eq_cons_iff {α : Type} {n : Nat} (some : 1 ≤ n) {as : List α} {a : α} :
    (∃ others, as.reverse.take n = a :: others) ↔ as.getLast? = .some a := by
  obtain ⟨n, rfl⟩ : ∃ m, n = m + 1 := ⟨n - 1, by omega⟩
  rw [← List.head?_reverse]
  cases as.reverse with
  | nil => simp
  | cons b bs => simp

/-- A value is read first exactly when the journal is legible and it is the newest value in it. -/
theorem readsFirst_iff :
    ReadsFirst journal j ↔
      (∀ line ∈ records (Text.Utf8.decode (journal.bytes?.getD [])).lines, IsLegible line) ∧
        (held (records (Text.Utf8.decode (journal.bytes?.getD [])).lines)).getLast? = some j := by
  constructor
  · intro first
    -- the sparest query that takes in everything
    let newest : Query := ⟨[], [], 1, (journal.bytes?.getD []).length⟩
    have one : 1 ≤ newest.limit := Int.le_refl 1
    obtain ⟨others, found⟩ := first newest rfl rfl one (Int.le_refl _)
    rw [read_of_covers rfl rfl (Int.le_trans (by decide) one) (Int.le_refl _)] at found
    obtain ⟨events, lines, taken⟩ := Except.bind_eq_ok.mp found
    obtain ⟨legible, rfl⟩ := readLines_iff.mp lines
    exact ⟨legible, (take_reverse_eq_cons_iff (one_le_quota one)).mp ⟨others, Except.ok.inj taken⟩⟩
  · rintro ⟨legible, newest⟩ q noLevel noKind limit covers
    obtain ⟨others, taken⟩ := (take_reverse_eq_cons_iff (one_le_quota limit)).mpr newest
    refine ⟨others, ?_⟩
    rw [read_of_covers noLevel noKind (by omega) covers, readLines_iff.mpr ⟨legible, rfl⟩, ← taken]
    rfl

theorem records_append (first second : List Text) : records (first ++ second) = records first ++ records second := by
  simp [records]

theorem held_append (first second : List Text) : held (first ++ second) = held first ++ held second := by
  simp [held]

/-- What a journal holds behind a line that was written to it. -/
theorem append_file (written : e.line? formats time = some line) (prior : List UInt8) :
    (Journal.file prior).append formats time e = .file (prior ++ Text.Utf8.encode line ++ [10]) := by
  rw [append, written]
  rfl

/-- A line that is written goes on with the open line and ends it. -/
theorem lines_append (printable : line.IsPrintableAscii) (prior : List UInt8) :
    (Text.Utf8.decode (prior ++ Text.Utf8.encode line ++ [10])).lines =
      (Text.Utf8.decode prior).endedLines ++ [(Text.Utf8.decode prior).openLine ++ line] ++ [[]] := by
  have ascii : Text.IsAscii (line ++ [.scalar '\n']) := by
    intro c member
    rcases List.mem_append.mp member with inside | ending
    · exact Nat.lt_trans (printable c inside).2 (by decide)
    · cases List.mem_singleton.mp ending
      decide
  have encoded : Text.Utf8.encode line ++ [10] = Text.Utf8.encode (line ++ [.scalar '\n']) := by
    simp [Text.Utf8.encode, Text.Utf8.encodeChar]
  rw [List.append_assoc, encoded, Text.Utf8.decode_append_ascii ascii, ← List.append_assoc,
    Text.lines_append_line _ printable.within (by decide)]

/-- What the open line and the line of an event make together, without the blanks in front. -/
theorem records_append_line (made : e.toJson formats time = .ok j) (written : j.write = .ok line) (prior : List UInt8) :
    records (Text.Utf8.decode (prior ++ Text.Utf8.encode line ++ [10])).lines =
      records (Text.Utf8.decode prior).endedLines ++ [(Text.Utf8.decode prior).openLine.stripStart ++ line] := by
  obtain ⟨nonempty, first, last⟩ := Event.visible_of_write made written
  have joined : ((Text.Utf8.decode prior).openLine ++ line).strip =
      (Text.Utf8.decode prior).openLine.stripStart ++ line := Text.strip_append _ nonempty first last
  have empty : records [[]] = [] := rfl
  have single : records [(Text.Utf8.decode prior).openLine ++ line] =
      [(Text.Utf8.decode prior).openLine.stripStart ++ line] := by
    simp [records, joined, nonempty]
  rw [lines_append (Json.isPrintableAscii_write written), records_append, records_append, empty, single,
    List.append_nil]

theorem isBlank_of_isSpace {c : CodePoint} (space : Json.isSpace c = true) : c.isBlank = true := by
  simp only [Json.isSpace, Bool.or_eq_true, beq_iff_eq] at space
  rcases space with ((rfl | rfl) | rfl) | rfl <;> decide

/-- On a line of its own an event is legible, and is held as it is read. -/
theorem held_line (whole : Json.read line = .ok j) : IsLegible line ∧ held [line] = [j] := by
  refine ⟨fun l illegible => ?_, ?_⟩
  · rw [whole] at illegible
    cases illegible
  · rw [held, List.filterMap_cons, whole]
    rfl

/-- Behind something on the same line an event is lost. -/
theorem held_torn {more : Text} (whole : Json.read (Json.journalLine more) = .ok j) {p : Text} (torn : p ≠ [])
    (visible : ∀ c ∈ p.head?, c.isBlank = false) : held [p ++ Json.journalLine more] = [] := by
  have seen : ∀ c ∈ p.head?, Json.isSpace c = false := by
    intro c head
    by_contra space
    have blank := isBlank_of_isSpace (by simpa using space)
    rw [visible c head] at blank
    cases blank
  rw [held, List.filterMap_cons]
  cases found : Json.read (p ++ Json.journalLine more) with
  | error f => rfl
  | ok k => exact absurd found (Json.read_ne_ok_of_torn whole torn seen k)

/-- What is read first behind the line of an event, which goes on with the open line. -/
theorem readsFirst_append_iff (made : e.toJson formats time = .ok j) (written : j.write = .ok line) (prior : List UInt8)
    {k : Json} :
    ReadsFirst ((Journal.file prior).append formats time e) k ↔
      (∀ l ∈ records (Text.Utf8.decode prior).endedLines, IsLegible l) ∧
        IsLegible ((Text.Utf8.decode prior).openLine.stripStart ++ line) ∧
          (held (records (Text.Utf8.decode prior).endedLines) ++
            held [(Text.Utf8.decode prior).openLine.stripStart ++ line]).getLast? = some k := by
  have content : (Journal.file (prior ++ Text.Utf8.encode line ++ [10])).bytes?.getD [] =
      prior ++ Text.Utf8.encode line ++ [10] := rfl
  rw [append_file (Event.line?_eq_some.mpr ⟨j, made, written⟩), readsFirst_iff, content,
    records_append_line made written, held_append, List.forall_mem_append, List.forall_mem_singleton, and_assoc]

/-- Behind an open line that is not blank the event is lost. -/
theorem held_append_torn (made : e.toJson formats time = .ok j) (written : j.write = .ok line)
    (torn : (Text.Utf8.decode prior).openLine.isBlank = false) :
    held [(Text.Utf8.decode prior).openLine.stripStart ++ line] = [] := by
  obtain ⟨⟨more, shape⟩, -⟩ := Event.journalLine_of_write made written
  have shown : (Text.Utf8.decode prior).openLine.stripStart ≠ [] := by
    rw [Ne, Text.stripStart_eq_nil_iff, torn]
    decide
  rw [shape]
  exact held_torn (shape ▸ Json.read_write written) shown Text.head?_stripStart

/-- The event is read first exactly when what ended before it is legible and, where the open line is blank, no text of
it has two halves of a surrogate pair side by side, and elsewhere it was the newest event of the ended lines before. -/
theorem append_readsFirst_iff (differ : formats.KeysDiffer) (made : e.toJson formats time = .ok j)
    (written : j.write = .ok line) (prior : List UInt8) :
    ReadsFirst ((Journal.file prior).append formats time e) j.sorted ↔
      (∀ l ∈ records (Text.Utf8.decode prior).endedLines, IsLegible l) ∧
        if (Text.Utf8.decode prior).openLine.isBlank then ∀ t ∈ j.texts, Json.joinPairs t = t
        else IsLegible ((Text.Utf8.decode prior).openLine.stripStart ++ line) ∧
          (held (records (Text.Utf8.decode prior).endedLines)).getLast? = some j.sorted := by
  rw [readsFirst_append_iff made written prior]
  refine and_congr_right fun legible => ?_
  -- Behind a blank open line the event has a line of its own.
  cases blank : (Text.Utf8.decode prior).openLine.isBlank with
  | true =>
    obtain ⟨own, single⟩ := held_line (Json.read_write written)
    rw [Text.stripStart_eq_nil_iff.mpr blank, List.nil_append, single, List.getLast?_concat, if_pos rfl,
      Option.some.injEq, ← Json.joined_sorted_iff (Event.keysDiffer_toJson differ made)]
    exact and_iff_right own
  | false => rw [if_neg (by decide), held_append_torn made written blank, List.append_nil]

/-- An event that tells of the formula `f`. -/
def failure : Event := ⟨.failed, .error, "m", none, [("formula", .text "f")]⟩

/-- The event as the journal keeps it. -/
def failureJson : Json := failure.asJson "t" (.object [("formula", .text "f")])

/-- The line of the event. -/
def failureLine : Text :=
  Json.writeObject (Event.fields "1" (("t" : Text).quoted .ascii) (EventLevel.error.label.quoted .ascii)
    (EventKind.failed.label.quoted .ascii) (Json.writeObject [("formula", ("f" : Text).quoted .ascii)])
    (("m" : Text).quoted .ascii) "null")

theorem toJson_failure : failure.toJson .standard "t" = .ok failureJson := rfl

theorem write_failureJson : failureJson.write = .ok failureLine :=
  Event.write_asJson "t" failure rfl

/-- An ended line that holds no JSON. -/
def scrap : List UInt8 := Text.Utf8.encode "scrap\n"

/-- Behind such a line the event is read first. -/
theorem append_readsFirst_scrap :
    Formats.standard.KeysDiffer ∧ failure.toJson .standard "t" = .ok failureJson ∧
      failureJson.write = .ok failureLine ∧
        ReadsFirst ((Journal.file scrap).append .standard "t" failure) failureJson.sorted := by
  have differ := Formats.standard_keysDiffer
  refine ⟨differ, toJson_failure, write_failureJson,
    (append_readsFirst_iff differ toJson_failure write_failureJson scrap).mpr ⟨?_, ?_⟩⟩
  · have ended : records (Text.Utf8.decode scrap).endedLines = [Text.ofString "scrap"] := rfl
    have malformed : Json.read "scrap" = .error .malformed := by with_unfolding_all rfl
    rw [ended, List.forall_mem_singleton]
    intro l illegible
    rw [malformed] at illegible
    cases illegible
  · have blank : (Text.Utf8.decode scrap).openLine.isBlank = true := rfl
    have apart : ∀ t ∈ failureJson.texts, Json.joinPairs t = t := by decide
    rw [if_pos blank]
    exact apart

/-- Behind a line that was torn the event is lost. -/
theorem not_append_readsFirst_torn :
    ¬∀ (e : Event) (time : Text) (j : Json) (line : Text) (prior : List UInt8), e.toJson .standard time = .ok j →
      j.write = .ok line → ReadsFirst ((Journal.file prior).append .standard time e) j.sorted := by
  intro always
  let torn : List UInt8 := Text.Utf8.encode "\x7b\"torn\": 1"
  have ended : records (Text.Utf8.decode torn).endedLines = [] := rfl
  have shown : (Text.Utf8.decode torn).openLine.isBlank = false := rfl
  have first := always failure "t" failureJson failureLine torn toJson_failure write_failureJson
  rw [readsFirst_append_iff toJson_failure write_failureJson, ended,
    held_append_torn toJson_failure write_failureJson shown] at first
  cases first.2.2

end Reckoner.Journal
