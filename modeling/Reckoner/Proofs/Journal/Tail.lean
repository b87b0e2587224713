import Reckoner.Proofs.Journal.Append
import Mathlib.Data.List.Infix
/-!
# The end of a journal

A journal of ended lines that hold one object each is read as a list of these objects (`readLines_file`). From its end
only whole lines are taken: the line in which the end begins is left out, and with it a line that begins just there
(`lastBytes_file`). So whatever the bound, what is read of the end is what comes first when everything is read
(`read_tail_prefix`), and of the lines that lie within the end all are read but one that begins exactly where the end
does, behind another line (`read_within_iff`).
-/
namespace Reckoner.Journal

/-- A line that holds one object and nothing that ends a line, without its own end. -/
structure Entry where
  line : List UInt8
  fields : List (Text × Json)
  unbroken : ∀ c ∈ Text.Utf8.decode line, c.endsLine = false
  holds : Json.read (Text.Utf8.decode line).strip = .ok (.object fields)

namespace Entry

/-- The object that the line holds. -/
def event (e : Entry) : Json := .object e.fields

/-- The line with its end. -/
def bytes (e : Entry) : List UInt8 := e.line ++ [10]

/-- A file of lines, each ended. -/
def file (entries : List Entry) : List UInt8 := entries.flatMap bytes

/-- The lines behind the one in which so many bytes from the start of the file on end; a line that begins there is left
out too. -/
def behindCut : Nat → List Entry → List Entry
  | _, [] => []
  | cut, e :: rest => if cut ≤ e.line.length then rest else behindCut (cut - e.bytes.length) rest

/-- The lines that are taken from so many bytes at the end of the file. -/
def taken (tailBytes : Int) (entries : List Entry) : List Entry :=
  if tailBytes < (file entries).length then behindCut ((file entries).length - tailBytes).toNat entries else entries

/-- The objects of lines that a query asks for, the newest first. -/
def newest (q : Query) (entries : List Entry) : List Json :=
  ((entries.map event).filter (passes q)).reverse.take (quota q)

variable {e : Entry} {entries before after : List Entry} {q : Query} {cut : Nat}

@[simp] theorem file_nil : file [] = [] := rfl

theorem file_cons (e : Entry) (rest : List Entry) : file (e :: rest) = e.line ++ 10 :: file rest := by
  simp [file, bytes]

theorem file_append (before after : List Entry) : file (before ++ after) = file before ++ file after :=
  List.flatMap_append

theorem length_bytes (e : Entry) : e.bytes.length = e.line.length + 1 := by simp [bytes]

theorem length_file_cons (e : Entry) (rest : List Entry) :
    (file (e :: rest)).length = e.bytes.length + (file rest).length := by
  rw [file, List.flatMap_cons, List.length_append, ← file]

theorem decode_end (bytes rest : List UInt8) :
    Text.Utf8.decode (bytes ++ 10 :: rest) = Text.Utf8.decode bytes ++ .scalar '\n' :: Text.Utf8.decode rest :=
  Text.Utf8.decode_append_cons (c := .scalar '\n') (by decide) bytes rest

/-- No line feed stands within a line. -/
theorem lineFeed_notMem (e : Entry) : 10 ∉ e.line := by
  intro member
  obtain ⟨first, second, split⟩ := List.append_of_mem member
  have within := e.unbroken (.scalar '\n') (by rw [split, decode_end]; simp)
  cases within

/-- The lines of a file are the lines of which it is made, with an empty one behind them. -/
theorem lines_file (entries : List Entry) :
    (Text.Utf8.decode (file entries)).lines = entries.map (fun e => Text.Utf8.decode e.line) ++ [[]] := by
  induction entries with
  | nil => rfl
  | cons e rest ih =>
    rw [file_cons, decode_end, Text.lines_append_end _ (by decide), Text.lines_of_within e.unbroken, ih]
    rfl

theorem records_map (entries : List Entry) :
    records (entries.map fun e => Text.Utf8.decode e.line) = entries.map fun e => (Text.Utf8.decode e.line).strip := by
  have visible : ∀ line ∈ (entries.map fun e => Text.Utf8.decode e.line).map Text.strip, (!line.isEmpty) = true := by
    intro line member
    simp only [List.map_map, List.mem_map, Function.comp_apply] at member
    obtain ⟨e, -, rfl⟩ := member
    cases empty : (Text.Utf8.decode e.line).strip with
    | nil =>
      have holds := e.holds
      rw [empty] at holds
      cases holds
    | cons c rest => rfl
  rw [records, List.filter_eq_self.mpr visible, List.map_map]
  rfl

/-- A file of such lines is legible, and its objects are read in their order. -/
theorem readLines_file (entries : List Entry) :
    readLines (Text.Utf8.decode (file entries)) = .ok (entries.map event) := by
  have empty : records [[]] = [] := rfl
  rw [readLines_iff, lines_file, records_append, empty, List.append_nil, records_map]
  constructor
  · intro line member l illegible
    obtain ⟨e, -, rfl⟩ := List.mem_map.mp member
    rw [e.holds] at illegible
    cases illegible
  · rw [held, List.filterMap_map]
    refine (List.filterMap_eq_map_iff_forall_eq_some.mpr fun e member => ?_).symm
    show (Json.read (Text.Utf8.decode e.line).strip).toOption = _
    rw [e.holds]
    rfl

theorem afterFirstLine_drop (within : cut ≤ e.line.length) (rest : List Entry) :
    afterFirstLine ((file (e :: rest)).drop cut) = file rest := by
  have plain : ∀ b ∈ e.line.drop cut, (b != 10) = true := by
    intro b member
    rw [bne_iff_ne]
    rintro rfl
    exact e.lineFeed_notMem (List.mem_of_mem_drop member)
  rw [file_cons, List.drop_append_of_le_length within, afterFirstLine, List.dropWhile_append_of_pos plain,
    List.dropWhile_cons_of_neg (by decide)]

/-- Behind a cut the file goes on with whole lines. -/
theorem afterFirstLine_file (cut : Nat) (entries : List Entry) :
    afterFirstLine ((file entries).drop cut) = file (behindCut cut entries) := by
  induction entries generalizing cut with
  | nil => simp [behindCut, afterFirstLine]
  | cons e rest ih =>
    rw [behindCut]
    split
    next within => exact afterFirstLine_drop within rest
    next beyond =>
      rw [← ih, file, List.flatMap_cons, ← file, List.drop_append, List.drop_eq_nil_of_le, List.nil_append]
      rw [length_bytes]
      omega

/-- The end of a file holds whole lines. -/
theorem lastBytes_file (tailBytes : Int) (entries : List Entry) :
    lastBytes tailBytes (file entries) = file (taken tailBytes entries) := by
  unfold lastBytes taken
  split
  next => exact afterFirstLine_file _ entries
  next => rfl

theorem behindCut_suffix (cut : Nat) (entries : List Entry) : behindCut cut entries <:+ entries := by
  induction entries generalizing cut with
  | nil => exact List.suffix_refl _
  | cons e rest ih =>
    rw [behindCut]
    split
    next => exact List.suffix_cons e rest
    next => exact (ih _).trans (List.suffix_cons e rest)

theorem taken_suffix (tailBytes : Int) (entries : List Entry) : taken tailBytes entries <:+ entries := by
  unfold taken
  split
  next => exact behindCut_suffix _ entries
  next => exact List.suffix_refl _

theorem taken_of_covers {tailBytes : Int} (covers : ((file entries).length : Int) ≤ tailBytes) :
    taken tailBytes entries = entries := if_neg (by omega)

/-- A query takes the newest objects of lines. -/
theorem select_events (limit : 0 ≤ q.limit) (entries : List Entry) :
    select q (entries.map event) = .ok (newest q entries) := by
  have objects : ∀ j ∈ entries.map event, j.isObject = true := by
    intro j member
    obtain ⟨e, -, rfl⟩ := List.mem_map.mp member
    rfl
  cases filtered : (q.level.isEmpty && q.kind.isEmpty) with
  | true =>
    have pass : ∀ j ∈ entries.map event, passes q j = true := by
      intro j member
      rw [Bool.and_eq_true] at filtered
      simp [passes, filtered, objects j member]
    rw [select_of_no_filter limit filtered, newest, List.filter_eq_self.mpr pass]
  | false => exact (select_of_filter limit filtered).mpr ⟨objects, rfl⟩

/-- A file of such lines is read as the newest objects of the lines that are taken from its end. -/
theorem read_file (limit : 0 ≤ q.limit) (entries : List Entry) :
    read q (.file (file entries)) = .ok (newest q (taken q.tailBytes entries)) := by
  have shape : read q (.file (file entries)) =
      readLines (Text.Utf8.decode (lastBytes q.tailBytes (file entries))) >>= fun events => select q events := rfl
  rw [shape, lastBytes_file, readLines_file]
  exact select_events limit _

theorem newest_prefix (q : Query) (later : after <:+ entries) : newest q after <+: newest q entries := by
  have suffix : (after.map event).filter (passes q) <:+ (entries.map event).filter (passes q) :=
    (later.map event).filter _
  exact List.IsPrefix.take (List.reverse_prefix.mpr suffix) (quota q)

/-- Without filters all objects are taken that are asked for. -/
theorem newest_of_no_filter (noLevel : q.level = []) (noKind : q.kind = [])
    (limit : (entries.length : Int) ≤ q.limit) (most : q.limit ≤ Query.maxLimit) :
    newest q entries = (entries.map event).reverse := by
  have pass : ∀ j ∈ entries.map event, passes q j = true := by
    intro j member
    obtain ⟨e, -, rfl⟩ := List.mem_map.mp member
    simp [passes, noLevel, noKind, event, Json.isObject]
  have all : entries.length ≤ quota q := le_quota limit (Int.le_trans limit most)
  rw [newest, List.filter_eq_self.mpr pass, List.take_of_length_le]
  rwa [List.length_reverse, List.length_map]

/-- A cut before the lines of the file leaves all of them that stand behind. -/
theorem behindCut_append (inside : cut < (file before).length) (after : List Entry) :
    behindCut cut (before ++ after) = behindCut cut before ++ after := by
  induction before generalizing cut with
  | nil => cases inside
  | cons e rest ih =>
    rw [List.cons_append, behindCut, behindCut]
    split
    next => rfl
    next beyond =>
      rw [length_file_cons] at inside
      have length := length_bytes e
      exact ih (by omega)

/-- A cut where a line begins leaves what stands behind this line. -/
theorem behindCut_start (before after : List Entry) (e : Entry) :
    behindCut (file before).length (before ++ e :: after) = after := by
  induction before with
  | nil => exact if_pos (Nat.zero_le _)
  | cons other rest ih =>
    have length := length_bytes other
    rw [List.cons_append, behindCut, length_file_cons, if_neg (by omega), Nat.add_sub_cancel_left, ih]

/-- Of lines that lie within the end of a file, all are taken that do not begin exactly where it does. -/
theorem suffix_taken {tailBytes : Int}
    (inside : before = [] ∧ ((file after).length : Int) ≤ tailBytes ∨ ((file after).length : Int) < tailBytes) :
    after <:+ taken tailBytes (before ++ after) := by
  unfold taken
  rw [file_append, List.length_append]
  split
  next longer =>
    rcases inside with ⟨rfl, fits⟩ | inside
    · rw [file_nil] at longer
      simp only [List.length_nil] at longer
      omega
    · rw [behindCut_append (by omega)]
      exact List.suffix_append _ _
  next => exact List.suffix_append _ _

/-- A line that begins exactly where the end of a file does is left out if it is not the first one. -/
theorem taken_of_start {tailBytes : Int} (behind : before ≠ [])
    (start : ((file (e :: after)).length : Int) = tailBytes) : taken tailBytes (before ++ e :: after) = after := by
  have some : 0 < (file before).length := by
    obtain ⟨first, rest, rfl⟩ := List.exists_cons_of_ne_nil behind
    rw [length_file_cons, length_bytes]
    omega
  unfold taken
  rw [file_append, List.length_append, if_pos (by omega)]
  have cut : (((file before).length + (file (e :: after)).length : Nat) - tailBytes).toNat = (file before).length := by
    omega
  rw [cut]
  exact behindCut_start before after e

/-- When all of a journal is read its newest objects are given, and whatever the bound, what is read of its end comes
first among them. -/
theorem read_tail_prefix (entries : List Entry) (q : Query) (limit : 0 ≤ q.limit) (whole : Int)
    (covers : ((file entries).length : Int) ≤ whole) :
    ∃ found, read q (.file (file entries)) = .ok found ∧
      read { q with tailBytes := whole } (.file (file entries)) = .ok (newest q entries) ∧
        found <+: newest q entries := by
  refine ⟨_, read_file limit entries, ?_, newest_prefix q (taken_suffix q.tailBytes entries)⟩
  have all := read_file (q := { q with tailBytes := whole }) limit entries
  rwa [taken_of_covers covers] at all

/-- A line with an object of one number. -/
def one : Entry :=
  ⟨[123, 34, 97, 34, 58, 49, 125], [("a", .int 1)], by decide, by with_unfolding_all rfl⟩

/-- Another one, which is as long. -/
def two : Entry :=
  ⟨[123, 34, 98, 34, 58, 50, 125], [("b", .int 2)], by decide, by with_unfolding_all rfl⟩

/-- The end of two lines that is cut within the first one is read as the second one. -/
theorem read_tail_prefix_two :
    (0 : Int) ≤ 5 ∧ ((file [one, two]).length : Int) ≤ 16 ∧
      read ⟨[], [], 5, 10⟩ (.file (file [one, two])) = .ok [two.event] ∧
        read ⟨[], [], 5, 16⟩ (.file (file [one, two])) = .ok [two.event, one.event] ∧
          [two.event] <+: [two.event, one.event] := by
  obtain ⟨found, own, all, first⟩ := read_tail_prefix [one, two] ⟨[], [], 5, 10⟩ (by decide) 16 (by decide)
  have cut : read ⟨[], [], 5, 10⟩ (.file (file [one, two])) = .ok [two.event] := read_file (by decide) [one, two]
  cases own.symm.trans cut
  exact ⟨by decide, by decide, cut, all, first⟩

/-- A line that lies within the end of the journal is read, in its place behind those that are newer, exactly if it is
the first one of the file or does not begin exactly where the end does. -/
theorem read_within_iff (before after : List Entry) (e : Entry) (q : Query) (noLevel : q.level = [])
    (noKind : q.kind = []) (limit : ((before ++ e :: after).length : Int) ≤ q.limit) (most : q.limit ≤ Query.maxLimit)
    (fits : ((file (e :: after)).length : Int) ≤ q.tailBytes) :
    ∃ found, read q (.file (file (before ++ e :: after))) = .ok found ∧
      (((e :: after).map event).reverse <+: found ↔ before = [] ∨ ((file (e :: after)).length : Int) < q.tailBytes) := by
  have later := taken_suffix q.tailBytes (before ++ e :: after)
  have few : ((taken q.tailBytes (before ++ e :: after)).length : Int) ≤ q.limit := by
    have shorter := later.length_le
    omega
  refine ⟨_, read_file (by omega) _, ?_⟩
  rw [newest_of_no_filter noLevel noKind few most]
  constructor
  · intro read
    by_contra start
    obtain ⟨behind, notBelow⟩ := not_or.mp start
    rw [taken_of_start behind (by omega)] at read
    have length := read.length_le
    simp at length
  · intro inside
    have all : e :: after <:+ taken q.tailBytes (before ++ e :: after) :=
      suffix_taken (inside.imp_left fun none => ⟨none, fits⟩)
    exact List.reverse_prefix.mpr (all.map event)

/-- A line with more of the file in front of it is read. -/
theorem read_within_iff_two :
    ((file [two]).length : Int) ≤ 9 ∧
      ∃ found, read ⟨[], [], 2, 9⟩ (.file (file [one, two])) = .ok found ∧ [two.event] <+: found := by
  obtain ⟨found, read, place⟩ :=
    read_within_iff [one] [] two ⟨[], [], 2, 9⟩ rfl rfl (by decide) (by decide) (by decide)
  exact ⟨by decide, found, read, place.mpr (.inr (by decide))⟩

/-- A line that begins exactly where the end of the journal does is lost. -/
theorem not_read_within_start :
    ¬∀ (before after : List Entry) (e : Entry) (q : Query), q.level = [] → q.kind = [] →
      ((before ++ e :: after).length : Int) ≤ q.limit → q.limit ≤ Query.maxLimit →
        ((file (e :: after)).length : Int) ≤ q.tailBytes →
          ∃ found, read q (.file (file (before ++ e :: after))) = .ok found ∧ e.event ∈ found := by
  intro always
  let q : Query := ⟨[], [], 2, 8⟩
  obtain ⟨found, read, member⟩ := always [one] [] two q rfl rfl (by decide) (by decide) (by decide)
  have none : taken q.tailBytes ([one] ++ two :: []) = [] := taken_of_start (by simp) (by decide)
  rw [read_file (by decide), none] at read
  cases read
  cases member

end Entry

end Reckoner.Journal
