import Reckoner.Journal
import Reckoner.Proofs.Outcome
import Mathlib.Data.List.Basic
/-!
# Reading the journal

What should be read from a journal are the objects among its lines that pass the filters, the newest first and so many
at most (`answer`). This is what is read exactly when no line holds a whole number of too many digits, and what is
looked at are objects only: the newest values without a filter, and all of them with one (`read_eq_answer_iff`).
-/
namespace Reckoner.Journal

/-- The lines that hold something, without the blanks at their ends. -/
def records (lines : List Text) : List Text := (lines.map Text.strip).filter fun line => !line.isEmpty

/-- The values that lines hold. -/
def held (lines : List Text) : List Json := lines.filterMap fun line => (Json.read line).toOption

/-- The line holds a value or none, but no whole number of too many digits. -/
def IsLegible (line : Text) : Prop := ∀ l, Json.read line ≠ .error (.digits l)

/-- The text at the end of a journal that a query looks at. -/
def tail (q : Query) (bytes : List UInt8) : Text := Text.Utf8.decode (lastBytes q.tailBytes bytes)

/-- An object with the level and the kind that are asked for. -/
def passes (q : Query) (j : Json) : Bool :=
  j.isObject && (q.level.isEmpty || (j.get? "level").any (·.isText q.level)) &&
    (q.kind.isEmpty || (j.get? "event_type").any (·.isText q.kind))

/-- How many events a query asks for. -/
def quota (q : Query) : Nat := (min q.limit Query.maxLimit).toNat

/-- The objects in a text that pass the filters of a query, the newest first. -/
def answer (q : Query) (t : Text) : List Json := ((held (records t.lines)).filter (passes q)).reverse.take (quota q)

/-- The values in a text that a query looks at: all of them to filter them, and the newest ones otherwise. -/
def lookedAt (q : Query) (t : Text) : List Json :=
  if q.level.isEmpty && q.kind.isEmpty then (held (records t.lines)).reverse.take (quota q) else held (records t.lines)

variable {q : Query} {t : Text} {lines : List Text} {events : List Json}

theorem readLine?_of_legible {line : Text} (legible : IsLegible line) :
    readLine? line = .ok (Json.read line).toOption := by
  unfold readLine?
  split
  next j value => rw [value]; rfl
  next malformed => rw [malformed]; rfl
  next l illegible => exact absurd illegible (legible l)

theorem readLine?_of_illegible {line : Text} (illegible : ¬IsLegible line) :
    ∃ l, readLine? line = .error (.digits l) := by
  simp only [IsLegible, ne_eq, not_forall, not_not] at illegible
  obtain ⟨l, known⟩ := illegible
  exact ⟨l, by rw [readLine?, known]⟩

theorem mapM_readLine? (legible : ∀ line ∈ lines, IsLegible line) :
    lines.mapM readLine? = .ok (lines.map fun line => (Json.read line).toOption) := by
  induction lines with
  | nil => rfl
  | cons line lines ih =>
    rw [List.mapM_cons, readLine?_of_legible (legible line (by simp)),
      ih fun other member => legible other (by simp [member])]
    rfl

theorem isLegible_of_mapM {found : List (Option Json)} (h : lines.mapM readLine? = .ok found) :
    ∀ line ∈ lines, IsLegible line := by
  induction lines generalizing found with
  | nil => simp
  | cons line lines ih =>
    rw [List.mapM_cons] at h
    obtain ⟨first, read, h⟩ := Except.bind_eq_ok.mp h
    obtain ⟨others, rest, -⟩ := Except.bind_eq_ok.mp h
    refine List.forall_mem_cons.mpr ⟨?_, ih rest⟩
    by_contra illegible
    obtain ⟨l, failed⟩ := readLine?_of_illegible illegible
    rw [failed] at read
    cases read

/-- The lines of a text are read exactly when they are legible. -/
theorem readLines_iff :
    readLines t = .ok events ↔ (∀ line ∈ records t.lines, IsLegible line) ∧ events = held (records t.lines) := by
  have shape : readLines t = ((records t.lines).mapM readLine?).map (·.filterMap id) := rfl
  have values :
      ((records t.lines).map fun line => (Json.read line).toOption).filterMap id = held (records t.lines) := by
    rw [List.filterMap_map]
    rfl
  constructor
  · intro h
    rw [shape] at h
    cases found : (records t.lines).mapM readLine? with
    | error e =>
      rw [found] at h
      cases h
    | ok values' =>
      have legible := isLegible_of_mapM found
      rw [mapM_readLine? legible] at h
      refine ⟨legible, ?_⟩
      rw [← values]
      exact (Except.ok.inj h).symm
  · rintro ⟨legible, rfl⟩
    rw [shape, mapM_readLine? legible, ← values]
    rfl

/-- Of a list that is cut first, filtering leaves everything exactly when all of it passes. -/
theorem take_eq_take_filter_iff {α : Type} {p : α → Bool} (n : Nat) (as : List α) :
    as.take n = (as.filter p).take n ↔ ∀ a ∈ as.take n, p a = true := by
  constructor
  · intro same a member
    rw [same] at member
    exact List.of_mem_filter (List.mem_of_mem_take member)
  · intro each
    induction as generalizing n with
    | nil => rfl
    | cons a as ih =>
      cases n with
      | zero => rfl
      | succ n =>
        have first : p a = true := each a (by simp)
        rw [List.filter_cons_of_pos first, List.take_succ_cons, List.take_succ_cons,
          ← ih n fun b member => each b (by simp [member])]

theorem filterBy_of_empty {key wanted : Text} (none : wanted.isEmpty = true) (events : List Json) :
    filterBy key wanted events = .ok events := if_pos none

theorem filterBy_of_objects (key wanted : Text) (objects : ∀ j ∈ events, j.isObject = true) :
    filterBy key wanted events = .ok (events.filter fun e => wanted.isEmpty || (e.get? key).any (·.isText wanted)) := by
  unfold filterBy
  by_cases none : wanted.isEmpty = true
  · simp [none]
  · have some : wanted.isEmpty = false := by simpa using none
    simp only [some, Bool.false_eq_true, if_false, if_pos (List.all_eq_true.mpr objects), Bool.false_or]

theorem filterBy_of_other {key wanted : Text} (some : wanted.isEmpty = false)
    (other : ¬∀ j ∈ events, j.isObject = true) : filterBy key wanted events = .error .notAnObject := by
  rw [← List.all_eq_true] at other
  rw [filterBy, if_neg (by simp [some]), if_neg other]

theorem takeSigned_eq (limit : 0 ≤ q.limit) {α : Type} (as : List α) :
    takeSigned (min q.limit Query.maxLimit) as = as.take (quota q) := by
  have positive : 0 ≤ min q.limit Query.maxLimit := Int.le_min.mpr ⟨limit, by decide⟩
  rw [takeSigned, if_pos positive, quota]

theorem select_eq (limit : 0 ≤ q.limit) (events : List Json) :
    select q events =
      filterBy "level" q.level events >>= fun found => filterBy "event_type" q.kind found >>= fun found =>
        .ok (found.reverse.take (quota q)) := by
  simp only [← takeSigned_eq limit]
  rfl

/-- Without a filter the newest values are taken as they are. -/
theorem select_of_no_filter (limit : 0 ≤ q.limit) (none : (q.level.isEmpty && q.kind.isEmpty) = true)
    (events : List Json) : select q events = .ok (events.reverse.take (quota q)) := by
  rw [Bool.and_eq_true] at none
  rw [select_eq limit, filterBy_of_empty none.1]
  show (filterBy "event_type" q.kind events >>= _) = _
  rw [filterBy_of_empty none.2]
  rfl

/-- With a filter all values must be objects, and those that pass are taken. -/
theorem select_of_filter (limit : 0 ≤ q.limit) (some : (q.level.isEmpty && q.kind.isEmpty) = false)
    {found : List Json} :
    select q events = .ok found ↔
      (∀ j ∈ events, j.isObject = true) ∧ found = (events.filter (passes q)).reverse.take (quota q) := by
  rw [select_eq limit]
  by_cases objects : ∀ j ∈ events, j.isObject = true
  · have pass : ∀ j ∈ events, passes q j = ((q.kind.isEmpty || (j.get? "event_type").any (·.isText q.kind)) &&
        (q.level.isEmpty || (j.get? "level").any (·.isText q.level))) := by
      intro j member
      rw [passes, objects j member, Bool.true_and, Bool.and_comm]
    rw [filterBy_of_objects _ _ objects, List.filter_congr pass, ← List.filter_filter]
    show (filterBy "event_type" q.kind (events.filter _) >>= _) = _ ↔ _
    rw [filterBy_of_objects _ _ fun j member => objects j (List.mem_of_mem_filter member)]
    show Except.ok _ = Except.ok found ↔ _
    rw [Except.ok.injEq]
    exact ⟨fun same => ⟨objects, same.symm⟩, fun h => h.2.symm⟩
  · refine ⟨fun h => ?_, fun h => absurd h.1 objects⟩
    -- whichever filter comes first meets what is no object
    cases level : q.level.isEmpty with
    | false =>
      rw [filterBy_of_other level objects] at h
      cases h
    | true =>
      rw [level, Bool.true_and] at some
      rw [filterBy_of_empty level] at h
      change (filterBy "event_type" q.kind events >>= _) = _ at h
      rw [filterBy_of_other some objects] at h
      cases h

/-- Reading without an error gives the objects that pass the filters exactly when nothing else is looked at. -/
theorem select_eq_answer_iff (limit : 0 ≤ q.limit) :
    select q (held (records t.lines)) = .ok (answer q t) ↔ ∀ j ∈ lookedAt q t, j.isObject = true := by
  cases filtered : (q.level.isEmpty && q.kind.isEmpty) with
  | true =>
    have pass : ∀ j ∈ held (records t.lines), passes q j = j.isObject := by
      intro j _
      rw [Bool.and_eq_true] at filtered
      simp [passes, filtered]
    rw [select_of_no_filter limit filtered, Except.ok.injEq, answer, lookedAt, if_pos filtered,
      List.filter_congr pass, ← List.filter_reverse]
    exact take_eq_take_filter_iff _ _
  | false =>
    rw [select_of_filter limit filtered, lookedAt, if_neg (by simp [filtered])]
    exact and_iff_left rfl

/-- A journal is read as it should be exactly when no line that is looked at has a whole number of too many digits and
only objects are looked at. -/
theorem read_eq_answer_iff (q : Query) (bytes : List UInt8) (limit : 0 ≤ q.limit) :
    read q (.file bytes) = .ok (answer q (tail q bytes)) ↔
      (∀ line ∈ records (tail q bytes).lines, IsLegible line) ∧ ∀ j ∈ lookedAt q (tail q bytes), j.isObject = true := by
  rw [← select_eq_answer_iff limit]
  have shape : read q (.file bytes) = (readLines (tail q bytes) >>= fun events => select q events) := rfl
  rw [shape, Except.bind_eq_ok]
  constructor
  · rintro ⟨events, lines, selected⟩
    obtain ⟨legible, rfl⟩ := readLines_iff.mp lines
    exact ⟨legible, selected⟩
  · rintro ⟨legible, selected⟩
    exact ⟨_, readLines_iff.mpr ⟨legible, rfl⟩, selected⟩

/-- A journal of one line with an object without entries is read as this object. -/
theorem read_eq_answer_braces :
    0 ≤ Query.all.limit ∧ read .all (.file [123, 125, 10]) = .ok [.object []] := by
  have lines : records (tail .all [123, 125, 10]).lines = [Text.ofString "\x7b\x7d"] := by decide
  have values : lookedAt .all (tail .all [123, 125, 10]) = [.object []] := rfl
  refine ⟨by decide, (read_eq_answer_iff .all [123, 125, 10] (by decide)).mpr ⟨?_, ?_⟩⟩
  · rw [lines]
    intro line member l illegible
    cases List.mem_singleton.mp member
    cases illegible
  · rw [values]
    simp [Json.isObject]

/-- A line that holds a number is read as if it were an event. -/
theorem not_read_eq_answer_number :
    ¬∀ (q : Query) (bytes : List UInt8), 0 ≤ q.limit → read q (.file bytes) = .ok (answer q (tail q bytes)) := by
  intro always
  have numbers : read .all (.file [51, 10]) = .ok [.int 3] := rfl
  have none : answer .all (tail .all [51, 10]) = [] := rfl
  have same := always .all [51, 10] (by decide)
  rw [numbers, none] at same
  cases same

end Reckoner.Journal
