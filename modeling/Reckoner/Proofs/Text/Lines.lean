import Reckoner.Text.Lines
import Mathlib.Data.List.Basic
import Mathlib.Data.List.TakeWhile
/-!
# Lines of a text that grows

The last line of a text is open: what is written next goes on with it until something ends it. All lines before it
are ended and stay as they are.
-/
namespace Reckoner.Text

theorem lines_ne_nil (t : Text) : t.lines ≠ [] := by
  cases t with
  | nil => simp [lines]
  | cons c rest =>
    unfold lines
    split
    · simp
    · split <;> simp

/-- The lines that something ends. -/
def endedLines (t : Text) : List Text := t.lines.dropLast

/-- What stands behind the last end of a line. -/
def openLine (t : Text) : Text := t.lines.getLast t.lines_ne_nil

theorem lines_eq (t : Text) : t.lines = t.endedLines ++ [t.openLine] :=
  (List.dropLast_concat_getLast t.lines_ne_nil).symm

theorem endedLines_of_lines {t : Text} {ended : List Text} {last : Text} (h : t.lines = ended ++ [last]) :
    t.endedLines = ended := by
  rw [endedLines, h, List.dropLast_concat]

theorem openLine_of_lines {t : Text} {ended : List Text} {last : Text} (h : t.lines = ended ++ [last]) :
    t.openLine = last := by
  simp only [openLine, h, List.getLast_concat]

theorem lines_cons_of_ends {c : CodePoint} (ends : c.endsLine = true) (rest : Text) :
    lines (c :: rest) = [] :: lines rest := by
  rw [lines, if_pos ends]

theorem lines_cons_of_within {c : CodePoint} (within : c.endsLine = false) {rest line : Text} {others : List Text}
    (h : rest.lines = line :: others) : lines (c :: rest) = (c :: line) :: others := by
  rw [lines, if_neg (by simp [within]), h]

/-- A text without an end of a line is one line. -/
theorem lines_of_within {w : Text} (within : ∀ c ∈ w, c.endsLine = false) : w.lines = [w] := by
  induction w with
  | nil => rfl
  | cons c w ih => exact lines_cons_of_within (within c (by simp)) (ih fun d member => within d (by simp [member]))

/-- What is written within a line goes on with the open one. -/
theorem lines_append_within (s : Text) {w : Text} (within : ∀ c ∈ w, c.endsLine = false) :
    (s ++ w).lines = s.endedLines ++ [s.openLine ++ w] := by
  induction s with
  | nil => exact lines_of_within within
  | cons c s ih =>
    by_cases ends : c.endsLine = true
    · have parts : lines (c :: s) = ([] :: endedLines s) ++ [openLine s] := by
        rw [lines_cons_of_ends ends, lines_eq s, List.cons_append]
      rw [List.cons_append, lines_cons_of_ends ends, ih, endedLines_of_lines parts, openLine_of_lines parts,
        List.cons_append]
    · have inside : c.endsLine = false := by simpa using ends
      cases ended : endedLines s with
      | nil =>
        have parts : lines (c :: s) = [] ++ [c :: openLine s] :=
          lines_cons_of_within inside (by rw [lines_eq s, ended, List.nil_append])
        rw [ended, List.nil_append] at ih
        rw [List.cons_append, lines_cons_of_within inside ih, endedLines_of_lines parts, openLine_of_lines parts]
        rfl
      | cons line others =>
        have parts : lines (c :: s) = ((c :: line) :: others) ++ [openLine s] :=
          lines_cons_of_within inside (by rw [lines_eq s, ended]; rfl)
        rw [ended, List.cons_append] at ih
        rw [List.cons_append, lines_cons_of_within inside ih, endedLines_of_lines parts, openLine_of_lines parts,
          List.cons_append]

/-- The end of a line parts a text. -/
theorem lines_append_end (s : Text) {c : CodePoint} (ends : c.endsLine = true) (rest : Text) :
    (s ++ c :: rest).lines = s.lines ++ rest.lines := by
  induction s with
  | nil => exact lines_cons_of_ends ends rest
  | cons d s ih =>
    by_cases first : d.endsLine = true
    · rw [List.cons_append, lines_cons_of_ends first, lines_cons_of_ends first, ih, List.cons_append]
    · have inside : d.endsLine = false := by simpa using first
      obtain ⟨line, others, known⟩ := List.exists_cons_of_ne_nil (lines_ne_nil s)
      rw [known, List.cons_append] at ih
      rw [List.cons_append, lines_cons_of_within inside ih, lines_cons_of_within inside known, List.cons_append]

/-- A line that is written and ended goes on with the open line and leaves an empty one. -/
theorem lines_append_line (s : Text) {w : Text} (within : ∀ c ∈ w, c.endsLine = false) {c : CodePoint}
    (ends : c.endsLine = true) : (s ++ w ++ [c]).lines = s.endedLines ++ [s.openLine ++ w] ++ [[]] := by
  rw [lines_append_end (s ++ w) ends [], lines_append_within s within]
  rfl

/-- Printable ASCII characters alone. -/
def IsPrintableAscii (t : Text) : Prop := ∀ c ∈ t, 0x20 ≤ c.toNat ∧ c.toNat < 0x7F

instance (t : Text) : Decidable t.IsPrintableAscii :=
  inferInstanceAs (Decidable (∀ c ∈ t, 0x20 ≤ c.toNat ∧ c.toNat < 0x7F))

theorem IsPrintableAscii.append {s t : Text} (first : s.IsPrintableAscii) (second : t.IsPrintableAscii) :
    (s ++ t).IsPrintableAscii := by
  intro c member
  rcases List.mem_append.mp member with early | late
  · exact first c early
  · exact second c late

theorem IsPrintableAscii.within {t : Text} (printable : t.IsPrintableAscii) : ∀ c ∈ t, c.endsLine = false := by
  intro c member
  obtain ⟨low, high⟩ := printable c member
  simp only [CodePoint.endsLine, Bool.or_eq_false_iff, Bool.and_eq_false_iff, decide_eq_false_iff_not,
    beq_eq_false_iff_ne]
  omega

theorem stripStart_of_head {t : Text} (visible : ∀ c ∈ t.head?, c.isBlank = false) : t.stripStart = t := by
  cases t with
  | nil => rfl
  | cons c rest => rw [stripStart, List.dropWhile_cons_of_neg (by simp [visible c rfl])]

/-- Of a text that ends visibly only the blanks at its start are cut. -/
theorem strip_append (p : Text) {w : Text} (nonempty : w ≠ []) (first : ∀ c ∈ w.head?, c.isBlank = false)
    (last : ∀ c ∈ w.getLast?, c.isBlank = false) : (p ++ w).strip = p.stripStart ++ w := by
  have start : (p ++ w).stripStart = p.stripStart ++ w := by
    by_cases blank : p.stripStart = []
    · rw [stripStart, List.dropWhile_append, ← stripStart, blank, List.isEmpty_nil, if_pos rfl, ← stripStart,
        stripStart_of_head first, List.nil_append]
    · rw [stripStart, List.dropWhile_append, ← stripStart, if_neg (by simpa using blank)]
  rw [strip, start, stripStart_of_head, List.reverse_reverse]
  intro c head
  rw [List.head?_reverse, List.getLast?_append_of_ne_nil _ nonempty] at head
  exact last c head

theorem stripStart_eq_nil_iff {t : Text} : t.stripStart = [] ↔ t.isBlank = true := by
  rw [stripStart, List.dropWhile_eq_nil_iff, isBlank, List.all_eq_true]

theorem head?_stripStart {t : Text} : ∀ c ∈ t.stripStart.head?, c.isBlank = false := by
  intro c head
  by_contra blank
  have visible := List.head?_dropWhile_not CodePoint.isBlank t
  rw [← stripStart, Option.mem_def.mp head] at visible
  exact blank (by simpa using visible)

end Reckoner.Text
