import Reckoner.Proofs.Json.Atom
import Reckoner.Proofs.Json.Canonical
import Reckoner.Proofs.Json.Quoted
import Reckoner.Proofs.Outcome
/-!
# Written values are read back

What is written for a value is printable ASCII, and reading it gives the value again with its keys sorted and the
surrogate pairs in its texts joined (`read_write`). A value inside another one is read up to what stands behind it, so
the induction goes over the written form before any text that may follow (`Spells`).
-/
namespace Reckoner.Json

/-- What a value may start with, so that reading finds it where it is: no blank, and no end of a list. -/
def OpensValue (c : CodePoint) : Prop := isSpace c = false ∧ c ≠ .scalar ']'

/-- The written form of a value, which is read back before anything that may stand behind it. A call of the reader reads
at least a code point of it, but for the first part of a list and of an object. -/
structure Spells (j : Json) (t : Text) : Prop where
  opens : ∃ c rest, t = c :: rest ∧ OpensValue c
  printable : t.IsPrintableAscii
  reads : ∀ depth rest, 2 * t.length ≤ depth → Stops rest → readValue depth (t ++ rest) = .ok (j, rest)

variable {depth : Nat} {t rest after more : Text} {j : Json} {items : List Json} {entries : List (Text × Json)}

theorem skipSpace_cons {c : CodePoint} (visible : isSpace c = false) (rest : Text) :
    skipSpace (c :: rest) = c :: rest := by
  rw [skipSpace, List.dropWhile_cons_of_neg (by simp [visible])]

/-- What starts neither as a text nor as a list nor as an object is a word or a number. -/
theorem readValue_atom {c : CodePoint} (opens : OpensAtom c) (depth : Nat) (rest : Text) :
    readValue (depth + 1) (c :: rest) = readAtom (c :: rest) := by
  have others : ∀ d ∈ ([.scalar '"', .scalar '[', .scalar '\x7b'] : Text), ¬OpensAtom d := by decide
  unfold readValue
  split
  next same =>
    cases same
    exact absurd opens (others _ (by simp))
  next same =>
    cases same
    exact absurd opens (others _ (by simp))
  next same =>
    cases same
    exact absurd opens (others _ (by simp))
  next => rfl

theorem readValue_text (t rest : Text) (depth : Nat) :
    readValue (depth + 1) (t.quoted .ascii ++ rest) = .ok (.text (joinPairs t), rest) := by
  have shape : t.quoted .ascii ++ rest =
      .scalar '"' :: (t.flatMap (Text.quotedChar .ascii) ++ .scalar '"' :: rest) := by simp [Text.quoted]
  rw [shape, readValue]
  show (readText (t.flatMap (Text.quotedChar .ascii) ++ .scalar '"' :: rest) >>=
    fun found => .ok (Json.text found.1, found.2)) = _
  rw [readText_quoted]
  rfl

theorem readValue_list_nil (depth : Nat) (rest : Text) :
    readValue (depth + 1) (.scalar '[' :: .scalar ']' :: rest) = .ok (.list [], rest) := rfl

theorem readValue_list (opens : ∃ c rest, t = c :: rest ∧ OpensValue c)
    (inside : readItems depth t = .ok (items, after)) :
    readValue (depth + 1) (.scalar '[' :: t) = .ok (.list items, after) := by
  obtain ⟨c, rest, rfl, visible, inner⟩ := opens
  rw [readValue, skipSpace_cons visible]
  split
  next same =>
    cases same
    exact absurd rfl inner
  next =>
    rw [inside]
    rfl

theorem readItems_last (value : readValue depth t = .ok (j, .scalar ']' :: after)) :
    readItems (depth + 1) t = .ok ([j], after) := by
  rw [readItems, value]
  rfl

theorem readItems_next (value : readValue depth t = .ok (j, .scalar ',' :: more))
    (others : readItems depth (skipSpace more) = .ok (items, after)) :
    readItems (depth + 1) t = .ok (j :: items, after) := by
  rw [readItems, value]
  show (readItems depth (skipSpace more) >>= fun found => .ok (j :: found.1, found.2)) = _
  rw [others]
  rfl

/-- A key of an object with what stands behind it. -/
def keyed (key t : Text) : Text :=
  .scalar '"' :: (key.flatMap (Text.quotedChar .ascii) ++ .scalar '"' :: .scalar ':' :: .scalar ' ' :: t)

theorem writeEntry_append (key t rest : Text) : writeEntry (key, t) ++ rest = keyed key (t ++ rest) := by
  simp [writeEntry, keyed, Text.quoted, Text.ofString]

theorem readValue_object_nil (depth : Nat) (rest : Text) :
    readValue (depth + 1) (.scalar '\x7b' :: .scalar '\x7d' :: rest) = .ok (.ofEntries [], rest) := rfl

theorem readValue_object {key : Text} (inside : readEntries depth (keyed key t) = .ok (entries, after)) :
    readValue (depth + 1) (.scalar '\x7b' :: keyed key t) = .ok (.ofEntries entries, after) := by
  show (readEntries depth (keyed key t) >>= fun found => .ok (Json.ofEntries found.1, found.2)) = _
  rw [inside]
  rfl

theorem readEntries_keyed (opens : ∃ c rest, t = c :: rest ∧ OpensValue c) (key : Text) (depth : Nat) :
    readEntries (depth + 1) (keyed key t) =
      (readValue depth t >>= fun found =>
        match skipSpace found.2 with
        | .scalar '\x7d' :: after => .ok ([(joinPairs key, found.1)], after)
        | .scalar ',' :: more => readEntries depth (skipSpace more) >>= fun others =>
            .ok ((joinPairs key, found.1) :: others.1, others.2)
        | _ => .error .malformed) := by
  obtain ⟨c, rest, rfl, visible, -⟩ := opens
  have skipped : skipSpace (.scalar ' ' :: c :: rest) = c :: rest := skipSpace_cons visible rest
  rw [readEntries.eq_def, keyed]
  simp only [readText_quoted]
  show (readValue depth (skipSpace (.scalar ' ' :: c :: rest)) >>= fun found => _) = _
  rw [skipped]
  rfl

theorem readEntries_last (opens : ∃ c rest, t = c :: rest ∧ OpensValue c) {key : Text}
    (value : readValue depth t = .ok (j, .scalar '\x7d' :: after)) :
    readEntries (depth + 1) (keyed key t) = .ok ([(joinPairs key, j)], after) := by
  rw [readEntries_keyed opens, value]
  rfl

theorem readEntries_next (opens : ∃ c rest, t = c :: rest ∧ OpensValue c) {key : Text}
    (value : readValue depth t = .ok (j, .scalar ',' :: more))
    (others : readEntries depth (skipSpace more) = .ok (entries, after)) :
    readEntries (depth + 1) (keyed key t) = .ok ((joinPairs key, j) :: entries, after) := by
  rw [readEntries_keyed opens, value]
  show (readEntries depth (skipSpace more) >>= fun found => .ok ((joinPairs key, j) :: found.1, found.2)) = _
  rw [others]
  rfl

theorem isPrintableAscii_join {separator : Text} (between : separator.IsPrintableAscii) {parts : List Text}
    (each : ∀ part ∈ parts, part.IsPrintableAscii) : (Text.join separator parts).IsPrintableAscii := by
  induction parts with
  | nil => simp [Text.join, Text.IsPrintableAscii]
  | cons part others ih =>
    have rest := ih fun part member => each part (by simp [member])
    cases others with
    | nil => exact each part (by simp)
    | cons next others => exact ((each part (by simp)).append between).append rest

theorem Spells.append_opens (spells : Spells j t) (rest : Text) : ∃ c more, t ++ rest = c :: more ∧ OpensValue c := by
  obtain ⟨c, more, rfl, opens⟩ := spells.opens
  exact ⟨c, more ++ rest, rfl, opens⟩

theorem SpellsAtom.spells (h : SpellsAtom j t) : Spells j t := by
  obtain ⟨c, more, rfl, opens⟩ := h.opens
  refine ⟨⟨c, more, rfl, ?_⟩, h.printable, fun depth rest enough stops => ?_⟩
  · rcases opens with digit | letter
    · cases c with
      | surrogate offset => cases digit
      | scalar c =>
        refine ⟨?_, ?_⟩
        · by_contra space
          simp only [isSpace, Bool.or_eq_true, beq_iff_eq, Bool.not_eq_false] at space
          rcases space with ((space | space) | space) | space <;> cases space <;> cases digit
        · intro same
          cases same
          cases digit
    · have each : ∀ d ∈ ("-ntfNI" : Text), isSpace d = false ∧ d ≠ .scalar ']' := by decide
      exact each c letter
  · cases depth with
    | zero => simp at enough
    | succ depth =>
      rw [List.cons_append, readValue_atom opens]
      exact h.reads rest stops

theorem spells_text (t : Text) : Spells (.text (joinPairs t)) (t.quoted .ascii) := by
  refine ⟨⟨_, _, rfl, by decide, by decide⟩, Text.isPrintableAscii_quoted t, fun depth rest enough _ => ?_⟩
  cases depth with
  | zero => simp [Text.quoted] at enough
  | succ depth => exact readValue_text t rest depth

theorem join_next (t t' : Text) (parts : List Text) (rest : Text) :
    Text.join ", " (t :: t' :: parts) ++ rest =
      t ++ .scalar ',' :: .scalar ' ' :: (Text.join ", " (t' :: parts) ++ rest) := by
  simp [Text.join, Text.ofString]

theorem length_join_next (t t' : Text) (parts : List Text) :
    (Text.join ", " (t :: t' :: parts)).length = t.length + 2 + (Text.join ", " (t' :: parts)).length := by
  have shape := congrArg List.length (join_next t t' parts [])
  simp only [List.append_nil, List.length_append, List.length_cons] at shape
  omega

theorem join_starts (t : Text) (parts : List Text) (rest : Text) :
    ∃ behind, Text.join ", " (t :: parts) ++ rest = t ++ behind := by
  cases parts with
  | nil => exact ⟨rest, rfl⟩
  | cons t' parts => exact ⟨_, join_next t t' parts rest⟩

/-- A blank is passed over behind a comma. -/
theorem skipSpace_join {t : Text} (opens : ∀ more, ∃ c rest, t ++ more = c :: rest ∧ isSpace c = false)
    (parts : List Text) (rest : Text) :
    skipSpace (.scalar ' ' :: (Text.join ", " (t :: parts) ++ rest)) = Text.join ", " (t :: parts) ++ rest := by
  obtain ⟨behind, starts⟩ := join_starts t parts rest
  obtain ⟨c, more, opened, visible⟩ := opens behind
  rw [starts, opened]
  exact skipSpace_cons visible more

/-- Items between commas, each given with its written form, are read back up to the end of the list. -/
theorem readItems_join (written : List (Json × Text)) (spelled : ∀ w ∈ written, Spells w.1 w.2)
    (nonempty : written ≠ []) (enough : 2 * (Text.join ", " (written.map Prod.snd)).length + 1 ≤ depth) (rest : Text) :
    readItems depth (Text.join ", " (written.map Prod.snd) ++ .scalar ']' :: rest) =
      .ok (written.map Prod.fst, rest) := by
  induction written generalizing depth with
  | nil => exact absurd rfl nonempty
  | cons w others ih =>
    obtain ⟨depth, rfl⟩ : ∃ d, depth = d + 1 := ⟨depth - 1, by omega⟩
    have first : Spells w.1 w.2 := spelled w (by simp)
    cases others with
    | nil =>
      simp only [List.map_cons, List.map_nil, Text.join] at enough ⊢
      exact readItems_last (first.reads depth _ (by omega) (by simp [Stops]))
    | cons w' others =>
      have second : Spells w'.1 w'.2 := spelled w' (by simp)
      have rest := @ih depth (fun w member => spelled w (by simp [member])) (by simp)
      simp only [List.map_cons] at enough rest ⊢
      rw [length_join_next] at enough
      rw [join_next]
      refine readItems_next (first.reads depth _ (by omega) (by simp [Stops])) ?_
      rw [skipSpace_join fun more => (second.append_opens more).imp fun c => .imp fun rest h => ⟨h.1, h.2.1⟩]
      exact rest (by omega)

/-- The written forms of entries, each given by a key, its value and the written form of that. -/
def entryTexts (written : List (Text × Json × Text)) : List Text := written.map fun w => writeEntry (w.1, w.2.2)

/-- Entries between commas are read back up to the end of the object. -/
theorem readEntries_join (written : List (Text × Json × Text)) (spelled : ∀ w ∈ written, Spells w.2.1 w.2.2)
    (nonempty : written ≠ []) (enough : 2 * (Text.join ", " (entryTexts written)).length + 1 ≤ depth) (rest : Text) :
    readEntries depth (Text.join ", " (entryTexts written) ++ .scalar '\x7d' :: rest) =
      .ok (written.map fun w => (joinPairs w.1, w.2.1), rest) := by
  induction written generalizing depth with
  | nil => exact absurd rfl nonempty
  | cons w others ih =>
    obtain ⟨key, j, t⟩ := w
    obtain ⟨depth, rfl⟩ : ∃ d, depth = d + 1 := ⟨depth - 1, by omega⟩
    have first : Spells j t := spelled (key, j, t) (by simp)
    have longer : t.length ≤ (writeEntry (key, t)).length := by
      simp only [writeEntry, List.length_append]
      omega
    cases others with
    | nil =>
      simp only [entryTexts, List.map_cons, List.map_nil, Text.join] at enough ⊢
      rw [writeEntry_append]
      exact readEntries_last (first.append_opens _) (first.reads depth _ (by omega) (by simp [Stops]))
    | cons w' others =>
      have rest := @ih depth (fun w member => spelled w (by simp [member])) (by simp)
      simp only [entryTexts, List.map_cons] at enough rest ⊢
      rw [length_join_next] at enough
      rw [join_next, writeEntry_append]
      refine readEntries_next (first.append_opens _) (first.reads depth _ (by omega) (by simp [Stops])) ?_
      rw [skipSpace_join fun more => ⟨_, _, writeEntry_append _ _ more, by decide⟩]
      exact rest (by omega)

/-- A text between brackets. -/
theorem bracketed_append (opening closing : Char) (t rest : Text) :
    [CodePoint.scalar opening] ++ t ++ [.scalar closing] ++ rest =
      .scalar opening :: (t ++ .scalar closing :: rest) := by
  simp

theorem spells_list (written : List (Json × Text)) (spelled : ∀ w ∈ written, Spells w.1 w.2) :
    Spells (.list (written.map Prod.fst)) ("[" ++ Text.join ", " (written.map Prod.snd) ++ "]") := by
  refine ⟨⟨_, _, rfl, by decide, by decide⟩, ?_, fun depth rest enough _ => ?_⟩
  · have each : ∀ part ∈ written.map Prod.snd, part.IsPrintableAscii := by
      intro part member
      obtain ⟨w, inside, rfl⟩ := List.mem_map.mp member
      exact (spelled w inside).printable
    exact (Text.IsPrintableAscii.append (by decide) (isPrintableAscii_join (by decide) each)).append (by decide)
  · have size : 2 * (Text.join ", " (written.map Prod.snd)).length + 4 ≤ depth := by
      simp only [List.length_append] at enough
      have opening : (Text.ofString "[").length = 1 := rfl
      have closing : (Text.ofString "]").length = 1 := rfl
      omega
    obtain ⟨depth, rfl⟩ : ∃ d, depth = d + 1 := ⟨depth - 1, by omega⟩
    show readValue (depth + 1)
      ([CodePoint.scalar '['] ++ Text.join ", " (written.map Prod.snd) ++ [.scalar ']'] ++ rest) = _
    rw [bracketed_append]
    cases written with
    | nil => exact readValue_list_nil depth rest
    | cons w written =>
      obtain ⟨behind, starts⟩ := join_starts w.2 (written.map Prod.snd) (.scalar ']' :: rest)
      refine readValue_list ?_ (readItems_join (w :: written) spelled (by simp) (by omega) rest)
      rw [List.map_cons, starts]
      exact (spelled w (by simp)).append_opens behind

theorem spells_object (written : List (Text × Json × Text)) (spelled : ∀ w ∈ written, Spells w.2.1 w.2.2) :
    Spells (.ofEntries (written.map fun w => (joinPairs w.1, w.2.1)))
      ("\x7b" ++ Text.join ", " (entryTexts written) ++ "\x7d") := by
  refine ⟨⟨_, _, rfl, by decide, by decide⟩, ?_, fun depth rest enough _ => ?_⟩
  · have each : ∀ part ∈ entryTexts written, part.IsPrintableAscii := by
      intro part member
      obtain ⟨w, inside, rfl⟩ := List.mem_map.mp member
      exact ((Text.isPrintableAscii_quoted w.1).append (by decide)).append (spelled w inside).printable
    exact (Text.IsPrintableAscii.append (by decide) (isPrintableAscii_join (by decide) each)).append (by decide)
  · have size : 2 * (Text.join ", " (entryTexts written)).length + 4 ≤ depth := by
      simp only [List.length_append] at enough
      have opening : (Text.ofString "\x7b").length = 1 := rfl
      have closing : (Text.ofString "\x7d").length = 1 := rfl
      omega
    obtain ⟨depth, rfl⟩ : ∃ d, depth = d + 1 := ⟨depth - 1, by omega⟩
    show readValue (depth + 1)
      ([CodePoint.scalar '\x7b'] ++ Text.join ", " (entryTexts written) ++ [.scalar '\x7d'] ++ rest) = _
    rw [bracketed_append]
    cases written with
    | nil => exact readValue_object_nil depth rest
    | cons w written =>
      obtain ⟨behind, starts⟩ := join_starts (writeEntry (w.1, w.2.2)) (entryTexts written) (.scalar '\x7d' :: rest)
      have inside := readEntries_join (w :: written) spelled (by simp) (by omega : _ ≤ depth) rest
      rw [entryTexts, List.map_cons, ← entryTexts, starts, writeEntry_append] at inside ⊢
      exact readValue_object inside

mutual

/-- What is written for a value spells the value with its keys sorted and its surrogate pairs joined. -/
theorem spells_write (j : Json) {t : Text} (h : j.write = .ok t) : Spells j.sorted.joined t := by
  cases j with
  | null =>
    cases h
    exact spellsAtom_null.spells
  | bool b =>
    cases h
    exact (spellsAtom_bool b).spells
  | int n => exact (spellsAtom_int h).spells
  | float x =>
    cases h
    exact (spellsAtom_float x).spells
  | text t =>
    cases h
    exact spells_text t
  | list items =>
    obtain ⟨parts, itemsWritten, done⟩ := Except.bind_eq_ok.mp h
    cases done
    obtain ⟨written, values, rfl, spelled⟩ := spells_writeItems items itemsWritten
    rw [sorted, joined, ← values]
    exact spells_list written spelled
  | object entries =>
    obtain ⟨parts, entriesWritten, done⟩ := Except.bind_eq_ok.mp h
    cases done
    obtain ⟨written, values, rfl, spelled⟩ := spells_writeEntries entries entriesWritten
    -- sorting takes each entry along with its written form
    let ordered := (Text.sortedByKey written).map fun w => (w.1, w.2.1.joined, w.2.2)
    have spelledInOrder : ∀ w ∈ ordered, Spells w.2.1 w.2.2 := by
      intro w member
      obtain ⟨before, inside, rfl⟩ := List.mem_map.mp member
      exact spelled before (mem_sortedByKey.mp inside)
    have value : (Json.object entries).sorted.joined = .ofEntries (ordered.map fun w => (joinPairs w.1, w.2.1)) := by
      rw [sorted, joined, joinedEntries_eq_map, ← values,
        ← Text.map_sortedByKey (fun w : Text × Json × Text => (w.1, w.2.1)) fun _ => rfl, List.map_map, List.map_map]
      rfl
    have text : (Text.sortedByKey (written.map fun w => (w.1, w.2.2))).map writeEntry = entryTexts ordered := by
      rw [← Text.map_sortedByKey (fun w : Text × Json × Text => (w.1, w.2.2)) fun _ => rfl, List.map_map, entryTexts,
        List.map_map]
      rfl
    rw [value]
    show Spells _ ("\x7b" ++ Text.join ", " ((Text.sortedByKey (written.map fun w => (w.1, w.2.2))).map writeEntry) ++
      "\x7d")
    rw [text]
    exact spells_object ordered spelledInOrder

theorem spells_writeItems (items : List Json) {parts : List Text} (h : writeItems items = .ok parts) :
    ∃ written : List (Json × Text), written.map Prod.fst = joinedItems (sortedItems items) ∧
      written.map Prod.snd = parts ∧ ∀ w ∈ written, Spells w.1 w.2 := by
  cases items with
  | nil =>
    cases h
    exact ⟨[], rfl, rfl, by simp⟩
  | cons j items =>
    obtain ⟨t, first, others⟩ := Except.bind_eq_ok.mp h
    obtain ⟨parts, rest, done⟩ := Except.bind_eq_ok.mp others
    cases done
    obtain ⟨written, values, rfl, spelled⟩ := spells_writeItems items rest
    refine ⟨(j.sorted.joined, t) :: written, by rw [List.map_cons, values]; rfl, rfl, ?_⟩
    exact List.forall_mem_cons.mpr ⟨spells_write j first, spelled⟩

theorem spells_writeEntries (entries : List (Text × Json)) {parts : List (Text × Text)}
    (h : writeEntries entries = .ok parts) :
    ∃ written : List (Text × Json × Text), (written.map fun w => (w.1, w.2.1)) = sortedEntries entries ∧
      (written.map fun w => (w.1, w.2.2)) = parts ∧ ∀ w ∈ written, Spells w.2.1.joined w.2.2 := by
  cases entries with
  | nil =>
    cases h
    exact ⟨[], rfl, rfl, by simp⟩
  | cons entry entries =>
    obtain ⟨key, j⟩ := entry
    obtain ⟨t, first, others⟩ := Except.bind_eq_ok.mp h
    obtain ⟨parts, rest, done⟩ := Except.bind_eq_ok.mp others
    cases done
    obtain ⟨written, values, rfl, spelled⟩ := spells_writeEntries entries rest
    refine ⟨(key, j.sorted, t) :: written, by rw [List.map_cons, values]; rfl, rfl, ?_⟩
    exact List.forall_mem_cons.mpr ⟨spells_write j first, spelled⟩

end

/-- What is written for a value is one line of printable ASCII. -/
theorem isPrintableAscii_write {j : Json} {t : Text} (h : j.write = .ok t) : t.IsPrintableAscii :=
  (spells_write j h).printable

/-- A written value is read back with its keys sorted and the surrogate pairs in its texts joined. -/
theorem read_write {j : Json} {t : Text} (h : j.write = .ok t) : read t = .ok j.sorted.joined := by
  have spells := spells_write j h
  obtain ⟨c, rest, starts, visible, -⟩ := spells.opens
  have start : skipSpace t = t := by rw [starts, skipSpace_cons visible]
  have value := spells.reads (2 * t.length + 2) [] (by omega) (by simp [Stops])
  rw [List.append_nil] at value
  rw [read, start, value]
  rfl

end Reckoner.Json
