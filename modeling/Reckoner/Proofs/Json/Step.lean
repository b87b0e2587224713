import Reckoner.Json.Read
import Reckoner.Proofs.Outcome
/-!
# What one call of the reader does

A call of the reader that succeeds has found one of a few things (`ValueStep`, `ItemsStep`, `EntriesStep`), and finds it
again when more calls are allowed inside each other (`read_succ`, `readValue_mono`).
-/
namespace Reckoner.Json

/-- What a call finds as a value, with `depth` calls left. -/
inductive ValueStep (depth : Nat) : Text → Json → Text → Prop where
  | text (opened content after : Text) (reads : readText opened = .ok (content, after)) :
      ValueStep depth (.scalar '"' :: opened) (.text content) after
  | listNil (rest after : Text) (closes : skipSpace rest = .scalar ']' :: after) :
      ValueStep depth (.scalar '[' :: rest) (.list []) after
  | list (rest after : Text) (items : List Json) (opens : ∀ t, skipSpace rest ≠ .scalar ']' :: t)
      (reads : readItems depth (skipSpace rest) = .ok (items, after)) :
      ValueStep depth (.scalar '[' :: rest) (.list items) after
  | objectNil (rest after : Text) (closes : skipSpace rest = .scalar '\x7d' :: after) :
      ValueStep depth (.scalar '\x7b' :: rest) (.object []) after
  | object (rest after : Text) (entries : List (Text × Json)) (opens : ∀ t, skipSpace rest ≠ .scalar '\x7d' :: t)
      (reads : readEntries depth (skipSpace rest) = .ok (entries, after)) :
      ValueStep depth (.scalar '\x7b' :: rest) (.ofEntries entries) after
  | atom (t after : Text) (j : Json) (notText : ∀ u, t ≠ .scalar '"' :: u) (notList : ∀ u, t ≠ .scalar '[' :: u)
      (notObject : ∀ u, t ≠ .scalar '\x7b' :: u) (reads : readAtom t = .ok (j, after)) : ValueStep depth t j after

/-- What a call finds as the items of a list, with `depth` calls left. -/
inductive ItemsStep (depth : Nat) (t : Text) : List Json → Text → Prop where
  | last (j : Json) (rest after : Text) (value : readValue depth t = .ok (j, rest))
      (closes : skipSpace rest = .scalar ']' :: after) : ItemsStep depth t [j] after
  | next (j : Json) (rest more after : Text) (items : List Json) (value : readValue depth t = .ok (j, rest))
      (goesOn : skipSpace rest = .scalar ',' :: more) (others : readItems depth (skipSpace more) = .ok (items, after)) :
      ItemsStep depth t (j :: items) after

/-- What a call finds as the entries of an object, with `depth` calls left. -/
inductive EntriesStep (depth : Nat) : Text → List (Text × Json) → Text → Prop where
  | last (opened key rest inner behind after : Text) (j : Json) (named : readText opened = .ok (key, rest))
      (colon : skipSpace rest = .scalar ':' :: inner) (value : readValue depth (skipSpace inner) = .ok (j, behind))
      (closes : skipSpace behind = .scalar '\x7d' :: after) :
      EntriesStep depth (.scalar '"' :: opened) [(key, j)] after
  | next (opened key rest inner behind more after : Text) (j : Json) (entries : List (Text × Json))
      (named : readText opened = .ok (key, rest)) (colon : skipSpace rest = .scalar ':' :: inner)
      (value : readValue depth (skipSpace inner) = .ok (j, behind)) (goesOn : skipSpace behind = .scalar ',' :: more)
      (others : readEntries depth (skipSpace more) = .ok (entries, after)) :
      EntriesStep depth (.scalar '"' :: opened) ((key, j) :: entries) after

variable {depth : Nat} {t after : Text} {j : Json} {items : List Json} {entries : List (Text × Json)}

theorem readValue_iff : readValue (depth + 1) t = .ok (j, after) ↔ ValueStep depth t j after := by
  constructor
  · intro h
    rw [readValue.eq_def] at h
    dsimp only at h
    split at h
    next opened =>
      obtain ⟨⟨content, rest⟩, reads, done⟩ := Except.bind_eq_ok.mp h
      cases done
      exact .text _ _ _ reads
    next rest =>
      split at h
      next closes =>
        cases h
        exact .listNil _ _ closes
      next opens =>
        obtain ⟨⟨items, behind⟩, reads, done⟩ := Except.bind_eq_ok.mp h
        cases done
        exact .list _ _ _ opens reads
    next rest =>
      split at h
      next closes =>
        cases h
        exact .objectNil _ _ closes
      next opens =>
        obtain ⟨⟨entries, behind⟩, reads, done⟩ := Except.bind_eq_ok.mp h
        cases done
        exact .object _ _ _ opens reads
    next notText notList notObject => exact .atom _ _ _ notText notList notObject h
  · intro step
    cases step with
    | text opened content after reads =>
      show (readText opened >>= fun found => .ok (Json.text found.1, found.2)) = _
      rw [reads]
      rfl
    | listNil rest after closes =>
      rw [readValue, closes]
      rfl
    | list rest after items opens reads =>
      rw [readValue]
      split
      next closes => exact absurd closes (opens _)
      next => rw [reads]; rfl
    | objectNil rest after closes =>
      rw [readValue, closes]
      rfl
    | object rest after entries opens reads =>
      rw [readValue]
      split
      next closes => exact absurd closes (opens _)
      next => rw [reads]; rfl
    | atom t after j notText notList notObject reads =>
      rw [readValue.eq_def]
      dsimp only
      split
      next => exact absurd rfl (notText _)
      next => exact absurd rfl (notList _)
      next => exact absurd rfl (notObject _)
      next => exact reads

theorem readItems_iff : readItems (depth + 1) t = .ok (items, after) ↔ ItemsStep depth t items after := by
  constructor
  · intro h
    rw [readItems] at h
    obtain ⟨⟨j, rest⟩, value, h⟩ := Except.bind_eq_ok.mp h
    dsimp only at h
    split at h
    next closes =>
      cases h
      exact .last _ _ _ value closes
    next goesOn =>
      obtain ⟨⟨items, behind⟩, others, done⟩ := Except.bind_eq_ok.mp h
      cases done
      exact .next _ _ _ _ _ value goesOn others
    next => cases h
  · intro step
    cases step with
    | last j rest after value closes =>
      rw [readItems]
      refine Except.bind_eq_ok.mpr ⟨_, value, ?_⟩
      simp only [closes]
      rfl
    | next j rest more after items value goesOn others =>
      rw [readItems]
      refine Except.bind_eq_ok.mpr ⟨_, value, ?_⟩
      simp only [goesOn, others]
      rfl

theorem readEntries_iff : readEntries (depth + 1) t = .ok (entries, after) ↔ EntriesStep depth t entries after := by
  constructor
  · intro h
    rw [readEntries.eq_def] at h
    dsimp only at h
    split at h
    next opened =>
      obtain ⟨⟨key, rest⟩, named, h⟩ := Except.bind_eq_ok.mp h
      dsimp only at h
      split at h
      next colon =>
        obtain ⟨⟨j, behind⟩, value, h⟩ := Except.bind_eq_ok.mp h
        dsimp only at h
        split at h
        next closes =>
          cases h
          exact .last _ _ _ _ _ _ _ named colon value closes
        next goesOn =>
          obtain ⟨⟨entries, last⟩, others, done⟩ := Except.bind_eq_ok.mp h
          cases done
          exact .next _ _ _ _ _ _ _ _ _ named colon value goesOn others
        next => cases h
      next => cases h
    next => cases h
  · intro step
    cases step with
    | last opened key rest inner behind after j named colon value closes =>
      rw [readEntries]
      refine Except.bind_eq_ok.mpr ⟨_, named, ?_⟩
      simp only [colon]
      refine Except.bind_eq_ok.mpr ⟨_, value, ?_⟩
      simp only [closes]
      rfl
    | next opened key rest inner behind more after j entries named colon value goesOn others =>
      rw [readEntries]
      refine Except.bind_eq_ok.mpr ⟨_, named, ?_⟩
      simp only [colon]
      refine Except.bind_eq_ok.mpr ⟨_, value, ?_⟩
      simp only [goesOn, others]
      rfl

/-- With one more call inside each other the reader finds what it found before. -/
theorem read_succ (depth : Nat) :
    (∀ t j after, readValue depth t = .ok (j, after) → readValue (depth + 1) t = .ok (j, after)) ∧
    (∀ t items after, readItems depth t = .ok (items, after) → readItems (depth + 1) t = .ok (items, after)) ∧
    (∀ t entries after, readEntries depth t = .ok (entries, after) →
      readEntries (depth + 1) t = .ok (entries, after)) := by
  -- The three readers call each other with one call less, so they are raised together.
  induction depth with
  | zero => exact ⟨nofun, nofun, nofun⟩
  | succ depth ih =>
    obtain ⟨value, items, entries⟩ := ih
    refine ⟨fun t j after h => readValue_iff.mpr ?_, fun t found after h => readItems_iff.mpr ?_,
      fun t found after h => readEntries_iff.mpr ?_⟩
    · cases readValue_iff.mp h with
      | text opened content after reads => exact .text _ _ _ reads
      | listNil rest after closes => exact .listNil _ _ closes
      | list rest after found opens reads => exact .list _ _ _ opens (items _ _ _ reads)
      | objectNil rest after closes => exact .objectNil _ _ closes
      | object rest after found opens reads => exact .object _ _ _ opens (entries _ _ _ reads)
      | atom t after j notText notList notObject reads => exact .atom _ _ _ notText notList notObject reads
    · cases readItems_iff.mp h with
      | last j rest after first closes => exact .last _ _ _ (value _ _ _ first) closes
      | next j rest more after found first goesOn others =>
        exact .next _ _ _ _ _ (value _ _ _ first) goesOn (items _ _ _ others)
    · cases readEntries_iff.mp h with
      | last opened key rest inner behind after j named colon first closes =>
        exact .last _ _ _ _ _ _ _ named colon (value _ _ _ first) closes
      | next opened key rest inner behind more after j found named colon first goesOn others =>
        exact .next _ _ _ _ _ _ _ _ _ named colon (value _ _ _ first) goesOn (entries _ _ _ others)

theorem readValue_mono {depth deeper : Nat} (more : depth ≤ deeper) (h : readValue depth t = .ok (j, after)) :
    readValue deeper t = .ok (j, after) := by
  induction more with
  | refl => exact h
  | step _ ih => exact (read_succ _).1 _ _ _ ih

/-- However many calls are allowed, the reader finds one value only. -/
theorem readValue_unique {depth depth' : Nat} {found found' : Json × Text} (first : readValue depth t = .ok found)
    (second : readValue depth' t = .ok found') : found = found' := by
  have lifted := readValue_mono (Nat.le_max_left depth depth') first
  rw [readValue_mono (Nat.le_max_right depth depth') second] at lifted
  exact (Except.ok.inj lifted).symm

end Reckoner.Json
