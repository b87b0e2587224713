import Reckoner.Proofs.Reference.Binding
import Reckoner.Proofs.Reference.Image
/-!
# The numbering of references

The references of a text are found from left to right, each the leftmost one behind the one before (`Leftmost`). The text
that is read has a placeholder for each of them and is otherwise the text as it was; the placeholders are numbered by
the names in their order of first appearance, and bound to the values that the names have (`numbering_ofText`).
-/
namespace Reckoner

open Piece (IsReferenceName referenceAt? nameLength?)

/-- A place where a text has a reference: where its opening bracket stands, and what is written between the brackets. -/
structure Occurrence where
  start : Nat
  written : Text

namespace Occurrence

/-- Where the text goes on behind the closing bracket. -/
def stop (o : Occurrence) : Nat := o.start + o.written.length + 2

/-- The name that the reference reads. -/
def name (o : Occurrence) : Text := o.written.strip

/-- The text has the reference at its place. -/
structure IsIn (o : Occurrence) (t : Text) : Prop where
  named : IsReferenceName o.written
  stands : (Piece.reference o.written).text <+: t.drop o.start

/-- References of a text that do not overlap, each the leftmost one from the end of the one before on, and the first
one from an offset on. -/
inductive Leftmost (t : Text) : Nat → List Occurrence → Prop where
  | nil {offset : Nat} (none : ∀ o : Occurrence, o.IsIn t → o.start < offset) : Leftmost t offset []
  | cons {offset : Nat} {o : Occurrence} {rest : List Occurrence} (isIn : o.IsIn t) (behind : offset ≤ o.start)
      (first : ∀ other : Occurrence, other.IsIn t → offset ≤ other.start → o.start ≤ other.start)
      (more : Leftmost t o.stop rest) : Leftmost t offset (o :: rest)

/-- The text from an offset on, with other texts in the place of references. -/
def splice (t : Text) : Nat → List (Occurrence × Text) → Text
  | offset, [] => t.drop offset
  | offset, (o, replaced) :: rest => (t.drop offset).take (o.start - offset) ++ replaced ++ splice t o.stop rest

/-- The references among pieces that start at an offset, each with its placeholder. -/
def among (names : List Text) (offset : Nat) : List Piece → List (Occurrence × Text)
  | [] => []
  | .plain _ :: rest => among names (offset + 1) rest
  | .reference written :: rest =>
    (⟨offset, written⟩, Substitution.replacement names (.reference written)) ::
      among names (offset + written.length + 2) rest

variable {t before rest : Text} {names : List Text} {offset : Nat} {c : CodePoint} {o other : Occurrence}
  {pieces : List Piece} {found : List (Occurrence × Text)} {occurrences others : List Occurrence}

theorem text_reference (written : Text) :
    (Piece.reference written).text = .scalar '[' :: (written ++ [.scalar ']']) := rfl

theorem text_reference_append (written rest : Text) :
    (Piece.reference written).text ++ rest = .scalar '[' :: (written ++ .scalar ']' :: rest) := by
  simp [text_reference]

theorem length_append_reference (before written : Text) :
    (before ++ (Piece.reference written).text).length = before.length + written.length + 2 := by
  simp [text_reference]
  omega

/-- A reference at a place is one that is found there. -/
theorem IsIn.eq_append (isIn : o.IsIn t) :
    ∃ behind, t.drop o.start = .scalar '[' :: (o.written ++ .scalar ']' :: behind) := by
  obtain ⟨behind, stands⟩ := isIn.stands
  exact ⟨behind, by rw [← stands, text_reference_append]⟩

theorem IsIn.start_lt (isIn : o.IsIn t) : o.start < t.length := by
  obtain ⟨behind, stands⟩ := isIn.eq_append
  by_contra beyond
  rw [List.drop_eq_nil_of_le (by omega)] at stands
  cases stands

/-- At one place there is one reference at most. -/
theorem IsIn.eq_of_start (isIn : o.IsIn t) (otherIn : other.IsIn t) (same : o.start = other.start) : o = other := by
  obtain ⟨behind, stands⟩ := isIn.eq_append
  obtain ⟨behind', stands'⟩ := otherIn.eq_append
  rw [same, stands'] at stands
  have rests := List.tail_eq_of_cons_eq stands
  -- the closing bracket is the first code point that stands in no name
  have lengths : o.written.length = other.written.length := by
    have found := Piece.nameLength?_of_isReferenceName isIn.named behind
    rw [← rests, Piece.nameLength?_of_isReferenceName otherIn.named] at found
    exact (Option.some.inj found).symm
  have words : o.written = other.written := (List.append_inj_left rests lengths.symm).symm
  cases o
  cases other
  simp_all

/-- The references that are found one after the other are determined. -/
theorem Leftmost.unique (leftmost : Leftmost t offset occurrences) (leftmost' : Leftmost t offset others) :
    occurrences = others := by
  induction leftmost generalizing others with
  | nil none =>
    cases leftmost' with
    | nil => rfl
    | cons isIn behind => exact absurd (none _ isIn) (by omega)
  | cons isIn behind first more ih =>
    cases leftmost' with
    | nil none => exact absurd (none _ isIn) (by omega)
    | cons isIn' behind' first' more' =>
      have starts := Nat.le_antisymm (first _ isIn' behind') (first' _ isIn behind)
      cases isIn.eq_of_start isIn' starts
      rw [ih more']

/-- Where no reference starts the search goes on. -/
theorem Leftmost.of_succ (leftmost : Leftmost t (offset + 1) occurrences)
    (none : ∀ o : Occurrence, o.IsIn t → o.start ≠ offset) : Leftmost t offset occurrences := by
  cases leftmost with
  | nil early =>
    refine .nil fun o isIn => ?_
    have different := none o isIn
    have below := early o isIn
    omega
  | cons isIn behind first more =>
    refine .cons isIn (by omega) (fun other otherIn late => first other otherIn ?_) more
    have different := none other otherIn
    omega

theorem drop_length_append (before : Text) (c : CodePoint) (rest : Text) :
    (before ++ c :: rest).drop before.length = c :: rest := List.drop_left

/-- Where the text goes on with no reference none starts. -/
theorem start_ne_of_none (none : referenceAt? c rest = .none) (isIn : o.IsIn (before ++ c :: rest)) :
    o.start ≠ before.length := by
  intro here
  obtain ⟨behind, stands⟩ := isIn.eq_append
  rw [here, drop_length_append] at stands
  cases stands
  rw [Piece.referenceAt?_of_isReferenceName isIn.named] at none
  cases none

theorem isIn_append {written : Text} (named : IsReferenceName written) (before rest : Text) :
    IsIn ⟨before.length, written⟩ (before ++ .scalar '[' :: (written ++ .scalar ']' :: rest)) where
  named := named
  stands := ⟨rest, by rw [drop_length_append, text_reference_append]⟩

/-- The pieces of a text are cut at the references that are found from left to right. -/
theorem leftmost_among (names : List Text) (before rest : Text) :
    Leftmost (before ++ rest) before.length ((among names before.length (Piece.ofText rest)).map Prod.fst) := by
  -- Along the pieces of what is left, for whatever has been passed already.
  induction rest using Piece.text_induction generalizing before with
  | nil =>
    rw [Piece.ofText_nil]
    refine .nil fun o isIn => ?_
    simpa using isIn.start_lt
  | reference written rest named ih =>
    have later := ih (before ++ (Piece.reference written).text)
    rw [length_append_reference, List.append_assoc, text_reference_append] at later
    rw [Piece.ofText_reference named]
    exact .cons (isIn_append named before rest) (Nat.le_refl _) (fun _ _ late => late) later
  | plain c rest none ih =>
    have later := ih (before ++ [c])
    rw [List.length_append, List.append_assoc] at later
    rw [Piece.ofText_plain none]
    exact later.of_succ fun o isIn => start_ne_of_none none isIn

theorem start_among (member : o ∈ (among names offset pieces).map Prod.fst) : offset ≤ o.start := by
  induction pieces generalizing offset with
  | nil => cases member
  | cons piece pieces ih =>
    cases piece with
    | plain c => exact Nat.le_of_succ_le (ih member)
    | reference written =>
      rcases List.mem_cons.mp member with rfl | later
      · exact Nat.le_refl _
      · have behind := ih later
        omega

/-- A code point in front of all the places is kept. -/
theorem splice_of_behind (here : t.drop offset = c :: rest) (behind : ∀ a ∈ found, offset + 1 ≤ a.1.start) :
    splice t offset found = c :: splice t (offset + 1) found := by
  have next : t.drop (offset + 1) = rest := by rw [← List.drop_drop, here]; rfl
  cases found with
  | nil => rw [splice, splice, here, next]
  | cons a found =>
    have later := behind a (by simp)
    have step : a.1.start - offset = a.1.start - (offset + 1) + 1 := by omega
    simp only [splice, here, next, step, List.take_succ_cons, List.cons_append]

/-- Placeholders in the place of the references make the text that is read. -/
theorem splice_among (names : List Text) (before rest : Text) :
    splice (before ++ rest) before.length (among names before.length (Piece.ofText rest)) =
      Substitution.image names rest := by
  induction rest using Piece.text_induction generalizing before with
  | nil => simp [among, splice]
  | reference written rest named ih =>
    have later := ih (before ++ (Piece.reference written).text)
    rw [length_append_reference, List.append_assoc, text_reference_append] at later
    rw [Piece.ofText_reference named, Substitution.image_reference named, ← later]
    simp [among, splice, stop, Substitution.replacement]
  | plain c rest none ih =>
    have later := ih (before ++ [c])
    rw [List.length_append, List.append_assoc] at later
    have behind : ∀ a ∈ among names (before.length + 1) (Piece.ofText rest), before.length + 1 ≤ a.1.start :=
      fun a member => start_among (List.mem_map_of_mem member)
    rw [Piece.ofText_plain none, Substitution.image_plain none, ← later, among,
      splice_of_behind (drop_length_append before c rest) behind]
    rfl

/-- The references have the names of the pieces. -/
theorem map_name_among (names : List Text) (offset : Nat) (pieces : List Piece) :
    (among names offset pieces).map (fun a => a.1.name) = pieces.filterMap Piece.name? := by
  induction pieces generalizing offset with
  | nil => rfl
  | cons piece pieces ih =>
    cases piece with
    | plain c => exact ih (offset + 1)
    | reference written => exact congrArg (written.strip :: ·) (ih _)

theorem placeholder_among {a : Occurrence × Text} (member : a ∈ among names offset pieces) :
    a.2 = Substitution.placeholder (names.idxOf a.1.name) := by
  induction pieces generalizing offset with
  | nil => cases member
  | cons piece pieces ih =>
    cases piece with
    | plain c => exact ih member
    | reference written =>
      rcases List.mem_cons.mp member with rfl | later
      · rfl
      · exact ih later

end Occurrence

namespace Substitution

open Occurrence (Leftmost splice among)
open Text (nodup_eraseDups pairwise_idxOf_eraseDups length_eraseDups)

variable {t : Text} {names : List Text} {name : Text}

theorem map_snd_entries (s : Substitution) : s.entries.map Prod.snd = s.names := by
  rw [entries, List.map_map]
  exact List.zipIdx_map_fst 0 s.names

theorem mem_entries {s : Substitution} {x : Text} : (x, name) ∈ s.entries ↔ s.stands? x = some name := by
  rw [stands?, lookup_eq_some_iff s.nodup_keys]

/-- What replacing the references of a text by numbered placeholders comes to, and what is bound to them. -/
structure IsNumbered (t : Text) (s : Substitution) (found : List (Occurrence × Text)) : Prop where
  /-- The references that are found are those that are found from left to right. -/
  leftmost : ∀ occurrences, Leftmost t 0 occurrences ↔ occurrences = found.map Prod.fst
  text : s.text = splice t 0 found
  /-- Two references have one placeholder exactly if they read one name. -/
  shared : ∀ a ∈ found, ∀ b ∈ found, a.2 = b.2 ↔ a.1.name = b.1.name
  stands : ∀ a ∈ found, (a.2, a.1.name) ∈ s.entries
  /-- There are as many placeholders as names, numbered without a gap. -/
  keys : s.entries.map Prod.fst = (List.range (found.map (·.1.name)).dedup.length).map placeholder
  distinct : (s.entries.map Prod.snd).Nodup
  named : ∀ name, name ∈ s.entries.map Prod.snd ↔ ∃ a ∈ found, a.1.name = name
  /-- A name that appears first earlier than another one stands before it. -/
  ordered : (s.entries.map Prod.snd).Pairwise fun x y =>
    (found.map (·.1.name)).idxOf x < (found.map (·.1.name)).idxOf y
  /-- A placeholder is bound exactly if its name has a value, and to this value. -/
  bound : ∀ (values : Context) (x : Text) (v : Value),
    (x, v) ∈ s.bind values ↔ ∃ name, (x, name) ∈ s.entries ∧ values.get? name = some v
  boundInOrder : ∀ values : Context, ((s.bind values).map Prod.fst).Sublist (s.entries.map Prod.fst)

theorem mem_bind {s : Substitution} {values : Context} {x : Text} {v : Value} :
    (x, v) ∈ s.bind values ↔ ∃ name, (x, name) ∈ s.entries ∧ values.get? name = some v := by
  rw [bind, List.mem_filterMap]
  constructor
  · rintro ⟨⟨placeholder, name⟩, listed, made⟩
    obtain ⟨value, known, same⟩ := Option.map_eq_some_iff.mp made
    cases same
    exact ⟨name, listed, known⟩
  · rintro ⟨name, listed, known⟩
    exact ⟨(x, name), listed, by simp [known]⟩

theorem map_fst_bind_sublist (s : Substitution) (values : Context) :
    ((s.bind values).map Prod.fst).Sublist (s.entries.map Prod.fst) := by
  rw [bind]
  induction s.entries with
  | nil => exact List.Sublist.refl _
  | cons entry entries ih =>
    obtain ⟨placeholder, name⟩ := entry
    cases value : values.get? name with
    | none =>
      rw [List.filterMap_cons_none (by simp [value])]
      exact ih.cons _
    | some v =>
      rw [List.filterMap_cons_some (b := (placeholder, v)) (by simp [value])]
      exact ih.cons_cons _

/-- The references of every text are replaced by placeholders that are numbered by their names. -/
theorem numbering_ofText (t : Text) : ∃ found, IsNumbered t (ofText t) found := by
  let pieces := Piece.ofText t
  let names := (ofText t).names
  let found := among names 0 pieces
  have read : found.map (·.1.name) = pieces.filterMap Piece.name? := Occurrence.map_name_among names 0 pieces
  have listed : names = (found.map (·.1.name)).eraseDups := congrArg List.eraseDups read.symm
  have member : ∀ a ∈ found, a.1.name ∈ names := fun a isFound =>
    listed ▸ List.mem_eraseDups.mpr (List.mem_map_of_mem isFound)
  have placeholders : ∀ a ∈ found, a.2 = placeholder (names.idxOf a.1.name) := fun a =>
    Occurrence.placeholder_among
  have leftmost : Leftmost t 0 (found.map Prod.fst) := Occurrence.leftmost_among names [] t
  refine ⟨found, fun occurrences => ⟨fun other => other.unique leftmost, fun same => same ▸ leftmost⟩,
    (Occurrence.splice_among names [] t).symm, fun a isFound b isFound' => ?_, fun a isFound => ?_, ?_, ?_, fun name => ?_,
    ?_, fun values x v => mem_bind, map_fst_bind_sublist _⟩
  · rw [placeholders a isFound, placeholders b isFound', ← List.idxOf_inj (member a isFound)]
    exact ⟨placeholder_injective, congrArg placeholder⟩
  · rw [mem_entries, placeholders a isFound]
    exact stands?_eq_some.mpr ⟨_, List.getElem?_idxOf (member a isFound), rfl⟩
  · rw [keys_entries, ← length_eraseDups, ← listed]
  · rw [map_snd_entries]
    exact nodup_eraseDups _
  · rw [map_snd_entries, ← List.mem_map]
    show name ∈ names ↔ _
    rw [listed, List.mem_eraseDups]
  · rw [map_snd_entries]
    show names.Pairwise _
    rw [listed]
    exact pairwise_idxOf_eraseDups _

end Substitution
end Reckoner
