import Reckoner.Proofs.Json.Quoted
import Reckoner.Proofs.Json.Step
/-!
# Text in front of a written line

A line of the journal is an object. With other text in front of it no value is read (`read_ne_ok_of_torn`): reading the
text in front stops before the line, or within it where the first quote of the line has closed a text that was open, or
takes in the whole line with something still missing behind it.
-/
namespace Reckoner.Json

/-- A line that starts as the lines of the journal do. -/
def journalLine (more : Text) : Text := .scalar '\x7b' :: .scalar '"' :: .scalar 'c' :: .scalar 'o' :: more

/-- What stands behind the first quote of the line. -/
def journalBody (more : Text) : Text := .scalar 'c' :: .scalar 'o' :: more

/-- Reading has stopped before the line, or behind its first quote. -/
def StopsOutside (more after : Text) : Prop := (∃ q, after = q ++ journalLine more) ∨ after = journalBody more

variable {more p after : Text} {depth : Nat} {j : Json}

/-- What is read at once, and has no opening of an object in it, is read from what stands before the line. -/
theorem append_journalLine {w rest : Text} (noBrace : .scalar '\x7b' ∉ w) (h : w ++ rest = p ++ journalLine more) :
    ∃ q, rest = q ++ journalLine more ∧ p = w ++ q := by
  rcases List.append_eq_append_iff.mp h with ⟨q, before, rest⟩ | ⟨q, before, rest⟩
  · exact ⟨q, rest, before⟩
  · cases q with
    | nil => exact ⟨[], rest.symm, by simpa using before.symm⟩
    | cons c q =>
      have brace : .scalar '\x7b' = c := (List.cons.inj rest).1
      exact absurd (by rw [before, brace]; simp) noBrace

/-- How a text that is open is read up to what follows its closing quote: an opening of an object stands for itself, and
other pieces have none in them. -/
inductive Closes : Text → Text → Prop where
  | quote (after : Text) : Closes (.scalar '"' :: after) after
  | brace (rest after : Text) (others : Closes rest after) : Closes (.scalar '\x7b' :: rest) after
  | piece (c : CodePoint) (w rest after : Text) (notQuote : c ≠ .scalar '"') (noBrace : .scalar '\x7b' ∉ c :: w)
      (others : Closes rest after) : Closes (c :: w ++ rest) after

theorem hexNumber?_brace {t : Text} (member : .scalar '\x7b' ∈ t) : Text.hexNumber? t = none := by
  obtain ⟨before, behind, rfl⟩ := List.append_of_mem member
  rw [Text.hexNumber?, List.foldlM_append]
  cases before.foldlM (fun n c => c.hexValue?.map (16 * n + ·)) 0 with
  | none => rfl
  | some n => rfl

theorem closes_of_readUnits {t content : Text} (h : readUnits t = .ok (content, after)) : Closes t after := by
  fun_induction readUnits t generalizing content with
  | case1 => cases h
  | case2 rest =>
    cases h
    exact .quote _
  | case3 => cases h
  | case4 a b c d rest n number ih =>
    obtain ⟨found, reads, done⟩ := Except.bind_eq_ok.mp h
    cases done
    refine .piece (.scalar '\\') [.scalar 'u', a, b, c, d] rest _ (by decide) (fun member => ?_) (ih reads)
    have among : .scalar '\x7b' ∈ [a, b, c, d] := by simpa using member
    rw [hexNumber?_brace among] at number
    cases number
  | case5 => cases h
  | case6 => cases h
  | case7 letter rest notUnit c stands ih =>
    obtain ⟨found, reads, done⟩ := Except.bind_eq_ok.mp h
    cases done
    refine .piece (.scalar '\\') [letter] rest _ (by decide) (fun member => ?_) (ih reads)
    have same : .scalar '\x7b' = letter := by simpa using member
    rw [← same] at stands
    cases stands
  | case8 => cases h
  | case9 c rest notQuote _ _ _ _ ih =>
    obtain ⟨found, reads, done⟩ := Except.bind_eq_ok.mp h
    cases done
    by_cases brace : c = .scalar '\x7b'
    · subst brace
      exact .brace _ _ (ih reads)
    · exact .piece c [] rest _ notQuote (by simpa using Ne.symm brace) (ih reads)

theorem Closes.eq_of_quote {t rest : Text} (closes : Closes t after) (h : t = .scalar '"' :: rest) : after = rest := by
  cases closes with
  | quote => exact (List.cons.inj h).2
  | brace => cases h
  | piece c w rest after notQuote => exact absurd (List.cons.inj h).1 notQuote

/-- A text that is open when the line starts ends before it or with its first quote. -/
theorem Closes.stopsOutside {t : Text} (closes : Closes t after) (h : t = p ++ journalLine more) :
    StopsOutside more after := by
  induction closes generalizing p with
  | quote after =>
    obtain ⟨q, rfl, -⟩ := append_journalLine (w := [.scalar '"']) (by decide) h
    exact .inl ⟨q, rfl⟩
  | brace rest after others ih =>
    cases p with
    | nil =>
      cases h
      exact .inr (others.eq_of_quote rfl)
    | cons c p =>
      cases h
      exact ih rfl
  | piece c w rest after notQuote noBrace others ih =>
    obtain ⟨q, rfl, -⟩ := append_journalLine noBrace h
    exact ih rfl

theorem readText_torn {content : Text} (h : readText (p ++ journalLine more) = .ok (content, after)) :
    StopsOutside more after := by
  obtain ⟨found, reads, done⟩ := Except.bind_eq_ok.mp h
  cases done
  exact (closes_of_readUnits reads).stopsOutside rfl

theorem afterWord?_eq_some {word t : Text} (h : afterWord? word t = some after) : t = word ++ after := by
  unfold afterWord? at h
  split at h
  next starts =>
    obtain ⟨rest, rfl⟩ := List.isPrefixOf_iff_prefix.mp starts
    cases h
    rw [List.drop_left]
  next => cases h

/-- A part at the start of a text that has no opening of an object in it. -/
structure Leads (part t : Text) : Prop where
  starts : part <+: t
  noBrace : .scalar '\x7b' ∉ part

theorem leads_nil (t : Text) : Leads [] t := ⟨List.nil_prefix, by simp⟩

theorem Leads.cons {c : CodePoint} {part t : Text} (notBrace : c ≠ .scalar '\x7b') (leads : Leads part t) :
    Leads (c :: part) (c :: t) := by
  refine ⟨(List.prefix_cons_inj c).mpr leads.starts, fun member => ?_⟩
  rcases List.mem_cons.mp member with same | inside
  · exact notBrace same.symm
  · exact leads.noBrace inside

theorem Leads.append {part next t rest : Text} (split : t = part ++ rest) (first : Leads part t)
    (second : Leads next rest) : Leads (part ++ next) t := by
  subst split
  refine ⟨(List.prefix_append_right_inj part).mpr second.starts, fun member => ?_⟩
  rcases List.mem_append.mp member with early | late
  · exact first.noBrace early
  · exact second.noBrace late

theorem Leads.drop {part t : Text} (leads : Leads part t) : t = part ++ t.drop part.length := by
  obtain ⟨rest, rfl⟩ := leads.starts
  rw [List.drop_left]

theorem leads_takeWhile (t : Text) : Leads (t.takeWhile CodePoint.isDigit) t := by
  refine ⟨List.takeWhile_prefix _, fun member => ?_⟩
  have digit := List.mem_takeWhile_imp member
  cases digit

theorem leads_sign (p : CodePoint → Bool) (notBrace : p (.scalar '\x7b') = false) (t : Text) :
    Leads ((t.take 1).filter p) t := by
  cases t with
  | nil => exact leads_nil []
  | cons c rest =>
    rw [List.take_succ_cons, List.take_zero]
    cases kept : p c with
    | false => simpa [kept] using leads_nil (c :: rest)
    | true =>
      rw [List.filter_singleton, kept]
      refine (leads_nil rest).cons ?_
      rintro rfl
      rw [notBrace] at kept
      cases kept

theorem leads_wholeDigits (t : Text) : Leads (wholeDigits t) t := by
  unfold wholeDigits
  split
  next rest => exact (leads_nil rest).cons (by decide)
  next => exact leads_takeWhile t

theorem leads_fractionPart (t : Text) : Leads (fractionPart t) t := by
  unfold fractionPart
  split
  next rest =>
    dsimp only
    split
    next => exact leads_nil _
    next => exact (leads_takeWhile rest).cons (by decide)
  next => exact leads_nil t

theorem leads_exponentPart (t : Text) : Leads (exponentPart t) t := by
  unfold exponentPart
  split
  next mark rest =>
    split
    next isMark =>
      dsimp only
      split
      next => exact leads_nil _
      next =>
        have sign := leads_sign (fun c => c == .scalar '+' || c == .scalar '-') rfl rest
        refine (sign.append sign.drop (leads_takeWhile _)).cons ?_
        rintro rfl
        simp at isMark
    next => exact leads_nil _
  next => exact leads_nil []

/-- A number is read from its sign, its digits, its fraction and its exponent. -/
theorem readNumber_piece {t : Text} (h : readNumber t = .ok (j, after)) : ∃ w, .scalar '\x7b' ∉ w ∧ t = w ++ after := by
  let sign := (t.take 1).filter (· == .scalar '-')
  let unsigned := t.drop sign.length
  let whole := wholeDigits unsigned
  let fraction := fractionPart (unsigned.drop whole.length)
  let exponent := exponentPart (unsigned.drop (whole.length + fraction.length))
  have leadsSign : Leads sign t := leads_sign _ rfl t
  have splitSign : t = sign ++ unsigned := leadsSign.drop
  have splitWhole : unsigned = whole ++ unsigned.drop whole.length := (leads_wholeDigits unsigned).drop
  have splitFraction : unsigned.drop whole.length = fraction ++ unsigned.drop (whole.length + fraction.length) := by
    rw [← List.drop_drop]
    exact (leads_fractionPart _).drop
  have leadsWhole : Leads (sign ++ whole) t := leadsSign.append splitSign (leads_wholeDigits unsigned)
  have leadsFraction : Leads (sign ++ whole ++ fraction) t := by
    refine leadsWhole.append ?_ (leads_fractionPart _)
    rw [List.append_assoc, ← splitWhole]
    exact splitSign
  have leadsAll : Leads (sign ++ whole ++ fraction ++ exponent) t := by
    refine leadsFraction.append ?_ (leads_exponentPart _)
    rw [List.append_assoc, ← splitFraction, List.append_assoc, ← splitWhole]
    exact splitSign
  have behind : after = t.drop (sign ++ whole ++ fraction ++ exponent).length := by
    unfold readNumber at h
    dsimp only at h
    split at h
    next => cases h
    next =>
      split at h
      next =>
        split at h
        next => exact (congrArg Prod.snd (Except.ok.inj h)).symm
        next => cases h
      next => exact (congrArg Prod.snd (Except.ok.inj h)).symm
  exact ⟨_, leadsAll.noBrace, by rw [behind]; exact leadsAll.drop⟩

/-- What a word or a number is read from has no opening of an object in it. -/
theorem readAtom_piece {t : Text} (h : readAtom t = .ok (j, after)) : ∃ w, .scalar '\x7b' ∉ w ∧ t = w ++ after := by
  unfold readAtom at h
  split at h
  next found known =>
    cases h
    obtain ⟨before, ⟨word, k⟩, behind, split, match_, -⟩ := List.findSome?_eq_some_iff.mp known
    obtain ⟨rest, starts, same⟩ := Option.map_eq_some_iff.mp match_
    cases same
    have noBrace : ∀ entry ∈ words, .scalar '\x7b' ∉ entry.1 := by decide
    exact ⟨word, noBrace (word, j) (by rw [split]; simp), afterWord?_eq_some starts⟩
  next => exact readNumber_piece h

theorem skipSpace_torn (p more : Text) : skipSpace (p ++ journalLine more) = skipSpace p ++ journalLine more := by
  have stays : skipSpace (journalLine more) = journalLine more := rfl
  by_cases blank : skipSpace p = []
  · rw [skipSpace, List.dropWhile_append, ← skipSpace, blank, List.isEmpty_nil, if_pos rfl, ← skipSpace, stays,
      List.nil_append]
  · rw [skipSpace, List.dropWhile_append, ← skipSpace, if_neg (by simpa using blank)]

/-- A sign that the line does not start with, neither whole nor behind its first quote, stands before it. -/
theorem StopsOutside.before {c : CodePoint} {rest : Text} (stops : StopsOutside more rest ∨ skipSpace rest = [])
    (found : skipSpace rest = c :: after) (notBrace : c ≠ .scalar '\x7b') (notKey : c ≠ .scalar 'c') :
    ∃ q, after = q ++ journalLine more := by
  rcases stops with (⟨q, rfl⟩ | rfl) | nothing
  · rw [skipSpace_torn] at found
    cases skipped : skipSpace q with
    | nil =>
      rw [skipped] at found
      exact absurd (List.cons.inj found).1.symm notBrace
    | cons d q' =>
      rw [skipped] at found
      exact ⟨q', (List.cons.inj found).2.symm⟩
  · exact absurd (List.cons.inj found).1.symm notKey
  · rw [nothing] at found
    cases found

/-- In front of a line that is read as a whole nothing is read that takes in a part of the line, but for what stops
behind its first quote. -/
theorem read_torn (whole : ∀ depth j after, readValue depth (journalLine more) = .ok (j, after) → skipSpace after = [])
    (depth : Nat) :
    (∀ p j after, readValue depth (p ++ journalLine more) = .ok (j, after) →
      StopsOutside more after ∨ p = [] ∧ skipSpace after = []) ∧
    (∀ p items after, readItems depth (p ++ journalLine more) = .ok (items, after) →
      ∃ q, after = q ++ journalLine more) ∧
    (∀ p entries after, readEntries depth (p ++ journalLine more) = .ok (entries, after) →
      ∃ q, after = q ++ journalLine more) := by
  -- Only a text that was open in front of the line reaches into it, and that one ends at the first quote.
  induction depth with
  | zero => exact ⟨nofun, nofun, nofun⟩
  | succ depth ih =>
    obtain ⟨value, items, entries⟩ := ih
    refine ⟨fun p j after h => ?_, fun p found after h => ?_, fun p found after h => ?_⟩
    · cases p with
      | nil => exact .inr ⟨rfl, whole _ _ _ h⟩
      | cons c p =>
        rw [List.cons_append] at h
        refine .inl ?_
        cases readValue_iff.mp h with
        | text opened content after reads => exact readText_torn reads
        | listNil rest after closes =>
          exact .inl (StopsOutside.before (.inl (.inl ⟨p, rfl⟩)) closes (by decide) (by decide))
        | list rest after found opens reads =>
          rw [skipSpace_torn] at reads
          exact .inl (items _ _ _ reads)
        | objectNil rest after closes =>
          exact .inl (StopsOutside.before (.inl (.inl ⟨p, rfl⟩)) closes (by decide) (by decide))
        | object rest after found opens reads =>
          rw [skipSpace_torn] at reads
          exact .inl (entries _ _ _ reads)
        | atom t after j notText notList notObject reads =>
          obtain ⟨w, noBrace, split⟩ := readAtom_piece reads
          obtain ⟨q, rest, -⟩ := append_journalLine (p := c :: p) noBrace split.symm
          exact .inl ⟨q, rest⟩
    · cases readItems_iff.mp h with
      | last j rest after first closes =>
        exact StopsOutside.before ((value _ _ _ first).imp_right And.right) closes (by decide) (by decide)
      | next j rest behind after found first goesOn others =>
        obtain ⟨q, rfl⟩ := StopsOutside.before ((value _ _ _ first).imp_right And.right) goesOn (by decide) (by decide)
        rw [skipSpace_torn] at others
        exact items _ _ _ others
    · cases p with
      -- the line itself begins with a bracket, not with the quote of a key
      | nil => cases readEntries_iff.mp h
      | cons c p =>
        rw [List.cons_append] at h
        cases readEntries_iff.mp h with
        | last opened key rest inner behind after j named colon first closes =>
          obtain ⟨q, rfl⟩ := StopsOutside.before (.inl (readText_torn named)) colon (by decide) (by decide)
          rw [skipSpace_torn] at first
          exact StopsOutside.before ((value _ _ _ first).imp_right And.right) closes (by decide) (by decide)
        | next opened key rest inner behind next after j found named colon first goesOn others =>
          obtain ⟨q, rfl⟩ := StopsOutside.before (.inl (readText_torn named)) colon (by decide) (by decide)
          rw [skipSpace_torn] at first
          obtain ⟨q, rfl⟩ :=
            StopsOutside.before ((value _ _ _ first).imp_right And.right) goesOn (by decide) (by decide)
          rw [skipSpace_torn] at others
          exact entries _ _ _ others

/-- With other text in front of it no value is read from a line that is a value itself. -/
theorem read_ne_ok_of_torn {j : Json} (line : read (journalLine more) = .ok j) {p : Text} (torn : p ≠ [])
    (visible : ∀ c ∈ p.head?, isSpace c = false) (k : Json) : read (p ++ journalLine more) ≠ .ok k := by
  obtain ⟨⟨own, rest⟩, value, done⟩ := Except.bind_eq_ok.mp line
  have blank : skipSpace rest = [] := by
    dsimp only at done
    split at done
    next none => simpa using none
    next => cases done
  have whole : ∀ depth j after, readValue depth (journalLine more) = .ok (j, after) → skipSpace after = [] := by
    intro depth j after found
    cases readValue_unique found value
    exact blank
  intro found
  obtain ⟨⟨own, after⟩, value, done⟩ := Except.bind_eq_ok.mp found
  have starts : skipSpace p = p := by
    cases p with
    | nil => exact absurd rfl torn
    | cons c p => rw [skipSpace, List.dropWhile_cons_of_neg (by simp [visible c rfl])]
  rw [skipSpace_torn, starts] at value
  have shown : skipSpace after ≠ [] := by
    rcases ((read_torn whole _).1 _ _ _ value) with (⟨q, rfl⟩ | rfl) | ⟨none, -⟩
    · rw [skipSpace_torn]
      simp [journalLine]
    · exact List.cons_ne_nil _ _
    · exact absurd none torn
  dsimp only at done
  rw [if_neg (by simpa using shown)] at done
  cases done

end Reckoner.Json
