import Reckoner.Proofs.Token.Language
/-!
# The tokens of a text as slices of it

The tokens of a text are slices of it in their order, with blanks alone between them, and each of them is what its kind
allows at its place. The scanner finds tokens like these (`segmentation_scanFrom`), and there are no others
(`Segmentation.eq_scanFrom`), so a text has exactly one segmentation (`segmentation_iff`).
-/
namespace Reckoner.Token

/-- Where the token starts in its text. -/
def start (t : Token) : Nat := (t.position.getD 0).toNat

/-- Where its text goes on behind the token. -/
def stop (t : Token) : Nat := t.start + t.text.length

/-- No backslash in the text takes along what stands behind the text. -/
inductive IsSettled : Text → Prop where
  | nil : IsSettled []
  | escape (d : CodePoint) {rest : Text} (more : IsSettled rest) : IsSettled (.scalar '\\' :: d :: rest)
  | plain {c : CodePoint} {rest : Text} (notEscape : c ≠ .scalar '\\') (more : IsSettled rest) : IsSettled (c :: rest)

/-- A text between two copies of a quote, of which the second is the first one behind the other that is not escaped. -/
def ClosesFirst (word : Text) : Prop :=
  ∃ q inner, IsQuote q ∧ word = q :: (inner ++ [q]) ∧ IsSettled inner ∧
    ∀ before after, inner = before ++ q :: after → ¬IsSettled before

/-- What a token is to the text that it was cut from. -/
structure IsSlice (s : Text) (t : Token) : Prop where
  position : t.position = some (t.start : Int)
  text : t.text <+: s.drop t.start
  word : IsWord t.kind t.text
  /-- Blanks stand in string literals alone. -/
  visible : t.kind ≠ .string → ∀ c ∈ t.text, c.isBlank = false
  /-- A number or a name is as long as one can be at its place. -/
  longest : t.kind = .number ∨ t.kind = .name →
    ∀ word, IsWord t.kind word → word <+: s.drop t.start → word.length ≤ t.text.length
  closes : t.kind = .string → ClosesFirst t.text
  /-- An unknown token is a code point at which no other kind has a word. -/
  unknown : t.kind = .unknown →
    t.text.length = 1 ∧ ∀ kind word, kind ≠ .unknown → IsWord kind word → ¬word <+: s.drop t.start

/-- The tokens of a text from an offset on: slices behind each other, and blanks alone outside them. -/
structure Segmentation (s : Text) (offset : Nat) (tokens : List Token) : Prop where
  slices : ∀ t ∈ tokens, t.IsSlice s
  behind : ∀ t ∈ tokens, offset ≤ t.start
  ordered : tokens.Pairwise fun t u => t.start < u.start ∧ t.stop ≤ u.start
  outside : ∀ i c, offset ≤ i → s[i]? = some c → (∀ t ∈ tokens, i < t.start ∨ t.stop ≤ i) → c.isBlank = true

variable {s rest inner word before after : Text} {offset n : Nat} {c q : CodePoint} {kind : TokenKind} {t : Token}
  {tokens : List Token}

theorem IsInner.isSettled (isInner : IsInner q inner) : IsSettled inner := by
  induction isInner with
  | nil => exact .nil
  | escape d _ ih => exact .escape d ih
  | plain _ notEscape _ ih => exact .plain notEscape ih

theorem IsInner.of_plain (isInner : IsInner q (c :: rest)) (notEscape : c ≠ .scalar '\\') : IsInner q rest := by
  cases isInner with
  | escape => exact absurd rfl notEscape
  | plain _ _ more => exact more

/-- Between quotes every copy of the quote is escaped. -/
theorem IsInner.not_isSettled (quote : IsQuote q) (isInner : IsInner q (before ++ q :: after)) :
    ¬IsSettled before := by
  intro settled
  induction settled with
  | nil =>
    cases isInner with
    | escape => exact quote.ne_escape rfl
    | plain notQuote => exact notQuote rfl
  | escape d _ ih =>
    rw [List.cons_append, List.cons_append] at isInner
    cases isInner with
    | escape _ more => exact ih more
    | plain _ notEscape => exact notEscape rfl
  | plain notEscape _ ih => exact ih (isInner.of_plain notEscape)

theorem IsWord.closesFirst (isWord : IsWord .string word) : ClosesFirst word := by
  cases isWord with
  | @string q inner quote isInner =>
    refine ⟨q, inner, quote, rfl, isInner.isSettled, ?_⟩
    rintro before after rfl
    exact isInner.not_isSettled quote

theorem IsWord.length_unknown (isWord : IsWord .unknown word) : word.length = 1 := by
  cases isWord with
  | unknown visible => rfl

/-- A word at a place begins with the code point that stands there. -/
theorem IsWord.eq_cons (isWord : IsWord kind word) (starts : word <+: c :: rest) :
    ∃ more, word = c :: more ∧ more <+: rest :=
  (List.prefix_cons_iff.mp starts).resolve_left isWord.ne_nil

/-- What the scanner finds is a slice. -/
theorem isSlice_of_lexeme (here : s.drop offset = c :: rest) (visible : c.isBlank = false)
    (lex : lexeme c rest = (kind, n)) : IsSlice s ⟨kind, c :: rest.take n, some offset⟩ := by
  have isWord : IsWord kind (c :: rest.take n) := by simpa [lex] using isWord_lexeme visible rest
  have starts : start ⟨kind, c :: rest.take n, some offset⟩ = offset := rfl
  -- no word of a known kind at this place is longer, or of another kind
  have greatest : ∀ other word, other ≠ .unknown → IsWord other word → word <+: c :: rest →
      kind = other ∧ word.length ≤ (c :: rest.take n).length := by
    intro other word known otherWord startsHere
    obtain ⟨more, rfl, startsRest⟩ := otherWord.eq_cons startsHere
    obtain ⟨same, length, -⟩ := lexeme_of_isWord otherWord known startsRest
    rw [lex] at same length
    exact ⟨same, by simpa using ⟨length, startsRest.length_le⟩⟩
  refine ⟨rfl, ?_, isWord, isWord.visible, ?_, ?_, ?_⟩
  · rw [starts, here]
    exact List.cons_prefix_cons.mpr ⟨rfl, List.take_prefix _ _⟩
  · intro given word otherWord startsHere
    rw [starts, here] at startsHere
    have known : kind ≠ .unknown := by
      rcases given with rfl | rfl
      · decide
      · decide
    exact (greatest kind word known otherWord startsHere).2
  · rintro rfl
    exact isWord.closesFirst
  · rintro rfl
    refine ⟨isWord.length_unknown, fun other word known otherWord startsHere => ?_⟩
    rw [starts, here] at startsHere
    exact known (greatest other word known otherWord startsHere).1.symm

/-- A slice is what the scanner finds at its place. -/
theorem IsSlice.eq_lexeme (slice : t.IsSlice s) (here : s.drop t.start = c :: rest) :
    t.kind = (lexeme c rest).1 ∧ t.text = c :: rest.take (lexeme c rest).2 := by
  have isWord := slice.word
  obtain ⟨more, text, starts⟩ := isWord.eq_cons (here ▸ slice.text)
  rw [text] at isWord
  have found := isWord_lexeme isWord.head_visible rest
  have foundHere : c :: rest.take (lexeme c rest).2 <+: s.drop t.start := by
    rw [here]
    exact List.cons_prefix_cons.mpr ⟨rfl, List.take_prefix _ _⟩
  have length : t.kind = (lexeme c rest).1 ∧ more.length = (rest.take (lexeme c rest).2).length := by
    by_cases unknown : t.kind = .unknown
    · obtain ⟨single, noOther⟩ := slice.unknown unknown
      have isUnknown : (lexeme c rest).1 = .unknown := by
        by_contra known
        exact noOther _ _ known found foundHere
      rw [isUnknown] at found
      have foundSingle := found.length_unknown
      rw [text, List.length_cons] at single
      rw [List.length_cons] at foundSingle
      exact ⟨unknown.trans isUnknown.symm, by omega⟩
    · obtain ⟨kind, atMost, exactly⟩ := lexeme_of_isWord isWord unknown starts
      have inside := starts.length_le
      refine ⟨kind.symm, ?_⟩
      rw [List.length_take]
      rcases exactly with same | numberOrName
      · omega
      · have longest := slice.longest numberOrName _ (kind ▸ found) foundHere
        rw [text, List.length_cons, List.length_cons, List.length_take] at longest
        omega
  have shorter : more <+: rest.take (lexeme c rest).2 :=
    List.prefix_of_prefix_length_le starts (List.take_prefix _ _) (Nat.le_of_eq length.2)
  exact ⟨length.1, by rw [text, shorter.eq_of_length length.2]⟩

theorem drop_cons (here : s.drop offset = c :: rest) : s[offset]? = some c ∧ s.drop (offset + 1) = rest := by
  constructor
  · rw [← List.head?_drop, here, List.head?_cons]
  · rw [← List.drop_drop, here, List.drop_one, List.tail_cons]

/-- The scanner cuts the text into slices behind each other, with blanks alone outside them. -/
theorem segmentation_scanFrom (here : s.drop offset = rest) : Segmentation s offset (scanFrom offset rest) := by
  fun_induction scanFrom offset rest with
  | case1 offset =>
    refine ⟨by simp, by simp, .nil, fun i c from_ found _ => ?_⟩
    obtain ⟨inside, -⟩ := List.getElem?_eq_some_iff.mp found
    have ends := List.drop_eq_nil_iff.mp here
    omega
  | case2 offset c rest blank ih =>
    obtain ⟨first, next⟩ := drop_cons here
    obtain ⟨slices, behind, ordered, outside⟩ := ih next
    refine ⟨slices, fun t member => (Nat.le_succ offset).trans (behind t member), ordered,
      fun i d from_ found between => ?_⟩
    rcases Nat.eq_or_lt_of_le from_ with rfl | later
    · rw [first] at found
      cases found
      exact blank
    · exact outside i d later found between
  | case3 offset c rest visible kind n lex ih =>
    have slice := isSlice_of_lexeme here (by simpa using visible) lex
    have inside : n ≤ rest.length := by simpa [lex] using lexeme_le c rest
    have stops : stop ⟨kind, c :: rest.take n, some offset⟩ = offset + 1 + n := by
      have starts : start ⟨kind, c :: rest.take n, some offset⟩ = offset := rfl
      rw [stop, starts, List.length_cons, List.length_take, Nat.min_eq_left inside]
      omega
    have next : s.drop (offset + 1 + n) = rest.drop n := by rw [← List.drop_drop, (drop_cons here).2]
    obtain ⟨slices, behind, ordered, outside⟩ := ih next
    refine ⟨List.forall_mem_cons.mpr ⟨slice, slices⟩, List.forall_mem_cons.mpr ⟨Nat.le_refl offset, ?_⟩,
      List.pairwise_cons.mpr ⟨fun t member => ?_, ordered⟩, fun i d from_ found between => ?_⟩
    · intro t member
      have := behind t member
      omega
    · have := behind t member
      exact ⟨show offset < t.start by omega, by omega⟩
    · obtain ⟨first, others⟩ := List.forall_mem_cons.mp between
      refine outside i d ?_ found others
      rcases first with earlier | later
      · exact absurd from_ (Nat.not_le.mpr earlier)
      · rwa [stops] at later

/-- The tokens of a segmentation are those that the scanner finds. -/
theorem Segmentation.eq_scanFrom (h : Segmentation s offset tokens) (here : s.drop offset = rest) :
    tokens = scanFrom offset rest := by
  fun_induction scanFrom offset rest generalizing tokens with
  | case1 offset =>
    refine List.eq_nil_iff_forall_not_mem.mpr fun t member => ?_
    have slice := h.slices t member
    have nothing : s.drop t.start = [] := by
      have ends := List.drop_eq_nil_iff.mp here
      exact List.drop_eq_nil_iff.mpr (ends.trans (h.behind t member))
    exact slice.word.ne_nil (List.prefix_nil.mp (nothing ▸ slice.text))
  | case2 offset c rest blank ih =>
    have next := (drop_cons here).2
    refine ih ⟨h.slices, fun t member => ?_, h.ordered, fun i d from_ => h.outside i d (Nat.le_of_succ_le from_)⟩ next
    -- no token starts with the blank
    refine Nat.lt_of_le_of_ne (h.behind t member) ?_
    rintro rfl
    have slice := h.slices t member
    obtain ⟨more, text, -⟩ := slice.word.eq_cons (here ▸ slice.text)
    have visible := (text ▸ slice.word).head_visible
    rw [blank] at visible
    cases visible
  | case3 offset c rest visible kind n lex ih =>
    have found := (drop_cons here).1
    cases tokens with
    | nil => exact absurd (h.outside offset c (Nat.le_refl _) found (by simp)) visible
    | cons u tokens =>
      obtain ⟨first, later⟩ := List.pairwise_cons.mp h.ordered
      obtain ⟨slice, slices⟩ := List.forall_mem_cons.mp h.slices
      obtain ⟨from_, behind⟩ := List.forall_mem_cons.mp h.behind
      -- the visible code point at the offset is in a token, and tokens behind the first one start later
      have starts : u.start = offset := by
        refine Nat.le_antisymm (Nat.not_lt.mp fun late => visible (h.outside offset c (Nat.le_refl _) found ?_)) from_
        refine List.forall_mem_cons.mpr ⟨.inl late, fun t member => .inl ?_⟩
        exact Nat.lt_trans late (first t member).1
      obtain ⟨sameKind, text⟩ := slice.eq_lexeme (starts ▸ here)
      rw [lex] at sameKind text
      dsimp only at sameKind text
      have inside : n ≤ rest.length := by simpa [lex] using lexeme_le c rest
      have stops : u.stop = offset + 1 + n := by
        rw [stop, starts, text, List.length_cons, List.length_take, Nat.min_eq_left inside]
        omega
      have next : s.drop (offset + 1 + n) = rest.drop n := by rw [← List.drop_drop, (drop_cons here).2]
      have others : Segmentation s (offset + 1 + n) tokens := by
        refine ⟨slices, fun t member => stops ▸ (first t member).2, later, fun i d from_ found between => ?_⟩
        exact h.outside i d (by omega) found (List.forall_mem_cons.mpr ⟨.inr (stops ▸ from_), between⟩)
      have same : u = ⟨kind, c :: rest.take n, some offset⟩ := by
        rw [← sameKind, ← text, ← starts, ← slice.position]
      rw [same, ih others next]

/-- A text has exactly one segmentation, and the scanner finds it. -/
theorem segmentation_iff (s : Text) (tokens : List Token) : Segmentation s 0 tokens ↔ tokens = scan s := by
  constructor
  · intro h
    exact h.eq_scanFrom List.drop_zero
  · rintro rfl
    exact segmentation_scanFrom List.drop_zero

end Reckoner.Token
