import Reckoner.Proofs.Token.Language
/-!
# Words with blanks between them

The words of a text can be written with any blanks before, between and behind them (`IsSpacing`). Words of known kinds
stay the tokens that they are: each one ends where a blank or the end of the text follows (`lexeme_apart`), so the text
is scanned into them again (`label_scan_of_isSpacing`).
-/
namespace Reckoner.Token

/-- The words in their order, with blanks between any two of them. -/
inductive Joined : List Text → Text → Prop where
  | nil : Joined [] []
  | single (word : Text) : Joined [word] word
  | cons (word gap : Text) {next rest : Text} {words : List Text} (blank : gap.isBlank = true) (nonempty : gap ≠ [])
      (more : Joined (next :: words) rest) : Joined (word :: next :: words) (word ++ (gap ++ rest))

/-- The words in their order, with blanks between any two of them, and perhaps before the first and behind the last. -/
def IsSpacing (words : List Text) (s : Text) : Prop :=
  ∃ before body behind : Text, s = before ++ (body ++ behind) ∧ before.isBlank = true ∧ behind.isBlank = true ∧
    Joined words body

/-- What a token is, apart from where it stands. -/
def label (t : Token) : TokenKind × Text := (t.kind, t.text)

variable {c : CodePoint} {kind : TokenKind} {word gap body behind rest : Text} {words : List Text}

/-- A word of a known kind ends before a blank. -/
theorem lexeme_apart (isWord : IsWord kind (c :: word)) (known : kind ≠ .unknown)
    (stops : ∀ d ∈ rest.head?, d.isBlank = true) : lexeme c (word ++ rest) = (kind, word.length) := by
  obtain ⟨same, atLeast, exactly⟩ := lexeme_of_isWord isWord known (List.prefix_append word rest)
  refine Prod.ext same ?_
  rcases exactly with length | numberOrName
  · exact length
  refine Nat.le_antisymm ?_ atLeast
  -- a longer number or name would take along the blank
  by_contra longer
  have notString : kind ≠ .string := by rcases numberOrName with rfl | rfl <;> decide
  have found := (isWord_lexeme isWord.head_visible (word ++ rest)).visible (same ▸ notString)
  cases rest with
  | nil =>
    have inside := lexeme_le c (word ++ [])
    rw [List.append_nil] at inside longer
    exact longer inside
  | cons d rest =>
    have member : d ∈ (word ++ d :: rest).take (lexeme c (word ++ d :: rest)).2 := by
      have reaches : (word ++ [d]).length ≤ (lexeme c (word ++ d :: rest)).2 := by
        rw [List.length_append, List.length_singleton]
        omega
      have taken : (word ++ [d]) <+: (word ++ d :: rest).take (lexeme c (word ++ d :: rest)).2 := by
        refine List.prefix_take_iff.mpr ⟨?_, reaches⟩
        exact (List.append_cons word d rest) ▸ List.prefix_append _ _
      exact taken.subset (by simp)
    have visible := found d (List.mem_cons_of_mem _ member)
    rw [stops d rfl] at visible
    cases visible

/-- A word of a known kind is one token before a blank. -/
theorem label_scanFrom_word (isWord : IsWord kind word) (known : kind ≠ .unknown)
    (stops : ∀ d ∈ rest.head?, d.isBlank = true) (offset : Nat) :
    (scanFrom offset (word ++ rest)).map label =
      (kind, word) :: (scanFrom (offset + word.length) rest).map label := by
  obtain ⟨c, word, rfl⟩ := List.exists_cons_of_ne_nil isWord.ne_nil
  rw [List.cons_append, scanFrom_cons offset isWord.head_visible (lexeme_apart isWord known stops)]
  rfl

theorem scanFrom_gap (blank : gap.isBlank = true) (offset : Nat) (rest : Text) :
    scanFrom offset (gap ++ rest) = scanFrom (offset + gap.length) rest := by
  induction gap generalizing offset with
  | nil => rfl
  | cons c gap ih =>
    obtain ⟨first, more⟩ : c.isBlank = true ∧ Text.isBlank gap = true := by simpa [Text.isBlank] using blank
    rw [List.cons_append, scanFrom, if_pos first, ih more, List.length_cons]
    congr 1
    omega

theorem head?_of_isBlank (blank : gap.isBlank = true) : ∀ d ∈ gap.head?, d.isBlank = true := fun d head =>
  List.all_eq_true.mp blank d (List.mem_of_mem_head? head)

theorem label_scanFrom_joined (joined : Joined words body) (behindBlank : behind.isBlank = true) :
    ∀ (tokens : List Token) (offset : Nat), tokens.map text = words → (∀ t ∈ tokens, IsWord t.kind t.text) →
      (∀ t ∈ tokens, t.kind ≠ .unknown) → (scanFrom offset (body ++ behind)).map label = tokens.map label := by
  have nothing (offset : Nat) : scanFrom offset behind = [] := by
    have skipped := scanFrom_gap behindBlank offset []
    rwa [List.append_nil, scanFrom] at skipped
  induction joined with
  | nil =>
    intro tokens offset texts _ _
    obtain rfl := List.map_eq_nil_iff.mp texts
    rw [List.nil_append, nothing]
  | single word =>
    intro tokens offset texts isWords known
    obtain ⟨t, tokens, rfl, rfl, none⟩ := List.map_eq_cons_iff.mp texts
    obtain rfl := List.map_eq_nil_iff.mp none
    rw [label_scanFrom_word (isWords t (by simp)) (known t (by simp)) (head?_of_isBlank behindBlank), nothing]
    rfl
  | @cons word gap next rest words blank nonempty more ih =>
    intro tokens offset texts isWords known
    obtain ⟨t, tokens, rfl, rfl, others⟩ := List.map_eq_cons_iff.mp texts
    have stops : ∀ d ∈ (gap ++ (rest ++ behind)).head?, d.isBlank = true := by
      rw [List.head?_append_of_ne_nil _ nonempty]
      exact head?_of_isBlank blank
    rw [List.append_assoc, List.append_assoc, label_scanFrom_word (isWords t (by simp)) (known t (by simp)) stops,
      scanFrom_gap blank, List.map_cons]
    exact congrArg _ (ih tokens _ others (fun u m => isWords u (by simp [m])) fun u m => known u (by simp [m]))

/-- A text with the words of a text of known tokens, blanks between them, has these tokens again. -/
theorem label_scan_of_isSpacing {s spaced : Text} (known : ∀ t ∈ scan s, t.kind ≠ .unknown)
    (spacing : IsSpacing ((scan s).map text) spaced) : (scan spaced).map label = (scan s).map label := by
  obtain ⟨before, body, behind, rfl, beforeBlank, behindBlank, joined⟩ := spacing
  rw [scan, scanFrom_gap beforeBlank]
  exact label_scanFrom_joined joined behindBlank _ _ rfl (fun _ => isWord_of_mem_scanFrom) known

end Reckoner.Token
