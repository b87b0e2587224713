import Reckoner.Proofs.Redaction.Secrets
/-!
# What redaction leaves at each level

A level of a context is a mapping that is reached through mappings under keys that name no secret. Redaction goes
through a level entry by entry, and what it leaves at a path is the redaction of the level at this path
(`Reaches.redact`). So each level keeps its keys in their order, and each value is kept as `KeptAs` says. A text that
was cut is cut at the same place again, so redacting twice does what redacting once does (`redact_idempotent`).
-/
namespace Reckoner.Redaction

/-- The entries of the mapping at a path, which gives the position of each entry passed on the way; the keys passed
name no secrets. -/
inductive Reaches : List (Value × Value) → List Nat → List (Value × Value) → Prop where
  | here (entries : List (Value × Value)) : Reaches entries [] entries
  | inside {entries inner level : List (Value × Value)} {key : Value} {i : Nat} {path : List Nat}
      (stands : entries[i]? = some (key, .mapping inner)) (ordinary : isSecretKey key = .ok false)
      (rest : Reaches inner path level) : Reaches entries (i :: path) level

/-- How a value stands under its key in what is kept: a secret is marked, a text stays if it is short and is cut if it
is long, a mapping stays one, with a level of its own inside it, and any other value stays. -/
inductive KeptAs (key : Value) : Value → Value → Prop where
  | secret (v : Value) (names : isSecretKey key = .ok true) : KeptAs key v (.text mark)
  | short {v : Value} {t : Text} (ordinary : isSecretKey key = .ok false) (isText : v.asText? = some t)
      (short : t.length ≤ maxLength) : KeptAs key v v
  | cut {v : Value} {t : Text} (ordinary : isSecretKey key = .ok false) (isText : v.asText? = some t)
      (long : maxLength < t.length) : KeptAs key v (.text (t.take maxLength ++ cutMark))
  | mapping (inner kept : List (Value × Value)) (ordinary : isSecretKey key = .ok false) :
      KeptAs key (.mapping inner) (.mapping kept)
  | other {v : Value} (ordinary : isSecretKey key = .ok false) (noText : v.asText? = none)
      (noMapping : ∀ inner, v ≠ .mapping inner) : KeptAs key v v

/-- The entry has the key that it had, and its value is kept under this key. -/
def KeptEntry (given kept : Value × Value) : Prop := kept.1 = given.1 ∧ KeptAs given.1 given.2 kept.2

/-- Every key that redaction comes to can be written out. -/
def HasWritableKeys (entries : List (Value × Value)) : Prop :=
  ∀ path level, Reaches entries path level → ∀ entry ∈ level, ∃ t, entry.1.plain = .ok t

variable {key v w : Value} {entries kept level : List (Value × Value)} {entry : Value × Value} {path : List Nat}

theorem HasWritableKeys.tail (writable : HasWritableKeys (entry :: entries)) : HasWritableKeys entries := by
  intro path level reaches other member
  cases reaches with
  | here => exact writable [] _ (.here _) other (by simp [member])
  | @inside _ inner _ key i path stands ordinary rest =>
    exact writable ((i + 1) :: path) level (.inside (by simpa using stands) ordinary rest) other member

theorem HasWritableKeys.inner {inner : List (Value × Value)} (ordinary : isSecretKey key = .ok false)
    (writable : HasWritableKeys ((key, .mapping inner) :: entries)) : HasWritableKeys inner :=
  fun path level reaches => writable (0 :: path) level (.inside rfl ordinary reaches)

theorem shortened_of_long {t : Text} (long : maxLength < t.length) : shortened t = t.take maxLength ++ cutMark :=
  if_pos long

/-- A text that was cut is cut at the same place again. -/
theorem shortened_shortened (t : Text) : shortened (shortened t) = shortened t := by
  by_cases long : maxLength < t.length
  · have kept : (t.take maxLength).length = maxLength := List.length_take_of_le (Nat.le_of_lt long)
    have stillLong : maxLength < (t.take maxLength ++ cutMark).length := by
      rw [List.length_append, kept]
      exact Nat.lt_add_of_pos_right (by decide)
    rw [shortened_of_long long, shortened_of_long stillLong, List.take_left' kept]
  · have stays : shortened t = t := if_neg long
    rw [stays, stays]

theorem exists_isSecretKey_iff : (∃ names, isSecretKey key = .ok names) ↔ ∃ t, key.plain = .ok t := by
  unfold isSecretKey
  cases key.plain <;> simp

/-- What is kept under a key that can be written out: the mark of a secret, or what is kept of the value. -/
theorem keepUnder_eq_ok : keepUnder key v = .ok w ↔
    isSecretKey key = .ok true ∧ w = .text mark ∨ isSecretKey key = .ok false ∧ keep v = .ok w := by
  cases names : isSecretKey key with
  | error e => simp [keepUnder, names]
  | ok secret =>
    cases secret with
    | true => simp [keepUnder_secret names, eq_comm]
    | false => simp [keepUnder_ordinary names]

theorem redact_cons_eq_ok : redact ((key, v) :: entries) = .ok kept ↔
    ∃ w others, keepUnder key v = .ok w ∧ redact entries = .ok others ∧ kept = (key, w) :: others := by
  rw [redact_cons, Outcome.bind_eq_ok]
  constructor
  · rintro ⟨w, value, rest⟩
    obtain ⟨others, redacted, same⟩ := Outcome.bind_eq_ok.mp rest
    cases same
    exact ⟨w, others, value, redacted, rfl⟩
  · rintro ⟨w, others, value, redacted, rfl⟩
    exact ⟨w, value, by rw [redacted]; rfl⟩

/-- Redaction goes through the entries one by one. -/
theorem redact_eq_ok : redact entries = .ok kept ↔
    List.Forall₂ (fun given shown => shown.1 = given.1 ∧ keepUnder given.1 given.2 = .ok shown.2) entries kept := by
  induction entries generalizing kept with
  | nil =>
    rw [redact, List.forall₂_nil_left_iff, Except.ok.injEq]
    exact eq_comm
  | cons given entries ih =>
    rw [redact_cons_eq_ok, List.forall₂_cons_left_iff]
    constructor
    · rintro ⟨w, others, value, redacted, rfl⟩
      exact ⟨(given.1, w), others, ⟨rfl, value⟩, ih.mp redacted, rfl⟩
    · rintro ⟨⟨_, w⟩, others, ⟨rfl, value⟩, redacted, rfl⟩
      exact ⟨w, others, value, ih.mpr redacted, rfl⟩

theorem keep_mapping_eq_ok :
    keep (.mapping entries) = .ok w ↔ ∃ kept, redact entries = .ok kept ∧ w = .mapping kept := by
  rw [keep_mapping, Outcome.bind_eq_ok]
  simp [eq_comm]

/-- A text is kept or cut, and so is a token. -/
theorem keep_of_isText {t : Text} (isText : v.asText? = some t) :
    keep v = .ok (if maxLength < t.length then .text (t.take maxLength ++ cutMark) else v) := by
  cases v
  case text s =>
    cases isText
    rw [keep, shortened]
    split <;> rfl
  case token s =>
    cases isText
    rw [keep, shortened]
    split <;> rfl
  all_goals cases isText

/-- What is neither a text nor a mapping is kept as it is. -/
theorem keep_other (noText : v.asText? = none) (noMapping : ∀ inner, v ≠ .mapping inner) : keep v = .ok v := by
  cases v
  case text t => cases noText
  case token t => cases noText
  case mapping inner => exact absurd rfl (noMapping inner)
  all_goals rfl

/-- What is kept of a value without levels inside it is kept as it is. -/
theorem keep_kept_of_not_mapping (noMapping : ∀ inner, v ≠ .mapping inner) (h : keep v = .ok w) : keep w = .ok w := by
  cases isText : v.asText? with
  | none =>
    have other := keep_other isText noMapping
    rw [other] at h
    cases h
    exact other
  | some t =>
    have kept := keep_of_isText isText
    rw [kept] at h
    cases h
    split
    next long =>
      have again := shortened_shortened t
      rw [shortened_of_long long] at again
      rw [keep, again]
    next short => rw [kept, if_neg short]

mutual

/-- What is kept is kept as it is. -/
theorem keep_kept : ∀ {v w : Value}, keep v = .ok w → keep w = .ok w
  | v, w, h => by
    cases v with
    | mapping entries =>
      obtain ⟨kept, redacted, rfl⟩ := keep_mapping_eq_ok.mp h
      exact keep_mapping_eq_ok.mpr ⟨kept, redact_redacted redacted, rfl⟩
    | _ => exact keep_kept_of_not_mapping (by simp) h

theorem redact_redacted : ∀ {entries kept : List (Value × Value)}, redact entries = .ok kept → redact kept = .ok kept
  | [], _, h => by
    cases h
    rfl
  | (key, v) :: entries, kept, h => by
    obtain ⟨w, others, value, rest, rfl⟩ := redact_cons_eq_ok.mp h
    have again : keepUnder key w = .ok w := by
      rw [keepUnder_eq_ok] at value ⊢
      exact value.imp id fun ordinary => ⟨ordinary.1, keep_kept ordinary.2⟩
    exact redact_cons_eq_ok.mpr ⟨w, others, again, redact_redacted rest, rfl⟩

end

mutual

/-- A value is kept if all that stands inside it can be written out. -/
theorem keep_isOk : ∀ {v : Value}, (∀ inner, v = .mapping inner → HasWritableKeys inner) → ∃ w, keep v = .ok w
  | v, writable => by
    cases v with
    | mapping inner =>
      obtain ⟨kept, redacted⟩ := redact_isOk (writable inner rfl)
      exact ⟨_, keep_mapping_eq_ok.mpr ⟨kept, redacted, rfl⟩⟩
    | text t => exact ⟨_, keep_of_isText rfl⟩
    | token t => exact ⟨_, keep_of_isText rfl⟩
    | _ => exact ⟨_, rfl⟩

theorem redact_isOk : ∀ {entries : List (Value × Value)}, HasWritableKeys entries → ∃ kept, redact entries = .ok kept
  | [], _ => ⟨[], rfl⟩
  | (key, v) :: entries, writable => by
    obtain ⟨kept, rest⟩ := redact_isOk writable.tail
    obtain ⟨names, known⟩ := exists_isSecretKey_iff.mpr (writable [] _ (.here _) (key, v) (by simp))
    have value : ∃ w, keepUnder key v = .ok w := by
      cases names with
      | true => exact ⟨_, keepUnder_secret known⟩
      | false =>
        rw [keepUnder_ordinary known]
        refine keep_isOk fun inner same => ?_
        subst same
        exact writable.inner known
    obtain ⟨w, value⟩ := value
    exact ⟨_, redact_cons_eq_ok.mpr ⟨w, kept, value, rest, rfl⟩⟩

end

/-- What redaction leaves of the entry at a position. -/
theorem entry_of_redact {i : Nat} (redacted : redact entries = .ok kept) (stands : entries[i]? = some entry) :
    ∃ shown, kept[i]? = some shown ∧ shown.1 = entry.1 ∧ keepUnder entry.1 entry.2 = .ok shown.2 := by
  have each := redact_eq_ok.mp redacted
  obtain ⟨inside, rfl⟩ := List.getElem?_eq_some_iff.mp stands
  have alsoInside : i < kept.length := each.length_eq ▸ inside
  exact ⟨kept[i], List.getElem?_eq_getElem alsoInside, each.get inside alsoInside⟩

/-- The level of the result at a path is what redaction leaves of the level there. -/
theorem Reaches.redact (reaches : Reaches entries path level) (redacted : Redaction.redact entries = .ok kept) :
    ∃ shown, Reaches kept path shown ∧ Redaction.redact level = .ok shown := by
  induction reaches generalizing kept with
  | here entries => exact ⟨kept, .here kept, redacted⟩
  | @inside entries inner level key i path stands ordinary _ ih =>
    obtain ⟨⟨_, w⟩, standsThere, rfl, value⟩ := entry_of_redact redacted stands
    rw [keepUnder_ordinary ordinary] at value
    obtain ⟨keptInside, redactedInside, rfl⟩ := keep_mapping_eq_ok.mp value
    obtain ⟨shown, reached, redactedLevel⟩ := ih redactedInside
    exact ⟨shown, .inside standsThere ordinary reached, redactedLevel⟩

theorem keptAs_of_keep (ordinary : isSecretKey key = .ok false) (h : keep v = .ok w) : KeptAs key v w := by
  cases isText : v.asText? with
  | some t =>
    rw [keep_of_isText isText] at h
    cases h
    split
    next long => exact .cut ordinary isText long
    next short => exact .short ordinary isText (Nat.not_lt.mp short)
  | none =>
    by_cases mapping : ∃ inner, v = .mapping inner
    · obtain ⟨inner, rfl⟩ := mapping
      obtain ⟨kept, -, rfl⟩ := keep_mapping_eq_ok.mp h
      exact .mapping inner kept ordinary
    · have noMapping : ∀ inner, v ≠ .mapping inner := fun inner same => mapping ⟨inner, same⟩
      rw [keep_other isText noMapping] at h
      cases h
      exact .other ordinary isText noMapping

theorem keptAs_of_keepUnder (h : keepUnder key v = .ok w) : KeptAs key v w := by
  rcases keepUnder_eq_ok.mp h with ⟨names, rfl⟩ | ⟨ordinary, kept⟩
  · exact .secret v names
  · exact keptAs_of_keep ordinary kept

/-- A key of a level that was redacted could be written out. -/
theorem isWritable_of_redact (redacted : redact level = .ok kept) (member : entry ∈ level) :
    ∃ t, entry.1.plain = .ok t := by
  obtain ⟨i, stands⟩ := List.mem_iff_getElem?.mp member
  obtain ⟨shown, -, -, value⟩ := entry_of_redact redacted stands
  have known := (keepUnder_eq_ok.mp value).imp And.left And.left
  exact exists_isSecretKey_iff.mp (known.elim (fun secret => ⟨true, secret⟩) fun ordinary => ⟨false, ordinary⟩)

/-- Redacting twice does what redacting once does. There is a result exactly when every key that redaction comes to can
be written out, and then each level of the context is a level of the result with the same keys in the same order, under
which the values are kept: a text that stands there is the mark of a secret, a text of at most 256 code points that
stood there, or the first 256 code points of a longer one and the mark of a cut. -/
theorem redact_idempotent (entries : List (Value × Value)) :
    (redact entries >>= redact) = redact entries ∧
      ((∃ kept, redact entries = .ok kept) ↔ HasWritableKeys entries) ∧
      ∀ kept path level, redact entries = .ok kept → Reaches entries path level →
        ∃ shown, Reaches kept path shown ∧ List.Forall₂ KeptEntry level shown := by
  refine ⟨?_, ⟨?_, redact_isOk⟩, ?_⟩
  · cases redacted : redact entries with
    | error e => rfl
    | ok kept => exact redact_redacted redacted
  · rintro ⟨kept, redacted⟩ path level reaches entry member
    obtain ⟨shown, -, redactedLevel⟩ := reaches.redact redacted
    exact isWritable_of_redact redactedLevel member
  · intro kept path level redacted reaches
    obtain ⟨shown, reached, redactedLevel⟩ := reaches.redact redacted
    refine ⟨shown, reached, (redact_eq_ok.mp redactedLevel).imp fun given there h => ⟨h.1, ?_⟩⟩
    exact keptAs_of_keepUnder h.2

/-- A level below a name, with a secret and with a key that is no text. -/
theorem redact_idempotent_nested :
    redact [(.text "login", .mapping [(.text "Token", .int 1), (.bool true, .text "a")])] =
        .ok [(.text "login", .mapping [(.text "Token", .text mark), (.bool true, .text "a")])] ∧
      Reaches [(.text "login", .mapping [(.text "Token", .int 1), (.bool true, .text "a")])] [0]
        [(.text "Token", .int 1), (.bool true, .text "a")] ∧
      ∃ shown, Reaches [(.text "login", .mapping [(.text "Token", .text mark), (.bool true, .text "a")])] [0] shown ∧
        List.Forall₂ KeptEntry [(.text "Token", .int 1), (.bool true, .text "a")] shown := by
  have redacted : redact [(.text "login", .mapping [(.text "Token", .int 1), (.bool true, .text "a")])] =
      .ok [(.text "login", .mapping [(.text "Token", .text mark), (.bool true, .text "a")])] := rfl
  have reaches : Reaches [(.text "login", .mapping [(.text "Token", .int 1), (.bool true, .text "a")])] [0]
      [(.text "Token", .int 1), (.bool true, .text "a")] := .inside rfl rfl (.here _)
  exact ⟨redacted, reaches, (redact_idempotent _).2.2 _ _ _ redacted reaches⟩

end Reckoner.Redaction
