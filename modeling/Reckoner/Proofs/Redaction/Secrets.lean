import Reckoner.Redaction
import Reckoner.Proofs.Outcome
/-!
# Which secrets redaction hides

Two contexts differ only in secrets when they are the same apart from what stands under keys that name secrets, at
every level that is reached through mappings and lists. Redaction looks into mappings and leaves lists as they are, so
it makes two such contexts the same exactly when they differ in no secret inside a list (`redact_eq_iff`). A key that
cannot be written out ends the redaction of both in the same way.
-/
namespace Reckoner.Redaction

mutual

/-- The values are the same apart from secrets, which may stand in mappings and, if `inLists`, also inside lists. -/
inductive SameButSecrets (inLists : Bool) : Value → Value → Prop where
  | same (v : Value) : SameButSecrets inLists v v
  | mapping {entries others : List (Value × Value)} (each : EntriesSameButSecrets inLists entries others) :
      SameButSecrets inLists (.mapping entries) (.mapping others)
  | list {items others : List Value} (looksInside : inLists = true) (each : ItemsSameButSecrets inLists items others) :
      SameButSecrets inLists (.list items) (.list others)

/-- The entries have the same keys, and their values are the same apart from secrets; the value under a key that names
a secret is one. -/
inductive EntriesSameButSecrets (inLists : Bool) : List (Value × Value) → List (Value × Value) → Prop where
  | nil : EntriesSameButSecrets inLists [] []
  | secret {key v w : Value} {entries others : List (Value × Value)} (names : isSecretKey key = .ok true)
      (rest : EntriesSameButSecrets inLists entries others) :
      EntriesSameButSecrets inLists ((key, v) :: entries) ((key, w) :: others)
  | entry {key v w : Value} {entries others : List (Value × Value)} (values : SameButSecrets inLists v w)
      (rest : EntriesSameButSecrets inLists entries others) :
      EntriesSameButSecrets inLists ((key, v) :: entries) ((key, w) :: others)

/-- The values of two lists are the same apart from secrets, one by one. -/
inductive ItemsSameButSecrets (inLists : Bool) : List Value → List Value → Prop where
  | nil : ItemsSameButSecrets inLists [] []
  | cons {v w : Value} {items others : List Value} (values : SameButSecrets inLists v w)
      (rest : ItemsSameButSecrets inLists items others) :
      ItemsSameButSecrets inLists (v :: items) (w :: others)

end

variable {key v w : Value} {entries others kept : List (Value × Value)}

theorem keep_mapping : keep (.mapping entries) = redact entries >>= fun kept => .ok (.mapping kept) := by
  rw [keep]
  rfl

theorem keep_list (items : List Value) : keep (.list items) = .ok (.list items) := by
  rw [keep] <;> simp

/-- What is kept under a key. -/
def keepUnder (key v : Value) : Outcome Value := do
  if ← isSecretKey key then .ok (.text mark) else keep v

theorem redact_cons : redact ((key, v) :: entries) =
    keepUnder key v >>= fun kept => redact entries >>= fun others => .ok ((key, kept) :: others) := by
  rw [redact, keepUnder]
  cases isSecretKey key with
  | error e => rfl
  | ok names => cases names <;> rfl

theorem keepUnder_secret (names : isSecretKey key = .ok true) : keepUnder key v = .ok (.text mark) := by
  rw [keepUnder, names]
  rfl

theorem keepUnder_ordinary (ordinary : isSecretKey key = .ok false) : keepUnder key v = keep v := by
  rw [keepUnder, ordinary]
  rfl

theorem keepUnder_congr (same : keep v = keep w) : keepUnder key v = keepUnder key w := by
  rw [keepUnder, keepUnder, same]

mutual

/-- Secrets that stand in mappings alone are hidden. -/
theorem keep_eq : ∀ {v w : Value}, SameButSecrets false v w → keep v = keep w
  | _, _, .same v => rfl
  | _, _, .mapping each => by rw [keep_mapping, keep_mapping, redact_eq each]
  | _, _, .list looksInside each => by cases looksInside

theorem redact_eq : ∀ {entries others : List (Value × Value)}, EntriesSameButSecrets false entries others →
    redact entries = redact others
  | _, _, .nil => rfl
  | _, _, .secret names rest => by
    rw [redact_cons, redact_cons, keepUnder_secret names, keepUnder_secret names, redact_eq rest]
  | _, _, .entry values rest => by
    rw [redact_cons, redact_cons, keepUnder_congr (keep_eq values), redact_eq rest]

end

/-- What two outcomes tell about a difference between what they come from: both are the same fault, or they are
results that are the same only if the difference is hidden. -/
inductive Tells {α : Type} (hidden : Prop) : Outcome α → Outcome α → Prop where
  | error (e : Fault) : Tells hidden (.error e) (.error e)
  | ok (a b : α) (told : a = b → hidden) : Tells hidden (.ok a) (.ok b)

namespace Tells

variable {α β : Type} {hidden hidden' : Prop} {o o' : Outcome α}

theorem of_hidden (h : hidden) (o : Outcome α) : Tells hidden o o := by
  cases o with
  | error e => exact .error e
  | ok a => exact .ok a a fun _ => h

theorem imp (h : Tells hidden o o') (weaker : hidden → hidden') : Tells hidden' o o' := by
  cases h with
  | error e => exact .error e
  | ok a b told => exact .ok a b fun same => weaker (told same)

theorem bind {next next' : α → Outcome β} (h : Tells hidden o o')
    (each : ∀ a b, (a = b → hidden) → Tells hidden' (next a) (next' b)) :
    Tells hidden' (o >>= next) (o' >>= next') := by
  cases h with
  | error e => exact .error e
  | ok a b told => exact each a b told

theorem eq_iff (h : Tells hidden o o') (alike : hidden → o = o') : o = o' ↔ (∃ e, o = .error e) ∨ hidden := by
  cases h with
  | error e => exact ⟨fun _ => .inl ⟨e, rfl⟩, fun _ => rfl⟩
  | ok a b told =>
    constructor
    · exact fun same => .inr (told (Except.ok.inj same))
    · rintro (⟨e, failed⟩ | h)
      · cases failed
      · exact alike h

/-- A value under a key that names a secret tells nothing. -/
theorem keepUnder (value : isSecretKey key = .ok true ∨ Tells hidden (keep v) (keep w)) :
    Tells (isSecretKey key = .ok true ∨ hidden) (keepUnder key v) (keepUnder key w) := by
  cases names : isSecretKey key with
  | error e =>
    rw [Redaction.keepUnder, Redaction.keepUnder, names]
    exact .error e
  | ok secret =>
    cases secret with
    | true =>
      rw [keepUnder_secret names, keepUnder_secret names]
      exact of_hidden (.inl rfl) _
    | false =>
      have told : Tells hidden (keep v) (keep w) := value.resolve_left (by simp [names])
      rw [keepUnder_ordinary names, keepUnder_ordinary names]
      exact told.imp .inr

/-- Entries tell what their first values and the entries behind them tell. -/
theorem cons (value : isSecretKey key = .ok true ∨ Tells hidden (keep v) (keep w))
    (values : Tells hidden' (redact entries) (redact others)) :
    Tells ((isSecretKey key = .ok true ∨ hidden) ∧ hidden') (redact ((key, v) :: entries))
      (redact ((key, w) :: others)) := by
  rw [redact_cons, redact_cons]
  refine (keepUnder value).bind fun a b toldValue => values.bind fun as bs toldValues => .ok _ _ fun same => ?_
  cases same
  exact ⟨toldValue rfl, toldValues rfl⟩

end Tells

mutual

/-- What is kept of a list is the list, so it tells every secret in it. -/
theorem keep_tells : ∀ {v w : Value}, SameButSecrets true v w → Tells (SameButSecrets false v w) (keep v) (keep w)
  | _, _, .same v => .of_hidden (.same v) _
  | _, _, .mapping each => by
    rw [keep_mapping, keep_mapping]
    refine (redact_tells each).bind fun a b told => .ok _ _ fun same => ?_
    cases same
    exact .mapping (told rfl)
  | .list items, .list others, .list looksInside each => by
    rw [keep_list, keep_list]
    refine .ok _ _ fun same => ?_
    rw [same]
    exact .same _

theorem redact_tells : ∀ {entries others : List (Value × Value)}, EntriesSameButSecrets true entries others →
    Tells (EntriesSameButSecrets false entries others) (redact entries) (redact others)
  | _, _, .nil => .of_hidden .nil _
  | (key, v) :: _, (_, w) :: _, .secret names rest => by
    have nothing : isSecretKey key = .ok true ∨ Tells False (keep v) (keep w) := .inl names
    exact (Tells.cons nothing (redact_tells rest)).imp fun told => .secret names told.2
  | _, _, .entry values rest =>
    (Tells.cons (.inr (keep_tells values)) (redact_tells rest)).imp fun told =>
      told.1.elim (fun names => .secret names told.2) fun hidden => .entry hidden told.2

end

/-- Contexts that differ only in secrets are redacted alike exactly when they differ in no secret inside a list, or
when a key that cannot be written out leaves nothing of either. -/
theorem redact_eq_iff (same : EntriesSameButSecrets true entries others) :
    redact entries = redact others ↔ (∃ e, redact entries = .error e) ∨ EntriesSameButSecrets false entries others :=
  (redact_tells same).eq_iff redact_eq

theorem isSecretKey_password : isSecretKey (.text "password") = .ok true := rfl

/-- Two contexts with another password in a mapping, and with the same list. -/
theorem redact_eq_iff_mapping :
    EntriesSameButSecrets true
        [(.text "login", .mapping [(.text "password", .int 1)]), (.text "tags", .list [.absent])]
        [(.text "login", .mapping [(.text "password", .text "a")]), (.text "tags", .list [.absent])] ∧
      redact [(.text "login", .mapping [(.text "password", .int 1)]), (.text "tags", .list [.absent])] =
        redact [(.text "login", .mapping [(.text "password", .text "a")]), (.text "tags", .list [.absent])] := by
  have differ (inLists : Bool) : EntriesSameButSecrets inLists
      [(.text "login", .mapping [(.text "password", .int 1)]), (.text "tags", .list [.absent])]
      [(.text "login", .mapping [(.text "password", .text "a")]), (.text "tags", .list [.absent])] :=
    .entry (.mapping (.secret isSecretKey_password .nil)) (.entry (.same _) .nil)
  exact ⟨differ true, (redact_eq_iff (differ true)).mpr (.inr (differ false))⟩

/-- A password in a mapping in a list is kept. -/
theorem not_redact_eq_list :
    ¬∀ entries others : List (Value × Value), EntriesSameButSecrets true entries others →
      redact entries = redact others := by
  intro always
  have differ : EntriesSameButSecrets true [(.text "users", .list [.mapping [(.text "password", .int 1)]])]
      [(.text "users", .list [.mapping [(.text "password", .int 2)]])] :=
    .entry (.list rfl (.cons (.mapping (.secret isSecretKey_password .nil)) .nil)) .nil
  cases always _ _ differ

end Reckoner.Redaction
