/-
# Proofs.Codemod.Versions -- what shortening takes off a path

A version is `/api/v` with digits behind it. A path that is shortened is a row of
versions and a tail that begins where a version may end; all of the row goes, and
a tail without a slash in front is given one (`stripVersions?_some`).

`Strips` is the loop that does this, with no bound on its passes. Each pass
leaves a shorter text, so the loop ends, and the fuel of `stripFrom` is enough
for it (`strips_iff`). What the loop gives is then read off it by induction on
its passes. It takes all versions off, in the one way in which that can be done,
and finds none where there are none (`stripVersions?_recognises`).
-/
import ClientMigration.Codemod.VersionPrefix

namespace ClientMigration.Codemod

set_option autoImplicit false

/-! ## Paths with versions in front -/

/-- `/api/v` and at least one digit. -/
def IsVersion (v : Text) : Prop :=
  ∃ digits : Text, digits ≠ [] ∧ digits.all Char.isDigit ∧ v = "/api/v".toList ++ digits

/-- A version may be followed by this: by nothing, or by a slash, a query or a fragment. -/
def EndsVersion (tail : Text) : Prop := ∀ c ∈ tail.head?, c = '/' ∨ c = '?' ∨ c = '#'

/-- A tail with a slash in front. -/
def slashed : Text → Text
  | '/' :: t => '/' :: t
  | t => '/' :: t

/-- A path that begins with a row of versions, and what remains of it. -/
structure Shortened (versions : List Text) (tail path short : Text) : Prop where
  nonempty : versions ≠ []
  each : ∀ v ∈ versions, IsVersion v
  whole : path = versions.flatten ++ tail
  ends : EndsVersion tail
  remains : short = slashed tail

/-- Whether a row of versions can be taken off a path. -/
def HasVersions (path : Text) : Prop := ∃ versions tail short, Shortened versions tail path short

/-- What remains of a path whose versions have all gone. -/
structure ShortenedFully (versions : List Text) (tail path short : Text) : Prop extends
    Shortened versions tail path short where
  settled : ¬ HasVersions short

theorem IsVersion.slash {v : Text} (version : IsVersion v) : ∃ t, v = '/' :: t := by
  obtain ⟨digits, _, _, rfl⟩ := version
  exact ⟨_, rfl⟩

theorem slashed_slash (tail : Text) : ∃ t, slashed tail = '/' :: t := by
  unfold slashed
  split
  · exact ⟨_, rfl⟩
  · exact ⟨_, rfl⟩

theorem slashed_of_slash {tail : Text} (slash : tail.head? = some '/') : slashed tail = tail := by
  cases tail with
  | nil => cases slash
  | cons c t =>
      cases slash
      rfl

theorem slashed_of_other {tail : Text} (other : tail.head? ≠ some '/') : slashed tail = '/' :: tail := by
  unfold slashed
  split
  · exact absurd rfl other
  · rfl

theorem Shortened.one {v tail : Text} (version : IsVersion v) (ends : EndsVersion tail) :
    Shortened [v] tail (v ++ tail) (slashed tail) := by
  refine ⟨by simp, ?_, by simp, ends, rfl⟩
  intro u listed
  rw [List.mem_singleton.mp listed]
  exact version

theorem Shortened.cons {v tail path short : Text} {versions : List Text} (version : IsVersion v)
    (rest : Shortened versions tail path short) : Shortened (v :: versions) tail (v ++ path) short := by
  refine ⟨by simp, ?_, ?_, rest.ends, rest.remains⟩
  · intro u listed
    rcases List.mem_cons.mp listed with rfl | later
    · exact version
    · exact rest.each u later
  · rw [rest.whole, List.flatten_cons, List.append_assoc]

/-- Behind a version stand further versions, or the tail. -/
theorem endsVersion_row {versions : List Text} {tail : Text} (each : ∀ v ∈ versions, IsVersion v)
    (ends : EndsVersion tail) : EndsVersion (versions.flatten ++ tail) := by
  cases versions with
  | nil => exact ends
  | cons v vs =>
      obtain ⟨t, rfl⟩ := (each v (by simp)).slash
      intro c first
      cases first
      exact Or.inl rfl

theorem EndsVersion.no_digit {tail : Text} (ends : EndsVersion tail) :
    ∀ c ∈ tail.head?, c.isDigit = false := by
  intro c first
  rcases ends c first with rfl | rfl | rfl <;> decide

/-! ## One version -/

theorem after?_some {t rest : Text} {head : String} (found : t.after? head = some rest) :
    t = head.toList ++ rest := by
  unfold Text.after? Text.startsWith at found
  split at found
  · rename_i isPrefix
    obtain ⟨u, rfl⟩ := List.isPrefixOf_iff_prefix.mp isPrefix
    cases found
    rw [← String.length_toList, List.drop_left]
  · cases found

theorem after?_append (head : String) (rest : Text) : Text.after? (head.toList ++ rest) head = some rest := by
  have isPrefix : Text.startsWith (head.toList ++ rest) head = true :=
    List.isPrefixOf_iff_prefix.mpr (List.prefix_append _ _)
  rw [Text.after?, if_pos isPrefix, ← String.length_toList, List.drop_left]

theorem versionTail?_some {t tail : Text} (found : versionTail? t = some tail) :
    ∃ digits, t = "/api/v".toList ++ digits ++ tail ∧ digits.all Char.isDigit ∧ digits ≠ [] := by
  unfold versionTail? at found
  obtain ⟨r, after, cut⟩ := Option.bind_eq_some_iff.mp found
  simp only at cut
  split at cut
  · cases cut
  · rename_i some
    cases cut
    refine ⟨r.takeWhile Char.isDigit, ?_, List.all_takeWhile, by simpa using some⟩
    have cut := List.prefix_iff_eq_append.mp (List.takeWhile_prefix Char.isDigit (l := r))
    rw [after?_some after, List.append_assoc, cut]

/-- All digits behind `/api/v` belong to the version. -/
theorem versionTail?_version {v tail : Text} (version : IsVersion v)
    (noDigit : ∀ c ∈ tail.head?, c.isDigit = false) : versionTail? (v ++ tail) = some tail := by
  obtain ⟨digits, some, areDigits, rfl⟩ := version
  have none : tail.takeWhile Char.isDigit = [] := by
    cases tail with
    | nil => rfl
    | cons c t => simp [noDigit c rfl]
  have run : (digits ++ tail).takeWhile Char.isDigit = digits := by
    rw [List.takeWhile_append_of_pos (List.all_eq_true.mp areDigits), none, List.append_nil]
  unfold versionTail?
  rw [List.append_assoc, after?_append, Option.bind_some]
  simp only [run, List.isEmpty_iff, some, if_false, List.drop_left]

theorem versionTail?_shorter {t tail : Text} (found : versionTail? t = some tail) :
    tail.length < t.length := by
  obtain ⟨digits, rfl, _, _⟩ := versionTail?_some found
  simp
  omega

/-- A row of versions can be taken off a text exactly if it begins with a version that may end there. -/
theorem hasVersions_iff {t : Text} :
    HasVersions t ↔ ∃ tail, versionTail? t = some tail ∧ EndsVersion tail := by
  constructor
  · rintro ⟨versions, tail, short, row⟩
    obtain ⟨v, vs, rfl⟩ := List.exists_cons_of_ne_nil row.nonempty
    have ends := endsVersion_row (fun u listed => row.each u (List.mem_cons_of_mem v listed)) row.ends
    refine ⟨vs.flatten ++ tail, ?_, ends⟩
    rw [row.whole, List.flatten_cons, List.append_assoc]
    exact versionTail?_version (row.each v List.mem_cons_self) ends.no_digit
  · rintro ⟨tail, found, ends⟩
    obtain ⟨digits, rfl, areDigits, some⟩ := versionTail?_some found
    exact ⟨_, tail, _, .one ⟨digits, some, areDigits, rfl⟩ ends⟩

theorem not_hasVersions_iff {t : Text} :
    ¬ HasVersions t ↔ ∀ tail, versionTail? t = some tail → ¬ EndsVersion tail := by
  rw [hasVersions_iff]
  simp only [not_exists, not_and]

theorem HasVersions.begins {t : Text} (has : HasVersions t) : ∃ rest, t = '/' :: 'a' :: rest := by
  obtain ⟨tail, found, _⟩ := hasVersions_iff.mp has
  obtain ⟨digits, rfl, _, _⟩ := versionTail?_some found
  exact ⟨_, rfl⟩

/-! ## The loop -/

/-- The loop at a text; `changed` tells that a version has gone. It ends where no version is in front
that may end there, and gives the text as it is; a tail without a slash is given one. -/
inductive Strips : Bool → Text → Option Text → Prop
  | ended {changed : Bool} {t : Text} (stays : ∀ tail, versionTail? t = some tail → ¬ EndsVersion tail) :
      Strips changed t (if changed then some t else none)
  | bare {changed : Bool} {t : Text} (found : versionTail? t = some []) : Strips changed t (some ['/'])
  | marked {changed : Bool} {t tail : Text} {c : Char} (found : versionTail? t = some (c :: tail))
      (mark : c = '?' ∨ c = '#') : Strips changed t (some ('/' :: c :: tail))
  | further {changed : Bool} {t tail : Text} {result : Option Text}
      (found : versionTail? t = some ('/' :: tail)) (rest : Strips true ('/' :: tail) result) :
      Strips changed t result

/-- The fuel is enough for the loop to end. -/
theorem stripFrom_strips : ∀ {fuel : Nat} {changed : Bool} {t : Text}, t.length < fuel →
    Strips changed t (stripFrom fuel changed t)
  | fuel + 1, changed, t, enough => by
      unfold stripFrom
      split
      · rename_i found
        exact .ended fun tail found' => by simp [found] at found'
      · rename_i found
        exact .bare found
      · rename_i c tail found
        have shorter := versionTail?_shorter found
        by_cases slash : c = '/'
        · subst slash
          simp only [beq_self_eq_true, if_true]
          exact .further found (stripFrom_strips (by omega))
        · by_cases mark : c = '?' ∨ c = '#'
          · simp only [beq_iff_eq, slash, if_false, Bool.or_eq_true, mark, if_true]
            exact .marked found mark
          · simp only [beq_iff_eq, slash, if_false, Bool.or_eq_true, mark]
            refine .ended fun tail' found' ends => ?_
            rw [found] at found'
            cases found'
            exact (ends c rfl).elim slash mark

/-- The loop has one result. -/
theorem Strips.unique {changed : Bool} {t : Text} {result result' : Option Text}
    (first : Strips changed t result) (second : Strips changed t result') : result' = result := by
  induction first with
  | ended stays =>
      cases second with
      | ended => rfl
      | bare found => exact absurd (by simp [EndsVersion]) (stays _ found)
      | marked found mark => exact absurd (by simp [EndsVersion, mark]) (stays _ found)
      | further found => exact absurd (by simp [EndsVersion]) (stays _ found)
  | bare found =>
      cases second with
      | ended stays => exact absurd (by simp [EndsVersion]) (stays _ found)
      | bare => rfl
      | marked found' => simp [found] at found'
      | further found' => simp [found] at found'
  | marked found mark =>
      cases second with
      | ended stays => exact absurd (by simp [EndsVersion, mark]) (stays _ found)
      | bare found' => simp [found] at found'
      | marked found' =>
          rw [found] at found'
          cases found'
          rfl
      | further found' =>
          rw [found] at found'
          cases found'
          exact absurd mark (by decide)
  | further found _ same =>
      cases second with
      | ended stays => exact absurd (by simp [EndsVersion]) (stays _ found)
      | bare found' => simp [found] at found'
      | marked found' mark =>
          rw [found] at found'
          cases found'
          exact absurd mark (by decide)
      | further found' rest =>
          rw [found] at found'
          cases found'
          exact same rest

/-- The loop ends on every path, with what `stripVersions?` gives. -/
theorem strips_iff {path : Text} {result : Option Text} :
    Strips false path result ↔ result = stripVersions? path := by
  have ends : Strips false path (stripVersions? path) := stripFrom_strips (Nat.lt_succ_self _)
  constructor
  · exact ends.unique
  · rintro rfl
    exact ends

/-- A loop that has taken a version off gives a text. -/
theorem Strips.changed_some {t : Text} {result : Option Text} (strips : Strips true t result) :
    ∃ short, result = some short := by
  generalize isTrue : true = changed at strips
  induction strips with
  | ended stays =>
      subst isTrue
      exact ⟨_, rfl⟩
  | bare found => exact ⟨_, rfl⟩
  | marked found mark => exact ⟨_, rfl⟩
  | further found rest some => exact some rfl

/-- A text that is stripped begins with versions, unless an earlier one has gone from its front and it
stays as it is. -/
theorem Strips.shortened {changed : Bool} {t short : Text} {result : Option Text}
    (strips : Strips changed t result) (stripped : result = some short) :
    (changed = true ∧ short = t) ∨ ∃ versions tail, Shortened versions tail t short := by
  have version {t tail : Text} (found : versionTail? t = some tail) : ∃ v, IsVersion v ∧ t = v ++ tail := by
    obtain ⟨digits, whole, areDigits, some⟩ := versionTail?_some found
    exact ⟨_, ⟨digits, some, areDigits, rfl⟩, whole⟩
  induction strips with
  | @ended changed t stays =>
      cases changed with
      | true =>
          cases stripped
          exact Or.inl ⟨rfl, rfl⟩
      | false => cases stripped
  | bare found =>
      obtain ⟨v, isVersion, rfl⟩ := version found
      cases stripped
      exact Or.inr ⟨_, [], .one isVersion (by simp [EndsVersion])⟩
  | @marked _ _ tail c found mark =>
      obtain ⟨v, isVersion, rfl⟩ := version found
      cases stripped
      have remains : slashed (c :: tail) = '/' :: c :: tail := by
        rcases mark with rfl | rfl <;> rfl
      rw [← remains]
      exact Or.inr ⟨_, c :: tail, .one isVersion (by simp [EndsVersion, mark])⟩
  | further found _ shorter =>
      obtain ⟨v, isVersion, rfl⟩ := version found
      rcases shorter stripped with ⟨_, same⟩ | ⟨versions, tail', rest⟩
      · rw [same]
        exact Or.inr ⟨_, _, .one isVersion (by simp [EndsVersion])⟩
      · exact Or.inr ⟨_, tail', .cons isVersion rest⟩

/-- The loop ends only where no version can go. -/
theorem Strips.settled {changed : Bool} {t short : Text} {result : Option Text}
    (strips : Strips changed t result) (stripped : result = some short) : ¬ HasVersions short := by
  induction strips with
  | @ended changed t stays =>
      cases changed with
      | true =>
          cases stripped
          exact not_hasVersions_iff.mpr stays
      | false => cases stripped
  | bare found =>
      cases stripped
      intro has
      obtain ⟨rest, begins⟩ := has.begins
      cases begins
  | marked found mark =>
      cases stripped
      intro has
      obtain ⟨rest, begins⟩ := has.begins
      cases begins
      exact absurd mark (by decide)
  | further found _ shorter => exact shorter stripped

/-! ## What is recognised -/

/-- A path is shortened by all the versions in front of it. -/
theorem stripVersions?_some {path short : Text} (stripped : stripVersions? path = some short) :
    ∃ versions tail, Shortened versions tail path short := by
  rcases (strips_iff.mpr stripped.symm).shortened rfl with ⟨none, _⟩ | shortened
  · cases none
  · exact shortened

/-- A path stays as it is exactly if no versions are in front of it. -/
theorem stripVersions?_none_iff {path : Text} : stripVersions? path = none ↔ ¬ HasVersions path := by
  constructor
  · intro stays
    have loop : Strips false path none := strips_iff.mpr stays.symm
    generalize nothing : (none : Option Text) = result at loop
    cases loop with
    | ended stays => exact not_hasVersions_iff.mpr stays
    | bare found => cases nothing
    | marked found mark => cases nothing
    | further found rest =>
        obtain ⟨short, some⟩ := rest.changed_some
        rw [some] at nothing
        cases nothing
  · intro none
    exact (strips_iff.mp (.ended (not_hasVersions_iff.mp none) : Strips false path _)).symm

/-- A path without its versions has none at its head. -/
theorem stripVersions?_settled {path short : Text} (stripped : stripVersions? path = some short) :
    stripVersions? short = none :=
  stripVersions?_none_iff.mpr ((strips_iff.mpr stripped.symm).settled rfl)

/-- Two rows of versions in front of tails that have none are one row. -/
theorem row_unique : ∀ {versions versions' : List Text} {tail tail' : Text},
    (∀ v ∈ versions, IsVersion v) → (∀ v ∈ versions', IsVersion v) → EndsVersion tail →
    EndsVersion tail' → ¬ HasVersions tail → ¬ HasVersions tail' →
    versions.flatten ++ tail = versions'.flatten ++ tail' → versions' = versions ∧ tail' = tail
  | [], [], tail, tail', _, _, _, _, _, _, same => ⟨rfl, same.symm⟩
  | [], v :: vs, tail, tail', _, each', _, ends', settled, _, same => by
      have row : Shortened (v :: vs) tail' tail (slashed tail') := ⟨by simp, each', same, ends', rfl⟩
      exact absurd ⟨_, _, _, row⟩ settled
  | v :: vs, [], tail, tail', each, _, ends, _, _, settled', same => by
      have row : Shortened (v :: vs) tail tail' (slashed tail) := ⟨by simp, each, same.symm, ends, rfl⟩
      exact absurd ⟨_, _, _, row⟩ settled'
  | v :: vs, v' :: vs', tail, tail', each, each', ends, ends', settled, settled', same => by
      rw [List.forall_mem_cons] at each each'
      simp only [List.flatten_cons, List.append_assoc] at same
      -- both rows leave the same text behind their first version
      have behind := versionTail?_version each.1 (endsVersion_row each.2 ends).no_digit
      have behind' := versionTail?_version each'.1 (endsVersion_row each'.2 ends').no_digit
      rw [same, behind'] at behind
      have rest := (Option.some.inj behind).symm
      obtain ⟨rfl, rfl⟩ := row_unique each.2 each'.2 ends ends' settled settled' rest
      rw [List.append_cancel_right same]
      exact ⟨rfl, rfl⟩

/-- A tail in front of which no versions remain has none itself. -/
theorem ShortenedFully.tail_settled {versions : List Text} {tail path short : Text}
    (full : ShortenedFully versions tail path short) : ¬ HasVersions tail := by
  intro has
  obtain ⟨rest, begins⟩ := has.begins
  have settled := full.settled
  rw [full.remains, slashed_of_slash (by rw [begins]; rfl)] at settled
  exact settled has

theorem ShortenedFully.unique {versions versions' : List Text} {tail tail' path short short' : Text}
    (first : ShortenedFully versions tail path short)
    (second : ShortenedFully versions' tail' path short') :
    versions' = versions ∧ tail' = tail ∧ short' = short := by
  have same := first.whole.symm.trans second.whole
  obtain ⟨rfl, rfl⟩ := row_unique first.each second.each first.ends second.ends first.tail_settled
    second.tail_settled same
  exact ⟨rfl, rfl, second.remains.trans first.remains.symm⟩

theorem stripVersions?_fully {path short : Text} (stripped : stripVersions? path = some short) :
    ∃ versions tail, ShortenedFully versions tail path short := by
  obtain ⟨versions, tail, shortened⟩ := stripVersions?_some stripped
  exact ⟨versions, tail, shortened, (strips_iff.mpr stripped.symm).settled rfl⟩

/-- A path is shortened exactly if it is a row of versions with a tail behind it, to the tail with a slash
in front, where nothing more can go from that; there is one such row. The loop ends on every path. What
it gives begins with a slash and is not shortened again. -/
theorem stripVersions?_recognises (path : Text) :
    (∀ short, stripVersions? path = some short ↔
      ∃ versions tail, ShortenedFully versions tail path short) ∧
    (stripVersions? path = none ↔ ¬ ∃ versions tail short, ShortenedFully versions tail path short) ∧
    (stripVersions? path = none ↔ ¬ ∃ versions tail short, Shortened versions tail path short) ∧
    (∀ versions versions' tail tail' short short', ShortenedFully versions tail path short →
      ShortenedFully versions' tail' path short' →
      versions' = versions ∧ tail' = tail ∧ short' = short) ∧
    (∀ result, Strips false path result ↔ result = stripVersions? path) ∧
    ∀ short, stripVersions? path = some short → short.head? = some '/' ∧ stripVersions? short = none := by
  have recognises (short : Text) : stripVersions? path = some short ↔
      ∃ versions tail, ShortenedFully versions tail path short := by
    constructor
    · exact stripVersions?_fully
    · rintro ⟨versions, tail, full⟩
      cases stripped : stripVersions? path with
      | none => exact absurd ⟨_, _, _, full.toShortened⟩ (stripVersions?_none_iff.mp stripped)
      | some short' =>
          obtain ⟨_, _, full'⟩ := stripVersions?_fully stripped
          rw [(full.unique full').2.2]
  refine ⟨recognises, ?_, stripVersions?_none_iff, fun _ _ _ _ _ _ => ShortenedFully.unique,
    fun _ => strips_iff, ?_⟩
  · rw [Option.eq_none_iff_forall_ne_some]
    simp only [ne_eq, recognises]
    exact ⟨fun none ⟨_, _, short, full⟩ => none short ⟨_, _, full⟩,
      fun none short ⟨_, _, full⟩ => none ⟨_, _, short, full⟩⟩
  · intro short stripped
    obtain ⟨versions, tail, shortened⟩ := stripVersions?_some stripped
    obtain ⟨t, slash⟩ := slashed_slash tail
    refine ⟨?_, stripVersions?_settled stripped⟩
    rw [shortened.remains, slash]
    rfl

/-- A version that may not end where it does stays, also behind one that goes. -/
example : stripVersions? "/api/v1/api/v2beta".toList = some "/api/v2beta".toList ∧
    stripVersions? "/api/v2beta".toList = none := by
  decide

end ClientMigration.Codemod
