/-
# Proofs.Pipeline.Probes -- what a query has to do with a health check

A request counts as a health check by the path of its address, and the query and the
fragment are cut off that path. But the path is looked for first, in the whole
address: behind the first scheme, and from the next slash on. Where the address in
front of the query or fragment has no scheme, or no slash behind its host, what is
found can stand in the query or fragment (`Hidden`).

A hidden path is then taken for the path of the request (`path_of_hidden`), and
without one the query and the fragment play no part (`path_of_not_hidden`). So they
decide nothing, neither about the health check nor about any stage, exactly if every
hidden path is a probe's as the request's own path is (`spared_by_query_iff`).
`hidden_path_probes` is an ordinary request that counts as a health check.
-/
import Mathlib.Data.List.TakeWhile
import ClientMigration.Pipeline.Optimizer
import ClientMigration.Proofs.Text.Occurrences

namespace ClientMigration.Request

set_option autoImplicit false

/-- What stands in front of the first mark of a query or fragment. -/
def upToMark (t : Text) : Text := t.takeWhile fun c => c != '?' && c != '#'

/-- Whether a path is one that probes ask for. -/
def isProbe (path : Text) : Bool := healthPaths.any (probes path)

/-- A path in the query or fragment `tail` of an address that is `front` up to there. -/
inductive Hidden (front tail : Text) : Text → Prop
  /-- The path of another address, where the address itself has no scheme. -/
  | otherAddress (noScheme : ¬ "://".toList <:+: front) (scheme : "://".toList <:+: tail) :
      Hidden front tail (path tail)
  /-- What follows a slash, where the address itself ends with its host. -/
  | behindHost {scheme host : Text} (ends : front = scheme ++ ("://".toList ++ host))
      (first : ¬ "://".toList <:+: scheme) (noPath : '/' ∉ host) (slash : '/' ∈ tail) :
      Hidden front tail (upToMark (tail.dropWhile (· != '/')))

variable {front tail hidden : Text}

/-! ## Searches in an address -/

theorem isHealthCheck_eq (r : Request) : r.isHealthCheck = isProbe (path r.url.toList) := rfl

theorem path_of_none {url : Text} (none : ¬ "://".toList <:+: url) : path url = upToMark url := by
  rw [path, fromPath, (Text.occurrences_eq_nil_iff (by decide)).mpr none]
  rfl

theorem dropWhile_slash {behind : Text} (slash : '/' ∈ behind) : behind.dropWhile (· != '/') ≠ [] := by
  rw [Ne, List.dropWhile_eq_nil_iff]
  exact fun none => by simpa using none '/' slash

section

variable {url behind : Text} {more : List Text}

theorem drop_scheme (behind : Text) : ("://".toList ++ behind).drop 3 = behind := rfl

/-- Behind a scheme a path begins at the next slash. -/
theorem path_of_slash (found : Text.occurrences "://" url = ("://".toList ++ behind) :: more)
    (slash : '/' ∈ behind) : path url = upToMark (behind.dropWhile (· != '/')) := by
  obtain ⟨c, rest, same⟩ := List.exists_cons_of_ne_nil (dropWhile_slash slash)
  have fromThere : fromPath url = c :: rest := by
    simp only [fromPath, found, drop_scheme, same]
  rw [path, fromThere, same]
  rfl

theorem path_of_noSlash (found : Text.occurrences "://" url = ("://".toList ++ behind) :: more)
    (noSlash : '/' ∉ behind) : path url = ['/'] := by
  have none : behind.dropWhile (· != '/') = [] := by
    rw [List.dropWhile_eq_nil_iff]
    intro c listed
    have other : c ≠ '/' := fun same => noSlash (same ▸ listed)
    simpa using other
  have fromThere : fromPath url = ['/'] := by
    simp only [fromPath, found, drop_scheme, none]
  rw [path, fromThere]
  rfl

end

/-- A scheme's mark overlaps with no other, so the first one is where it was put. -/
theorem occurrences_scheme {scheme : Text} (free : ¬ "://".toList <:+: scheme) (host : Text) :
    ∃ more, Text.occurrences "://" (scheme ++ ("://".toList ++ host)) = ("://".toList ++ host) :: more := by
  induction scheme with
  | nil => exact ⟨_, rfl⟩
  | cons c scheme ih =>
    rw [List.infix_cons_iff, not_or] at free
    have later : ¬ Text.startsWith (c :: (scheme ++ ("://".toList ++ host))) "://" := by
      rw [Text.startsWith_iff]
      rintro ⟨rest, begins⟩
      match scheme with
      | [] => simp at begins
      | [d] => simp at begins
      | d :: e :: scheme =>
        refine free.1 ⟨scheme, ?_⟩
        simp at begins ⊢
        exact ⟨begins.1, begins.2.1, begins.2.2.1⟩
    rw [List.cons_append, Text.occurrences, if_neg later]
    exact ih free.2

theorem upToMark_append (plain : ∀ c ∈ front, c ≠ '?' ∧ c ≠ '#')
    (marked : ∀ c ∈ tail.head?, c = '?' ∨ c = '#') : upToMark (front ++ tail) = front := by
  have whole : ∀ c ∈ front, (c != '?' && c != '#') = true := fun c listed => by simp [plain c listed]
  have stops : tail.takeWhile (fun c => c != '?' && c != '#') = [] := by
    cases tail with
    | nil => rfl
    | cons c tail =>
      rcases marked c rfl with rfl | rfl <;> rfl
  rw [upToMark, List.takeWhile_append_of_pos whole, stops, List.append_nil]

theorem upToMark_plain (plain : ∀ c ∈ front, c ≠ '?' ∧ c ≠ '#') : upToMark front = front := by
  have noTail : ∀ c ∈ ([] : Text).head?, c = '?' ∨ c = '#' := by simp
  simpa using upToMark_append plain noTail

theorem dropWhile_behind {host : Text} (noPath : '/' ∉ host) (tail : Text) :
    (host ++ tail).dropWhile (· != '/') = tail.dropWhile (· != '/') := by
  refine List.dropWhile_append_of_pos fun c listed => ?_
  have other : c ≠ '/' := fun same => noPath (same ▸ listed)
  simpa using other

/-- No mark of a scheme stretches into a query or fragment. -/
theorem occurrences_marked (front : Text) (marked : ∀ c ∈ tail.head?, c = '?' ∨ c = '#') :
    Text.occurrences "://" (front ++ tail) =
      (Text.occurrences "://" front).map (· ++ tail) ++ Text.occurrences "://" tail := by
  refine Text.occurrences_append (by decide) fun c first => ?_
  rcases marked c first with rfl | rfl <;> decide

/-! ## The path with a query or fragment behind it -/

section

variable (plain : ∀ c ∈ front, c ≠ '?' ∧ c ≠ '#') (marked : ∀ c ∈ tail.head?, c = '?' ∨ c = '#')

include marked

theorem path_of_hidden (found : Hidden front tail hidden) : path (front ++ tail) = hidden := by
  have searched := occurrences_marked front marked
  cases found with
  | otherAddress noScheme scheme =>
    rw [(Text.occurrences_eq_nil_iff (by decide)).mpr noScheme, List.map_nil, List.nil_append] at searched
    cases inTail : Text.occurrences "://" tail with
    | nil => exact absurd scheme ((Text.occurrences_eq_nil_iff (by decide)).mp inTail)
    | cons first more =>
      have same : fromPath (front ++ tail) = fromPath tail := by
        rw [fromPath, fromPath, searched, inTail]
      rw [path, same, path]
  | @behindHost scheme host ends first noPath slash =>
    obtain ⟨more, inFront⟩ := occurrences_scheme first host
    rw [← ends] at inFront
    rw [inFront, List.map_cons, List.cons_append, List.append_assoc] at searched
    rw [path_of_slash searched (List.mem_append_right host slash), dropWhile_behind noPath]

include plain

theorem path_of_not_hidden (none : ∀ hidden, ¬ Hidden front tail hidden) : path (front ++ tail) = path front := by
  have searched := occurrences_marked front marked
  cases inFront : Text.occurrences "://" front with
  | nil =>
    have noScheme := (Text.occurrences_eq_nil_iff (by decide)).mp inFront
    have notInTail : ¬ "://".toList <:+: tail := fun scheme => none _ (.otherAddress noScheme scheme)
    rw [inFront, (Text.occurrences_eq_nil_iff (by decide)).mpr notInTail, List.map_nil, List.append_nil] at searched
    have notInWhole := (Text.occurrences_eq_nil_iff (by decide)).mp searched
    rw [path_of_none notInWhole, path_of_none noScheme, upToMark_append plain marked, upToMark_plain plain]
  | cons first more =>
    obtain ⟨scheme, ends, free, behind, rfl⟩ := Text.occurrences_first (by decide) inFront
    rw [inFront, List.map_cons, List.cons_append, List.append_assoc] at searched
    by_cases slash : '/' ∈ behind
    · rw [path_of_slash searched (List.mem_append_left tail slash), path_of_slash inFront slash]
      have further : (behind ++ tail).dropWhile (· != '/') = behind.dropWhile (· != '/') ++ tail := by
        rw [List.dropWhile_append, if_neg (by simpa using dropWhile_slash slash)]
      have plainPath : ∀ c ∈ behind.dropWhile (· != '/'), c ≠ '?' ∧ c ≠ '#' := by
        intro c listed
        refine plain c ?_
        rw [ends]
        exact List.mem_append_right _ (List.mem_append_right _ ((List.dropWhile_sublist _).mem listed))
      rw [further, upToMark_append plainPath marked, upToMark_plain plainPath]
    · rw [path_of_noSlash inFront slash]
      have notInTail : '/' ∉ tail := fun further => none _ (.behindHost ends free slash further)
      exact path_of_noSlash searched (by simp [slash, notInTail])

end

/-! ## Health checks -/

/-- Whether a request is a health check is told by a stage that nothing else decides about. -/
theorem shouldExecute_auth (r : Request) : ({} : Optimizer).shouldExecute .auth r = !r.isHealthCheck := by
  unfold Optimizer.shouldExecute
  cases r.isHealthCheck <;> simp

theorem shouldExecute_congr {r r' : Request} (sameHealth : r.isHealthCheck = r'.isHealthCheck)
    (same : r = { r' with url := r.url }) (o : Optimizer) (stage : Stage) :
    o.shouldExecute stage r = o.shouldExecute stage r' := by
  unfold Optimizer.shouldExecute
  rw [sameHealth, same]

/-- A query or fragment decides nothing about the health check exactly if every path hidden in it is a
probe's as the path in front of it is, and then it decides nothing about any stage. -/
theorem spared_by_query_iff (r : Request) {front tail : String}
    (plain : ∀ c ∈ front.toList, c ≠ '?' ∧ c ≠ '#')
    (marked : ∀ c ∈ tail.toList.head?, c = '?' ∨ c = '#') :
    let whole := { r with url := front ++ tail }
    let bare := { r with url := front }
    (whole.isHealthCheck = bare.isHealthCheck ↔
      ∀ hidden, Hidden front.toList tail.toList hidden → isProbe hidden = isProbe (path front.toList)) ∧
    ((∀ (o : Optimizer) (stage : Stage), o.shouldExecute stage whole = o.shouldExecute stage bare) ↔
      whole.isHealthCheck = bare.isHealthCheck) := by
  intro whole bare
  have wholePath : whole.isHealthCheck = isProbe (path (front.toList ++ tail.toList)) := by
    rw [isHealthCheck_eq, String.toList_append]
  refine ⟨?_, fun same => ?_, fun same o stage => shouldExecute_congr same rfl o stage⟩
  · rw [wholePath, isHealthCheck_eq]
    constructor
    · intro same hidden found
      rw [← same, path_of_hidden marked found]
    · intro alike
      by_cases some : ∃ hidden, Hidden front.toList tail.toList hidden
      · obtain ⟨hidden, found⟩ := some
        rw [path_of_hidden marked found]
        exact alike hidden found
      · rw [path_of_not_hidden plain marked (not_exists.mp some)]
  · have auth := same {} .auth
    rw [shouldExecute_auth, shouldExecute_auth] at auth
    exact Bool.not_inj auth

/-- A probe's path in a query is not taken for the path of the request if no scheme stands in front. -/
theorem path_in_query_spared :
    (∀ c ∈ "/users".toList, c ≠ '?' ∧ c ≠ '#') ∧ (∀ c ∈ "?next=/health".toList.head?, c = '?' ∨ c = '#') ∧
      ∀ (o : Optimizer) (stage : Stage), o.shouldExecute stage { url := "/users" ++ "?next=/health" } =
        o.shouldExecute stage { url := "/users" } := by
  have plain : ∀ c ∈ "/users".toList, c ≠ '?' ∧ c ≠ '#' := by simp
  have marked : ∀ c ∈ "?next=/health".toList.head?, c = '?' ∨ c = '#' := by simp
  obtain ⟨health, stages⟩ := spared_by_query_iff {} plain marked
  refine ⟨plain, marked, stages.mpr (health.mpr fun hidden found => ?_)⟩
  cases found with
  | otherAddress _ scheme => exact absurd scheme (by decide)
  | @behindHost scheme host ends =>
    have inFront : "://".toList <:+: "/users".toList := ⟨scheme, host, by rw [ends, List.append_assoc]⟩
    exact absurd inFront (by decide)

/-- The path of an address in the query makes a health check of an ordinary request, and its stages
are skipped. -/
theorem hidden_path_probes :
    let whole : Request := { url := "/users" ++ "?next=http://x/health" }
    let bare : Request := { url := "/users" }
    whole.isHealthCheck = true ∧ bare.isHealthCheck = false ∧
      ({} : Optimizer).shouldExecute .auth whole = false ∧ ({} : Optimizer).shouldExecute .auth bare = true := by
  decide

end ClientMigration.Request
