/-
# Proofs.Client.Address -- what a path calls once its versions are gone

A legacy client calls the path that it is given below the bare host; a unified
client puts one version in between, that of its endpoint. Shortening takes all
versions off a path, whichever they are. So the unified client calls with the
short path what the legacy one calls with the long path exactly if what has gone
is what the endpoint puts back: the versions in front were `/api/` and the
endpoint's own, and a slash stood behind them (`shortened_url_iff`).

So a path of another version than the endpoint's calls something else
(`other_version_lost`).
-/
import ClientMigration.Rollout.Factory
import ClientMigration.Proofs.Codemod.Versions

namespace ClientMigration

set_option autoImplicit false

open Codemod

variable {σ : Type}

theorem rooted_of_slash {path : String} {t : Text} (slash : path.toList = '/' :: t) :
    rooted path = path := by
  have starts : path.startsWith "/" = true := by
    rw [String.startsWith_string_iff, slash]
    exact ⟨t, rfl⟩
  rw [rooted, if_pos starts]

namespace Codemod

theorem IsVersion.getLast {v : Text} (version : IsVersion v) : ∃ c, v.getLast? = some c ∧ c.isDigit := by
  obtain ⟨digits, some, areDigits, rfl⟩ := version
  refine ⟨digits.getLast some, ?_, List.all_eq_true.mp areDigits _ (List.getLast_mem some)⟩
  rw [List.getLast?_append, List.getLast?_eq_some_getLast some, Option.some_or]

namespace Shortened

variable {versions : List Text} {tail path short : Text}

theorem slash (s : Shortened versions tail path short) : ∃ t, path = '/' :: t := by
  obtain ⟨v, vs, rfl⟩ := List.exists_cons_of_ne_nil s.nonempty
  obtain ⟨t, rfl⟩ := (s.each v (by simp)).slash
  exact ⟨_, s.whole⟩

/-- A row of versions ends in a digit. -/
theorem getLast (s : Shortened versions tail path short) :
    ∃ c, versions.flatten.getLast? = some c ∧ c.isDigit := by
  obtain ⟨c, last, digit⟩ := (s.each _ (List.getLast_mem s.nonempty)).getLast
  refine ⟨c, ?_, digit⟩
  rw [← List.dropLast_concat_getLast s.nonempty, List.flatten_append, List.flatten_singleton,
    List.getLast?_append, last, Option.some_or]

/-- What is put in front of the short path gives the long one exactly if it is the row of versions and
a slash follows them. -/
theorem restored_iff (s : Shortened versions tail path short) (front : Text) :
    front ++ short = path ↔ tail.head? = some '/' ∧ versions.flatten = front := by
  rw [s.whole, s.remains]
  by_cases slash : tail.head? = some '/'
  · rw [slashed_of_slash slash, List.append_cancel_right_eq]
    exact ⟨fun same => ⟨slash, same.symm⟩, fun same => same.2.symm⟩
  · refine ⟨fun same => ?_, fun same => absurd same.1 slash⟩
    -- without a slash behind them the versions would end in the one that the short path begins with
    have same : front ++ ['/'] ++ tail = versions.flatten ++ tail := by
      rw [← same, slashed_of_other slash, List.append_assoc]
      rfl
    obtain ⟨c, last, digit⟩ := s.getLast
    rw [← List.append_cancel_right same, List.getLast?_concat] at last
    cases last
    exact absurd digit (by decide)

end Shortened

end Codemod

/-- What clients of one factory call with a path and with its short form. The path is a row of
versions with a tail, and the short path is the tail with a slash in front. The two calls are one
exactly if the row is what the unified client puts in, and the tail begins with a slash. -/
theorem shortened_url_iff (f : Factory σ) (preset preset' : Preset) {path short : String}
    (stripped : stripVersions? path.toList = some short.toList) :
    let unified := (f.build .unified preset).1
    let legacy := (f.build .legacy preset').1
    ∃ versions tail, Shortened versions tail path.toList short.toList ∧
      legacy.url path = f.endpoint.host ++ path ∧
      unified.url short = f.endpoint.host ++ ("/api/" ++ f.endpoint.apiVersion) ++ short ∧
      (unified.url short = legacy.url path ↔
        tail.head? = some '/' ∧ versions.flatten = ("/api/" ++ f.endpoint.apiVersion).toList) := by
  intro unified legacy
  obtain ⟨versions, tail, shortened⟩ := stripVersions?_some stripped
  obtain ⟨t, slash⟩ := shortened.slash
  obtain ⟨t', slash'⟩ := slashed_slash tail
  have legacy_url : legacy.url path = f.endpoint.host ++ path := by
    show f.endpoint.host ++ rooted path = _
    rw [rooted_of_slash slash]
  have unified_url : unified.url short = f.endpoint.host ++ ("/api/" ++ f.endpoint.apiVersion) ++ short := by
    show f.endpoint.host ++ "/api/" ++ f.endpoint.apiVersion ++ rooted short = _
    rw [rooted_of_slash (shortened.remains.trans slash')]
    simp only [String.append_assoc]
  refine ⟨versions, tail, shortened, legacy_url, unified_url, ?_⟩
  rw [legacy_url, unified_url, ← shortened.restored_iff, ← String.toList_inj]
  simp only [String.toList_append, List.append_assoc, List.append_cancel_left_eq]

/-- Clients of the default endpoint, over a store in memory. -/
def localFactory : Factory Memory :=
  { controller := .new {} { store := Memory.store, state := {}, newToken := "token" } }

theorem widgets_url :
    stripVersions? "/api/v1/widgets?page=1".toList = some "/widgets?page=1".toList ∧
      (localFactory.build .unified .admin).1.url "/widgets?page=1" =
        (localFactory.build .legacy .admin).1.url "/api/v1/widgets?page=1" := by
  have stripped : stripVersions? "/api/v1/widgets?page=1".toList = some "/widgets?page=1".toList := by
    decide +kernel
  obtain ⟨versions, tail, shortened, _, _, same⟩ :=
    shortened_url_iff localFactory .admin .admin stripped
  exact ⟨stripped, same.mpr ((shortened.restored_iff _).mp (by decide +kernel))⟩

/-- The endpoint has the first version and the path the second, which is lost. -/
theorem other_version_lost :
    ¬ ∀ (f : Factory Memory) (preset : Preset) (path short : String),
      stripVersions? path.toList = some short.toList →
        (f.build .unified preset).1.url short = (f.build .legacy preset).1.url path := by
  intro same
  have moved := same localFactory .default "/api/v2/x" "/x" (by decide +kernel)
  exact absurd moved (by decide +kernel)

end ClientMigration
