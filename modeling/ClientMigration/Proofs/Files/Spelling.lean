/-
# Proofs.Files.Spelling -- where spelled paths lead

What stands between the slashes of a path is a name if it is not empty and not
points alone (`IsName`). A path that goes on with a name has its components and
that name (`components_join`), so with several names it leads that many steps
further down (`locate_below`).

A path that leads to a file ends in the file's name, however it gets there
(`fileName?_of_file`).
-/
import Mathlib.Data.List.Basic
import ClientMigration.Proofs.Files.Tree

namespace ClientMigration

set_option autoImplicit false

namespace Path

variable {p : Path} {name : String} {names : List String}

/-! ## Going on with names -/

/-- Whether a text stands between slashes as a name. -/
def IsName (name : String) : Prop := '/' ∉ name.toList ∧ name ∉ ["", ".", ".."]

instance : DecidablePred IsName := fun _ => inferInstanceAs (Decidable (_ ∧ _))

theorem pieces_ne_nil (t : Text) : pieces t ≠ [] := by
  cases t with
  | nil => simp [pieces]
  | cons c t =>
    simp only [pieces]
    split
    · simp
    · split <;> simp

theorem pieces_append (a b : Text) : pieces (a ++ '/' :: b) = pieces a ++ pieces b := by
  induction a with
  | nil => simp [pieces]
  | cons c a ih =>
    by_cases slash : c = '/'
    · simp [pieces, slash, ih]
    · cases split : pieces a with
      | nil => exact absurd split (pieces_ne_nil a)
      | cons first rest => simp [pieces, slash, ih, split]

theorem pieces_of_noSlash {t : Text} (noSlash : '/' ∉ t) : pieces t = [t] := by
  induction t with
  | nil => rfl
  | cons c t ih =>
    obtain ⟨other, below⟩ := not_or.mp (mt List.mem_cons.mpr noSlash)
    simp [pieces, Ne.symm other, ih below]

theorem pieces_eq_blank {t : Text} (blank : pieces t = [[]]) : t = [] := by
  cases t with
  | nil => rfl
  | cons c t =>
    simp only [pieces] at blank
    split at blank
    · exact absurd (List.cons.inj blank).2 (pieces_ne_nil t)
    · split at blank <;> cases blank

theorem IsName.ofPiece (isName : IsName name) : ofPiece name.toList = some (.name name) := by
  obtain ⟨_, other⟩ := isName
  have points (s : String) (among : s ∈ ["", ".", ".."]) : (name.toList == s.toList) = false := by
    rw [beq_eq_false_iff_ne]
    intro same
    rw [String.toList_injective same] at other
    exact other among
  have blank : (name.toList == []) = false := points "" (by simp)
  have here : (name.toList == ['.']) = false := points "." (by simp)
  have up : (name.toList == ['.', '.']) = false := points ".." (by simp)
  simp [Path.ofPiece, blank, here, up]

theorem endsWith_iff (s ending : String) : s.endsWith ending = true ↔ ending.toList <:+ s.toList := by
  rw [String.endsWith_eq_endsWith_toSlice, String.Slice.endsWith_string_iff, String.copy_toSlice]

/-- The pieces of a path that goes on with a name: a blank piece at the end makes room for it. -/
theorem pieces_join (there : p.text ≠ "") (isName : IsName name) :
    ∃ first rest last, pieces p.text.toList = first :: (rest ++ last) ∧ (last = [] ∨ last = [[]]) ∧
      pieces (p.join name).text.toList = first :: (rest ++ [name.toList]) := by
  have nonempty : p.text.isEmpty = false := by simpa [String.isEmpty_iff] using there
  have single := pieces_of_noSlash isName.1
  rw [join, nonempty, if_neg Bool.false_ne_true]
  by_cases slash : p.text.endsWith "/" = true
  · obtain ⟨above, spelled⟩ := (endsWith_iff _ _).mp slash
    have spelled : p.text.toList = above ++ ['/'] := spelled.symm
    rw [if_pos slash]
    cases split : pieces above with
    | nil => exact absurd split (pieces_ne_nil above)
    | cons first rest =>
      refine ⟨first, rest, [[]], ?_, Or.inr rfl, ?_⟩
      · rw [spelled, pieces_append, split]
        rfl
      · rw [String.toList_append, spelled, List.append_assoc, List.singleton_append, pieces_append,
          split, single]
        rfl
  · rw [if_neg slash]
    cases split : pieces p.text.toList with
    | nil => exact absurd split (pieces_ne_nil _)
    | cons first rest =>
      refine ⟨first, rest, [], by rw [List.append_nil], Or.inl rfl, ?_⟩
      have spelled : (p.text ++ "/" ++ name).toList = p.text.toList ++ '/' :: name.toList := by simp
      rw [spelled, pieces_append, split, single]
      rfl

theorem components_join (there : p.text ≠ "") (isName : IsName name) :
    (p.join name).components = p.components ++ [.name name] := by
  obtain ⟨first, rest, last, split, ending, joined⟩ := pieces_join there isName
  have skips : last.filterMap ofPiece = [] := by
    rcases ending with rfl | rfl <;> rfl
  have more : first = [] → (rest ++ last).isEmpty = false := by
    rintro rfl
    cases all : rest ++ last with
    | cons _ _ => rfl
    | nil =>
      rw [all] at split
      exact absurd (String.toList_eq_nil_iff.mp (pieces_eq_blank split)) there
  simp only [components, split, joined, List.filterMap_append, skips]
  by_cases blank : first = []
  · simp [blank, more blank, isName.ofPiece]
  · simp [blank, isName.ofPiece]

/-- The path that goes on with names. -/
def below (p : Path) (names : List String) : Path := names.foldl join p

theorem text_join_ne (p : Path) (isName : IsName name) : (p.join name).text ≠ "" := by
  have nonempty : name ≠ "" := fun blank => isName.2 (by simp [blank])
  unfold join
  split
  · exact nonempty
  · split <;> simp [nonempty]

theorem components_below (there : p.text ≠ "") (areNames : ∀ n ∈ names, IsName n) :
    (p.below names).components = p.components ++ names.map .name := by
  induction names generalizing p with
  | nil => exact (List.append_nil _).symm
  | cons n names ih =>
    obtain ⟨isName, areNames⟩ := List.forall_mem_cons.mp areNames
    have next := ih (text_join_ne p isName) areNames
    rw [components_join there isName, List.append_assoc] at next
    exact next

theorem name_suffix_join (p : Path) (name : String) : name.toList <:+ (p.join name).text.toList := by
  unfold join
  split
  · exact List.suffix_rfl
  · split
    · rw [String.toList_append]
      exact List.suffix_append _ _
    · rw [String.toList_append]
      exact List.suffix_append _ _

/-- A path that ends in a name is not one that only a directory can have. -/
theorem namesDirectory_join (p : Path) (isName : IsName name) : Tree.namesDirectory (p.join name) = false := by
  have clash (ending : String) (slash : '/' ∈ ending.toList) (long : ¬ name.toList <:+ ending.toList) :
      (p.join name).text.endsWith ending = false := by
    rw [Bool.eq_false_iff, ne_eq, endsWith_iff]
    intro ends
    rcases List.suffix_or_suffix_of_suffix ends (name_suffix_join p name) with within | beyond
    · exact isName.1 (within.mem slash)
    · exact long beyond
  have other (s : String) (among : s ∈ ["", ".", ".."]) : name.toList ≠ s.toList := by
    intro same
    rw [String.toList_injective same] at isName
    exact isName.2 among
  have noSlash (t : Text) : name.toList ≠ '/' :: t := by
    intro same
    exact isName.1 (same ▸ List.mem_cons_self)
  rw [Tree.namesDirectory, clash "/" (by decide), clash "/." (by decide), Bool.or_false]
  · rintro suffix
    rcases List.suffix_cons_iff.mp suffix with same | suffix
    · exact noSlash _ same
    · rcases List.suffix_cons_iff.mp suffix with same | suffix
      · exact other "." (by simp) same
      · exact other "" (by simp) (List.suffix_nil.mp suffix)
  · rintro suffix
    rcases List.suffix_cons_iff.mp suffix with same | suffix
    · exact noSlash _ same
    · exact other "" (by simp) (List.suffix_nil.mp suffix)

end Path

namespace Tree

open ClientMigration.Path

variable {t : Tree} {p : Path} {here loc : Location} {names : List String} {c : Content}

/-! ## Trees with names -/

mutual

/-- Whether what stands in every directory has a name, and no two things there have the same. -/
def Named : Tree → Prop
  | .file _ => True
  | .directory es => (es.map (·.1)).Nodup ∧ NamedAmong es

def NamedAmong : List (String × Tree) → Prop
  | [] => True
  | (name, t) :: es => IsName name ∧ t.Named ∧ NamedAmong es

end

theorem namedAmong_iff (es : List (String × Tree)) :
    NamedAmong es ↔ ∀ e ∈ es, IsName e.1 ∧ e.2.Named := by
  induction es with
  | nil => simp [NamedAmong]
  | cons e es ih => rw [NamedAmong, ih, List.forall_mem_cons, and_assoc]

/-- What is found in a directory is one of its entries. -/
theorem mem_of_lookup {es : List (String × Tree)} {name : String} (found : es.lookup name = some t) :
    (name, t) ∈ es := by
  obtain ⟨before, later, split, -⟩ := List.lookup_eq_some_iff.mp found
  rw [split]
  exact List.mem_append_right _ List.mem_cons_self

theorem lookup_of_mem {es : List (String × Tree)} {e : String × Tree} (nodup : (es.map (·.1)).Nodup)
    (entry : e ∈ es) : es.lookup e.1 = some e.2 := by
  obtain ⟨before, later, split⟩ := List.append_of_mem entry
  refine List.lookup_eq_some_iff.mpr ⟨before, later, split, fun other earlier => bne_iff_ne.mpr fun same => ?_⟩
  rw [split, List.map_append, List.nodup_append] at nodup
  exact nodup.2.2 _ (List.mem_map_of_mem earlier) _ (List.mem_map_of_mem List.mem_cons_self) same.symm

theorem sizeOf_entry {es : List (String × Tree)} {e : String × Tree} (entry : e ∈ es) :
    sizeOf e.2 < sizeOf (directory es) := by
  have smaller := List.sizeOf_lt_of_mem entry
  obtain ⟨name, t⟩ := e
  rw [Prod.mk.sizeOf_spec] at smaller
  rw [directory.sizeOf_spec]
  show sizeOf t < _
  omega

theorem Named.child {u : Tree} {name : String} (named : t.Named) (found : t.child? name = some u) :
    IsName name ∧ u.Named := by
  cases t with
  | file _ => cases found
  | directory es => exact (namedAmong_iff es).mp named.2 _ (mem_of_lookup found)

theorem Named.at? {u : Tree} (named : t.Named) (found : t.at? loc = some u) :
    (∀ n ∈ loc, IsName n) ∧ u.Named := by
  induction loc generalizing t with
  | nil =>
    cases found
    exact ⟨by simp, named⟩
  | cons name rest ih =>
    rw [Tree.at?] at found
    cases child : t.child? name with
    | none => rw [child] at found; cases found
    | some v =>
      rw [child] at found
      obtain ⟨isName, named⟩ := named.child child
      obtain ⟨areNames, named⟩ := ih named found
      exact ⟨List.forall_mem_cons.mpr ⟨isName, areNames⟩, named⟩

/-! ## Where names lead -/

theorem sight_file (c : Content) (names : List String) (c' : Content) :
    (Tree.file c).sight names = .file c' ↔ names = [] ∧ c = c' := by
  cases names with
  | nil => simp [Tree.sight, Tree.at?]
  | cons name rest => simp [Tree.sight_cons, Tree.child?, Tree.entries]

theorem find_eq_ok {u : Tree} :
    t.find p = .ok u ↔ ∃ here, t.locate p = .ok here ∧ t.at? here = some u := by
  unfold Tree.find
  cases t.locate p with
  | error e => simp
  | ok here => cases found : t.at? here <;> simp [found]

/-- What stands below a location stands in a directory. -/
theorem sight_above {name : String} {rest : Location} (there : t.sight (here ++ name :: rest) ≠ .nothing) :
    t.sight here = .directory := by
  unfold sight at there ⊢
  rw [at?_append] at there
  cases found : t.at? here with
  | none => simp [found] at there
  | some u =>
    cases u with
    | directory es => rfl
    | file c => simp [found, Tree.at?, child?, entries] at there

theorem sight_before {rest : Location} (there : t.sight (here ++ rest) ≠ .nothing) :
    t.sight here ≠ .nothing := by
  cases rest with
  | nil => rwa [List.append_nil] at there
  | cons name rest => simp [sight_above there]

theorem follow_names (there : t.sight (here ++ names) ≠ .nothing) :
    t.follow here (names.map .name) = .ok (here ++ names) := by
  induction names generalizing here with
  | nil => rw [List.append_nil]; rfl
  | cons n names ih =>
    have below : t.sight ((here ++ [n]) ++ names) ≠ .nothing := by
      rwa [List.append_assoc, List.singleton_append]
    rw [List.map_cons, follow_cons, sight_above there]
    simp only [if_neg (sight_before below)]
    rw [ih below, List.append_assoc, List.singleton_append]

theorem follow_names_eq (leads : t.follow here (names.map .name) = .ok loc) : loc = here ++ names := by
  induction names generalizing here with
  | nil =>
    cases leads
    exact (List.append_nil _).symm
  | cons n names ih =>
    rw [List.map_cons, follow_cons] at leads
    cases stands : t.sight here with
    | nothing => rw [stands] at leads; cases leads
    | file _ => rw [stands] at leads; cases leads
    | directory =>
      simp only [stands] at leads
      split at leads
      · cases leads
      · rw [ih leads, List.append_assoc, List.singleton_append]

theorem locate_eq_ok :
    t.locate p = .ok loc ↔ p.text ≠ "" ∧ t.follow [] p.components = .ok loc ∧
      (namesDirectory p = true → t.sight loc = .directory) := by
  have isDirectory : (t.at? loc).any isDirectory = true ↔ t.sight loc = .directory := by
    rw [any_isDirectory]
    cases t.sight loc <;> simp [Sight.closed]
  unfold locate
  by_cases blank : p.text = ""
  · simp [blank]
  · rw [if_neg (by simpa [String.isEmpty_iff] using blank)]
    cases t.follow [] p.components with
    | error e => simp
    | ok loc' =>
      constructor
      · intro located
        simp only at located
        split at located
        · cases located
        · rename_i fits
          cases located
          refine ⟨blank, rfl, fun only => isDirectory.mp ?_⟩
          simpa [only] using fits
      · rintro ⟨-, leads, fits⟩
        cases leads
        refine if_neg fun clash => ?_
        obtain ⟨only, file⟩ := (Bool.and_eq_true _ _).mp clash
        rw [isDirectory.mpr (fits only)] at file
        cases file

/-- A path leads further down by the names that it goes on with. -/
theorem locate_below (located : t.locate p = .ok here) (stands : t.sight (here ++ names) = .file c)
    (areNames : ∀ n ∈ names, IsName n) : t.locate (p.below names) = .ok (here ++ names) := by
  rcases List.eq_nil_or_concat' names with rfl | ⟨init, last, rfl⟩
  · rwa [List.append_nil]
  · obtain ⟨blank, leads, _⟩ := locate_eq_ok.mp located
    have isName : IsName last := areNames last (by simp)
    have ends : p.below (init ++ [last]) = (p.below init).join last := List.foldl_append ..
    refine locate_eq_ok.mpr ⟨?_, ?_, ?_⟩
    · rw [ends]
      exact text_join_ne _ isName
    · rw [components_below blank areNames, follow_append, leads]
      exact follow_names (by simp [stands])
    · rw [ends, namesDirectory_join _ isName]
      exact fun only => nomatch only

/-- The last step to a file is its name. -/
theorem follow_last {above : Location} {last : Component} (leads : t.follow above [last] = .ok loc)
    (stands : t.sight loc = .file c) : ∃ n, last = .name n ∧ loc = above ++ [n] := by
  rw [follow_cons] at leads
  cases seen : t.sight above with
  | nothing => rw [seen] at leads; cases leads
  | file _ => rw [seen] at leads; cases leads
  | directory =>
    rw [seen] at leads
    cases last with
    | root => cases leads
    | here =>
      cases leads
      cases seen.symm.trans stands
    | up =>
      simp only at leads
      split at leads
      · cases leads
      · rename_i further
        cases leads
        have back : above.dropLast ++ [above.getLast (by simpa using further)] = above :=
          List.dropLast_append_getLast _
        have upper : t.sight above.dropLast = .directory := sight_above (by rw [back, seen]; simp)
        cases upper.symm.trans stands
    | name n =>
      simp only at leads
      split at leads
      · cases leads
      · cases leads
        exact ⟨n, rfl, rfl⟩

/-- A path to a file ends in the file's name. -/
theorem fileName?_of_file (located : t.locate p = .ok loc) (stands : t.sight loc = .file c) :
    p.fileName? = loc.getLast? := by
  obtain ⟨-, leads, -⟩ := locate_eq_ok.mp located
  unfold Path.fileName?
  rcases List.eq_nil_or_concat' p.components with none | ⟨init, last, split⟩
  · rw [none] at leads ⊢
    cases leads
    rfl
  · rw [split, follow_append] at leads
    cases way : t.follow [] init with
    | error e => rw [way] at leads; cases leads
    | ok above =>
      rw [way] at leads
      obtain ⟨n, rfl, rfl⟩ := follow_last leads stands
      rw [split, List.getLast?_concat, List.getLast?_concat]

end Tree

end ClientMigration
