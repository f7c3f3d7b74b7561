/-
# Proofs.Files.Tree -- what a write leaves as it was

Two trees are compared by what stands at each location: nothing, a directory, or a
file with its content (`Tree.sight`). Where a path leads depends on no more than
that (`follow_cons`), and not on what is in the files (`locate_congr`).

A file that is put where one stands, or where nothing stands in a directory, is
then at its location, and every other location is as before (`sight_put`). So is
what a write makes: the path leads to the text and all else is as it was
(`write_ok`), and a path that could be read can be written (`write_of_read`).
-/
import Mathlib.Data.List.Basic
import ClientMigration.Files.Tree

namespace ClientMigration

set_option autoImplicit false

/-- What stands at a location. -/
inductive Sight where
  | nothing
  | directory
  | file (content : Content)
  deriving DecidableEq

/-- The same with the content out of sight. -/
def Sight.closed : Sight → Option Bool
  | .nothing => none
  | .directory => some true
  | .file _ => some false

namespace Tree

variable {t u : Tree} {loc : Location} {c : Content} {p : Path}

def sight (t : Tree) (loc : Location) : Sight :=
  match t.at? loc with
  | none => .nothing
  | some (.directory _) => .directory
  | some (.file c) => .file c

/-! ## A file put in its place -/

theorem sight_nil : t.sight [] = .directory ↔ t.isDirectory := by
  cases t <;> simp [sight, at?, isDirectory]

theorem sight_cons (name : String) (rest : Location) :
    t.sight (name :: rest) = ((t.child? name).map (·.sight rest)).getD .nothing := by
  unfold sight
  rw [at?]
  cases t.child? name <;> rfl

theorem at?_append (here rest : Location) : t.at? (here ++ rest) = (t.at? here).bind (·.at? rest) := by
  induction here generalizing t with
  | nil => rfl
  | cons name here ih =>
    rw [List.cons_append, at?, at?]
    cases t.child? name with
    | none => rfl
    | some u => exact ih

theorem lookup_setEntry (name other : String) (t : Tree) (es : List (String × Tree)) :
    (setEntry name t es).lookup other = if other = name then some t else es.lookup other := by
  induction es with
  | nil =>
    by_cases same : other = name
    · simp [setEntry, same]
    · simp [setEntry, same, List.lookup_cons, beq_false_of_ne same]
  | cons e es ih =>
    rw [setEntry]
    by_cases found : e.1 = name
    · rw [if_pos (beq_iff_eq.mpr found), List.lookup_cons, List.lookup_cons, found]
      by_cases same : other = name
      · simp [same]
      · simp [same, beq_false_of_ne same]
    · rw [if_neg (by simpa using found), List.lookup_cons, ih, List.lookup_cons]
      by_cases here : other = e.1
      · simp [here, found]
      · simp [beq_false_of_ne here]

/-- Whether a file can be put at a location: one stands there, or nothing does in a directory. -/
def Takes : Tree → Location → Prop
  | t, [] => t.isDirectory = false
  | t, name :: rest =>
    t.isDirectory = true ∧
      match t.child? name with
      | some u => u.Takes rest
      | none => rest = []

theorem sight_put (takes : t.Takes loc) (l : Location) :
    (t.put loc (.file c)).sight l = if l = loc then .file c else t.sight l := by
  induction loc generalizing t l with
  | nil =>
    cases t with
    | directory es => cases takes
    | file old => cases l <;> rfl
  | cons name rest ih =>
    obtain ⟨isDirectory, below⟩ := takes
    cases l with
    | nil => rw [if_neg (by simp), sight_nil.mpr isDirectory, put, sight_nil, Tree.isDirectory]
    | cons other r =>
      rw [sight_cons, sight_cons, put, child?, entries, lookup_setEntry]
      by_cases same : other = name
      · rw [if_pos same, same]
        cases found : t.child? name with
        | some u =>
          rw [found] at below
          simpa using ih below r
        | none =>
          rw [found] at below
          subst below
          cases r <;> simp [put, sight, at?, child?, entries]
      · simp [same, child?]

theorem takes_of_file (stands : t.sight loc = .file c) : t.Takes loc := by
  induction loc generalizing t with
  | nil => cases t <;> simp_all [sight, at?, Takes, isDirectory]
  | cons name rest ih =>
    rw [sight_cons] at stands
    cases t with
    | file old => cases stands
    | directory es =>
      cases found : (directory es).child? name with
      | none => rw [found] at stands; cases stands
      | some u =>
        rw [found] at stands
        refine ⟨rfl, ?_⟩
        rw [found]
        exact ih stands

theorem takes_of_directory {name : String} (stands : t.sight loc = .directory)
    (free : t.sight (loc ++ [name]) = .nothing) : t.Takes (loc ++ [name]) := by
  induction loc generalizing t with
  | nil =>
    refine ⟨sight_nil.mp stands, ?_⟩
    rw [List.nil_append, sight_cons] at free
    cases found : t.child? name with
    | none => rfl
    | some u =>
      rw [found] at free
      cases u <;> cases free
  | cons first rest ih =>
    rw [sight_cons] at stands
    rw [List.cons_append, sight_cons] at free
    cases t with
    | file old => cases stands
    | directory es =>
      refine ⟨rfl, ?_⟩
      cases found : (directory es).child? first with
      | none => rw [found] at stands; cases stands
      | some u =>
        rw [found] at stands free
        exact ih stands free

/-! ## Where a path leads -/

theorem child?_isSome {here : Location} (found : t.at? here = some u) (name : String) :
    (u.child? name).isSome = true ↔ t.sight (here ++ [name]) ≠ .nothing := by
  unfold sight
  rw [at?_append, found, Option.bind_some, at?]
  cases u.child? name with
  | none => simp
  | some v => cases v <;> simp [at?]

/-- A step depends on what is seen on the way alone. -/
theorem follow_cons (t : Tree) (here : Location) (c : Path.Component) (cs : List Path.Component) :
    t.follow here (c :: cs) =
      match t.sight here with
      | .nothing => .error .missing
      | .file _ => .error .notDirectory
      | .directory =>
        match c with
        | .here => t.follow here cs
        | .root => .error .missing
        | .up => if here.isEmpty then .error .missing else t.follow here.dropLast cs
        | .name n =>
          if t.sight (here ++ [n]) = .nothing then .error .missing else t.follow (here ++ [n]) cs := by
  cases found : t.at? here with
  | none => cases c <;> simp [follow, sight, found]
  | some u =>
    cases u with
    | file content => cases c <;> simp [follow, sight, found]
    | directory es =>
      have seen : t.sight here = .directory := by simp [sight, found]
      have child := child?_isSome found
      cases c <;> simp [follow, found, seen, child]

/-- Whether two trees have their directories and their files in the same places. -/
def SameShape (t u : Tree) : Prop := ∀ l, (t.sight l).closed = (u.sight l).closed

theorem SameShape.nothing (same : t.SameShape u) (l : Location) :
    t.sight l = .nothing ↔ u.sight l = .nothing := by
  have here := same l
  cases seen : t.sight l <;> cases seen' : u.sight l <;> simp_all [Sight.closed]

theorem follow_congr (same : t.SameShape u) (here : Location) (cs : List Path.Component) :
    t.follow here cs = u.follow here cs := by
  induction cs generalizing here with
  | nil => rfl
  | cons c cs ih =>
    have seen := same here
    rw [follow_cons, follow_cons]
    cases stands : t.sight here <;> cases stands' : u.sight here <;> simp [stands, stands', Sight.closed] at seen
    · rfl
    · cases c with
      | name n => simp only [same.nothing, ih]
      | _ => simp only [ih]
    · rfl

/-- Directories that exist and all that is found stays where more is made. -/
theorem follow_mono (directories : ∀ l, t.sight l = .directory → u.sight l = .directory)
    (stays : ∀ l, u.sight l = .nothing → t.sight l = .nothing) {here : Location}
    {cs : List Path.Component} (leads : t.follow here cs = .ok loc) : u.follow here cs = .ok loc := by
  induction cs generalizing here with
  | nil => exact leads
  | cons c cs ih =>
    rw [follow_cons] at leads ⊢
    cases stands : t.sight here with
    | nothing => rw [stands] at leads; cases leads
    | file _ => rw [stands] at leads; cases leads
    | directory =>
      rw [stands] at leads
      rw [directories here stands]
      cases c with
      | here => exact ih leads
      | root => cases leads
      | up =>
        simp only at leads ⊢
        split at leads
        · cases leads
        · rename_i further
          rw [if_neg further]
          exact ih leads
      | name n =>
        simp only at leads ⊢
        split at leads
        · cases leads
        · rename_i there
          rw [if_neg fun gone => there (stays _ gone)]
          exact ih leads

theorem follow_append (here : Location) (cs ds : List Path.Component) :
    t.follow here (cs ++ ds) = (t.follow here cs).bind (t.follow · ds) := by
  induction cs generalizing here with
  | nil => rfl
  | cons c cs ih =>
    rw [List.cons_append, follow_cons, follow_cons]
    cases t.sight here with
    | nothing => rfl
    | file _ => rfl
    | directory =>
      cases c with
      | here => exact ih here
      | root => rfl
      | up =>
        by_cases top : here.isEmpty = true
        · simp only [top, if_true]
          rfl
        · simp only [top]
          exact ih here.dropLast
      | name n =>
        by_cases free : t.sight (here ++ [n]) = .nothing
        · simp only [free, if_true]
          rfl
        · simp only [free, if_false]
          exact ih (here ++ [n])

theorem any_isDirectory (t : Tree) (loc : Location) :
    (t.at? loc).any isDirectory = ((t.sight loc).closed == some true) := by
  unfold sight
  cases t.at? loc with
  | none => rfl
  | some u => cases u <;> rfl

theorem locate_congr (same : t.SameShape u) (p : Path) : t.locate p = u.locate p := by
  unfold locate
  rw [follow_congr same]
  simp only [any_isDirectory, same _]

theorem find_of_isOk (there : (t.find p).isOk = true) : ∃ u, t.find p = .ok u := by
  cases found : t.find p with
  | ok u => exact ⟨u, rfl⟩
  | error e => rw [found] at there; cases there

/-! ## Reading and writing -/

theorem read_eq (t : Tree) (p : Path) :
    t.read p = match t.locate p with
      | .error e => .error e
      | .ok loc =>
        match t.sight loc with
        | .file (.text x) => .ok x
        | .file (.binary _) => .error .notText
        | .directory => .error .isDirectory
        | .nothing => .error .missing := by
  unfold read find
  cases t.locate p with
  | error e => rfl
  | ok loc =>
    simp only [sight]
    cases t.at? loc with
    | none => rfl
    | some u =>
      cases u with
      | directory es => rfl
      | file content => cases content <;> rfl

theorem read_eq_ok {x : Text} :
    t.read p = .ok x ↔ ∃ loc, t.locate p = .ok loc ∧ t.sight loc = .file (.text x) := by
  rw [read_eq]
  cases located : t.locate p with
  | error e => simp
  | ok loc =>
    cases stands : t.sight loc with
    | file content => cases content <;> simp [stands]
    | _ => simp [stands]

/-- `u` is `t` with a text in a file. -/
def Holds (t : Tree) (loc : Location) (x : Text) (u : Tree) : Prop :=
  ∀ l, u.sight l = if l = loc then .file (.text x) else t.sight l

theorem holds_put {x : Text} (takes : t.Takes loc) : t.Holds loc x (t.put loc (.file (.text x))) :=
  sight_put takes

theorem Holds.sameShape {x : Text} (holds : t.Holds loc x u) (stands : t.sight loc = .file c) :
    t.SameShape u := by
  intro l
  rw [holds l]
  by_cases here : l = loc
  · rw [if_pos here, here, stands]
    rfl
  · rw [if_neg here]

theorem components_eq {name : String} (named : p.fileName? = some name) :
    p.components = p.components.dropLast ++ [.name name] := by
  unfold Path.fileName? at named
  split at named
  · rename_i last
    cases named
    exact (List.dropLast_append_getLast? _ last).symm
  · cases named

theorem follow_components {name : String} (named : p.fileName? = some name)
    (leads : t.follow [] p.components.dropLast = .ok loc) (stands : t.sight loc = .directory) :
    t.follow [] p.components =
      if t.sight (loc ++ [name]) = .nothing then .error .missing else .ok (loc ++ [name]) := by
  rw [components_eq named, follow_append, leads]
  show t.follow loc [.name name] = _
  rw [follow_cons, stands]
  rfl

/-- The location of a file that is to be made. -/
theorem locate_components {name : String} (named : p.fileName? = some name)
    (isFile : namesDirectory p = false) : t.locate p = t.follow [] p.components := by
  unfold locate
  rw [if_neg, isFile]
  · cases t.follow [] p.components <;> rfl
  · intro blank
    have none : p.components = [] := by
      rw [Path.components, String.toList_eq_nil_iff.mpr (String.isEmpty_iff.mp blank)]
      rfl
    rw [Path.fileName?, none] at named
    cases named

/-- Where the text goes that is written to a path: to the file that stands there, or to a new one in
a directory. -/
inductive Target (t : Tree) (p : Path) : Location → Prop
  | stands {loc : Location} {c : Content} (located : t.locate p = .ok loc)
      (file : t.sight loc = .file c) : Target t p loc
  | free {loc : Location} {name : String} (located : t.locate p = .error .missing)
      (named : p.fileName? = some name) (isFile : namesDirectory p = false)
      (leads : t.follow [] p.components.dropLast = .ok loc) (above : t.sight loc = .directory) :
      Target t p (loc ++ [name])

theorem write_eq_ok {x : Text} :
    t.write p x = .ok u ↔ ∃ loc, t.Target p loc ∧ u = t.put loc (.file (.text x)) := by
  constructor
  · intro written
    unfold write at written
    split at written
    · rename_i loc located
      split at written
      · rename_i content found
        cases written
        exact ⟨loc, .stands located (c := content) (by simp [sight, found]), rfl⟩
      · cases written
    · rename_i located
      repeat' split at written
      all_goals cases written
      rename_i name named isFile _ loc leads _ es found
      exact ⟨_, .free located named (by simpa using isFile) leads (by simp [sight, found]), rfl⟩
    · cases written
  · rintro ⟨loc, target, rfl⟩
    cases target with
    | stands located file =>
      simp only [write, located]
      cases found : t.at? loc with
      | none => simp [sight, found] at file
      | some v => cases v <;> simp_all [sight]
    | @free loc name located named isFile leads above =>
      simp only [write, located, named, isFile, leads]
      cases found : t.at? loc with
      | none => simp [sight, found] at above
      | some v => cases v <;> simp_all [sight]

theorem Target.is_free {loc : Location} {name : String} (located : t.locate p = .error .missing)
    (named : p.fileName? = some name) (isFile : namesDirectory p = false)
    (leads : t.follow [] p.components.dropLast = .ok loc) (above : t.sight loc = .directory) :
    t.sight (loc ++ [name]) = .nothing := by
  by_contra there
  rw [locate_components named isFile, follow_components named leads above, if_neg there] at located
  cases located

theorem Target.takes (target : t.Target p loc) : t.Takes loc := by
  cases target with
  | stands _ file => exact takes_of_file file
  | free located named isFile leads above =>
    exact takes_of_directory above (is_free located named isFile leads above)

/-- The path leads to what was written. -/
theorem Target.locate {x : Text} (target : t.Target p loc) (holds : t.Holds loc x u) :
    u.locate p = .ok loc := by
  cases target with
  | stands located file => exact (locate_congr (holds.sameShape file) p).symm.trans located
  | @free loc name located named isFile leads above =>
    have free := is_free located named isFile leads above
    have stays (l : Location) (elsewhere : l ≠ loc ++ [name]) := (holds l).trans (if_neg elsewhere)
    have above' : u.sight loc = .directory := (stays loc (by simp)).trans above
    have leads' : u.follow [] p.components.dropLast = .ok loc := by
      refine follow_mono (fun l there => ?_) (fun l gone => ?_) leads
      · rw [stays l fun same => by rw [same, free] at there; cases there]
        exact there
      · by_cases same : l = loc ++ [name]
        · rw [same, free]
        · rw [← stays l same, gone]
    rw [locate_components named isFile, follow_components named leads' above', if_neg]
    rw [holds, if_pos rfl]
    exact Sight.noConfusion

/-- What was written is at the end of its path, and all else is as it was. -/
theorem write_ok {x : Text} (written : t.write p x = .ok u) :
    ∃ loc, u.locate p = .ok loc ∧ t.Holds loc x u := by
  obtain ⟨loc, target, rfl⟩ := write_eq_ok.mp written
  have holds := holds_put (x := x) target.takes
  exact ⟨loc, target.locate holds, holds⟩

/-- Whether a text can be written does not depend on the text. -/
theorem write_another {x : Text} (written : t.write p x = .ok u) (y : Text) :
    ∃ v, t.write p y = .ok v := by
  obtain ⟨loc, target, _⟩ := write_eq_ok.mp written
  exact ⟨_, write_eq_ok.mpr ⟨loc, target, rfl⟩⟩

/-- A file that could be read takes any text in its place. -/
theorem write_of_read {x : Text} (reads : t.read p = .ok x) (y : Text) :
    ∃ loc u, t.locate p = .ok loc ∧ t.sight loc = .file (.text x) ∧ t.write p y = .ok u ∧
      t.Holds loc y u := by
  obtain ⟨loc, located, stands⟩ := read_eq_ok.mp reads
  exact ⟨loc, _, located, stands, write_eq_ok.mpr ⟨loc, .stands located stands, rfl⟩,
    holds_put (takes_of_file stands)⟩

/-- What was written is read. -/
theorem read_write {x : Text} (written : t.write p x = .ok u) : u.read p = .ok x := by
  obtain ⟨loc, located, holds⟩ := write_ok written
  exact read_eq_ok.mpr ⟨loc, located, by rw [holds, if_pos rfl]⟩

/-! ## The directories above a file -/

/-- Nothing is made where every directory exists. -/
theorem makeDirectories_of_follow {here : Location} {cs : List Path.Component}
    (leads : t.follow here cs = .ok loc) : t.makeDirectories here cs.dropLast = .ok t := by
  induction cs generalizing here with
  | nil => rfl
  | cons c cs ih =>
    cases cs with
    | nil => rfl
    | cons d ds =>
      rw [List.dropLast_cons_cons]
      rw [follow_cons] at leads
      cases stands : t.sight here with
      | nothing => rw [stands] at leads; cases leads
      | file _ => rw [stands] at leads; cases leads
      | directory =>
        rw [stands] at leads
        cases c with
        | here => exact ih leads
        | root => cases leads
        | up =>
          simp only at leads
          split at leads
          · cases leads
          · rename_i further
            rw [makeDirectories, if_neg further]
            exact ih leads
        | name n =>
          simp only at leads
          split at leads
          · cases leads
          · have next := ih leads
            rw [follow_cons] at leads
            unfold sight at leads
            cases found : t.at? (here ++ [n]) with
            | none => rw [found] at leads; cases leads
            | some u =>
              rw [found] at leads
              cases u with
              | file content => cases leads
              | directory es =>
                simp only [makeDirectories, found]
                exact next

theorem makeParents_of_read {x : Text} (reads : t.read p = .ok x) : t.makeParents p = .ok t := by
  obtain ⟨loc, located, _⟩ := read_eq_ok.mp reads
  unfold locate at located
  split at located
  · cases located
  · split at located
    · cases located
    · rename_i leads
      exact makeDirectories_of_follow leads

end Tree

end ClientMigration
