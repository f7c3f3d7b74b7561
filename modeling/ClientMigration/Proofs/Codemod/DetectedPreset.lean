/-
# Proofs.Codemod.DetectedPreset -- which preset a file is given, and by which rule

The preset of a file follows from rules in a fixed order, of which the first that
applies decides: five for the directories on its path, four for what is in its text,
and the configured preset where none applies. `FirstOf` says that of any rules.

A directory counts by its whole name, whatever the case of its letters and however
many parentheses stand around it. A route counts by its beginning: where a version
is followed by `admin` or `auth` it does not matter whether the word goes on. So the
rules are followed as they stand if a route is one that begins with the word
(`firstOf_rules`). If it is one that is the word, whichever characters are taken to
make a longer word, they are followed exactly unless a longer word misleads
(`detectPreset_documented_iff`), as `authors` does (`authors_taken_for_auth`).
-/
import Mathlib.Data.List.TakeWhile
import ClientMigration.Codemod.Subject
import ClientMigration.Proofs.Codemod.Versions
import ClientMigration.Proofs.Text.Occurrences
import ClientMigration.Proofs.Text.Trimmed

namespace ClientMigration.Codemod

set_option autoImplicit false

/-! ## Rules in their order -/

/-- The first of some rules that applies decides, and the fallback where none does. -/
inductive FirstOf {α : Type} (fallback : α) : List (Prop × α) → α → Prop
  | none : FirstOf fallback [] fallback
  | here {rule : Prop} {a : α} {rules : List (Prop × α)} (applies : rule) :
      FirstOf fallback ((rule, a) :: rules) a
  | later {rule : Prop} {a b : α} {rules : List (Prop × α)} (idle : ¬ rule)
      (rest : FirstOf fallback rules b) : FirstOf fallback ((rule, a) :: rules) b

section

variable {α : Type} {fallback a b : α} {rule : Prop} {rules : List (Prop × α)}

theorem firstOf_nil : FirstOf fallback [] b ↔ b = fallback := by
  constructor
  · intro first
    cases first
    rfl
  · rintro rfl
    exact .none

theorem firstOf_applies (applies : rule) : FirstOf fallback ((rule, a) :: rules) b ↔ b = a := by
  constructor
  · intro first
    cases first with
    | here _ => rfl
    | later idle _ => exact absurd applies idle
  · rintro rfl
    exact .here applies

theorem firstOf_idle (idle : ¬ rule) :
    FirstOf fallback ((rule, a) :: rules) b ↔ FirstOf fallback rules b := by
  constructor
  · intro first
    cases first with
    | here applies => exact absurd applies idle
    | later _ rest => exact rest
  · exact .later idle

/-- What the first rule is for is decided on by it or by the rules below. -/
theorem firstOf_self_iff :
    FirstOf fallback ((rule, a) :: rules) a ↔ ¬ (¬ rule ∧ ¬ FirstOf fallback rules a) := by
  by_cases applies : rule
  · exact iff_of_true (.here applies) fun misses => misses.1 applies
  · rw [firstOf_idle applies, and_iff_right applies, not_not]

/-- Rules decide in one way only. -/
theorem FirstOf.unique (first : FirstOf fallback rules a) : FirstOf fallback rules b ↔ b = a := by
  induction first with
  | none => exact firstOf_nil
  | here applies => exact firstOf_applies applies
  | later idle _ ih => exact (firstOf_idle idle).trans ih

/-- Rules decide on one thing and no other if they decide on it. -/
theorem forall_firstOf_iff : (∀ b, FirstOf fallback rules b ↔ b = a) ↔ FirstOf fallback rules a :=
  ⟨fun all => (all a).mpr rfl, fun first _ => first.unique⟩

/-- Rules that are tried one after the other in a search. -/
theorem firstOf_find {applies : α → Prop} {test : α → Bool} {members : List α}
    (same : ∀ m ∈ members, test m = true ↔ applies m) :
    FirstOf fallback (members.map (fun m => (applies m, m)) ++ rules) b ↔
      (members.find? test).elim (FirstOf fallback rules b) (b = ·) := by
  induction members with
  | nil => rfl
  | cons m members ih =>
    have here := same m List.mem_cons_self
    rw [List.map_cons, List.cons_append]
    by_cases found : test m = true
    · rw [List.find?_cons_of_pos found]
      exact firstOf_applies (here.mp found)
    · rw [List.find?_cons_of_neg found, firstOf_idle (mt here.mpr found)]
      exact ih fun other later => same other (List.mem_cons_of_mem m later)

end

/-! ## Directories -/

/-- A directory that is called `word`, in letters of either case and in any parentheses. -/
def IsCalled (directory word : String) : Prop :=
  ∃ opened bare closed : Text, (∀ c ∈ opened, c = '(') ∧ (∀ c ∈ closed, c = ')') ∧
    directory.toList = opened ++ bare ++ closed ∧ Text.lowered bare = word.toList

theorem exists_run (t : Text) (c : Char) :
    ∃ run, (∀ d ∈ run, d = c) ∧ t = run ++ t.dropWhile (· == c) := by
  refine ⟨t.takeWhile (· == c), fun d listed => ?_, List.takeWhile_append_dropWhile.symm⟩
  have same : (d == c) = true := List.all_eq_true.mp List.all_takeWhile d listed
  exact beq_iff_eq.mp same

theorem bareSegment_iff {directory word : String} (some : word.toList ≠ [])
    (noOpening : '(' ∉ word.toList) (noClosing : ')' ∉ word.toList) :
    bareSegment directory = word.toList ↔ IsCalled directory word := by
  constructor
  · intro lowered
    obtain ⟨opened, allOpened, front⟩ := exists_run directory.toList '('
    obtain ⟨closed, allClosed, back⟩ := exists_run (directory.toList.dropWhile (· == '(')).reverse ')'
    refine ⟨opened, _, closed.reverse, allOpened, fun c listed => allClosed c (by simpa using listed),
      ?_, lowered⟩
    rw [List.append_assoc, ← List.reverse_append, ← back, List.reverse_reverse]
    exact front
  · rintro ⟨opened, bare, closed, allOpened, allClosed, whole, lowered⟩
    have unmarked : ∀ c ∈ bare, c ≠ '(' ∧ c ≠ ')' := by
      intro c listed
      have inWord : c.toLower ∈ word.toList := lowered ▸ List.mem_map_of_mem listed
      constructor
      · rintro rfl
        exact noOpening inWord
      · rintro rfl
        exact noClosing inWord
    have nonempty : bare ≠ [] := by
      rintro rfl
      exact some lowered.symm
    have front : (opened ++ (bare ++ closed)).dropWhile (· == '(') = bare ++ closed := by
      refine Text.dropWhile_front (fun c listed => beq_iff_eq.mpr (allOpened c listed)) ?_
      intro c first
      rw [List.head?_append_of_ne_nil _ nonempty] at first
      exact beq_eq_false_iff_ne.mpr (unmarked c (List.mem_of_mem_head? first)).1
    have back : (closed.reverse ++ bare.reverse).dropWhile (· == ')') = bare.reverse := by
      refine Text.dropWhile_front
        (fun c listed => beq_iff_eq.mpr (allClosed c (List.mem_reverse.mp listed))) ?_
      intro c last
      exact beq_eq_false_iff_ne.mpr (unmarked c (List.mem_reverse.mp (List.mem_of_mem_head? last))).2
    rw [bareSegment, whole, List.append_assoc, front, List.reverse_append, back, List.reverse_reverse]
    exact lowered

/-! ## Routes -/

/-- A version with the route `segment` behind it, and then the rest of the text. -/
def Routed (source : Text) (segment : String) (rest : Text) : Prop :=
  ∃ front version, IsVersion version ∧
    source = front ++ (version ++ ('/' :: (segment.toList ++ rest)))

/-- Some route begins with `segment`. -/
def BeginsRoute (source : Text) (segment : String) : Prop := ∃ rest, Routed source segment rest

/-- Some route is `segment` and not a longer word. -/
def CompleteRoute (inWord : Char → Bool) (source : Text) (segment : String) : Prop :=
  ∃ rest, Routed source segment rest ∧ ∀ c ∈ rest.head?, inWord c = false

variable {inWord : Char → Bool} {p : Path} {source : Text} {segment : String}
  {fallback preset : Preset}

theorem CompleteRoute.begins (complete : CompleteRoute inWord source segment) :
    BeginsRoute source segment := by
  obtain ⟨rest, routed, _⟩ := complete
  exact ⟨rest, routed⟩

theorem routed_iff {rest : Text} : Routed source segment rest ↔
    ∃ found ∈ source.occurrences "/api/v",
      (versionTail? found).bind (·.after? "/") = some (segment.toList ++ rest) := by
  constructor
  · rintro ⟨front, version, isVersion, rfl⟩
    refine ⟨version ++ ('/' :: (segment.toList ++ rest)), Text.mem_occurrences.mpr ⟨?_, ?_⟩, ?_⟩
    · exact List.suffix_append front _
    · obtain ⟨digits, _, _, rfl⟩ := isVersion
      rw [List.append_assoc]
      exact List.prefix_append _ _
    · have noDigit : ∀ c ∈ ('/' :: (segment.toList ++ rest)).head?, c.isDigit = false := by
        intro c first
        cases first
        decide
      rw [versionTail?_version isVersion noDigit, Option.bind_some]
      exact after?_append "/" (segment.toList ++ rest)
  · rintro ⟨found, listed, behind⟩
    obtain ⟨⟨front, rfl⟩, _⟩ := Text.mem_occurrences.mp listed
    obtain ⟨tail, version, slash⟩ := Option.bind_eq_some_iff.mp behind
    obtain ⟨digits, rfl, areDigits, nonempty⟩ := versionTail?_some version
    obtain rfl := after?_some slash
    exact ⟨front, _, ⟨digits, nonempty, areDigits, rfl⟩, rfl⟩

theorem mentionsRoute_iff : mentionsRoute source segment = true ↔ BeginsRoute source segment := by
  simp only [mentionsRoute, BeginsRoute, List.any_eq_true, Option.any_eq_true, Text.startsWith_iff,
    routed_iff]
  constructor
  · rintro ⟨found, listed, _, behind, rest, rfl⟩
    exact ⟨rest, found, listed, behind⟩
  · rintro ⟨rest, found, listed, behind⟩
    exact ⟨found, listed, _, behind, rest, rfl⟩

theorem completeRoute_iff : CompleteRoute inWord source segment ↔
    (source.occurrences "/api/v").any (fun found =>
      (((versionTail? found).bind (·.after? "/")).bind (·.after? segment)).any fun rest =>
        rest.head?.all (!inWord ·)) = true := by
  simp only [CompleteRoute, routed_iff, List.any_eq_true, Option.any_eq_true, Option.all_eq_true,
    Bool.not_eq_true']
  constructor
  · rintro ⟨rest, ⟨found, listed, behind⟩, ends⟩
    refine ⟨found, listed, rest, ?_, ends⟩
    rw [behind, Option.bind_some]
    exact after?_append segment rest
  · rintro ⟨found, listed, rest, behind, ends⟩
    obtain ⟨tail, route, word⟩ := Option.bind_eq_some_iff.mp behind
    obtain rfl := after?_some word
    exact ⟨rest, ⟨found, listed, route⟩, ends⟩

instance : Decidable (CompleteRoute inWord source segment) := decidable_of_iff' _ completeRoute_iff

/-! ## Credentials -/

/-- `withCredentials` is set to `false` with a colon, and white space on either side of that. -/
def DisablesCredentials (source : Text) : Prop :=
  ∃ front u v rest, Text.Blank u ∧ Text.Blank v ∧
    source = front ++ ("withCredentials".toList ++ (u ++ (':' :: (v ++ ("false".toList ++ rest)))))

theorem disablesCredentials_iff : disablesCredentials source = true ↔ DisablesCredentials source := by
  simp only [disablesCredentials, List.any_eq_true, Option.any_eq_true, Text.startsWith_iff,
    Text.mem_occurrences]
  constructor
  · rintro ⟨found, ⟨⟨front, rfl⟩, behind, rfl⟩, value, colon, rest, spelled⟩
    rw [show "withCredentials".length = "withCredentials".toList.length from rfl, List.drop_left] at colon
    obtain ⟨u, blank, left⟩ := Text.exists_trimLeft behind
    obtain ⟨v, blank', left'⟩ := Text.exists_trimLeft value
    refine ⟨front, u, v, rest, blank, blank', ?_⟩
    rw [left, after?_some colon, left', ← spelled]
    rfl
  · rintro ⟨front, u, v, rest, blank, blank', rfl⟩
    refine ⟨_, ⟨List.suffix_append front _, List.prefix_append _ _⟩, v ++ ("false".toList ++ rest), ?_,
      rest, ?_⟩
    · rw [show "withCredentials".length = "withCredentials".toList.length from rfl, List.drop_left,
        Text.trimLeft, Text.dropWhile_front blank]
      · exact after?_append ":" (v ++ ("false".toList ++ rest))
      · intro c first
        cases first
        decide
    · rw [Text.trimLeft, Text.dropWhile_front blank']
      intro c first
      cases first
      decide

instance : Decidable (DisablesCredentials source) := decidable_of_iff _ disablesCredentials_iff

/-! ## The rules for presets -/

/-- Some directory on the path of a file is called as a preset is. -/
def IsFiledUnder (p : Path) (preset : Preset) : Prop := ∃ d ∈ p.directories, IsCalled d preset.name

def pathRules (p : Path) : List (Prop × Preset) :=
  [.admin, .auth, .upload, .batch, .public_].map fun preset => (IsFiledUnder p preset, preset)

/-- The rules for a text, where `route` says what it takes for a text to have a route. -/
def textRules (route : String → Prop) (source : Text) : List (Prop × Preset) :=
  [("multipart/form-data".toList <:+: source, .upload), (route "admin", .admin),
    (route "auth", .auth), (DisablesCredentials source, .public_)]

def presetRules (route : String → Prop) (p : Path) (source : Text) : List (Prop × Preset) :=
  pathRules p ++ textRules route source

theorem any_bareSegment_iff (p : Path) (preset : Preset) :
    (p.directories.map bareSegment).any (· == preset.name.toList) = true ↔ IsFiledUnder p preset := by
  have nonempty : preset.name.toList ≠ [] := by cases preset <;> decide
  have noOpening : '(' ∉ preset.name.toList := by cases preset <;> decide
  have noClosing : ')' ∉ preset.name.toList := by cases preset <;> decide
  simp only [List.any_map, List.any_eq_true, Function.comp_apply, beq_iff_eq, IsFiledUnder]
  simp only [bareSegment_iff nonempty noOpening noClosing]

theorem presetOfPath?_none_iff : presetOfPath? p = none ↔ ∀ preset ∈ pathPresets, ¬ IsFiledUnder p preset := by
  simp only [presetOfPath?, List.find?_eq_none, any_bareSegment_iff]

theorem firstOf_presetRules {route : String → Prop} :
    FirstOf fallback (presetRules route p source) preset ↔
      (presetOfPath? p).elim (FirstOf fallback (textRules route source) preset) (preset = ·) :=
  firstOf_find fun m _ => any_bareSegment_iff p m

theorem firstOf_textRules : FirstOf fallback (textRules (BeginsRoute source) source) preset ↔
    preset = (presetOfText? source).getD fallback := by
  have upload : source.mentions "multipart/form-data" = true ↔ "multipart/form-data".toList <:+: source :=
    Text.mentions_iff (by decide)
  unfold textRules presetOfText?
  by_cases form : "multipart/form-data".toList <:+: source
  · rw [firstOf_applies form, if_pos (upload.mpr form)]
    rfl
  rw [firstOf_idle form, if_neg (mt upload.mp form)]
  by_cases admin : BeginsRoute source "admin"
  · rw [firstOf_applies admin, if_pos (mentionsRoute_iff.mpr admin)]
    rfl
  rw [firstOf_idle admin, if_neg (mt mentionsRoute_iff.mp admin)]
  by_cases auth : BeginsRoute source "auth"
  · rw [firstOf_applies auth, if_pos (mentionsRoute_iff.mpr auth)]
    rfl
  rw [firstOf_idle auth, if_neg (mt mentionsRoute_iff.mp auth)]
  by_cases credentials : DisablesCredentials source
  · rw [firstOf_applies credentials, if_pos (disablesCredentials_iff.mpr credentials)]
    rfl
  rw [firstOf_idle credentials, if_neg (mt disablesCredentials_iff.mp credentials), firstOf_nil]
  rfl

/-- A preset is detected by the rules, if a route is one that begins with the word. -/
theorem firstOf_rules : FirstOf fallback (presetRules (BeginsRoute source) p source) preset ↔
    preset = detectPreset p source fallback := by
  rw [firstOf_presetRules, detectPreset]
  cases presetOfPath? p with
  | some found => rfl
  | none => exact firstOf_textRules

/-! ## Longer words -/

/-- Routes begin with `segment`, and all of them are longer words. -/
def OnlyLonger (inWord : Char → Bool) (source : Text) (segment : String) : Prop :=
  BeginsRoute source segment ∧ ¬ CompleteRoute inWord source segment

/-- A longer word decides, and the rules below say something else. -/
inductive Misled (inWord : Char → Bool) (p : Path) (source : Text) (fallback : Preset) : Prop
  | admin (unnamed : ∀ preset ∈ pathPresets, ¬ IsFiledUnder p preset)
      (noForm : ¬ "multipart/form-data".toList <:+: source) (longer : OnlyLonger inWord source "admin")
      (other : ¬ FirstOf fallback
        [(CompleteRoute inWord source "auth", .auth), (DisablesCredentials source, .public_)] .admin)
  | auth (unnamed : ∀ preset ∈ pathPresets, ¬ IsFiledUnder p preset)
      (noForm : ¬ "multipart/form-data".toList <:+: source) (noAdmin : ¬ BeginsRoute source "admin")
      (longer : OnlyLonger inWord source "auth")
      (other : ¬ FirstOf fallback [(DisablesCredentials source, .public_)] .auth)

section

variable (unnamed : ∀ preset ∈ pathPresets, ¬ IsFiledUnder p preset)
  (noForm : ¬ "multipart/form-data".toList <:+: source)

include unnamed noForm

theorem misled_admin_iff (admin : BeginsRoute source "admin") :
    Misled inWord p source fallback ↔ ¬ CompleteRoute inWord source "admin" ∧ ¬ FirstOf fallback
      [(CompleteRoute inWord source "auth", .auth), (DisablesCredentials source, .public_)] .admin := by
  constructor
  · rintro (⟨_, _, longer, other⟩ | ⟨_, _, noAdmin, _, _⟩)
    · exact ⟨longer.2, other⟩
    · exact absurd admin noAdmin
  · rintro ⟨incomplete, other⟩
    exact .admin unnamed noForm ⟨admin, incomplete⟩ other

theorem misled_auth_iff (noAdmin : ¬ BeginsRoute source "admin") (auth : BeginsRoute source "auth") :
    Misled inWord p source fallback ↔ ¬ CompleteRoute inWord source "auth" ∧
      ¬ FirstOf fallback [(DisablesCredentials source, .public_)] .auth := by
  constructor
  · rintro (⟨_, _, longer, _⟩ | ⟨_, _, _, longer, other⟩)
    · exact absurd longer.1 noAdmin
    · exact ⟨longer.2, other⟩
  · rintro ⟨incomplete, other⟩
    exact .auth unnamed noForm noAdmin ⟨auth, incomplete⟩ other

end

theorem Misled.unnamed (misled : Misled inWord p source fallback) :
    ∀ preset ∈ pathPresets, ¬ IsFiledUnder p preset := by
  cases misled with
  | admin unnamed _ _ _ => exact unnamed
  | auth unnamed _ _ _ _ => exact unnamed

theorem Misled.noForm (misled : Misled inWord p source fallback) :
    ¬ "multipart/form-data".toList <:+: source := by
  cases misled with
  | admin _ noForm _ _ => exact noForm
  | auth _ noForm _ _ _ => exact noForm

theorem Misled.begins (misled : Misled inWord p source fallback) :
    BeginsRoute source "admin" ∨ BeginsRoute source "auth" := by
  cases misled with
  | admin _ _ longer _ => exact .inl longer.1
  | auth _ _ _ longer _ => exact .inr longer.1

/-- What a text decides is what its rules for complete routes decide, unless a longer word misleads. -/
theorem textRules_agree_iff (unnamed : ∀ preset ∈ pathPresets, ¬ IsFiledUnder p preset) :
    FirstOf fallback (textRules (CompleteRoute inWord source) source) ((presetOfText? source).getD fallback) ↔
      ¬ Misled inWord p source fallback := by
  generalize detected : (presetOfText? source).getD fallback = preset
  have first := firstOf_textRules.mpr detected.symm
  unfold textRules at first ⊢
  by_cases form : "multipart/form-data".toList <:+: source
  · rw [firstOf_applies form] at first ⊢
    exact iff_of_true first fun misled => misled.noForm form
  rw [firstOf_idle form] at first ⊢
  by_cases admin : BeginsRoute source "admin"
  · obtain rfl := (firstOf_applies admin).mp first
    rw [misled_admin_iff unnamed form admin, ← firstOf_self_iff]
  rw [firstOf_idle admin] at first
  rw [firstOf_idle (mt CompleteRoute.begins admin)]
  by_cases auth : BeginsRoute source "auth"
  · obtain rfl := (firstOf_applies auth).mp first
    rw [misled_auth_iff unnamed form admin auth, ← firstOf_self_iff]
  rw [firstOf_idle auth] at first
  rw [firstOf_idle (mt CompleteRoute.begins auth)]
  exact iff_of_true first fun misled => misled.begins.elim admin auth

/-- The rules are followed as they stand, if a route is one that begins with the word. If a route is
one that is the word, they are followed exactly unless a longer word decides and the rules below say
something else, whichever characters go on with a word. -/
theorem detectPreset_documented_iff (inWord : Char → Bool) (p : Path) (source : Text)
    (fallback : Preset) :
    (∀ preset, FirstOf fallback (presetRules (BeginsRoute source) p source) preset ↔
      preset = detectPreset p source fallback) ∧
    ((∀ preset, FirstOf fallback (presetRules (CompleteRoute inWord source) p source) preset ↔
      preset = detectPreset p source fallback) ↔ ¬ Misled inWord p source fallback) := by
  refine ⟨fun preset => firstOf_rules, ?_⟩
  rw [forall_firstOf_iff, firstOf_presetRules, detectPreset]
  cases named : presetOfPath? p with
  | some found =>
    refine iff_of_true rfl ?_
    intro misled
    rw [presetOfPath?_none_iff.mpr misled.unnamed] at named
    cases named
  | none => exact textRules_agree_iff (presetOfPath?_none_iff.mp named)

/-- `authors` is a longer word than `auth`, and no rule applies. -/
theorem authors_taken_for_auth :
    FirstOf .default (presetRules (CompleteRoute Char.isAlphanum "get('/api/v1/authors')".toList)
        ⟨"lib/x.ts"⟩ "get('/api/v1/authors')".toList) .default ∧
      detectPreset ⟨"lib/x.ts"⟩ "get('/api/v1/authors')".toList .default = .auth := by
  constructor
  · have unnamed : presetOfPath? ⟨"lib/x.ts"⟩ = none := by decide +kernel
    rw [firstOf_presetRules, unnamed]
    exact .later (by decide +kernel) (.later (by decide +kernel) (.later (by decide +kernel)
      (.later (by decide +kernel) .none)))
  · decide +kernel

end ClientMigration.Codemod
