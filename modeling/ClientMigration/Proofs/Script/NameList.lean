/-
# Proofs.Script.NameList -- names between commas

What stands between the braces of an import: names with commas between them, one
more comma behind the last if the text has it, and blanks and comments anywhere
around (`Lists`). A blank or a comment is what the reader passes (`IsGap`), so a
comma can stand in a comment, but not in front of all comments of a gap
(`gap_unique`).

Names put in behind the last one or behind its comma make a list of all of them:
what follows a name can be exchanged for anything that may follow one
(`lists_last`).
-/
import ClientMigration.Text.Blank
import ClientMigration.Script.Grammar.Reader

namespace ClientMigration.Script

set_option autoImplicit false

open Grammar (skipGap)

/-! ## Gaps -/

/-- Blanks and comments: the reader passes the text, whatever stands behind it. -/
def IsGap (t : Text) : Prop :=
  ∀ (pos : Nat) (comments : List Node) (rest : Text), ∃ comments',
    skipGap .blank pos comments (t ++ rest) = skipGap .blank (pos + t.bytes) comments' rest

theorem isGap_nil : IsGap [] := by
  intro pos comments rest
  exact ⟨comments, by rw [List.nil_append, Text.bytes, Nat.add_zero]⟩

/-- A character that begins no comment is passed if it is blank. -/
theorem skipGap_cons {pos : Nat} {comments : List Node} {c : Char} {t : Text} (plain : c ≠ '/') :
    skipGap .blank pos comments (c :: t) =
      if Grammar.isBlank c then skipGap .blank (pos + c.utf8Size) comments t
      else (c :: t, pos, comments) := by
  rw [Grammar.skipGap.eq_def]
  split
  case h_3 same =>
    obtain ⟨rfl, rfl⟩ := List.cons.inj same
    rfl
  all_goals simp_all

theorem isGap_blank {c : Char} (blank : Grammar.isBlank c = true) (plain : c ≠ '/') : IsGap [c] := by
  intro pos comments rest
  refine ⟨comments, ?_⟩
  rw [List.singleton_append, skipGap_cons plain, if_pos blank, Text.bytes, Text.bytes, Nat.add_zero]

/-- The reader does not come past a comma. -/
theorem skipGap_comma (rest : Text) : ∀ {blank : Text} (pos : Nat) (comments : List Node),
    blank.all Text.isBlank = true →
      (skipGap .blank pos comments (blank ++ ',' :: rest)).1 ≠ []
  | [], pos, comments, _ => by
      rw [List.nil_append, skipGap_cons (by decide), if_neg (by decide)]
      exact List.cons_ne_nil _ _
  | c :: blank, pos, comments, isBlank => by
      obtain ⟨c_blank, isBlank'⟩ := Bool.and_eq_true_iff.mp isBlank
      have plain : c ≠ '/' := by
        rintro rfl
        exact absurd c_blank (by decide)
      rw [List.cons_append, skipGap_cons plain]
      split
      · exact skipGap_comma rest _ comments isBlank'
      · exact List.cons_ne_nil _ _

theorem not_isGap_comma {blank rest : Text} (isBlank : blank.all Text.isBlank = true) :
    ¬ IsGap (blank ++ ',' :: rest) := by
  intro gap
  obtain ⟨comments, passed⟩ := gap 0 [] []
  rw [List.append_nil] at passed
  refine skipGap_comma rest 0 [] isBlank ?_
  rw [passed]
  rfl

/-- A gap in front of a character that is not blank ends where the blanks in front of a comma do. -/
theorem gap_unique {gap blank rest rest' : Text} {c : Char} (isGap : IsGap gap)
    (isBlank : blank.all Text.isBlank = true) (notBlank : Text.isBlank c = false)
    (same : gap ++ c :: rest' = blank ++ ',' :: rest) : gap = blank ∧ c = ',' ∧ rest' = rest := by
  rcases List.append_eq_append_iff.mp same with ⟨more, rfl, split⟩ | ⟨more, rfl, split⟩
  · cases more with
    | nil =>
        obtain ⟨rfl, rfl⟩ := List.cons.inj split
        exact ⟨(List.append_nil gap).symm, rfl, rfl⟩
    | cons d more =>
        -- the character would be one of the blanks
        obtain ⟨rfl, _⟩ := List.cons.inj split
        have among := List.all_eq_true.mp isBlank c (by simp)
        rw [notBlank] at among
        cases among
  · cases more with
    | nil =>
        obtain ⟨rfl, rfl⟩ := List.cons.inj split
        exact ⟨List.append_nil blank, rfl, rfl⟩
    | cons d more =>
        obtain ⟨rfl, _⟩ := List.cons.inj split
        exact absurd isGap (not_isGap_comma isBlank)

/-! ## Lists of names -/

/-- A text that begins at an offset holds names with commas between them, and behind the last one perhaps
one more. The names come with their own offsets. -/
def Lists : Nat → List (Nat × Text) → Text → Prop
  | _, [], t => IsGap t
  | n, (start, name) :: names, t => ∃ gap rest : Text, IsGap gap ∧ start = n + gap.bytes ∧
      t = gap ++ (name ++ rest) ∧ (names = [] ∧ IsGap rest ∨
        ∃ gap' rest' : Text, IsGap gap' ∧ rest = gap' ++ ',' :: rest' ∧
          Lists (start + name.bytes + gap'.bytes + 1) names rest')

/-- What may stand behind a name that ends at an offset: nothing, or a comma and more names. -/
def MayFollow (n : Nat) (names : List (Nat × Text)) (t : Text) : Prop :=
  names = [] ∧ IsGap t ∨ ∃ gap rest : Text, IsGap gap ∧ t = gap ++ ',' :: rest ∧
    Lists (n + gap.bytes + 1) names rest

variable {n start : Nat} {name t : Text} {names : List (Nat × Text)}

theorem lists_cons : Lists n ((start, name) :: names) t ↔ ∃ gap rest : Text, IsGap gap ∧
    start = n + gap.bytes ∧ t = gap ++ (name ++ rest) ∧ MayFollow (start + name.bytes) names rest :=
  Iff.rfl

/-- What may stand behind the last name: nothing, or a comma. -/
def EndsList (t : Text) : Prop :=
  IsGap t ∨ ∃ gap gap' : Text, IsGap gap ∧ IsGap gap' ∧ t = gap ++ ',' :: gap'

theorem mayFollow_nil : MayFollow n [] t ↔ EndsList t := by
  constructor
  · rintro (⟨_, isGap⟩ | ⟨gap, gap', isGap, whole, isGap'⟩)
    · exact Or.inl isGap
    · exact Or.inr ⟨gap, gap', isGap, isGap', whole⟩
  · rintro (isGap | ⟨gap, gap', isGap, isGap', whole⟩)
    · exact Or.inl ⟨rfl, isGap⟩
    · exact Or.inr ⟨gap, gap', isGap, whole, isGap'⟩

/-- The same list from another offset on. -/
theorem Lists.move (m : Nat) : ∀ {names : List (Nat × Text)} {n : Nat} {t : Text}, Lists n names t →
    ∃ names', names'.map Prod.snd = names.map Prod.snd ∧ Lists m names' t
  | [], _, _, lists => ⟨[], rfl, lists⟩
  | (_, name) :: names, n, t, ⟨gap, rest, isGap, _, whole, follows⟩ => by
      rcases follows with ⟨rfl, isGap'⟩ | ⟨gap', rest', isGap', whole', further⟩
      · exact ⟨[(m + gap.bytes, name)], rfl, gap, rest, isGap, rfl, whole, Or.inl ⟨rfl, isGap'⟩⟩
      · obtain ⟨names', same, moved⟩ := further.move (m + gap.bytes + name.bytes + gap'.bytes + 1)
        exact ⟨(m + gap.bytes, name) :: names', by simp [same], gap, rest, isGap, rfl, whole,
          Or.inr ⟨gap', rest', isGap', whole', moved⟩⟩

/-- What stands behind the last name of a list ends the list, and anything that may follow a name can
stand there instead. -/
theorem lists_last : ∀ {names : List (Nat × Text)} {n : Nat} {t : Text}, Lists n names t →
    names ≠ [] → ∃ (others : List (Nat × Text)) (front name tail : Text),
      names = others ++ [(n + front.bytes, name)] ∧ t = front ++ (name ++ tail) ∧ EndsList tail ∧
      ∀ (names' : List (Nat × Text)) (t' : Text), MayFollow (n + front.bytes + name.bytes) names' t' →
        Lists n (names ++ names') (front ++ (name ++ t'))
  | [], _, _, _, some_names => absurd rfl some_names
  | [(_, name)], n, t, ⟨gap, tail, isGap, rfl, whole, follows⟩, _ =>
      ⟨[], gap, name, tail, rfl, whole, mayFollow_nil.mp follows,
        fun _ t' follows' => ⟨gap, t', isGap, rfl, rfl, follows'⟩⟩
  | (start, name) :: second :: names, n, t, ⟨gap, rest, isGap, starts, whole, follows⟩, _ => by
      rcases follows with ⟨none, _⟩ | ⟨gap', rest', isGap', whole', further⟩
      · cases none
      · obtain ⟨others, front, last, tail, split, split', ends, exchange⟩ :=
          lists_last further (List.cons_ne_nil _ _)
        have comma : (',' : Char).utf8Size = 1 := rfl
        have long : n + Text.bytes (gap ++ (name ++ (gap' ++ ',' :: front))) =
            start + name.bytes + gap'.bytes + 1 + front.bytes := by
          simp only [Text.bytes_append, Text.bytes, starts]
          omega
        refine ⟨(start, name) :: others, gap ++ (name ++ (gap' ++ ',' :: front)), last, tail, ?_, ?_,
          ends, ?_⟩
        · rw [long, split]
          rfl
        · rw [whole, whole', split']
          simp
        · intro names' t' follows'
          rw [long] at follows'
          refine ⟨gap, gap' ++ ',' :: (front ++ (last ++ t')), isGap, starts, by simp, Or.inr ?_⟩
          exact ⟨gap', front ++ (last ++ t'), isGap', rfl, exchange names' t' follows'⟩

/-! ## More names -/

/-- Names with a comma and a blank between them. -/
def withCommas (texts : List Text) : Text := [',', ' '].intercalate texts

theorem isGap_space : IsGap [' '] := isGap_blank (by decide) (by decide)

theorem lists_withCommas {tail : Text} (ends : EndsList tail) : ∀ {texts : List Text} (n : Nat),
    texts ≠ [] → ∃ names, names.map Prod.snd = texts ∧
      Lists n names (' ' :: (withCommas texts ++ tail))
  | [], _, some_texts => absurd rfl some_texts
  | [name], n, _ => by
      refine ⟨[(n + 1, name)], rfl, lists_cons.mpr ⟨[' '], tail, isGap_space, rfl, ?_, ?_⟩⟩
      · simp [withCommas]
      · exact mayFollow_nil.mpr ends
  | name :: second :: texts, n, _ => by
      obtain ⟨names, same, lists⟩ :=
        lists_withCommas ends (n + 1 + name.bytes + 0 + 1) (List.cons_ne_nil second texts)
      refine ⟨(n + 1, name) :: names, by rw [List.map_cons, same], lists_cons.mpr
        ⟨[' '], ',' :: ' ' :: (withCommas (second :: texts) ++ tail), isGap_space, rfl, ?_, ?_⟩⟩
      · simp [withCommas]
      · exact Or.inr ⟨[], _, isGap_nil, rfl, lists⟩

/-- Names can be put in behind the last one of a list, and behind its comma. -/
theorem lists_append {texts : List Text} (lists : Lists n names t) (some_names : names ≠ [])
    (some_texts : texts ≠ []) :
    ∃ (others : List (Nat × Text)) (front name tail : Text),
      names = others ++ [(n + front.bytes, name)] ∧ t = front ++ (name ++ tail) ∧ EndsList tail ∧
      (∃ more, more.map Prod.snd = texts ∧
        Lists n (names ++ more) (front ++ (name ++ ',' :: ' ' :: (withCommas texts ++ tail)))) ∧
      ∀ gap gap' : Text, IsGap gap → IsGap gap' → ∃ more, more.map Prod.snd = texts ∧
        Lists n (names ++ more) (front ++ (name ++ (gap ++ ',' :: ' ' :: (withCommas texts ++ gap')))) := by
  obtain ⟨others, front, name, tail, split, whole, ends, exchange⟩ := lists_last lists some_names
  refine ⟨others, front, name, tail, split, whole, ends, ?_, fun gap gap' isGap isGap' => ?_⟩
  · obtain ⟨more, same, further⟩ :=
      lists_withCommas ends (n + front.bytes + name.bytes + 0 + 1) some_texts
    exact ⟨more, same, exchange more _ (Or.inr ⟨[], _, isGap_nil, rfl, further⟩)⟩
  · obtain ⟨more, same, further⟩ :=
      lists_withCommas (Or.inl isGap') (n + front.bytes + name.bytes + gap.bytes + 1) some_texts
    exact ⟨more, same, exchange more _ (Or.inr ⟨gap, _, isGap, rfl, further⟩)⟩

end ClientMigration.Script
