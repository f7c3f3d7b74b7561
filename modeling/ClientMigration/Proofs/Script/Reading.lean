/-
# Proofs.Script.Reading -- readers that find names apart

A reader is `Tidy` if names stand apart in whatever it finds, provided that it
starts behind comments only. Readers are put together from a few others, so each
of those gets an instance here: `Tidy.bind` for what follows what, `Tidy.node`
for a form over its parts, and so on. That a form of the grammar is tidy is then
found by going through its definition.

What a reader goes on with depends on what it has found. The instances ask for
it on a `Sample`, a thing together with the proof that names stand apart in it: a
proof on its own would be lost on the way, since the goal does not mention it.
-/
import ClientMigration.Proofs.Script.NameWords

namespace ClientMigration.Script

set_option autoImplicit false

/-- A kind of node that is not a word for a value. -/
class Kind.IsOther (k : Kind) : Prop where
  other : ¬ k.namesValue

/-- A test that comes out false. -/
class Fails (b : Bool) : Prop where
  fails : b = false

instance : Fails false := ⟨rfl⟩

instance (k : Kind) [fails : Fails k.namesValue] : k.IsOther :=
  ⟨by rw [fails.fails]; exact Bool.false_ne_true⟩

instance {c : Prop} [Decidable c] {k l : Kind} [k.IsOther] [l.IsOther] :
    (if c then k else l).IsOther := by
  split <;> infer_instance

namespace Grammar

/-! ## Cursors -/

/-- Nothing that the cursor has passed over names a value. -/
def Cursor.Clean (c : Cursor) : Prop := ∀ m ∈ c.comments, m.Nameless

theorem comment_clean {cs : List Node} {start stop : Nat} (clean : ∀ m ∈ cs, m.Nameless) :
    ∀ m ∈ comment start stop :: cs, m.Nameless :=
  List.forall_mem_cons.mpr
    ⟨.mk (by decide) fun _ inside => absurd inside List.not_mem_nil, clean⟩

theorem skipGap_clean {gap : Gap} {pos : Nat} {cs : List Node} {t : Text}
    (clean : ∀ m ∈ cs, m.Nameless) : ∀ m ∈ (skipGap gap pos cs t).2.2, m.Nameless := by
  fun_induction skipGap gap pos cs t with
  | case1 _ _ _ further | case2 _ _ _ further => exact further clean
  | case3 _ _ _ _ _ _ _ further | case7 _ _ _ _ _ _ further | case10 _ _ _ _ _ _ _ _ further =>
      exact further clean
  | case4 | case5 | case11 => exact clean
  | case6 _ _ _ _ _ _ further | case9 _ _ _ _ _ _ _ _ further => exact further (comment_clean clean)
  | case8 => exact comment_clean clean

theorem Cursor.Clean.skip {c : Cursor} (clean : c.Clean) : c.skip.Clean := skipGap_clean clean

theorem Cursor.Clean.sameLine {c : Cursor} {gap : Gap} {pos : Nat} {t : Text} (clean : c.Clean) :
    (Grammar.sameLine c gap pos t).1.Clean := by
  fun_induction Grammar.sameLine c gap pos t with
  | case1 _ _ _ further | case2 _ _ _ further => exact further clean
  | case3 _ _ _ _ _ _ _ further | case8 _ _ _ _ _ _ further | case11 _ _ _ _ _ _ _ _ further =>
      exact further clean
  | case4 | case5 | case12 => exact clean
  | case6 | case9 => exact comment_clean clean
  | case7 _ _ _ _ _ _ _ _ further | case10 _ _ _ _ _ _ _ _ _ further =>
      exact further (comment_clean clean)

theorem Cursor.Clean.lineEnd {afterValue : Bool} {c c' : Cursor} (clean : c.Clean)
    (ends : c.lineEnd? afterValue = some c') : c'.Clean := by
  have same : (Grammar.sameLine c .blank c.pos c.rest).1 = c' := by
    unfold Cursor.lineEnd? at ends
    grind
  exact same ▸ clean.sameLine

/-! ## Outcomes -/

namespace Parser

variable {α β : Type} {p : Parser α} {c : Cursor}

theorem bind_found {f : α → Parser β} {c'' : Cursor} {b : β}
    (ran : (p >>= f).run c = .found b c'') :
    ∃ a c', p.run c = .found a c' ∧ (f a).run c' = .found b c'' := by
  change Parser.run (Parser.bind p f) c = _ at ran
  simp only [Parser.bind] at ran
  split at ran
  · exact ⟨_, _, ‹_›, ran⟩
  · cases ran
  · cases ran

theorem orElse_found {q : Unit → Parser α} {c' : Cursor} {a : α}
    (ran : (HOrElse.hOrElse p q).run c = .found a c') :
    p.run c = .found a c' ∨ ∃ far, (q ()).run (c.reaching far) = .found a c' := by
  change (Parser.orElse p q).run c = _ at ran
  simp only [Parser.orElse] at ran
  split at ran
  · exact Or.inr ⟨_, ran⟩
  · exact Or.inl ran

theorem must_found {c' : Cursor} {a : α} (ran : (must p).run c = .found a c') :
    p.run c = .found a c' := by
  simp only [must] at ran
  split at ran
  · cases ran
  · exact ran

theorem attempt_found {c' : Cursor} {a : α} (ran : (attempt p).run c = .found a c') :
    p.run c = .found a c' := by
  simp only [attempt] at ran
  split at ran
  · cases ran
  · exact ran

theorem ahead_found {c' : Cursor} {u : Unit} (ran : (ahead p).run c = .found u c') : c' = c := by
  simp only [ahead] at ran
  split at ran <;> cases ran
  rfl

theorem notAhead_found {c' : Cursor} {u : Unit} (ran : (notAhead p).run c = .found u c') :
    c' = c := by
  simp only [notAhead] at ran
  split at ran <;> cases ran
  rfl

theorem sees_found {c' : Cursor} {b : Bool} (ran : (sees p).run c = .found b c') : c' = c := by
  simp only [sees] at ran
  split at ran <;> cases ran <;> rfl

theorem breakable_found {b : Bool} {c' : Cursor} {a : α}
    (ran : (breakable b p).run c = .found a c') :
    ∃ c'', p.run { c with breakable := b } = .found a c'' ∧
      c' = { c'' with breakable := c.breakable } := by
  simp only [breakable] at ran
  split at ran
  · cases ran
    exact ⟨_, ‹_›, rfl⟩
  · cases ran
  · cases ran

/-- A repetition ends, in front of what it would have to read next, or goes on behind one more. -/
theorem many_found {n : Nat} {c' : Cursor} {as : List α}
    (ran : (many (n + 1) p).run c = .found as c') :
    (as = [] ∧ c'.comments = c.comments) ∨
      ∃ a c'' rest, p.run c = .found a c'' ∧ (many n p).run c'' = .found rest c' ∧
        as = a :: rest := by
  simp only [many] at ran
  split at ran
  · split at ran
    · cases ran
      exact Or.inl ⟨rfl, rfl⟩
    · split at ran <;> cases ran
      exact Or.inr ⟨_, _, _, ‹_›, ‹_›, rfl⟩
  · cases ran
    exact Or.inl ⟨rfl, rfl⟩
  · cases ran

end Parser

/-! ## Things found -/

/-- Things that readers find, and what it means that names stand apart in the nodes they have. -/
class HasNodes (α : Type) where
  NamesApart : α → Prop

/-- Things that have no nodes. -/
class NoNodes (α : Type) where

instance : HasNodes Node := ⟨Node.NamesApart⟩

instance {α : Type} [HasNodes α] : HasNodes (List α) := ⟨fun as => ∀ a ∈ as, HasNodes.NamesApart a⟩

instance {α : Type} [NoNodes α] : HasNodes α := ⟨fun _ => True⟩

instance : NoNodes Unit where
instance : NoNodes Bool where
instance : NoNodes String where
instance : NoNodes (Option Char) where
instance : NoNodes Cursor where

class Apart {α : Type} [HasNodes α] (a : α) : Prop where
  apart : HasNodes.NamesApart a

structure Sample (α : Type) [HasNodes α] where
  val : α
  apart : HasNodes.NamesApart val

namespace Apart

variable {α : Type} [HasNodes α]

instance (a : Sample α) : Apart a.val := ⟨a.apart⟩

instance {γ : Type} [NoNodes γ] (a : γ) : Apart a := ⟨trivial⟩

instance nil : Apart ([] : List α) := ⟨fun _ inside => absurd inside List.not_mem_nil⟩

instance cons {a : α} {as : List α} [first : Apart a] [rest : Apart as] : Apart (a :: as) :=
  ⟨List.forall_mem_cons.mpr ⟨first.apart, rest.apart⟩⟩

instance append {as bs : List α} [first : Apart as] [rest : Apart bs] : Apart (as ++ bs) :=
  ⟨List.forall_mem_append.mpr ⟨first.apart, rest.apart⟩⟩

instance flatten {ass : List (List α)} [each : Apart ass] : Apart ass.flatten :=
  ⟨List.forall_mem_flatten.mpr each.apart⟩

instance leaf {k : Kind} {r : Option Role} {a b : Nat} : Apart (Node.mk k r a b []) :=
  ⟨.leaf k r a b⟩

instance form {k : Kind} [other : k.IsOther] {r : Option Role} {a b : Nat} {cs : List Node}
    [parts : Apart cs] : Apart (Node.mk k r a b cs) :=
  ⟨.form other.other parts.apart⟩

instance playing {n : Node} [whole : Apart n] {r : Role} : Apart (n.playing r) :=
  ⟨Node.NamesApart.playing r whole.apart⟩

instance retag {n : Node} [whole : Apart n] {k : Kind} [other : k.IsOther] : Apart (n.retag k) :=
  ⟨Node.NamesApart.retag other.other whole.apart⟩

end Apart

/-! ## Readers -/

/-- Behind comments only, the reader finds names apart and comes to stand behind comments only. -/
class Parser.Tidy {α : Type} [HasNodes α] (p : Parser α) : Prop where
  found : ∀ {c c' : Cursor} {a : α}, c.Clean → p.run c = .found a c' →
    HasNodes.NamesApart a ∧ c'.Clean

class Parser.AllTidy {α : Type} [HasNodes α] (ps : List (Parser α)) : Prop where
  each : ∀ p ∈ ps, p.Tidy

namespace Parser

variable {α β : Type} [HasNodes α] [HasNodes β] {p : Parser α} {ps qs : List (Parser α)}

namespace AllTidy

instance nil : AllTidy ([] : List (Parser α)) := ⟨fun _ inside => absurd inside List.not_mem_nil⟩

instance cons [first : p.Tidy] [rest : AllTidy ps] : AllTidy (p :: ps) :=
  ⟨List.forall_mem_cons.mpr ⟨first, rest.each⟩⟩

instance append [first : AllTidy ps] [rest : AllTidy qs] : AllTidy (ps ++ qs) :=
  ⟨List.forall_mem_append.mpr ⟨first.each, rest.each⟩⟩

instance map {γ : Type} {f : γ → Parser α} [each : ∀ x, (f x).Tidy] (xs : List γ) :
    AllTidy (xs.map f) :=
  ⟨List.forall_mem_map.mpr fun x _ => each x⟩

end AllTidy

namespace Tidy

instance pure {a : α} [whole : Apart a] : (pure a : Parser α).Tidy where
  found clean ran := by
    cases ran
    exact ⟨whole.apart, clean⟩

instance pure' {a : α} [Apart a] : (Parser.pure a).Tidy := Tidy.pure

instance bind {f : α → Parser β} [first : p.Tidy] [next : ∀ a : Sample α, (f a.val).Tidy] :
    (p >>= f).Tidy where
  found clean ran := by
    obtain ⟨a, c', here, more⟩ := bind_found ran
    obtain ⟨apart, clean'⟩ := first.found clean here
    exact (next ⟨a, apart⟩).found clean' more

/-- For what goes on with a choice by what was found. -/
theorem after {f : α → Parser β} [p.Tidy] (next : ∀ (a : α) [Apart a], (f a).Tidy) :
    (p >>= f).Tidy :=
  haveI : ∀ a : Sample α, (f a.val).Tidy := fun a => next a.val
  inferInstance

instance map {f : α → β} [p.Tidy] [∀ a : Sample α, Apart (f a.val)] : (f <$> p).Tidy :=
  inferInstanceAs (p >>= fun a => (Pure.pure (f a) : Parser β)).Tidy

instance seqRight {q : Parser β} [p.Tidy] [q.Tidy] : (p *> q).Tidy :=
  inferInstanceAs (p >>= fun _ => q).Tidy

instance orElse {q : Unit → Parser α} [first : p.Tidy] [second : (q ()).Tidy] :
    (HOrElse.hOrElse p q).Tidy where
  found {c _ _} clean ran := by
    rcases orElse_found ran with here | ⟨far, there⟩
    · exact first.found clean here
    · exact second.found (c := c.reaching far) clean there

instance absent : (absent : Parser α).Tidy where
  found _ ran := by cases ran

instance must [inner : p.Tidy] : (must p).Tidy where
  found clean ran := inner.found clean (must_found ran)

instance attempt [inner : p.Tidy] : (attempt p).Tidy where
  found clean ran := inner.found clean (attempt_found ran)

instance ahead : (ahead p).Tidy where
  found clean ran := ⟨trivial, ahead_found ran ▸ clean⟩

instance notAhead : (notAhead p).Tidy where
  found clean ran := ⟨trivial, notAhead_found ran ▸ clean⟩

instance sees : (sees p).Tidy where
  found clean ran := ⟨trivial, sees_found ran ▸ clean⟩

instance cursor : cursor.Tidy where
  found clean ran := by
    cases ran
    exact ⟨trivial, clean⟩

instance ite {c : Prop} [Decidable c] {q : Parser α} [p.Tidy] [q.Tidy] :
    (if c then p else q).Tidy := by
  split <;> infer_instance

instance require {b : Bool} : (require b).Tidy := by
  unfold Parser.require
  infer_instance

instance breakable {b : Bool} [inner : p.Tidy] : (breakable b p).Tidy where
  found {c _ _} clean ran := by
    obtain ⟨c'', here, rfl⟩ := breakable_found ran
    obtain ⟨apart, clean'⟩ := inner.found (c := { c with breakable := b }) clean here
    exact ⟨apart, clean'⟩

theorem firstOf (first : p.Tidy) (rest : (Parser.oneOf ps).Tidy) : (Parser.oneOf (p :: ps)).Tidy :=
  Tidy.orElse

instance oneOf [each : AllTidy ps] : (oneOf ps).Tidy := by
  have each := each.each
  induction ps with
  | nil => exact Tidy.absent
  | cons p ps more =>
      obtain ⟨first, rest⟩ := List.forall_mem_cons.mp each
      exact firstOf first (more rest)

instance many {n : Nat} [each : p.Tidy] : (many n p).Tidy := by
  induction n with
  | zero => exact Tidy.pure
  | succ n more =>
      constructor
      intro c c' as clean ran
      rcases many_found ran with ⟨rfl, same⟩ | ⟨a, c'', rest, here, there, rfl⟩
      · exact ⟨Apart.nil.apart, by rwa [Cursor.Clean, same]⟩
      · obtain ⟨apart, clean'⟩ := each.found clean here
        obtain ⟨apart', clean''⟩ := more.found clean' there
        exact ⟨List.forall_mem_cons.mpr ⟨apart, apart'⟩, clean''⟩

instance as {r : Role} {p : Parser Node} [p.Tidy] : (p.as r).Tidy := by
  unfold Parser.as
  infer_instance

end Tidy

end Parser

namespace Parser.Tidy

open Grammar.Parser

instance inOrder {ps : List Parts} [each : AllTidy ps] : Parser.Tidy (inOrder ps) := by
  have each := each.each
  induction ps with
  | nil => exact Tidy.pure
  | cons p ps more =>
      obtain ⟨first, rest⟩ := List.forall_mem_cons.mp each
      have := more rest
      unfold Grammar.inOrder
      infer_instance

instance optional {p : Parts} [p.Tidy] : Parser.Tidy (optional p) := by
  unfold Grammar.optional
  infer_instance

instance repeated {n : Nat} {p : Parts} [p.Tidy] : Parser.Tidy (repeated n p) := by
  unfold Grammar.repeated
  infer_instance

instance separated {n : Nat} {separator p : Parts} [separator.Tidy] [p.Tidy] :
    Parser.Tidy (separated n separator p) := by
  unfold Grammar.separated
  infer_instance

instance node {k : Kind} [k.IsOther] {parts : List Parts} [AllTidy parts] :
    (node k parts).Tidy := by
  unfold Grammar.node
  infer_instance

instance cover {k : Kind} [k.IsOther] {children : List Node} [Apart children] :
    (cover k children).Tidy := by
  unfold Grammar.cover
  infer_instance

/-! ## Tokens -/

instance leaf {k : Kind} {taken rest : Text} : (leaf k taken rest).Tidy where
  found clean ran := by
    cases ran
    exact ⟨.leaf _ _ _ _, clean⟩

instance skipped : skipped.Tidy where
  found clean ran := by
    cases ran
    exact ⟨trivial, clean.skip⟩

instance peekWord : peekWord.Tidy where
  found clean ran := by
    cases ran
    exact ⟨trivial, clean⟩

instance peekChar : peekChar.Tidy where
  found clean ran := by
    cases ran
    exact ⟨trivial, clean⟩

instance markBefore {next m : String} : (markBefore next m).Tidy := by
  unfold Grammar.markBefore
  refine .after fun c _ => ?_
  split <;> infer_instance

instance mark {m : String} : (mark m).Tidy := markBefore

instance marks {ms : List String} : (marks ms).Tidy := by
  unfold Grammar.marks
  infer_instance

instance word {w : String} : (word w).Tidy := by
  unfold Grammar.word
  infer_instance

instance words {ws : List String} : (words ws).Tidy := by
  unfold Grammar.words
  infer_instance

instance keyword {k : Kind} [k.IsOther] {w : String} : (keyword k w).Tidy := by
  unfold Grammar.keyword
  infer_instance

instance nameBut {reserved : List String} {k : Kind} : (nameBut reserved k).Tidy := by
  unfold Grammar.nameBut
  infer_instance

instance anyName {k : Kind} : (anyName k).Tidy := nameBut

instance lineEnd {afterValue : Bool} : Parser.Tidy (lineEnd afterValue) where
  found clean ran := by
    simp only [Grammar.lineEnd] at ran
    split at ran <;> cases ran
    exact ⟨fun _ inside => absurd inside List.not_mem_nil, clean.lineEnd ‹_›⟩

instance semicolonAfter {afterValue : Bool} : Parser.Tidy (semicolonAfter afterValue) := by
  unfold Grammar.semicolonAfter
  infer_instance

instance semicolon : Parser.Tidy semicolon := semicolonAfter

end Parser.Tidy

end Grammar

end ClientMigration.Script
