/-
# Proofs.Text.Edit -- edits made at once are edits made from the last to the first

All edits of a list are made in one pass over the text, in the order of their
places; only neighbours are compared. That is enough: in that order an edit that
begins behind the end of its neighbour begins behind the ends of all edits in
front of it, so the pass succeeds exactly if no two edits of the list conflict
(`apply_ok_iff`). An edit that begins in time leaves everything in front of it
where it was, so a pass that succeeds gives what the edits give one after the
other, the last first (`apply_clear`). A pass that fails names the first edit
that begins too early (`apply_overlap`).

An edit in a part of the text that all others avoid is made in that part
(`apply_part`), and a part that all avoid stays (`apply_avoiding`).

The order is the stable sort by place (`inOrder_stableSort`), so it depends on the
list only through the edits of each place (`inOrder_congr`).
-/
import Mathlib.Data.List.Chain
import Mathlib.Data.Prod.Lex
import ClientMigration.Proofs.Data.StableSort
import ClientMigration.Text.Edit

namespace ClientMigration

set_option autoImplicit false

/-! ## Offsets between characters -/

namespace Text

/-- The offset lies between two characters of the text, or at one of its ends. -/
def IsCut (t : Text) (n : Nat) : Prop := ∃ front back : Text, t = front ++ back ∧ front.bytes = n

theorem bytes_eq_zero {t : Text} (none : t.bytes = 0) : t = [] := by
  cases t with
  | nil => rfl
  | cons c t =>
      have long := utf8Size_pos c
      simp only [bytes] at none
      omega

/-- Of two fronts of a text the shorter is a front of the longer. -/
theorem front_of_le {a b c d : Text} (same : a ++ b = c ++ d) (shorter : a.bytes ≤ c.bytes) :
    ∃ between, c = a ++ between ∧ b = between ++ d := by
  rcases List.append_eq_append_iff.mp same with split | ⟨more, rfl, rfl⟩
  · exact split
  · have none : more = [] := by
      refine bytes_eq_zero ?_
      rw [bytes_append] at shorter
      omega
    subst none
    exact ⟨[], by simp, rfl⟩

/-- Fronts of a text of one length are the same. -/
theorem split_eq {a b c d : Text} (same : a ++ b = c ++ d) (long : a.bytes = c.bytes) :
    a = c ∧ b = d := by
  obtain ⟨more, rfl, rfl⟩ := front_of_le same long.le
  have none : more = [] := by
    refine bytes_eq_zero ?_
    rw [bytes_append] at long
    omega
  subst none
  exact ⟨(List.append_nil a).symm, rfl⟩

theorem IsCut.le {t : Text} {n : Nat} (cut : t.IsCut n) : n ≤ t.bytes := by
  obtain ⟨front, back, rfl, rfl⟩ := cut
  rw [bytes_append]
  omega

theorem takeBytes?_some {t front : Text} {n : Nat} (taken : t.takeBytes? n = some front) :
    ∃ back, t = front ++ back ∧ front.bytes = n := by
  induction t generalizing n front with
  | nil =>
      cases n with
      | zero => exact ⟨[], by cases taken; rfl, by cases taken; rfl⟩
      | succ n => cases taken
  | cons c t further =>
      cases n with
      | zero => exact ⟨c :: t, by cases taken; rfl, by cases taken; rfl⟩
      | succ n =>
          rw [takeBytes?] at taken
          split at taken
          · obtain ⟨front', taken', rfl⟩ := Option.map_eq_some_iff.mp taken
            obtain ⟨back, rfl, long⟩ := further taken'
            refine ⟨back, rfl, ?_⟩
            simp only [bytes]
            omega
          · cases taken

theorem isCut_iff {t : Text} {n : Nat} : t.IsCut n ↔ (t.takeBytes? n).isSome = true := by
  constructor
  · rintro ⟨front, back, rfl, rfl⟩
    rw [takeBytes?_append]
    rfl
  · intro taken
    obtain ⟨front, taken'⟩ := Option.isSome_iff_exists.mp taken
    obtain ⟨back, whole, long⟩ := takeBytes?_some taken'
    exact ⟨front, back, whole, long⟩

instance (t : Text) (n : Nat) : Decidable (t.IsCut n) := decidable_of_iff _ isCut_iff.symm

end Text

namespace Edit

variable {source : Text} {edits other : List Edit} {e f : Edit}

/-! ## Edits of a text -/

/-- The edit replaces whole characters of the text. -/
structure Inside (source : Text) (e : Edit) : Prop where
  le : e.start ≤ e.stop
  start : source.IsCut e.start
  stop : source.IsCut e.stop

theorem inside_iff :
    Inside source e ↔ e.start ≤ e.stop ∧ source.IsCut e.start ∧ source.IsCut e.stop :=
  ⟨fun inside => ⟨inside.le, inside.start, inside.stop⟩, fun ⟨le, start, stop⟩ => ⟨le, start, stop⟩⟩

instance (source : Text) (e : Edit) : Decidable (Inside source e) := decidable_of_iff _ inside_iff.symm

/-- One of the edits begins before the other one ends, and the other way round. -/
def Conflicts (e f : Edit) : Prop := e.start < f.stop ∧ f.start < e.stop

instance (e f : Edit) : Decidable (e.Conflicts f) :=
  inferInstanceAs (Decidable (e.start < f.stop ∧ f.start < e.stop))

theorem Conflicts.symm (conflict : e.Conflicts f) : f.Conflicts e := ⟨conflict.2, conflict.1⟩

theorem not_conflicts_of_le (clear : e.stop ≤ f.start) : ¬ e.Conflicts f := by
  rintro ⟨_, early⟩
  omega

/-- No two edits of the list conflict. -/
abbrev Clear (edits : List Edit) : Prop := edits.Pairwise fun e f => ¬ e.Conflicts f

theorem clear_perm (perm : edits.Perm other) : Clear edits ↔ Clear other :=
  perm.pairwise_iff fun apart conflict => apart conflict.symm

/-- The text with one edit made, if the edit's ends are in the text. -/
def makeIn? (e : Edit) (t : Text) : Option Text :=
  (t.takeBytes? e.start).bind fun front =>
    (t.dropBytes? e.stop).map fun back => front ++ e.text ++ back

/-- The text with the edits made one after the other, the last of the list first. -/
def lastFirst? (source : Text) : List Edit → Option Text
  | [] => some source
  | e :: es => (lastFirst? source es).bind e.makeIn?

/-! ## The order of edits -/

/-- Where an edit is made: its start, then its end. -/
def place (e : Edit) : ℕ ×ₗ ℕ := toLex (e.start, e.stop)

theorem place_le : e.place ≤ f.place ↔ e.start < f.start ∨ e.start = f.start ∧ e.stop ≤ f.stop :=
  Prod.Lex.toLex_le_toLex

theorem place_eq {start stop : Nat} :
    e.place = toLex (start, stop) ↔ e.start = start ∧ e.stop = stop := by
  simp [place]

theorem before_iff : before e f = true ↔ e.place ≤ f.place := by
  simp [before, place_le]

theorem putIn_perm (e : Edit) (es : List Edit) : (putIn e es).Perm (e :: es) := by
  induction es with
  | nil => exact List.Perm.refl _
  | cons f fs rest =>
      unfold putIn
      split
      · exact List.Perm.refl _
      · exact (rest.cons f).trans (List.Perm.swap e f fs)

theorem putIn_sorted (e : Edit) {es : List Edit}
    (sorted : es.Pairwise fun a b => a.place ≤ b.place) :
    (putIn e es).Pairwise fun a b => a.place ≤ b.place := by
  induction es with
  | nil => exact List.pairwise_singleton _ e
  | cons f fs rest =>
      obtain ⟨least, sorted'⟩ := List.pairwise_cons.mp sorted
      unfold putIn
      split
      · rename_i first
        have le := before_iff.mp first
        refine List.pairwise_cons.mpr ⟨fun g listed => ?_, sorted⟩
        rcases List.mem_cons.mp listed with rfl | later
        · exact le
        · exact le_trans le (least g later)
      · rename_i second
        have le := le_of_not_ge fun ge => second (before_iff.mpr ge)
        refine List.pairwise_cons.mpr ⟨fun g listed => ?_, rest sorted'⟩
        rcases List.mem_cons.mp ((putIn_perm e fs).mem_iff.mp listed) with rfl | later
        · exact le
        · exact least g later

/-- An edit comes to stand in front of those of its own place. -/
theorem putIn_ties (e : Edit) (es : List Edit) (k : ℕ ×ₗ ℕ) :
    (putIn e es).filter (place · = k) = (e :: es).filter (place · = k) := by
  induction es with
  | nil => rfl
  | cons f fs rest =>
      unfold putIn
      split
      · rfl
      · rename_i second
        have other : f.place ≠ e.place := fun same => second (before_iff.mpr (le_of_eq same.symm))
        by_cases here : e.place = k
        · have there : ¬ f.place = k := fun same => other (same.trans here.symm)
          simp [here, there] at rest ⊢
          exact rest
        · simp only [List.filter_cons, here, decide_false, Bool.false_eq_true, if_false] at rest ⊢
          rw [rest]

/-- The order of edits is the stable sort by their places. -/
theorem inOrder_stableSort (edits : List Edit) : StableSort place edits (inOrder edits) := by
  induction edits with
  | nil => exact ⟨List.Perm.refl _, List.Pairwise.nil, fun _ => rfl⟩
  | cons e es sort =>
      refine ⟨(putIn_perm e _).trans (sort.perm.cons e), putIn_sorted e sort.sorted, fun k => ?_⟩
      have front : inOrder (e :: es) = putIn e (inOrder es) := rfl
      rw [front, putIn_ties, List.filter_cons, List.filter_cons, sort.ties]

/-- Lists that hold the same edits of each place have one order. -/
theorem inOrder_congr (ties : ∀ start stop,
    edits.filter (fun e => e.start = start ∧ e.stop = stop) =
      other.filter (fun e => e.start = start ∧ e.stop = stop)) : inOrder edits = inOrder other := by
  have sort := inOrder_stableSort edits
  have sort' := inOrder_stableSort other
  refine eq_of_ties sort.sorted sort'.sorted fun k => ?_
  rw [sort.ties, sort'.ties]
  have here := ties (ofLex k).1 (ofLex k).2
  simpa only [← place_eq, Prod.mk.eta, toLex_ofLex] using here

/-- Where no two edits conflict, those that begin at an offset come in the order of the list, first
what is put in there, and then what replaces something. -/
theorem inOrder_start (inside : ∀ e ∈ edits, e.start ≤ e.stop) (clear : Clear edits) (n : Nat) :
    (inOrder edits).filter (fun e => e.start = n) =
      edits.filter (fun e => e.start = n ∧ e.stop = n) ++
        edits.filter (fun e => e.start = n ∧ n < e.stop) := by
  have sort := inOrder_stableSort edits
  refine eq_of_ties (sort.sorted.filter _) ?_ fun k => ?_
  · refine List.pairwise_append.mpr ⟨?_, ?_, ?_⟩
    · refine List.pairwise_filter.mpr (List.pairwise_of_forall fun a b here there => ?_)
      simp only [decide_eq_true_eq] at here there
      exact place_le.mpr (Or.inr ⟨by omega, by omega⟩)
    · -- two edits that begin here and replace something would conflict
      refine List.pairwise_filter.mpr (clear.imp fun apart here there => ?_)
      simp only [decide_eq_true_eq] at here there
      exact absurd ⟨by omega, by omega⟩ apart
    · intro a here b there
      have here := of_decide_eq_true (List.mem_filter.mp here).2
      have there := of_decide_eq_true (List.mem_filter.mp there).2
      exact place_le.mpr (Or.inr ⟨by omega, by omega⟩)
  · obtain ⟨⟨start, stop⟩, rfl⟩ := toLex.surjective k
    rw [List.filter_comm, sort.ties, List.filter_comm, List.filter_append]
    simp only [List.filter_filter, place_eq]
    by_cases empty : stop = n
    · have none : edits.filter (fun e => decide (e.start = start ∧ e.stop = stop) &&
          decide (e.start = n ∧ n < e.stop)) = [] := by
        rw [List.filter_eq_nil_iff]
        intro e listed
        simp only [Bool.and_eq_true, decide_eq_true_eq]
        omega
      rw [none, List.append_nil]
      apply List.filter_congr
      intro e listed
      rw [Bool.eq_iff_iff]
      simp only [Bool.and_eq_true, decide_eq_true_eq]
      omega
    · have none : edits.filter (fun e => decide (e.start = start ∧ e.stop = stop) &&
          decide (e.start = n ∧ e.stop = n)) = [] := by
        rw [List.filter_eq_nil_iff]
        intro e listed
        simp only [Bool.and_eq_true, decide_eq_true_eq]
        omega
      rw [none, List.nil_append]
      apply List.filter_congr
      intro e listed
      have le := inside e listed
      rw [Bool.eq_iff_iff]
      simp only [Bool.and_eq_true, decide_eq_true_eq]
      omega

/-! ## One pass -/

/-- Each of the edits begins at or behind the end of the one in front of it, the first at or behind
the cursor. -/
def InTurn : Nat → List Edit → Prop
  | _, [] => True
  | cursor, e :: es => cursor ≤ e.start ∧ InTurn e.stop es

theorem InTurn.from_cursor {cursor : Nat} (turn : InTurn cursor edits)
    (inside : ∀ e ∈ edits, e.start ≤ e.stop) (e : Edit) (listed : e ∈ edits) : cursor ≤ e.start := by
  induction edits generalizing cursor with
  | nil => exact absurd listed List.not_mem_nil
  | cons f fs rest =>
      obtain ⟨behind, turn'⟩ := turn
      rcases List.mem_cons.mp listed with rfl | later
      · exact behind
      · have le := inside f List.mem_cons_self
        have further := rest turn' (fun g there => inside g (List.mem_cons_of_mem f there)) later
        omega

/-- Of two edits that do not conflict the one in front ends before the other one begins. -/
theorem stop_le_of_place_le (le : e.place ≤ f.place) (inside : f.start ≤ f.stop)
    (apart : ¬ e.Conflicts f) : e.stop ≤ f.start := by
  by_contra early
  apply apart
  rcases place_le.mp le with earlier | ⟨level, shorter⟩
  · exact ⟨by omega, by omega⟩
  · exact ⟨by omega, by omega⟩

/-- In the order of places it is enough to compare neighbours. -/
theorem inTurn_iff_clear {cursor : Nat} (sorted : edits.Pairwise fun a b => a.place ≤ b.place)
    (inside : ∀ e ∈ edits, e.start ≤ e.stop) (behind : ∀ e ∈ edits, cursor ≤ e.start) :
    InTurn cursor edits ↔ Clear edits := by
  induction edits generalizing cursor with
  | nil => exact ⟨fun _ => List.Pairwise.nil, fun _ => trivial⟩
  | cons e es rest =>
      obtain ⟨least, sorted'⟩ := List.pairwise_cons.mp sorted
      have inside' (f : Edit) (listed : f ∈ es) : f.start ≤ f.stop :=
        inside f (List.mem_cons_of_mem e listed)
      constructor
      · rintro ⟨_, turn⟩
        have clear := turn.from_cursor inside'
        refine List.pairwise_cons.mpr ⟨fun f listed => not_conflicts_of_le (clear f listed), ?_⟩
        exact (rest sorted' inside' clear).mp turn
      · intro clear
        obtain ⟨apart, clear'⟩ := List.pairwise_cons.mp clear
        refine ⟨behind e List.mem_cons_self, (rest sorted' inside' fun f listed => ?_).mpr clear'⟩
        exact stop_le_of_place_le (least f listed) (inside' f listed) (apart f listed)

/-- An edit that begins in time keeps what stands between the cursor and its start, and the pass goes
on behind its end. -/
theorem applyFrom_cons {front back : Text} (inside : Inside (front ++ back) e)
    (turn : front.bytes ≤ e.start) (es : List Edit) :
    ∃ kept gone rest : Text, back = kept ++ gone ++ rest ∧ e.start = (front ++ kept).bytes ∧
      e.stop = (front ++ kept ++ gone).bytes ∧
      applyFrom (front ++ back) front.bytes (e :: es) =
        (applyFrom (front ++ back) e.stop es).map (kept ++ e.text ++ ·) := by
  obtain ⟨upTo, from', whole, starts⟩ := inside.start
  obtain ⟨through, rest, whole', stops⟩ := inside.stop
  obtain ⟨kept, rfl, rfl⟩ := Text.front_of_le whole (by omega)
  have le := inside.le
  obtain ⟨gone, rfl, rfl⟩ := Text.front_of_le (whole.symm.trans whole') (by omega)
  refine ⟨kept, gone, rest, by simp, starts.symm, stops.symm, ?_⟩
  have slice : (front ++ (kept ++ (gone ++ rest))).slice? front.bytes e.start = some kept := by
    rw [← starts, Text.bytes_append, ← List.append_assoc]
    exact Text.slice?_append front kept (gone ++ rest)
  rw [applyFrom, if_neg (by omega), slice]

/-- A pass over edits in turn gives the text that they give one after the other, the last first. -/
theorem applyFrom_ok (front back : Text) (inside : ∀ e ∈ edits, Inside (front ++ back) e)
    (turn : InTurn front.bytes edits) :
    ∃ made, applyFrom (front ++ back) front.bytes edits = .ok made ∧
      lastFirst? (front ++ back) edits = some (front ++ made) := by
  induction edits generalizing front back with
  | nil => exact ⟨back, by rw [applyFrom, Text.dropBytes?_append], rfl⟩
  | cons e es further =>
      obtain ⟨behind, turn'⟩ := turn
      obtain ⟨kept, gone, rest, rfl, starts, stops, step⟩ :=
        applyFrom_cons (inside e List.mem_cons_self) behind es
      have whole : front ++ (kept ++ gone ++ rest) = front ++ kept ++ gone ++ rest := by simp
      rw [stops] at turn'
      obtain ⟨made, passed, last⟩ := further (front ++ kept ++ gone) rest
        (fun f listed => whole ▸ inside f (List.mem_cons_of_mem e listed)) turn'
      refine ⟨kept ++ e.text ++ made, ?_, ?_⟩
      · rw [step, whole, stops, passed]
        rfl
      · -- what the later edits made stands behind this one's end
        have take := Text.takeBytes?_append (front ++ kept) (gone ++ made)
        have drop := Text.dropBytes?_append (front ++ kept ++ gone) made
        rw [← List.append_assoc, ← starts] at take
        rw [← stops] at drop
        rw [whole, lastFirst?, last, Option.bind_some, makeIn?, take, drop]
        simp

/-- A pass over edits that are not in turn fails at the first edit that begins too early. -/
theorem applyFrom_overlap (front back : Text) (inside : ∀ e ∈ edits, Inside (front ++ back) e)
    (behind : ∀ e ∈ edits.head?, front.bytes ≤ e.start) (early : ¬ InTurn front.bytes edits) :
    ∃ before e f after, edits = before ++ e :: f :: after ∧ InTurn front.bytes (before ++ [e]) ∧
      f.start < e.stop ∧ applyFrom (front ++ back) front.bytes edits = .error (.overlap f.start) := by
  induction edits generalizing front back with
  | nil => exact absurd trivial early
  | cons e es further =>
      have turn : front.bytes ≤ e.start := behind e rfl
      have early' : ¬ InTurn e.stop es := fun turn' => early ⟨turn, turn'⟩
      obtain ⟨kept, gone, rest, rfl, starts, stops, step⟩ :=
        applyFrom_cons (inside e List.mem_cons_self) turn es
      have whole : front ++ (kept ++ gone ++ rest) = front ++ kept ++ gone ++ rest := by simp
      by_cases next : ∀ f ∈ es.head?, e.stop ≤ f.start
      · rw [stops] at next early'
        obtain ⟨before, g, f, after, rfl, turn', overlaps, fails⟩ :=
          further (front ++ kept ++ gone) rest
            (fun f listed => whole ▸ inside f (List.mem_cons_of_mem e listed)) next early'
        refine ⟨e :: before, g, f, after, rfl, ⟨turn, stops ▸ turn'⟩, overlaps, ?_⟩
        rw [step, whole, stops, fails]
        rfl
      · push Not at next
        obtain ⟨f, first, overlaps⟩ := next
        obtain ⟨after, rfl⟩ := List.head?_eq_some_iff.mp first
        refine ⟨[], e, f, after, rfl, ⟨turn, trivial⟩, overlaps, ?_⟩
        rw [step, applyFrom, if_pos overlaps]
        rfl

/-! ## All edits at once -/

theorem inside_inOrder (inside : ∀ e ∈ edits, Inside source e) : ∀ e ∈ inOrder edits, Inside source e :=
  fun e listed => inside e ((inOrder_stableSort edits).perm.mem_iff.mp listed)

theorem inTurn_inOrder_iff (inside : ∀ e ∈ edits, Inside source e) :
    InTurn 0 (inOrder edits) ↔ Clear edits := by
  have sort := inOrder_stableSort edits
  have inside' := inside_inOrder inside
  rw [inTurn_iff_clear sort.sorted (fun e listed => (inside' e listed).le) fun _ _ => Nat.zero_le _]
  exact clear_perm sort.perm

/-- Edits that do not conflict give what they give one after the other, the last first. -/
theorem apply_clear (inside : ∀ e ∈ edits, Inside source e) (clear : Clear edits) :
    ∃ made, apply source edits = .ok made ∧ lastFirst? source (inOrder edits) = some made :=
  applyFrom_ok [] source (inside_inOrder inside) ((inTurn_inOrder_iff inside).mpr clear)

theorem apply_overlap (inside : ∀ e ∈ edits, Inside source e) (conflict : ¬ Clear edits) :
    ∃ before e f after, inOrder edits = before ++ e :: f :: after ∧ InTurn 0 (before ++ [e]) ∧
      f.start < e.stop ∧ apply source edits = .error (.overlap f.start) :=
  applyFrom_overlap [] source (inside_inOrder inside) (fun _ _ => Nat.zero_le _)
    fun turn => conflict ((inTurn_inOrder_iff inside).mp turn)

/-- All edits of a text can be made at once exactly if no two of them conflict. -/
theorem apply_ok_iff (inside : ∀ e ∈ edits, Inside source e) :
    (∃ made, apply source edits = .ok made) ↔ Clear edits := by
  constructor
  · rintro ⟨made, passed⟩
    by_contra conflict
    obtain ⟨_, _, _, _, _, _, _, fails⟩ := apply_overlap inside conflict
    rw [passed] at fails
    cases fails
  · intro clear
    obtain ⟨made, passed, _⟩ := apply_clear inside clear
    exact ⟨made, passed⟩

/-! ## What edits leave of a part of the text -/

/-- A pass goes over edits that end up to an offset, and its cursor is not behind that offset then. -/
theorem applyFrom_front {later : List Edit} {limit : Nat} : ∀ {edits : List Edit} (front back : Text),
    source = front ++ back → (∀ e ∈ edits, Inside source e) → InTurn front.bytes (edits ++ later) →
    front.bytes ≤ limit → (∀ e ∈ edits, e.stop ≤ limit) →
    ∃ front' back' made, source = front' ++ back' ∧ front'.bytes ≤ limit ∧
      InTurn front'.bytes later ∧ applyFrom source front.bytes (edits ++ later) =
        (applyFrom source front'.bytes later).map (made ++ ·)
  | [], front, back, whole, _, turn, here, _ => by
      refine ⟨front, back, [], whole, here, turn, ?_⟩
      rw [List.nil_append]
      cases applyFrom source front.bytes later <;> rfl
  | e :: es, front, back, whole, inside, ⟨behind, turn⟩, _, ends => by
      obtain ⟨kept, gone, rest, split, _, stops, step⟩ :=
        applyFrom_cons (whole ▸ inside e List.mem_cons_self) behind (es ++ later)
      have whole' : source = front ++ kept ++ gone ++ rest := by rw [whole, split]; simp
      have end_le := ends e List.mem_cons_self
      rw [stops] at turn end_le
      obtain ⟨front', back', made, whole'', upTo, turn', passed⟩ :=
        applyFrom_front (front ++ kept ++ gone) rest whole'
          (fun f listed => inside f (List.mem_cons_of_mem e listed)) turn end_le
          (fun f listed => ends f (List.mem_cons_of_mem e listed))
      refine ⟨front', back', kept ++ e.text ++ made, whole'', upTo, turn', ?_⟩
      rw [List.cons_append, whole, step, ← whole, stops, passed]
      cases applyFrom source front'.bytes later with
      | error _ => rfl
      | ok made' => simp [Except.map]

/-- The edits that end in front of an offset leave the cursor in front of it, and what is to be done from
there on is done as if there were no others. -/
theorem apply_front {front back : Text} {early late : List Edit}
    (inside : ∀ e ∈ early, Inside (front ++ back) e) (turn : InTurn 0 (early ++ late))
    (ends : ∀ e ∈ early, e.stop ≤ front.bytes) :
    ∃ front' between made, front = front' ++ between ∧ InTurn front'.bytes late ∧
      applyFrom (front ++ back) 0 (early ++ late) =
        (applyFrom (front ++ back) front'.bytes late).map (made ++ ·) := by
  obtain ⟨front', back', made, whole, upTo, turn', passed⟩ :=
    applyFrom_front [] (front ++ back) (List.nil_append _).symm inside turn (Nat.zero_le _) ends
  obtain ⟨between, split, _⟩ := Text.front_of_le whole.symm upTo
  exact ⟨front', between, made, split, turn', passed⟩

/-- Edits that begin behind a part of the text keep it. -/
theorem applyFrom_behind {front part back : Text}
    (inside : ∀ e ∈ edits, Inside (front ++ (part ++ back)) e)
    (turn : InTurn front.bytes edits) (behind : ∀ e ∈ edits, (front ++ part).bytes ≤ e.start) :
    ∃ made, applyFrom (front ++ (part ++ back)) front.bytes edits = .ok (part ++ made) := by
  obtain ⟨made, passed, _⟩ := applyFrom_ok front (part ++ back) inside turn
  cases edits with
  | nil =>
      rw [applyFrom, Text.dropBytes?_append]
      exact ⟨back, rfl⟩
  | cons e es =>
      obtain ⟨kept, gone, rest, split, starts, stops, step⟩ :=
        applyFrom_cons (inside e List.mem_cons_self) turn.1 es
      have late := behind e List.mem_cons_self
      rw [starts, Text.bytes_append, Text.bytes_append] at late
      obtain ⟨more, rfl, _⟩ :=
        Text.front_of_le (split.trans (List.append_assoc kept gone rest)) (by omega)
      rw [step] at passed ⊢
      cases applied : applyFrom (front ++ (part ++ back)) e.stop es with
      | error _ =>
          rw [applied] at passed
          cases passed
      | ok made' => exact ⟨more ++ e.text ++ made', by simp [Except.map]⟩

/-- An edit that keeps clear of the bytes between two offsets. -/
def Avoids (e : Edit) (start stop : Nat) : Prop := e.stop ≤ start ∨ stop ≤ e.start

/-- Edits in order that avoid a part of the text stand in front of it up to some edit, and behind it from
there on. -/
theorem avoiding_split {start stop : Nat} (some_part : start < stop) : ∀ {edits : List Edit},
    (edits.Pairwise fun a b => a.place ≤ b.place) → (∀ e ∈ edits, e.start ≤ e.stop) →
    (∀ e ∈ edits, e.Avoids start stop) →
    ∃ early late, edits = early ++ late ∧ (∀ e ∈ early, e.stop ≤ start) ∧ ∀ e ∈ late, stop ≤ e.start
  | [], _, _, _ => ⟨[], [], rfl, by simp, by simp⟩
  | e :: es, sorted, inside, avoids => by
      obtain ⟨least, sorted'⟩ := List.pairwise_cons.mp sorted
      rcases avoids e List.mem_cons_self with before | behind
      · obtain ⟨early, late, rfl, ends, begins⟩ := avoiding_split some_part sorted'
          (fun f listed => inside f (List.mem_cons_of_mem e listed))
          (fun f listed => avoids f (List.mem_cons_of_mem e listed))
        exact ⟨e :: early, late, rfl, List.forall_mem_cons.mpr ⟨before, ends⟩, begins⟩
      · refine ⟨[], e :: es, rfl, by simp, List.forall_mem_cons.mpr ⟨behind, fun f listed => ?_⟩⟩
        rcases place_le.mp (least f listed) with later | ⟨level, _⟩ <;> omega

/-- A part of the text that all edits avoid is in the text that they make. -/
theorem apply_avoiding {front part back : Text} (some_part : part ≠ [])
    (inside : ∀ e ∈ edits, Inside (front ++ (part ++ back)) e) (clear : Clear edits)
    (avoids : ∀ e ∈ edits, e.Avoids front.bytes (front ++ part).bytes) :
    ∃ before behind, apply (front ++ (part ++ back)) edits = .ok (before ++ (part ++ behind)) := by
  have inside' := inside_inOrder inside
  have listed {e : Edit} : e ∈ inOrder edits → e ∈ edits :=
    (inOrder_stableSort edits).perm.mem_iff.mp
  have long : front.bytes < (front ++ part).bytes := by
    have pos := mt Text.bytes_eq_zero some_part
    rw [Text.bytes_append]
    omega
  obtain ⟨early, late, split, ends, begins⟩ := avoiding_split long (inOrder_stableSort edits).sorted
    (fun e among => (inside' e among).le) (fun e among => avoids e (listed among))
  have turn := (inTurn_inOrder_iff inside).mpr clear
  unfold apply
  rw [split] at turn inside' ⊢
  obtain ⟨front', between, made, rfl, turn', passed⟩ :=
    apply_front (fun e among => inside' e (List.mem_append_left _ among)) turn ends
  have same : front' ++ between ++ (part ++ back) = front' ++ (between ++ part ++ back) := by simp
  obtain ⟨made', passed'⟩ := applyFrom_behind
    (fun e among => same ▸ inside' e (List.mem_append_right _ among)) turn' fun e among => by
      simpa using begins e among
  refine ⟨made ++ between, made', ?_⟩
  rw [passed, same, passed']
  simp [Except.map]

/-- In the order of places an edit in a part of the text stands behind the edits in front of the part and in
front of those behind it. -/
theorem order_around (e : Edit) {others : List Edit} {start stop : Nat} (le : ∀ f ∈ others, f.start ≤ f.stop)
    (avoids : ∀ f ∈ others, f.Avoids start stop) (lower : start ≤ e.start) (shorter : start < e.stop)
    (upper : e.start < stop) :
    ∃ early late, inOrder (others ++ [e]) = early ++ e :: late ∧ (∀ f ∈ early, f.stop ≤ start) ∧
      ∀ f ∈ late, stop ≤ f.start := by
  have sort := inOrder_stableSort (others ++ [e])
  have perm := sort.perm
  have sorted := sort.sorted
  obtain ⟨early, late, split⟩ := List.append_of_mem
    (perm.mem_iff.mpr (List.mem_append_right others (List.mem_singleton_self e)))
  rw [split] at perm sorted
  have around : (early ++ late).Perm others := (List.perm_cons e).mp
    ((List.perm_middle.symm.trans perm).trans (List.perm_append_singleton e others))
  rw [List.pairwise_append, List.pairwise_cons] at sorted
  obtain ⟨_, ⟨least, _⟩, most⟩ := sorted
  refine ⟨early, late, split, fun f among => ?_, fun f among => ?_⟩
  · have first := place_le.mp (most f among e List.mem_cons_self)
    rcases avoids f (around.mem_iff.mp (List.mem_append_left _ among)) with before | behind
    · exact before
    · omega
  · have other := around.mem_iff.mp (List.mem_append_right _ among)
    have second := place_le.mp (least f among)
    have f_le := le f other
    rcases avoids f other with before | behind
    · omega
    · exact behind

/-- An edit inside a part of the text that all other edits avoid is made in that part. -/
theorem apply_part {front part gone rest back : Text} {others : List Edit}
    (inside : ∀ f ∈ others ++ [e], Inside (front ++ (part ++ gone ++ rest ++ back)) f)
    (clear : Clear (others ++ [e])) (starts : e.start = (front ++ part).bytes)
    (stops : e.stop = (front ++ part ++ gone).bytes) (behind : part ++ gone ≠ [])
    (ahead : gone ++ rest ≠ [])
    (avoids : ∀ f ∈ others, f.Avoids front.bytes (front ++ (part ++ gone ++ rest)).bytes) :
    ∃ before after, apply (front ++ (part ++ gone ++ rest ++ back)) (others ++ [e]) =
      .ok (before ++ (part ++ e.text ++ rest ++ after)) := by
  have inside' := inside_inOrder inside
  have turn := (inTurn_inOrder_iff inside).mpr clear
  have after_front := mt Text.bytes_eq_zero behind
  have before_end := mt Text.bytes_eq_zero ahead
  have le (f : Edit) (other : f ∈ others) := (inside f (List.mem_append_left _ other)).le
  simp only [Text.bytes_append] at starts stops after_front before_end avoids
  obtain ⟨early, late, split, ends, begins⟩ :=
    order_around e le avoids (by omega) (by omega) (by omega)
  unfold apply
  rw [split] at turn inside' ⊢
  obtain ⟨front', between, made, rfl, turn', passed⟩ :=
    apply_front (fun f among => inside' f (List.mem_append_left _ among)) turn ends
  simp only [Text.bytes_append] at starts stops begins
  -- the cursor stands in front of the part, and goes on behind the edit
  have same : front' ++ between ++ (part ++ gone ++ rest ++ back) =
      front' ++ (between ++ part ++ (gone ++ (rest ++ back))) := by simp
  rw [passed, same]
  rw [same] at inside'
  obtain ⟨kept, gone', rest', cut, starts', stops', step⟩ := applyFrom_cons
    (inside' e (List.mem_append_right _ List.mem_cons_self)) turn'.1 late
  simp only [Text.bytes_append] at starts' stops'
  obtain ⟨rfl, cut'⟩ : between ++ part = kept ∧ gone ++ (rest ++ back) = gone' ++ rest' :=
    Text.split_eq (by rw [cut, List.append_assoc]) (by rw [Text.bytes_append]; omega)
  rw [Text.bytes_append] at starts' stops'
  obtain ⟨rfl, rfl⟩ : gone = gone' ∧ rest ++ back = rest' := Text.split_eq cut' (by omega)
  have same' : front' ++ (between ++ part ++ (gone ++ (rest ++ back))) =
      front' ++ (between ++ part) ++ gone ++ (rest ++ back) := by simp
  have reached : e.stop = (front' ++ (between ++ part) ++ gone).bytes := by
    simp only [Text.bytes_append]
    omega
  obtain ⟨made', passed'⟩ := applyFrom_behind
    (fun f among => same' ▸ inside' f (List.mem_append_right _ (List.mem_cons_of_mem e among)))
    (reached ▸ turn'.2) fun f among => by
      have late_start := begins f among
      simp only [Text.bytes_append]
      omega
  refine ⟨made ++ between, made', ?_⟩
  rw [step, same', reached, passed']
  simp [Except.map]

/-- Edits of a text are made at once exactly if no two of them conflict. Then the text is what they
give one after the other, the last place first; what is put in at an offset stands in the order of the
list, in front of what replaces something there. Otherwise the pass names the first edit, in the order
of places, that begins before the one in front of it ends. A list that holds the same edits of each
place in the same order gives the same. -/
theorem apply_substitutes (source : Text) (edits : List Edit)
    (inside : ∀ e ∈ edits, Inside source e) :
    ((∃ made, apply source edits = .ok made) ↔ Clear edits) ∧
      (∃ sorted, StableSort place edits sorted ∧
        (∀ made, apply source edits = .ok made → lastFirst? source sorted = some made ∧
          ∀ n, sorted.filter (fun e => e.start = n) =
            edits.filter (fun e => e.start = n ∧ e.stop = n) ++
              edits.filter (fun e => e.start = n ∧ n < e.stop)) ∧
        (¬ Clear edits → ∃ before e f after, sorted = before ++ e :: f :: after ∧
          InTurn 0 (before ++ [e]) ∧ f.start < e.stop ∧
          apply source edits = .error (.overlap f.start))) ∧
      ∀ other : List Edit, (∀ start stop,
          other.filter (fun e => e.start = start ∧ e.stop = stop) =
            edits.filter (fun e => e.start = start ∧ e.stop = stop)) →
        apply source other = apply source edits := by
  refine ⟨apply_ok_iff inside, ⟨inOrder edits, inOrder_stableSort edits, ?_, ?_⟩, ?_⟩
  · intro made passed
    have clear := (apply_ok_iff inside).mp ⟨made, passed⟩
    obtain ⟨made', passed', last⟩ := apply_clear inside clear
    obtain rfl : made = made' := Except.ok.inj (passed.symm.trans passed')
    exact ⟨last, inOrder_start (fun e listed => (inside e listed).le) clear⟩
  · exact apply_overlap inside
  · intro other ties
    unfold apply
    rw [inOrder_congr ties]

/-- Two words put in in front of one that goes, and a change further up. -/
def mixedEdits : List Edit :=
  [insert 3 "b".toList, ⟨3, 4, "d".toList⟩, insert 3 "c".toList, ⟨0, 2, "a".toList⟩]

theorem apply_substitutes_mixed :
    (∀ e ∈ mixedEdits, Inside "éxyz".toList e) ∧ Clear mixedEdits ∧
      ∃ sorted, StableSort place mixedEdits sorted ∧
        lastFirst? "éxyz".toList sorted = some "axbcdz".toList := by
  have inside : ∀ e ∈ mixedEdits, Inside "éxyz".toList e := by decide
  obtain ⟨ok_iff, ⟨sorted, sort, last, _⟩, _⟩ := apply_substitutes "éxyz".toList mixedEdits inside
  have made : apply "éxyz".toList mixedEdits = .ok "axbcdz".toList := by decide
  exact ⟨inside, ok_iff.mp ⟨_, made⟩, sorted, sort, (last _ made).1⟩

end Edit

end ClientMigration
