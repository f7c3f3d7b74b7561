/-
# Proofs.Data.JsonLine -- what is written on one line reads back

The same as for values with their parts on lines of their own, without blanks
between the parts: by induction over the datum, with what follows it left over
(`readValue_compact`). A number is told from what follows it by the mark that ends
or goes on with the list or the record it is in.

The theorem is `read_compact`.
-/
import ClientMigration.Proofs.Data.Json

namespace ClientMigration.Json

set_option autoImplicit false

theorem stops_bracket (r : Text) : Stops (']' :: r) := by
  intro c first
  cases first
  decide

theorem stops_brace (r : Text) : Stops ('\x7d' :: r) := by
  intro c first
  cases first
  decide

/-- A value that holds no other is written alike on one line and on several. -/
theorem readValue_scalar {d : Datum} (alone : compact d = indentedAt 0 d) {f : Nat} {r : Text}
    (stops : Stops r) (proper : Proper d) (enough : (compact d).length ≤ f) :
    readValue f (compact d ++ r) = some (d, r) := by
  rw [alone] at enough ⊢
  exact readValue_indentedAt d 0 stops proper enough

mutual

theorem readValue_compact :
    ∀ (d : Datum) {f : Nat} {r : Text}, Stops r → Proper d → (compact d).length ≤ f →
      readValue f (compact d ++ r) = some (d, r)
  | .foreign, _, _, _, proper, _ => proper.elim
  | .null, f, r, stops, proper, enough => readValue_scalar rfl stops proper enough
  | .boolean b, f, r, stops, proper, enough => readValue_scalar rfl stops proper enough
  | .whole n, f, r, stops, proper, enough => readValue_scalar rfl stops proper enough
  | .fraction negative n e, f, r, stops, proper, enough => readValue_scalar rfl stops proper enough
  | .text s, f, r, stops, proper, enough => readValue_scalar rfl stops proper enough
  | .list [], f, r, stops, proper, enough => readValue_scalar rfl stops proper enough
  | .record [], f, r, stops, proper, enough => readValue_scalar rfl stops proper enough
  | .list (d :: ds), fuel, r, stops, proper, enough => by
    obtain ⟨fuel, rfl⟩ := fuel_succ enough (by simp [compact])
    simp only [compact, List.cons_append, List.append_assoc, List.nil_append, List.length_cons,
      List.length_append, Nat.add_le_add_iff_right] at enough ⊢
    exact readValue_list (readItems_compactItems (d :: ds) (by simp) proper (by omega))
  | .record (e :: es), fuel, r, stops, proper, enough => by
    obtain ⟨fuel, rfl⟩ := fuel_succ enough (by simp [compact])
    simp only [compact, List.cons_append, List.append_assoc, List.nil_append, List.length_cons,
      List.length_append, Nat.add_le_add_iff_right] at enough ⊢
    rw [← recordDatum_named]
    exact readValue_record (readEntries_compactEntries (e :: es) (by simp) proper (by omega))

theorem readItems_compactItems :
    ∀ (ds : List Datum) {f : Nat} {r : Text}, ds ≠ [] → ProperItems ds →
      (compactItems ds).length < f → readItems f (compactItems ds ++ ']' :: r) = some (ds, r)
  | [], _, _, some', _, _ => absurd rfl some'
  | [d], fuel, r, _, proper, enough => by
    obtain ⟨fuel, rfl⟩ := Nat.exists_eq_succ_of_ne_zero (Nat.ne_of_gt (Nat.zero_lt_of_lt enough))
    simp only [compactItems] at enough ⊢
    exact readItems_last white_nil (readValue_compact d (stops_bracket r) proper.1 (by omega))
  | d :: d' :: ds, fuel, r, _, proper, enough => by
    obtain ⟨fuel, rfl⟩ := Nat.exists_eq_succ_of_ne_zero (Nat.ne_of_gt (Nat.zero_lt_of_lt enough))
    simp only [compactItems, List.append_assoc, List.length_append, List.cons_append,
      List.length_cons] at enough ⊢
    have items := readItems_compactItems (d' :: ds) (f := fuel) (r := r) (by simp) proper.2 (by omega)
    exact readItems_more (readValue_compact d (stops_comma _) proper.1 (by omega)) items

theorem readEntries_compactEntries :
    ∀ (es : List (String × Datum)) {f : Nat} {r : Text}, es ≠ [] → ProperEntries es →
      (compactEntries es).length < f →
      readEntries f (compactEntries es ++ '\x7d' :: r) = some (es.map fun e => (some e.1, e.2), r)
  | [], _, _, some', _, _ => absurd rfl some'
  | [(name, d)], fuel, r, _, proper, enough => by
    obtain ⟨fuel, rfl⟩ := Nat.exists_eq_succ_of_ne_zero (Nat.ne_of_gt (Nat.zero_lt_of_lt enough))
    simp only [compactEntries, List.append_assoc, List.length_append, List.cons_append,
      List.length_cons] at enough ⊢
    have value := readValue_compact d (f := fuel) (stops_brace r) proper.1 (by omega)
    show readEntries (fuel + 1) ([] ++ (quoted name ++ ':' :: ([] ++ (compact d ++ _)))) = _
    exact readEntries_last white_nil white_nil (white_nil : White []) value
  | (name, d) :: e :: es, fuel, r, _, proper, enough => by
    obtain ⟨fuel, rfl⟩ := Nat.exists_eq_succ_of_ne_zero (Nat.ne_of_gt (Nat.zero_lt_of_lt enough))
    simp only [compactEntries, List.append_assoc, List.length_append, List.cons_append,
      List.length_cons] at enough ⊢
    have entries := readEntries_compactEntries (e :: es) (f := fuel) (r := r) (by simp) proper.2 (by omega)
    have value := readValue_compact d (f := fuel)
      (stops_comma (compactEntries (e :: es) ++ '\x7d' :: r)) proper.1 (by omega)
    show readEntries (fuel + 1) ([] ++ (quoted name ++ ':' :: ([] ++ (compact d ++ _)))) = _
    exact readEntries_more white_nil white_nil value entries

end

/-- What is written on one line reads back. -/
theorem read_compact {d : Datum} (proper : Proper d) : read (compact d) = some d := by
  have value := readValue_compact d (f := 2 * (compact d).length + 2) (r := [])
    (fun _ first => by cases first) proper (by omega)
  rw [List.append_nil] at value
  unfold read
  rw [value]
  rfl

end ClientMigration.Json
