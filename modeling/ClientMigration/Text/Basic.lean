/-
# Text -- characters, and the bytes they stand for

Source text is a list of characters. Every position and length that the library
reports counts UTF-8 bytes, so this module says how many bytes a text takes and
cuts a text at a byte offset. A cut exists only between two characters: an
offset inside a character, or past the end, has none.
-/

namespace ClientMigration

set_option autoImplicit false

/-- Characters of a text, first to last. -/
abbrev Text := List Char

namespace Text

/-- Length in UTF-8 bytes. -/
def bytes : Text → Nat
  | [] => 0
  | c :: t => c.utf8Size + bytes t

/-- What is left after the first `n` bytes. -/
def dropBytes? : Nat → Text → Option Text
  | 0, t => some t
  | _ + 1, [] => none
  | n + 1, c :: t =>
    if c.utf8Size ≤ n + 1 then dropBytes? (n + 1 - c.utf8Size) t else none

/-- The first `n` bytes. -/
def takeBytes? : Nat → Text → Option Text
  | 0, _ => some []
  | _ + 1, [] => none
  | n + 1, c :: t =>
    if c.utf8Size ≤ n + 1 then (takeBytes? (n + 1 - c.utf8Size) t).map (c :: ·) else none

/-- The text from byte `start` up to byte `stop`. -/
def slice? (t : Text) (start stop : Nat) : Option Text :=
  if start ≤ stop then (dropBytes? start t).bind (takeBytes? (stop - start)) else none

/-- The text between two offsets, empty where there is none. -/
def slice (t : Text) (start stop : Nat) : Text := (slice? t start stop).getD []

/-- Whether `t` begins with `head`. -/
def startsWith (t : Text) (head : String) : Bool := head.toList.isPrefixOf t

/-- What follows `head` at the beginning of `t`. -/
def after? (t : Text) (head : String) : Option Text :=
  if t.startsWith head then some (t.drop head.length) else none

/-- Every place in `t` where `word` begins, as the text from there on. -/
def occurrences (word : String) : Text → List Text
  | [] => if word.isEmpty then [[]] else []
  | c :: t =>
    if startsWith (c :: t) word then (c :: t) :: occurrences word t else occurrences word t

/-- Whether `word` occurs in `t`. -/
def mentions (t : Text) (word : String) : Bool := !(occurrences word t).isEmpty

/-- Whether a line ends in `t`. -/
def hasLineFeed (t : Text) : Bool := t.any (· == '\n')

theorem bytes_append (a b : Text) : bytes (a ++ b) = bytes a + bytes b := by
  induction a with
  | nil => simp [bytes]
  | cons c a ih => simp [bytes, ih, Nat.add_assoc]

theorem utf8Size_pos (c : Char) : 0 < c.utf8Size := Char.utf8Size_pos c

/-- Dropping the bytes of a prefix leaves the rest. -/
theorem dropBytes?_append (a b : Text) : dropBytes? (bytes a) (a ++ b) = some b := by
  induction a with
  | nil => cases b <;> rfl
  | cons c a ih =>
    have hc := utf8Size_pos c
    obtain ⟨n, hn⟩ : ∃ n, bytes (c :: a) = n + 1 := ⟨bytes (c :: a) - 1, by simp [bytes]; omega⟩
    have hle : c.utf8Size ≤ n + 1 := by simp [bytes] at hn; omega
    have hsub : n + 1 - c.utf8Size = bytes a := by simp [bytes] at hn; omega
    rw [hn, List.cons_append, dropBytes?, if_pos hle, hsub, ih]

/-- The bytes of a prefix are that prefix. -/
theorem takeBytes?_append (a b : Text) : takeBytes? (bytes a) (a ++ b) = some a := by
  induction a with
  | nil => cases b <;> rfl
  | cons c a ih =>
    have hc := utf8Size_pos c
    obtain ⟨n, hn⟩ : ∃ n, bytes (c :: a) = n + 1 := ⟨bytes (c :: a) - 1, by simp [bytes]; omega⟩
    have hle : c.utf8Size ≤ n + 1 := by simp [bytes] at hn; omega
    have hsub : n + 1 - c.utf8Size = bytes a := by simp [bytes] at hn; omega
    rw [hn, List.cons_append, takeBytes?, if_pos hle, hsub, ih]
    rfl

theorem slice?_append (a b c : Text) :
    slice? (a ++ b ++ c) (bytes a) (bytes a + bytes b) = some b := by
  rw [slice?, if_pos (Nat.le_add_right _ _), List.append_assoc, dropBytes?_append]
  simp [takeBytes?_append]

end Text

end ClientMigration
