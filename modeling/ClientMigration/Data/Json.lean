/-
# Data.Json -- JSON texts

Reads a JSON text into a datum and writes a datum as JSON, on one line or
indented. Reading is strict: nothing may follow the value, no comma may end a
list, and a string may hold no control character. A string with half of a
surrogate pair is no text, and a record with such a name is no record; both are
refused only where a value is asked for, not where nobody looks.
-/
import ClientMigration.Data.Datum

namespace ClientMigration.Json

set_option autoImplicit false

/-! ## Reading -/

def skipBlanks (t : Text) : Text :=
  t.dropWhile fun c => c == ' ' || c == '\n' || c == '\t' || c == '\r'

def hexDigit? (c : Char) : Option Nat :=
  if c.isDigit then some (c.toNat - '0'.toNat)
  else if 'a' ≤ c && c ≤ 'f' then some (c.toNat - 'a'.toNat + 10)
  else if 'A' ≤ c && c ≤ 'F' then some (c.toNat - 'A'.toNat + 10)
  else none

/-- The number that four hexadecimal digits write. -/
def readHex : Text → Option (Nat × Text)
  | a :: b :: c :: d :: r => do
    let a ← hexDigit? a
    let b ← hexDigit? b
    let c ← hexDigit? c
    let d ← hexDigit? d
    some (((a * 16 + b) * 16 + c) * 16 + d, r)
  | _ => none

/-- The character behind `\u`, which takes two numbers if they are the halves of a pair. Half of a
pair alone is no character. -/
def readCodePoint (t : Text) : Option (Option Char × Text) :=
  match readHex t with
  | none => none
  | some (n, r) =>
    if n < 0xD800 || 0xDFFF < n then some (some (Char.ofNat n), r)
    else if 0xDC00 ≤ n then some (none, r)
    else
      match r with
      | '\\' :: 'u' :: r' =>
        match readHex r' with
        | some (m, r') =>
          if 0xDC00 ≤ m && m ≤ 0xDFFF then
            some (some (Char.ofNat (0x10000 + (n - 0xD800) * 0x400 + (m - 0xDC00))), r')
          else some (none, r)
        | none => none
      | _ => some (none, r)

/-- The character that a letter behind a backslash stands for. -/
def unescape? : Char → Option Char
  | '"' => some '"'
  | '\\' => some '\\'
  | '/' => some '/'
  | 'b' => some '\x08'
  | 'f' => some '\x0c'
  | 'n' => some '\n'
  | 'r' => some '\r'
  | 't' => some '\t'
  | _ => none

/-- One character of a string. -/
def readCharacter : Text → Option (Option Char × Text)
  | '\\' :: 'u' :: r => readCodePoint r
  | '\\' :: c :: r => (unescape? c).map fun x => (some x, r)
  | '\\' :: [] => none
  | c :: r => if c.toNat < 0x20 then none else some (some c, r)
  | [] => none

/-- The rest of a string behind its opening quote. -/
def readStringFrom : Nat → Text → Option (List (Option Char) × Text)
  | 0, _ => none
  | _ + 1, '"' :: r => some ([], r)
  | fuel + 1, t =>
    match readCharacter t with
    | none => none
    | some (c, r) => (readStringFrom fuel r).map fun (s, r) => (c :: s, r)

/-- The text that a string writes, if it is one, behind the opening quote. -/
def readString (t : Text) : Option (Option String × Text) :=
  (readStringFrom (t.length + 1) t).map fun (s, r) => ((s.mapM id).map String.ofList, r)

def digitsValue (digits : Text) : Nat :=
  digits.foldl (fun n c => n * 10 + (c.toNat - '0'.toNat)) 0

/-- The digits at the beginning of a text, at least one. -/
def readDigits (t : Text) : Option (Text × Text) :=
  match t.takeWhile Char.isDigit with
  | [] => none
  | digits => some (digits, t.drop digits.length)

/-- The digits in front of the point: a zero alone, or digits that begin with another. -/
def readWhole (t : Text) : Option (Text × Text) :=
  match t with
  | '0' :: c :: r => if c.isDigit then none else some (['0'], c :: r)
  | _ => readDigits t

/-- The digits behind a point, if there is one. -/
def readPlaces (t : Text) : Option (Text × Text) :=
  match t with
  | '.' :: r => readDigits r
  | _ => some ([], t)

/-- The exponent, if there is one. -/
def readExponent (t : Text) : Option (Option Int × Text) :=
  match t with
  | e :: r =>
    if e == 'e' || e == 'E' then
      let (negative, r) : Bool × Text :=
        match r with
        | '-' :: r => (true, r)
        | '+' :: r => (false, r)
        | _ => (false, r)
      (readDigits r).map fun (digits, r) =>
        let n : Int := digitsValue digits
        (some (if negative then -n else n), r)
    else some (none, t)
  | [] => some (none, t)

/-- A number. Minus zero is no whole number. -/
def readNumber (t : Text) : Option (Datum × Text) := do
  let (negative, r) : Bool × Text :=
    match t with
    | '-' :: r => (true, r)
    | _ => (false, t)
  let (front, r) ← readWhole r
  let (places, r) ← readPlaces r
  let (exponent?, r) ← readExponent r
  let n := digitsValue front
  let isWhole := places.isEmpty && exponent?.isNone && !(negative && n == 0)
  let value : Datum :=
    if isWhole then .whole (if negative then -(n : Int) else n)
    else .fraction negative (digitsValue (front ++ places)) (exponent?.getD 0 - places.length)
  some (value, r)

/-- The value of a string. -/
def stringDatum (s : Option String) : Datum := (s.map .text).getD .foreign

/-- The value of a record. -/
def recordDatum (entries : List (Option String × Datum)) : Datum :=
  let named (e : Option String × Datum) : Option (String × Datum) := e.1.map fun n => (n, e.2)
  ((entries.mapM named).map .record).getD .foreign

mutual

def readValue : Nat → Text → Option (Datum × Text)
  | 0, _ => none
  | fuel + 1, t =>
    match skipBlanks t with
    | 'n' :: 'u' :: 'l' :: 'l' :: r => some (.null, r)
    | 't' :: 'r' :: 'u' :: 'e' :: r => some (.boolean true, r)
    | 'f' :: 'a' :: 'l' :: 's' :: 'e' :: r => some (.boolean false, r)
    | '"' :: r => (readString r).map fun (s, r) => (stringDatum s, r)
    | '[' :: r =>
      match skipBlanks r with
      | ']' :: r => some (.list [], r)
      | r => (readItems fuel r).map fun (items, r) => (.list items, r)
    | '\x7b' :: r =>
      match skipBlanks r with
      | '\x7d' :: r => some (.record [], r)
      | r => (readEntries fuel r).map fun (entries, r) => (recordDatum entries, r)
    | r => readNumber r

/-- The items of a list, through its closing bracket. -/
def readItems : Nat → Text → Option (List Datum × Text)
  | 0, _ => none
  | fuel + 1, t =>
    match readValue fuel t with
    | none => none
    | some (item, r) =>
      match skipBlanks r with
      | ',' :: r => (readItems fuel r).map fun (items, r) => (item :: items, r)
      | ']' :: r => some ([item], r)
      | _ => none

/-- The entries of a record, through its closing brace. -/
def readEntries : Nat → Text → Option (List (Option String × Datum) × Text)
  | 0, _ => none
  | fuel + 1, t =>
    match skipBlanks t with
    | '"' :: r =>
      match readString r with
      | none => none
      | some (name, r) =>
        match skipBlanks r with
        | ':' :: r =>
          match readValue fuel r with
          | none => none
          | some (value, r) =>
            match skipBlanks r with
            | ',' :: r => (readEntries fuel r).map fun (rest, r) => ((name, value) :: rest, r)
            | '\x7d' :: r => some ([(name, value)], r)
            | _ => none
        | _ => none
    | _ => none

end

/-- The value that a text writes. Every call of a reader has gone past a character since the call
around it but one, so twice the length is enough. -/
def read (t : Text) : Option Datum :=
  match readValue (2 * t.length + 2) t with
  | some (d, r) => if (skipBlanks r).isEmpty then some d else none
  | none => none

/-! ## Writing -/

def hexDigit (n : Nat) : Char := (Nat.toDigits 16 n).headD '0'

/-- How a character is written between quotes. -/
def escaped (c : Char) : Text :=
  if c == '"' then ['\\', '"']
  else if c == '\\' then ['\\', '\\']
  else if c == '\n' then ['\\', 'n']
  else if c == '\r' then ['\\', 'r']
  else if c == '\t' then ['\\', 't']
  else if c == '\x08' then ['\\', 'b']
  else if c == '\x0c' then ['\\', 'f']
  else if c.toNat < 0x20 then
    ['\\', 'u', '0', '0', hexDigit (c.toNat / 16), hexDigit (c.toNat % 16)]
  else [c]

def quoted (s : String) : Text := '"' :: s.toList.flatMap escaped ++ ['"']

/-- The written form of what holds no other value. -/
def scalar : Datum → Text
  | .boolean b => (if b then "true" else "false").toList
  | .whole n => (toString n).toList
  | .fraction negative digits exponent =>
    ((if negative then "-" else "") ++ toString digits ++ "e" ++ toString exponent).toList
  | .text s => quoted s
  | _ => "null".toList

mutual

/-- A value on one line. -/
def compact : Datum → Text
  | .list items => '[' :: compactItems items ++ [']']
  | .record entries => '\x7b' :: compactEntries entries ++ ['\x7d']
  | .null => scalar .null
  | .boolean b => scalar (.boolean b)
  | .whole n => scalar (.whole n)
  | .fraction s d e => scalar (.fraction s d e)
  | .text s => scalar (.text s)
  | .foreign => scalar .foreign

def compactItems : List Datum → Text
  | [] => []
  | [d] => compact d
  | d :: ds => compact d ++ ',' :: compactItems ds

def compactEntries : List (String × Datum) → Text
  | [] => []
  | [(name, d)] => quoted name ++ ':' :: compact d
  | (name, d) :: es => quoted name ++ ':' :: compact d ++ ',' :: compactEntries es

end

/-- A new line at a depth of nesting. -/
def newLine (depth : Nat) : Text := '\n' :: List.replicate (2 * depth) ' '

mutual

/-- A value at a depth of nesting, each of its parts on a line of its own. -/
def indentedAt (depth : Nat) : Datum → Text
  | .list [] => ['[', ']']
  | .list (d :: ds) => '[' :: indentedItems (depth + 1) (d :: ds) ++ newLine depth ++ [']']
  | .record [] => ['\x7b', '\x7d']
  | .record (e :: es) =>
    '\x7b' :: indentedEntries (depth + 1) (e :: es) ++ newLine depth ++ ['\x7d']
  | .null => scalar .null
  | .boolean b => scalar (.boolean b)
  | .whole n => scalar (.whole n)
  | .fraction s d e => scalar (.fraction s d e)
  | .text s => scalar (.text s)
  | .foreign => scalar .foreign

def indentedItems (depth : Nat) : List Datum → Text
  | [] => []
  | [d] => newLine depth ++ indentedAt depth d
  | d :: ds => newLine depth ++ indentedAt depth d ++ ',' :: indentedItems depth ds

def indentedEntries (depth : Nat) : List (String × Datum) → Text
  | [] => []
  | [(name, d)] => newLine depth ++ quoted name ++ ':' :: ' ' :: indentedAt depth d
  | (name, d) :: es =>
    newLine depth ++ quoted name ++ ':' :: ' ' :: indentedAt depth d ++ ',' :: indentedEntries depth es

end

def indented (d : Datum) : Text := indentedAt 0 d

end ClientMigration.Json
