/-
# Data.Toml -- TOML texts

Reads a TOML text into a record. A table may be given by a header, by keys with
points, or between braces; no key is given twice, and a table given in one way is
not given again or extended in another.
-/
import ClientMigration.Data.Json

namespace ClientMigration.Toml

set_option autoImplicit false

/-! ## Blanks, comments and lines -/

def skipBlanks (t : Text) : Text := t.dropWhile fun c => c == ' ' || c == '\t'

/-- Characters that may stand in a comment or between quotes. -/
def isPlain (c : Char) : Bool := c == '\t' || (0x20 ≤ c.toNat && c.toNat != 0x7F)

def skipComment : Text → Text
  | '#' :: r => r.dropWhile isPlain
  | t => t

/-- What follows the end of a line. -/
def readNewLine : Text → Option Text
  | '\n' :: r => some r
  | '\r' :: '\n' :: r => some r
  | _ => none

/-- What follows a line of which nothing but blanks and a comment is left. -/
def readLineEnd (t : Text) : Option Text :=
  match skipComment (skipBlanks t) with
  | [] => some []
  | r => readNewLine r

/-- Past blanks, comments and ends of lines. -/
def skipGap : Nat → Text → Text
  | 0, t => t
  | fuel + 1, t =>
    let r := skipComment (skipBlanks t)
    match readNewLine r with
    | some r => skipGap fuel r
    | none => r

/-! ## Strings -/

/-- The number that `count` hexadecimal digits write. -/
def readHex : Nat → Nat → Text → Option (Nat × Text)
  | 0, n, t => some (n, t)
  | count + 1, n, c :: r => (Json.hexDigit? c).bind fun d => readHex count (n * 16 + d) r
  | _ + 1, _, [] => none

/-- The character with a number that hexadecimal digits write. -/
def readScalar (count : Nat) (t : Text) : Option (Char × Text) :=
  match readHex count 0 t with
  | some (n, r) => if h : n.isValidChar then some (Char.ofNatAux n h, r) else none
  | none => none

/-- The character that stands behind a backslash. -/
def readEscape : Text → Option (Char × Text)
  | '"' :: r => some ('"', r)
  | '\\' :: r => some ('\\', r)
  | 'b' :: r => some ('\x08', r)
  | 'f' :: r => some ('\x0c', r)
  | 'n' :: r => some ('\n', r)
  | 'r' :: r => some ('\r', r)
  | 't' :: r => some ('\t', r)
  | 'u' :: r => readScalar 4 r
  | 'U' :: r => readScalar 8 r
  | _ => none

/-- The rest of a string on one line behind its opening quote. -/
def readLineString (quote : Char) : Nat → Text → Option (Text × Text)
  | 0, _ => none
  | _ + 1, [] => none
  | fuel + 1, c :: r =>
    if c == quote then some ([], r)
    else if c == '\\' && quote == '"' then
      match readEscape r with
      | some (x, r) => (readLineString quote fuel r).map fun (s, r) => (x :: s, r)
      | none => none
    else if isPlain c then (readLineString quote fuel r).map fun (s, r) => (c :: s, r)
    else none

/-- What follows a backslash at the end of a line, without the blanks in front of the next text. -/
def readJoin (fuel : Nat) (t : Text) : Option Text :=
  match readNewLine (skipBlanks t) with
  | some r => some (skipLines fuel r)
  | none => none
where
  skipLines : Nat → Text → Text
    | 0, t => t
    | fuel + 1, t =>
      match readNewLine (skipBlanks t) with
      | some r => skipLines fuel r
      | none => skipBlanks t

/-- The rest of a string of several lines behind its three opening quotes. The closing ones may
stand behind one or two more. -/
def readLongString (quote : Char) : Nat → Text → Option (Text × Text)
  | 0, _ => none
  | fuel + 1, t =>
    let quotes := t.takeWhile (· == quote)
    if 3 ≤ quotes.length then
      if quotes.length ≤ 5 then some (quotes.drop 3, t.drop quotes.length) else none
    else
      match t with
      | [] => none
      | c :: r =>
        match readNewLine t with
        | some r => (readLongString quote fuel r).map fun (s, r) => ('\n' :: s, r)
        | none =>
          if c == '\\' && quote == '"' then
            match readEscape r with
            | some (x, r) => (readLongString quote fuel r).map fun (s, r) => (x :: s, r)
            | none => (readJoin fuel r).bind (readLongString quote fuel)
          else if isPlain c then (readLongString quote fuel r).map fun (s, r) => (c :: s, r)
          else none

/-- The string of several lines without an end of line right behind its opening quotes. -/
def readLong (quote : Char) (t : Text) : Option (Text × Text) :=
  readLongString quote (t.length + 1) ((readNewLine t).getD t)

def readString : Text → Option (String × Text)
  | '"' :: '"' :: '"' :: r => (readLong '"' r).map fun (s, r) => (String.ofList s, r)
  | '\'' :: '\'' :: '\'' :: r => (readLong '\'' r).map fun (s, r) => (String.ofList s, r)
  | '"' :: r => (readLineString '"' (r.length + 1) r).map fun (s, r) => (String.ofList s, r)
  | '\'' :: r => (readLineString '\'' (r.length + 1) r).map fun (s, r) => (String.ofList s, r)
  | _ => none

/-! ## Keys -/

def isBare (c : Char) : Bool := c.isAlphanum || c == '_' || c == '-'

/-- One key, bare or between quotes. -/
def readKey (t : Text) : Option (String × Text) :=
  match t with
  | '"' :: r => (readLineString '"' (r.length + 1) r).map fun (s, r) => (String.ofList s, r)
  | '\'' :: r => (readLineString '\'' (r.length + 1) r).map fun (s, r) => (String.ofList s, r)
  | _ =>
    match t.takeWhile isBare with
    | [] => none
    | key => some (String.ofList key, t.drop key.length)

/-- Keys with points between them, and what follows the blanks behind the last. -/
def readKeys : Nat → Text → Option (List String × Text)
  | 0, _ => none
  | fuel + 1, t =>
    match readKey (skipBlanks t) with
    | none => none
    | some (key, r) =>
      match skipBlanks r with
      | '.' :: r => (readKeys fuel r).map fun (keys, r) => (key :: keys, r)
      | r => some ([key], r)

/-! ## Numbers and dates -/

/-- Digits with single underscores between them. -/
def readDigits (isDigit : Char → Bool) : Text → Option (Text × Text)
  | [] => none
  | c :: r =>
    if isDigit c then
      match r with
      | '_' :: d :: r' =>
        if isDigit d then (readDigits isDigit (d :: r')).map fun (ds, r) => (c :: ds, r) else none
      | '_' :: [] => none
      | d :: r' =>
        if isDigit d then (readDigits isDigit (d :: r')).map fun (ds, r) => (c :: ds, r)
        else some ([c], d :: r')
      | [] => some ([c], [])
    else none

def valueIn (base : Nat) (digits : Text) : Nat :=
  digits.foldl (fun n c => n * base + (Json.hexDigit? c).getD 0) 0

/-- A whole number in range. -/
def wholeDatum (n : Int) : Option Datum :=
  if Datum.fitsWord n then some (.whole n) else none

def readInBase (base : Nat) (isDigit : Char → Bool) (t : Text) : Option (Datum × Text) := do
  let (digits, r) ← readDigits isDigit t
  let d ← wholeDatum (valueIn base digits)
  some (d, r)

/-- A decimal number, with its sign read already. Above the range of floating-point numbers there
are none. -/
def readDecimal (negative : Bool) (t : Text) : Option (Datum × Text) := do
  let (front, r) ← readDigits Char.isDigit t
  if 1 < front.length && front.head? == some '0' then none
  else
    let (places, r, hasPoint) ←
      match r with
      | '.' :: r => (readDigits Char.isDigit r).map fun (ds, r) => (ds, r, true)
      | _ => some (([] : Text), r, false)
    let (exponent, r, hasExponent) ←
      match r with
      | e :: r' =>
        if e == 'e' || e == 'E' then
          let (down, r') : Bool × Text :=
            match r' with
            | '-' :: r'' => (true, r'')
            | '+' :: r'' => (false, r'')
            | _ => (false, r')
          (readDigits Char.isDigit r').map fun (ds, r) =>
            let n : Int := valueIn 10 ds
            (if down then -n else n, r, true)
        else some ((0 : Int), e :: r', false)
      | [] => some ((0 : Int), [], false)
    let n := valueIn 10 front
    if hasPoint || hasExponent then
      let d : Datum := .fraction negative (valueIn 10 (front ++ places)) (exponent - places.length)
      if !negative && d.float?.isNone then none else some (d, r)
    else
      let d ← wholeDatum (if negative then -(n : Int) else n)
      some (d, r)

/-- The number that exactly `count` digits write. -/
def readFixed (count : Nat) (t : Text) : Option (Nat × Text) :=
  let digits := t.take count
  if digits.length == count && digits.all Char.isDigit then some (valueIn 10 digits, t.drop count)
  else none

def daysIn (year month : Nat) : Nat :=
  if month == 2 then
    if year % 4 == 0 && (year % 100 != 0 || year % 400 == 0) then 29 else 28
  else if [4, 6, 9, 11].contains month then 30
  else 31

/-- What follows a date. -/
def readDate (t : Text) : Option Text := do
  let (year, r) ← readFixed 4 t
  match r with
  | '-' :: r =>
    let (month, r) ← readFixed 2 r
    match r with
    | '-' :: r =>
      let (day, r) ← readFixed 2 r
      if 1 ≤ month && month ≤ 12 && 1 ≤ day && day ≤ daysIn year month then some r else none
    | _ => none
  | _ => none

/-- What follows a time of day. -/
def readTime (t : Text) : Option Text := do
  let (hour, r) ← readFixed 2 t
  match r with
  | ':' :: r =>
    let (minute, r) ← readFixed 2 r
    match r with
    | ':' :: r =>
      let (second, r) ← readFixed 2 r
      if hour ≤ 23 && minute ≤ 59 && second ≤ 60 then
        match r with
        | '.' :: d :: r => if d.isDigit then some (r.dropWhile Char.isDigit) else none
        | _ => some r
      else none
    | _ => none
  | _ => none

/-- What follows the distance from universal time, if there is one. -/
def readOffset : Text → Option Text
  | 'Z' :: r => some r
  | 'z' :: r => some r
  | c :: r =>
    if c == '+' || c == '-' then do
      let (hour, r) ← readFixed 2 r
      match r with
      | ':' :: r =>
        let (minute, r) ← readFixed 2 r
        if hour ≤ 23 && minute ≤ 59 then some r else none
      | _ => none
    else some (c :: r)
  | [] => some []

/-- What follows a date, a time, or both. -/
def readMoment (t : Text) : Option Text :=
  match readDate t with
  | none => readTime t
  | some r =>
    match r with
    | c :: r' =>
      if c == 'T' || c == 't' || (c == ' ' && (readTime r').isSome) then (readTime r').bind readOffset
      else some r
    | [] => some r

/-- Whether a text begins with a number and the mark behind it that makes it a date or a time. -/
def looksLikeMoment (t : Text) : Bool :=
  let digits := t.takeWhile Char.isDigit
  match t.drop digits.length with
  | '-' :: _ => digits.length == 4
  | ':' :: _ => digits.length == 2
  | _ => false

def isOctal (c : Char) : Bool := '0' ≤ c && c ≤ '7'

def isBinary (c : Char) : Bool := c == '0' || c == '1'

/-- A number without its sign, or an infinity, or what is no number. -/
def readUnsigned (signed negative : Bool) (t : Text) : Option (Datum × Text) :=
  match t with
  | 'i' :: 'n' :: 'f' :: r => some (.foreign, r)
  | 'n' :: 'a' :: 'n' :: r => some (.foreign, r)
  | '0' :: 'x' :: r => if signed then none else readInBase 16 (Json.hexDigit? · |>.isSome) r
  | '0' :: 'o' :: r => if signed then none else readInBase 8 isOctal r
  | '0' :: 'b' :: r => if signed then none else readInBase 2 isBinary r
  | _ => readDecimal negative t

def readNumber (t : Text) : Option (Datum × Text) :=
  match t with
  | '-' :: r => readUnsigned true true r
  | '+' :: r => readUnsigned true false r
  | _ =>
    if looksLikeMoment t then (readMoment t).map fun r => (.foreign, r)
    else readUnsigned false false t

/-! ## Tables -/

/-- What stands under a key while a text is read. -/
inductive Entry where
  | value (d : Datum)
  /-- A table. It is implicit if no header gave it, and dotted if keys with points did. -/
  | table (isImplicit isDotted : Bool) (entries : List (String × Entry))
  /-- Tables in a list, the latest first. -/
  | tables (items : List (List (String × Entry)))

abbrev Entries := List (String × Entry)

mutual

def Entry.datum : Entry → Datum
  | .value d => d
  | .table _ _ es => .record (entriesData es)
  | .tables items => .list (itemsData items).reverse

def entriesData : List (String × Entry) → List (String × Datum)
  | [] => []
  | (key, e) :: es => (key, e.datum) :: entriesData es

def itemsData : List (List (String × Entry)) → List Datum
  | [] => []
  | es :: rest => .record (entriesData es) :: itemsData rest

end

/-- The entries with another one under a key that they have. -/
def replaceEntry (key : String) (e : Entry) (es : Entries) : Entries :=
  es.map fun old => if old.1 == key then (key, e) else old

/-- Changes the table that keys lead to, making tables on the way. `byPoints` tells that the keys have
points between them, and not a header around them; then a table that a header gave is not entered.
The change is told whether the table is dotted. -/
def within (byPoints : Bool) (change : Bool → Entries → Option Entries) :
    List String → Bool → Entries → Option Entries
  | [], isDotted, es => change isDotted es
  | key :: keys, _, es =>
    match es.lookup key with
    | none =>
      (within byPoints change keys byPoints []).map fun new =>
        es ++ [(key, .table true byPoints new)]
    | some (.value _) => none
    | some (.tables []) => none
    | some (.tables (last :: before)) =>
      (within byPoints change keys false last).map fun new =>
        replaceEntry key (.tables (new :: before)) es
    | some (.table isImplicit isDotted inner) =>
      if byPoints && !isImplicit then none
      else
        (within byPoints change keys isDotted inner).map fun new =>
          replaceEntry key (.table isImplicit isDotted new) es

/-- Puts a value under keys with points between them. -/
def addValue (keys : List String) (d : Datum) (es : Entries) : Option Entries :=
  match keys.getLast? with
  | none => none
  | some key =>
    let front := keys.dropLast
    let change (isDotted : Bool) (es : Entries) : Option Entries :=
      if isDotted == front.isEmpty || (es.lookup key).isSome then none
      else some (es ++ [(key, .value d)])
    within true change front false es

/-- Opens the table of a header. -/
def openTable (keys : List String) (es : Entries) : Option Entries :=
  match keys.getLast? with
  | none => none
  | some key =>
    let change (_ : Bool) (es : Entries) : Option Entries :=
      match es.lookup key with
      | none => some (es ++ [(key, .table false false [])])
      | some (.table true false inner) => some (replaceEntry key (.table false false inner) es)
      | _ => none
    within false change keys.dropLast false es

/-- Opens one more table of a list. -/
def openItem (keys : List String) (es : Entries) : Option Entries :=
  match keys.getLast? with
  | none => none
  | some key =>
    let change (_ : Bool) (es : Entries) : Option Entries :=
      match es.lookup key with
      | none => some (es ++ [(key, .tables [[]])])
      | some (.tables items) => some (replaceEntry key (.tables ([] :: items)) es)
      | _ => none
    within false change keys.dropLast false es

/-! ## Values -/

mutual

/-- A value, with at most `depth` lists and tables around a value inside it. -/
def readValue : Nat → Nat → Text → Option (Datum × Text)
  | 0, _, _ => none
  | fuel + 1, depth, t =>
    match t with
    | 't' :: 'r' :: 'u' :: 'e' :: r => some (.boolean true, r)
    | 'f' :: 'a' :: 'l' :: 's' :: 'e' :: r => some (.boolean false, r)
    | '"' :: _ => (readString t).map fun (s, r) => (.text s, r)
    | '\'' :: _ => (readString t).map fun (s, r) => (.text s, r)
    | '[' :: r =>
      match depth with
      | 0 => none
      | depth + 1 => (readItems fuel depth r).map fun (items, r) => (.list items, r)
    | '\x7b' :: r =>
      match depth with
      | 0 => none
      | depth + 1 =>
        match skipBlanks r with
        | '\x7d' :: r => some (.record [], r)
        | r => (readPairs fuel depth [] r).map fun (es, r) => (.record (entriesData es), r)
    | _ => readNumber t

/-- The items of a list, through its closing bracket. -/
def readItems : Nat → Nat → Text → Option (List Datum × Text)
  | 0, _, _ => none
  | fuel + 1, depth, t =>
    match skipGap (t.length + 1) t with
    | ']' :: r => some ([], r)
    | r =>
      match readValue fuel depth r with
      | none => none
      | some (item, r) =>
        match skipGap (r.length + 1) r with
        | ',' :: r => (readItems fuel depth r).map fun (items, r) => (item :: items, r)
        | ']' :: r => some ([item], r)
        | _ => none

/-- The entries of a table between braces, through its closing brace, after those read already. -/
def readPairs : Nat → Nat → Entries → Text → Option (Entries × Text)
  | 0, _, _, _ => none
  | fuel + 1, depth, es, t =>
    match readKeys (t.length + 1) t with
    | some (keys, '=' :: r) =>
      match readValue fuel depth (skipBlanks r) with
      | none => none
      | some (d, r) =>
        match addValue keys d es with
        | none => none
        | some es =>
          match skipBlanks r with
          | ',' :: r => readPairs fuel depth es r
          | '\x7d' :: r => some (es, r)
          | _ => none
    | _ => none

end

/-! ## Documents -/

/-- A document so far: its entries, and the keys of the table that takes the next ones. -/
structure Document where
  entries : Entries := []
  current : List String := []

/-- A header of a table, behind its first bracket. -/
def readHeader (doc : Document) (t : Text) : Option (Document × Text) :=
  match t with
  | '[' :: r =>
    match readKeys (r.length + 1) r with
    | some (keys, ']' :: ']' :: r) =>
      (openItem keys doc.entries).map fun es => (⟨es, keys⟩, r)
    | _ => none
  | _ =>
    match readKeys (t.length + 1) t with
    | some (keys, ']' :: r) => (openTable keys doc.entries).map fun es => (⟨es, keys⟩, r)
    | _ => none

/-- A key with its value. -/
def readEntry (doc : Document) (t : Text) : Option (Document × Text) :=
  match readKeys (t.length + 1) t with
  | some (keys, '=' :: r) =>
    match readValue (2 * r.length + 2) 80 (skipBlanks r) with
    | some (d, r) =>
      (within false (fun _ es => addValue keys d es) doc.current false doc.entries).map fun es =>
        ({ doc with entries := es }, r)
    | none => none
  | _ => none

/-- Lines to the end of the text. -/
def readLines : Nat → Document → Text → Option Document
  | 0, _, _ => none
  | fuel + 1, doc, t =>
    match skipGap (t.length + 1) t with
    | [] => some doc
    | c :: r =>
      match if c == '[' then readHeader doc r else readEntry doc (c :: r) with
      | none => none
      | some (doc, r) => (readLineEnd r).bind (readLines fuel doc)

/-- The record that a text writes. A byte order mark in front of it does not matter. -/
def read (t : Text) : Option Datum :=
  let t :=
    match t with
    | '\uFEFF' :: r => r
    | _ => t
  (readLines (t.length + 1) {} t).map fun doc => .record (entriesData doc.entries)

end ClientMigration.Toml
