/-
# Rollout.Assignment -- the bucket of an installation

An installation has a token, and the token a bucket from 0 to 99. The token is
read from a store once. If there is none, or a blank one, a new token is written;
if the store fails, the new token lasts only as long as the run.
-/
import ClientMigration.Store.Basic
import ClientMigration.Text.Blank

namespace ClientMigration

set_option autoImplicit false

/-- Ways to spread tokens over buckets. -/
inductive Hasher where
  | charSum
  | fnv1a
  deriving DecidableEq, Repr

namespace Hasher

def all : List Hasher := [.charSum, .fnv1a]

def name : Hasher → String
  | .charSum => "char_sum"
  | .fnv1a => "fnv1a"

def codec : Codec Hasher := .member all name

/-- The UTF-16 units of a character. -/
def units (c : Char) : List UInt32 :=
  if c.toNat < 0x10000 then [c.val]
  else [0xD800 + (c.val - 0x10000) / 0x400, 0xDC00 + (c.val - 0x10000) % 0x400]

/-- The 32-bit hash of a token: the sum of its UTF-16 units, or FNV-1a over its UTF-8 bytes. -/
def hash (h : Hasher) (token : Text) : UInt32 :=
  match h with
  | .charSum => (token.flatMap units).foldl (· + ·) 0
  | .fnv1a =>
    (token.flatMap String.utf8EncodeChar).foldl
      (fun acc (byte : UInt8) => (acc ^^^ byte.toUInt32) * 0x01000193) 0x811c9dc5

def bucket (h : Hasher) (token : String) : Nat := (h.hash token.toList).toNat % 100

theorem bucket_lt (h : Hasher) (token : String) : h.bucket token < 100 :=
  Nat.mod_lt _ (by decide)

end Hasher

structure Assignment where
  token : String
  bucket : Nat
  /-- Whether the store holds the token. -/
  persisted : Bool
  deriving DecidableEq, Repr

namespace Assignment

def of (h : Hasher) (token : String) (persisted : Bool) : Assignment :=
  ⟨token, h.bucket token, persisted⟩

def fields : List (Field Assignment) :=
  [.of .text "token" token fun v a => { a with token := v },
   .of (.unsigned 8) "bucket" bucket fun v a => { a with bucket := v },
   .of .boolean "persisted" persisted fun v a => { a with persisted := v }]

def codec : Codec Assignment := .complete fields ⟨"", 0, false⟩

end Assignment

/-- The key of the token in the store. -/
def userHashKey : String := "apimig.rollout.user_hash"

/-- A token from sixteen random bytes: their hexadecimal digits in the form of a version 4 UUID. -/
def tokenOf (random : List UInt8) : String :=
  let hex (byte : UInt8) : Text := Decimal.padLeft 2 '0' (Nat.toDigits 16 byte.toNat)
  let group (start count : Nat) : Text := ((marked.drop start).take count).flatMap hex
  String.ofList ("-".toList.intercalate [group 0 4, group 4 2, group 6 2, group 8 2, group 10 6])
where
  /-- The bytes with the version and the variant in their places. -/
  marked : List UInt8 :=
    (random.modify 6 fun b => 0x40 ||| (b &&& 0x0f)).modify 8 fun b => 0x80 ||| (b &&& 0x3f)

/-- What assigns the installation to its bucket, at most once. -/
structure Assigner (σ : Type) where
  store : Store σ
  /-- The state of the store. -/
  state : σ
  hasher : Hasher := .fnv1a
  /-- The token for an installation that has none: a fresh one for each assigner. -/
  newToken : String
  current? : Option Assignment := none

namespace Assigner

variable {σ : Type}

/-- Whether a text is no token. -/
def isBlankToken (token : String) : Bool := (Text.trim token.toList).isEmpty

/-- The assignment from the store, or a new one, with the state of the store after. -/
def load (a : Assigner σ) : Assignment × σ :=
  match a.store.get userHashKey a.state with
  | (.error _, s) => (.of a.hasher a.newToken false, s)
  | (.ok found, s) =>
    match found.filter (!isBlankToken ·) with
    | some token => (.of a.hasher token true, s)
    | none =>
      match a.store.set userHashKey a.newToken s with
      | (.ok _, s) => (.of a.hasher a.newToken true, s)
      | (.error _, s) => (.of a.hasher a.newToken false, s)

/-- The assignment; the store is asked for it the first time only. -/
def assignment (a : Assigner σ) : Assignment × Assigner σ :=
  match a.current? with
  | some x => (x, a)
  | none =>
    let (x, s) := a.load
    (x, { a with state := s, current? := some x })

end Assigner

end ClientMigration
