import NorthgateRmm.Uuid

/-!
# Spool records

The record that `Enqueue` writes to `<id>.json`, its JSON text and its digest.
A file of the spool is classified by what `readRecordItem` makes of its bytes:
the text of a record, nothing at all, or bytes that do not decode. The fields of
`Record` carry the conditions that `decodeRecord` and `readRecordItem` check, so
that a `Record` is exactly what they accept.

Payloads are of an arbitrary type whose values stand for byte strings; the
queue uses a payload only through its bytes.
-/

namespace NorthgateRmm.Agent.Spool

open Sha256

def schemaVersion : Nat := 2
def maxPayloadBytes : Nat := 65536
def maxEntries : Nat := 1024
def maxRejectedEntries : Nat := 128
def maxRecordBytes : Nat := 100000

/-- Types whose values stand for byte strings. -/
class Payload (P : Type) where
  bytes : P → List UInt8

instance : Payload (List UInt8) := ⟨id⟩

/-! ## Text -/

/-- `n` with `w` decimal digits. -/
def fixedDigits : Nat → Nat → List Char
  | 0, _ => []
  | w + 1, n => fixedDigits w (n / 10) ++ [Nat.digitChar (n % 10)]

theorem length_fixedDigits (w n : Nat) : (fixedDigits w n).length = w := by
  induction w generalizing n with
  | zero => rfl
  | succ w ih => simp [fixedDigits, ih]

/-- A `time.Time` in UTC other than the zero time, in the years that
`MarshalJSON` can write. -/
structure UtcTime where
  (year month day hour minute second nanosecond : Nat)
  inYears : 1 ≤ year ∧ year ≤ 9999
  notZero : ¬ (year = 1 ∧ month = 1 ∧ day = 1 ∧ hour = 0 ∧ minute = 0 ∧ second = 0 ∧ nanosecond = 0)
  deriving DecidableEq, Repr

/-- The start of a year, for samples. -/
def UtcTime.sample : UtcTime := ⟨2026, 1, 1, 0, 0, 0, 0, by decide, by decide⟩

/-- The fraction of a second, without trailing zeros. -/
def fraction (nanosecond : Nat) : List Char :=
  if nanosecond = 0 then [] else
    '.' :: ((fixedDigits 9 nanosecond).reverse.dropWhile (· == '0')).reverse

/-- RFC 3339 text with nanoseconds, as `MarshalJSON` writes it. -/
def UtcTime.text (t : UtcTime) : List Char :=
  fixedDigits 4 t.year ++ '-' :: fixedDigits 2 t.month ++ '-' :: fixedDigits 2 t.day ++
    'T' :: fixedDigits 2 t.hour ++ ':' :: fixedDigits 2 t.minute ++ ':' :: fixedDigits 2 t.second ++
    fraction t.nanosecond ++ ['Z']

theorem length_fraction_le (n : Nat) : (fraction n).length ≤ 10 := by
  rw [fraction]
  split
  · exact Nat.zero_le _
  · have h := (List.dropWhile_sublist (· == '0') (l := (fixedDigits 9 n).reverse)).length_le
    rw [List.length_reverse, length_fixedDigits] at h
    rw [List.length_cons, List.length_reverse]
    omega

theorem UtcTime.length_text_le (t : UtcTime) : t.text.length ≤ 30 := by
  have h := length_fraction_le t.nanosecond
  simp only [text, List.length_append, List.length_cons, List.length_nil, length_fixedDigits]
  omega

def base64Digit (n : Nat) : Char :=
  "ABCDEFGHIJKLMNOPQRSTUVWXYZabcdefghijklmnopqrstuvwxyz0123456789+/".toList.getD n '='

/-- Standard base64 with padding, as `encoding/json` writes a byte slice. -/
def base64 : List UInt8 → List Char
  | [] => []
  | [a] => [base64Digit (a.toNat / 4), base64Digit (a.toNat % 4 * 16), '=', '=']
  | [a, b] =>
    [base64Digit (a.toNat / 4), base64Digit (a.toNat % 4 * 16 + b.toNat / 16),
      base64Digit (b.toNat % 16 * 4), '=']
  | a :: b :: c :: rest =>
    base64Digit (a.toNat / 4) :: base64Digit (a.toNat % 4 * 16 + b.toNat / 16) ::
      base64Digit (b.toNat % 16 * 4 + c.toNat / 64) :: base64Digit (c.toNat % 64) :: base64 rest

theorem length_base64 (bs : List UInt8) : (base64 bs).length = 4 * ((bs.length + 2) / 3) := by
  fun_induction base64 bs with
  | case1 => rfl
  | case2 => simp only [List.length_cons, List.length_nil]
  | case3 => simp only [List.length_cons, List.length_nil]
  | case4 a b c rest ih => simp only [List.length_cons, ih]; omega

/-! ## Records -/

section Record

variable {P : Type} [Payload P]

/-- `recordDigest`: SHA-256 over a fixed tag, the ID, the order in eight
big-endian bytes and the payload. -/
def recordDigest (id : Uuid) (order : Nat) (payload : List UInt8) : String :=
  sha256Hex ("northgate-rmm-spool-v2\x00".toUTF8.toList ++ id.toText.toUTF8.toList ++ beBytes 8 order ++ payload)

variable (P) in
/-- A record that `readRecordItem` accepts under its own ID. -/
structure Record where
  id : Uuid
  order : Nat
  createdAt : UtcTime
  payload : P
  order_pos : 0 < order
  order_lt : order < 2 ^ 64
  payload_pos : 0 < (Payload.bytes payload).length
  payload_le : (Payload.bytes payload).length ≤ maxPayloadBytes

namespace Record

def digest (r : Record P) : String := recordDigest r.id r.order (Payload.bytes r.payload)

/-- The JSON text that `json.Marshal` writes for the record. -/
def json (r : Record P) : List Char :=
  "\x7b\"schema_version\":".toList ++ Nat.toDigits 10 schemaVersion ++
    ",\"id\":\"".toList ++ r.id.toText.toList ++
    "\",\"order\":".toList ++ Nat.toDigits 10 r.order ++
    ",\"created_at\":\"".toList ++ r.createdAt.text ++
    "\",\"payload\":\"".toList ++ base64 (Payload.bytes r.payload) ++
    "\",\"sha256\":\"".toList ++ r.digest.toList ++ "\"\x7d".toList

/-- The number of bytes of the text. -/
def size (r : Record P) : Nat :=
  178 + (Nat.toDigits 10 r.order).length + r.createdAt.text.length +
    4 * (((Payload.bytes r.payload).length + 2) / 3)

theorem length_json (r : Record P) : r.json.length = r.size := by
  have hd : r.digest.toList.length = 64 := by rw [digest, recordDigest, length_sha256Hex]
  have hid : r.id.toText.toList.length = 36 := by rw [String.length_toList, Uuid.length_toText]
  have hv : (Nat.toDigits 10 schemaVersion).length = 1 := rfl
  have hsize : r.size = 178 + (Nat.toDigits 10 r.order).length + r.createdAt.text.length +
    4 * (((Payload.bytes r.payload).length + 2) / 3) := rfl
  have hkeys : "\x7b\"schema_version\":".length = 18 ∧ ",\"id\":\"".length = 7 ∧
      "\",\"order\":".length = 10 ∧ ",\"created_at\":\"".length = 15 ∧
      "\",\"payload\":\"".length = 13 ∧ "\",\"sha256\":\"".length = 12 ∧ "\"\x7d".length = 2 := by
    decide
  unfold json
  simp only [List.length_append, hd, hid, hv, length_base64, String.length_toList]
  omega

theorem size_pos (r : Record P) : 0 < r.size := by rw [size]; omega

theorem size_le (r : Record P) : r.size ≤ maxRecordBytes := by
  have ho := Nat.toDigits_length 10 r.order 20 (by decide) (Nat.lt_trans r.order_lt (by decide))
  have ht := r.createdAt.length_text_le
  have hp := r.payload_le
  rw [maxPayloadBytes] at hp
  rw [size, maxRecordBytes]
  omega

end Record

/-- What a file holds, as far as `readRecordItem` can tell. -/
inductive Content (P : Type) [Payload P]
  | blank
  | record (r : Record P)
  | other (size : Nat)

/-- `info.Size()`. -/
def Content.size : Content P → Nat
  | blank => 0
  | record r => r.size
  | other n => n

/-- `readRecordItem` on an opened file; the caller turns every failure into
`ErrCorrupt`. -/
def readRecordItem (id : Uuid) : Content P → Option (Record P)
  | .record r => if r.id = id then some r else none
  | _ => none

theorem readRecordItem_some {id : Uuid} {c : Content P} {r : Record P} :
    readRecordItem id c = some r ↔ c = .record r ∧ r.id = id := by
  cases c <;> grind [readRecordItem]

end Record

end NorthgateRmm.Agent.Spool
