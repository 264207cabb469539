import Mathlib

/-!
# SHA-256

The hash of FIPS 180-4 over byte lists, and the lower-case hexadecimal text of
a byte list. `sha256` is what both `crypto/sha256` and `hashlib.sha256`
compute; no proof looks inside it, only at the length of its result.
-/

namespace Sha256

/-! ## Hexadecimal text -/

/-- The lower-case hexadecimal digit of `n < 16`. -/
def hexDigit (n : Nat) : Char := if n < 10 then Char.ofNat (48 + n) else Char.ofNat (87 + n)

def isHexDigit (c : Char) : Bool := ('0' ≤ c && c ≤ '9') || ('a' ≤ c && c ≤ 'f')

theorem isHexDigit_hexDigit {n : Nat} (h : n < 16) : isHexDigit (hexDigit n) = true := by
  revert n; decide

theorem hexDigit_inj : ∀ a < 16, ∀ b < 16, hexDigit a = hexDigit b → a = b := by decide

/-- Digits are determined by their text. -/
theorem map_hexDigit_inj {l l' : List Nat} (hl : ∀ d ∈ l, d < 16) (hl' : ∀ d ∈ l', d < 16)
    (h : l.map hexDigit = l'.map hexDigit) : l = l' := by
  induction l generalizing l' with
  | nil => exact (List.map_eq_nil_iff.mp h.symm).symm
  | cons a l ih =>
    cases l' with
    | nil => simp at h
    | cons b l' =>
      simp only [List.map_cons, List.cons.injEq] at h
      obtain rfl := hexDigit_inj a (hl a List.mem_cons_self) b (hl' b List.mem_cons_self) h.1
      rw [ih (fun d hd => hl d (List.mem_cons_of_mem _ hd)) (fun d hd => hl' d (List.mem_cons_of_mem _ hd))
        h.2]

def hexEncode (bs : List UInt8) : List Char :=
  bs.flatMap fun b => [hexDigit (b.toNat / 16), hexDigit (b.toNat % 16)]

theorem length_hexEncode (bs : List UInt8) : (hexEncode bs).length = 2 * bs.length := by
  induction bs with
  | nil => rfl
  | cons b bs ih => simp only [hexEncode, List.flatMap_cons] at ih ⊢; simp; omega

theorem all_hexEncode (bs : List UInt8) : (hexEncode bs).all isHexDigit = true := by
  induction bs with
  | nil => rfl
  | cons b bs ih =>
    have hb := b.toNat_lt
    simp only [hexEncode, List.flatMap_cons, List.all_append, Bool.and_eq_true] at ih ⊢
    refine ⟨?_, ih⟩
    simp only [List.all_cons, List.all_nil, Bool.and_true, Bool.and_eq_true]
    exact ⟨isHexDigit_hexDigit (by omega), isHexDigit_hexDigit (by omega)⟩

/-! ## The compression function -/

/-- The eight working variables. -/
structure State where
  (a b c d e f g h : UInt32)

def init : State where
  a := 0x6a09e667
  b := 0xbb67ae85
  c := 0x3c6ef372
  d := 0xa54ff53a
  e := 0x510e527f
  f := 0x9b05688c
  g := 0x1f83d9ab
  h := 0x5be0cd19

def constants : List UInt32 :=
  [0x428a2f98, 0x71374491, 0xb5c0fbcf, 0xe9b5dba5, 0x3956c25b, 0x59f111f1, 0x923f82a4, 0xab1c5ed5,
   0xd807aa98, 0x12835b01, 0x243185be, 0x550c7dc3, 0x72be5d74, 0x80deb1fe, 0x9bdc06a7, 0xc19bf174,
   0xe49b69c1, 0xefbe4786, 0x0fc19dc6, 0x240ca1cc, 0x2de92c6f, 0x4a7484aa, 0x5cb0a9dc, 0x76f988da,
   0x983e5152, 0xa831c66d, 0xb00327c8, 0xbf597fc7, 0xc6e00bf3, 0xd5a79147, 0x06ca6351, 0x14292967,
   0x27b70a85, 0x2e1b2138, 0x4d2c6dfc, 0x53380d13, 0x650a7354, 0x766a0abb, 0x81c2c92e, 0x92722c85,
   0xa2bfe8a1, 0xa81a664b, 0xc24b8b70, 0xc76c51a3, 0xd192e819, 0xd6990624, 0xf40e3585, 0x106aa070,
   0x19a4c116, 0x1e376c08, 0x2748774c, 0x34b0bcb5, 0x391c0cb3, 0x4ed8aa4a, 0x5b9cca4f, 0x682e6ff3,
   0x748f82ee, 0x78a5636f, 0x84c87814, 0x8cc70208, 0x90befffa, 0xa4506ceb, 0xbef9a3f7, 0xc67178f2]

def rotr (x : UInt32) (n : UInt32) : UInt32 := (x >>> n) ||| (x <<< (32 - n))

def round (s : State) (k w : UInt32) : State :=
  let s1 := rotr s.e 6 ^^^ rotr s.e 11 ^^^ rotr s.e 25
  let ch := (s.e &&& s.f) ^^^ ((~~~ s.e) &&& s.g)
  let t1 := s.h + s1 + ch + k + w
  let s0 := rotr s.a 2 ^^^ rotr s.a 13 ^^^ rotr s.a 22
  let maj := (s.a &&& s.b) ^^^ (s.a &&& s.c) ^^^ (s.b &&& s.c)
  { a := t1 + (s0 + maj), b := s.a, c := s.b, d := s.c
    e := s.d + t1, f := s.e, g := s.f, h := s.g }

/-- The next `n` words of the message schedule, appended to `ws`. -/
def extend : Nat → List UInt32 → List UInt32
  | 0, ws => ws
  | n + 1, ws =>
    let at' := fun i => ws.getD (ws.length - i) 0
    let w15 := at' 15
    let w2 := at' 2
    let s0 := rotr w15 7 ^^^ rotr w15 18 ^^^ (w15 >>> 3)
    let s1 := rotr w2 17 ^^^ rotr w2 19 ^^^ (w2 >>> 10)
    extend n (ws ++ [at' 16 + s0 + at' 7 + s1])

def compress (s : State) (words : List UInt32) : State :=
  let r := ((constants.zip (extend 48 words)).foldl (fun s kw => round s kw.1 kw.2) s)
  { a := s.a + r.a, b := s.b + r.b, c := s.c + r.c, d := s.d + r.d
    e := s.e + r.e, f := s.f + r.f, g := s.g + r.g, h := s.h + r.h }

/-! ## Padding and output -/

/-- Big-endian bytes of `n`, `w` of them. -/
def beBytes : Nat → Nat → List UInt8
  | 0, _ => []
  | w + 1, n => beBytes w (n / 256) ++ [UInt8.ofNat (n % 256)]

theorem length_beBytes (w n : Nat) : (beBytes w n).length = w := by
  induction w generalizing n with
  | zero => rfl
  | succ w ih => simp [beBytes, ih]

/-- Numbers that fit are determined by their bytes. -/
theorem beBytes_inj {w m n : Nat} (hm : m < 256 ^ w) (hn : n < 256 ^ w) (h : beBytes w m = beBytes w n) : m = n := by
  induction w generalizing m n with
  | zero => rw [Nat.pow_zero] at hm hn; omega
  | succ w ih =>
    rw [Nat.pow_succ] at hm hn
    obtain ⟨hhigh, hlow⟩ := List.append_inj h (by rw [length_beBytes, length_beBytes])
    have hhigh := ih (by omega) (by omega) hhigh
    have hlow := congrArg UInt8.toNat (List.cons.inj hlow).1
    have hbyte : ∀ k : Nat, (UInt8.ofNat (k % 256)).toNat = k % 256 := fun k =>
      UInt8.toNat_ofNat_of_lt' (Nat.mod_lt _ (by decide))
    rw [hbyte, hbyte] at hlow
    omega

def pad (msg : List UInt8) : List UInt8 :=
  let zeros := (119 - msg.length % 64) % 64
  msg ++ 0x80 :: List.replicate zeros 0 ++ beBytes 8 (8 * msg.length)

def words : List UInt8 → List UInt32
  | a :: b :: c :: d :: rest =>
    ((a.toUInt32 <<< 24) ||| (b.toUInt32 <<< 16) ||| (c.toUInt32 <<< 8) ||| d.toUInt32) :: words rest
  | _ => []

def blocks : Nat → List UInt32 → State → State
  | 0, _, s => s
  | n + 1, ws, s => blocks n (ws.drop 16) (compress s (ws.take 16))

def State.bytes (s : State) : List UInt8 :=
  [s.a, s.b, s.c, s.d, s.e, s.f, s.g, s.h].flatMap fun w => beBytes 4 w.toNat

end Sha256

/-- The SHA-256 digest of a byte string: 32 bytes. -/
def sha256 (msg : List UInt8) : List UInt8 :=
  let ws := Sha256.words (Sha256.pad msg)
  (Sha256.blocks (ws.length / 16) ws Sha256.init).bytes

theorem length_sha256 (msg : List UInt8) : (sha256 msg).length = 32 := by
  simp [sha256, Sha256.State.bytes, Sha256.length_beBytes]

/-- `hexdigest()` / `hex.EncodeToString(sum)`. -/
def sha256Hex (msg : List UInt8) : String := String.ofList (Sha256.hexEncode (sha256 msg))

theorem length_sha256Hex (msg : List UInt8) : (sha256Hex msg).toList.length = 64 := by
  simp only [sha256Hex, String.toList_ofList]
  rw [Sha256.length_hexEncode, length_sha256]

/-- `re.fullmatch(r"[0-9a-f]{64}", text)`. -/
def isSha256Hex (text : String) : Bool := text.toList.length == 64 && text.toList.all Sha256.isHexDigit

theorem isSha256Hex_sha256Hex (msg : List UInt8) : isSha256Hex (sha256Hex msg) = true := by
  simp only [isSha256Hex, length_sha256Hex, Bool.and_eq_true, beq_iff_eq, true_and]
  simp only [sha256Hex, String.toList_ofList]
  exact Sha256.all_hexEncode _
