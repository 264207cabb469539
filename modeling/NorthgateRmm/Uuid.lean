import NorthgateRmm.Lib.Sha256

/-!
# UUIDs

An identifier is its 128 bits. The agent handles UUIDs as text that
`uuidPattern` accepts and the server as `uuid.UUID` values; `toText` is the
canonical lower-case text (`str(uuid)`), and a text matches `uuidPattern`
exactly when it is the text of a `Uuid` whose version and variant digits are in
range.
-/

namespace NorthgateRmm

structure Uuid where
  bits : BitVec 128
  deriving DecidableEq, Repr

namespace Uuid

/-- The `k`-th hexadecimal digit, from the left. -/
def digit (u : Uuid) (k : Nat) : Nat := u.bits.toNat / 16 ^ (31 - k) % 16

def digitsText (u : Uuid) (lo n : Nat) : List Char :=
  (List.range' lo n).map fun k => Sha256.hexDigit (u.digit k)

/-- `str(uuid)`. -/
def toText (u : Uuid) : String :=
  String.ofList (u.digitsText 0 8 ++ '-' :: u.digitsText 8 4 ++ '-' :: u.digitsText 12 4 ++
    '-' :: u.digitsText 16 4 ++ '-' :: u.digitsText 20 12)

theorem digit_lt (u : Uuid) (k : Nat) : u.digit k < 16 := Nat.mod_lt _ (by decide)

theorem length_digitsText (u : Uuid) (lo n : Nat) : (u.digitsText lo n).length = n := by
  rw [digitsText, List.length_map, List.length_range']

theorem length_toText (u : Uuid) : u.toText.length = 36 := by
  simp only [toText, String.length_ofList, List.length_append, List.length_cons, length_digitsText]

/-- Every character of the text is a hexadecimal digit or a hyphen. -/
theorem mem_toText {u : Uuid} {c : Char} (h : c ∈ u.toText.toList) :
    Sha256.isHexDigit c = true ∨ c = '-' := by
  have hd : ∀ lo n, c ∈ u.digitsText lo n → Sha256.isHexDigit c = true := by
    intro lo n hc
    obtain ⟨k, -, rfl⟩ := List.mem_map.mp hc
    exact Sha256.isHexDigit_hexDigit (u.digit_lt k)
  simp only [toText, String.toList_ofList, List.mem_append, List.mem_cons] at h
  grind

/-- The first `w` hexadecimal digits of a number from the right decide it up to `16 ^ w`. -/
theorem mod_eq_of_digits {m n w : Nat} (h : ∀ j < w, m / 16 ^ j % 16 = n / 16 ^ j % 16) :
    m % 16 ^ w = n % 16 ^ w := by
  induction w with
  | zero => simp [Nat.mod_one]
  | succ w ih =>
    rw [Nat.mod_pow_succ, Nat.mod_pow_succ, ih fun j hj => h j (by omega), h w (by omega)]

theorem digit_eq_of_digitsText {u v : Uuid} {lo n : Nat} (h : u.digitsText lo n = v.digitsText lo n) {k : Nat}
    (hlo : lo ≤ k) (hhi : k < lo + n) : u.digit k = v.digit k := by
  have hinj : ∀ a < 16, ∀ b < 16, Sha256.hexDigit a = Sha256.hexDigit b → a = b := by decide
  have hmem : k ∈ List.range' lo n := List.mem_range'_1.mpr ⟨hlo, hhi⟩
  exact hinj _ (u.digit_lt k) _ (v.digit_lt k) (List.map_inj_left.mp h k hmem)

/-- A text is the text of one identifier. -/
theorem toText_injective {u v : Uuid} (h : u.toText = v.toText) : u = v := by
  have hlist := congrArg String.toList h
  simp only [toText, String.toList_ofList, List.append_assoc, List.cons_append] at hlist
  have hlen : ∀ lo n, (u.digitsText lo n).length = (v.digitsText lo n).length := fun lo n => by
    rw [length_digitsText, length_digitsText]
  obtain ⟨h0, hlist⟩ := List.append_inj hlist (hlen 0 8)
  obtain ⟨h1, hlist⟩ := List.append_inj (List.cons.inj hlist).2 (hlen 8 4)
  obtain ⟨h2, hlist⟩ := List.append_inj (List.cons.inj hlist).2 (hlen 12 4)
  obtain ⟨h3, hlist⟩ := List.append_inj (List.cons.inj hlist).2 (hlen 16 4)
  have h4 := (List.cons.inj hlist).2
  have hdigit : ∀ k < 32, u.digit k = v.digit k := by
    intro k hk
    by_cases h8 : k < 8
    · exact digit_eq_of_digitsText h0 (by omega) (by omega)
    by_cases h12 : k < 12
    · exact digit_eq_of_digitsText h1 (by omega) (by omega)
    by_cases h16 : k < 16
    · exact digit_eq_of_digitsText h2 (by omega) (by omega)
    by_cases h20 : k < 20
    · exact digit_eq_of_digitsText h3 (by omega) (by omega)
    · exact digit_eq_of_digitsText h4 (by omega) (by omega)
  have hmod : u.bits.toNat % 16 ^ 32 = v.bits.toNat % 16 ^ 32 := by
    refine mod_eq_of_digits fun j hj => ?_
    have := hdigit (31 - j) (by omega)
    rwa [digit, digit, show 31 - (31 - j) = j by omega] at this
  have hu := u.bits.isLt
  have hv := v.bits.isLt
  rw [Nat.mod_eq_of_lt (by omega), Nat.mod_eq_of_lt (by omega)] at hmod
  obtain ⟨ub⟩ := u
  obtain ⟨vb⟩ := v
  exact congrArg Uuid.mk (BitVec.eq_of_toNat_eq hmod)

/-- `uuidPattern` of the agent packages:
`^[0-9a-f]{8}-[0-9a-f]{4}-[1-5][0-9a-f]{3}-[89ab][0-9a-f]{3}-[0-9a-f]{12}$`. -/
def matchesPattern (u : Uuid) : Bool :=
  (1 ≤ u.digit 12 && u.digit 12 ≤ 5) && (8 ≤ u.digit 16 && u.digit 16 ≤ 11)

end Uuid

end NorthgateRmm
