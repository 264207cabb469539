import NorthgateRmm.Lib.GoJson

/-!
# Strings of arbitrary bytes

A Go string is any sequence of bytes. Its runes are the characters that UTF-8 decoding
finds in it, and a byte that begins no character is a rune of its own. `encoding/json`
writes such a byte as the escape of U+FFFD, so that what is read back is the string only
if it was UTF-8.
-/

namespace GoString

open Json GoJson

def encode (text : List Char) : List UInt8 := text.flatMap String.utf8EncodeChar

theorem encode_append (a b : List Char) : encode (a ++ b) = encode a ++ encode b := List.flatMap_append

theorem encode_cons (c : Char) (text : List Char) : encode (c :: text) = String.utf8EncodeChar c ++ encode text := rfl

theorem toNat_toUInt8 {c : Char} (h : c.toNat < 128) : c.toUInt8.toNat = c.toNat :=
  UInt8.toNat_ofNat_of_lt' (show c.toNat < 256 by omega)

theorem utf8EncodeChar_ascii {c : Char} (h : c.toNat < 128) : String.utf8EncodeChar c = [c.toUInt8] := by
  have hle : c.val.toNat ≤ 127 := Nat.le_of_lt_succ h
  unfold String.utf8EncodeChar
  dsimp only
  rw [if_pos hle]
  rfl

/-- No byte of a character is smaller than the character, up to the first byte outside ASCII. -/
theorem le_utf8EncodeChar {n : Nat} {c : Char} (hn : n ≤ 128) (h : n ≤ c.toNat) :
    ∀ b ∈ String.utf8EncodeChar c, n ≤ b.toNat := by
  have hbyte : ∀ m : Nat, n ≤ m → m < 256 → n ≤ (UInt8.ofNat m).toNat := fun m hm hlt => by
    rwa [UInt8.toNat_ofNat_of_lt' hlt]
  intro b hb
  have hc : n ≤ c.val.toNat := h
  unfold String.utf8EncodeChar at hb
  dsimp only at hb
  split_ifs at hb with h1 h2 h3
  all_goals
    simp only [List.mem_cons, List.not_mem_nil, or_false] at hb
    rcases hb with rfl | rfl | rfl | rfl <;> exact hbyte _ (by omega) (by omega)

/-- An ASCII byte of a text is a character of the text. -/
theorem mem_of_mem_encode {text : List Char} {c : Char} (hc : c.toNat < 128)
    (h : c.toUInt8 ∈ encode text) : c ∈ text := by
  obtain ⟨d, hd, hb⟩ := List.mem_flatMap.1 h
  have hbyte := toNat_toUInt8 hc
  have hlt : d.toNat < 128 := by
    by_contra hge
    have := le_utf8EncodeChar (Nat.le_refl 128) (Nat.not_lt.mp hge) _ hb
    omega
  rw [utf8EncodeChar_ascii hlt] at hb
  have heq := congrArg UInt8.toNat (List.mem_singleton.mp hb)
  rw [hbyte, toNat_toUInt8 hlt] at heq
  rwa [Char.toNat_inj.mp heq]

/-- `utf8.DecodeRune`; nothing at a byte that begins no character. -/
def decodeRune (bytes : List UInt8) : Option Char := ByteArray.utf8DecodeChar? ⟨bytes.toArray⟩ 0

def runes : List UInt8 → List (Option Char)
  | [] => []
  | b :: bytes =>
    match decodeRune (b :: bytes) with
    | some c => some c :: runes (bytes.drop (c.utf8Size - 1))
    | none => none :: runes bytes
  termination_by bytes => bytes.length
  decreasing_by all_goals (simp only [List.length_drop, List.length_cons]; omega)

/-- `utf8.Valid`. -/
def utf8Valid (s : List UInt8) : Bool := (runes s).all (·.isSome)

/-- The string as text, with U+FFFD for the bytes that begin no character. -/
def repaired (bytes : List UInt8) : String := String.ofList ((runes bytes).map (·.getD '\ufffd'))

theorem decodeRune_encode (c : Char) (bytes : List UInt8) :
    decodeRune (String.utf8EncodeChar c ++ bytes) = some c := by
  have := @ByteArray.utf8DecodeChar?_utf8EncodeChar_append ⟨bytes.toArray⟩ c
  rw [decodeRune, ← this]
  congr 1
  apply ByteArray.ext
  simp

theorem runes_char (c : Char) (bytes : List UInt8) :
    runes (String.utf8EncodeChar c ++ bytes) = some c :: runes bytes := by
  have hlen : (String.utf8EncodeChar c).length = c.utf8Size := String.length_utf8EncodeChar c
  have hrune := decodeRune_encode c bytes
  cases hc : String.utf8EncodeChar c with
  | nil =>
    have := c.utf8Size_pos
    rw [hc, List.length_nil] at hlen
    omega
  | cons b rest =>
    rw [hc, List.cons_append] at hrune
    rw [hc, List.length_cons] at hlen
    rw [List.cons_append, runes, hrune]
    simp only
    rw [← hlen, Nat.add_sub_cancel, List.drop_left]

theorem toByteArray_eq (s : String) : s.toByteArray.data.toList = encode s.toList := by
  obtain ⟨l, rfl⟩ : ∃ l, s = String.ofList l := ⟨s.toList, by simp⟩
  rw [String.toByteArray_ofList, List.utf8Encode]
  simp [encode]

/-- UTF-8 text has the runes of the text. -/
theorem runes_encode (text : List Char) (bytes : List UInt8) :
    runes (encode text ++ bytes) = text.map some ++ runes bytes := by
  induction text with
  | nil => rfl
  | cons c text ih => rw [encode, List.flatMap_cons, List.append_assoc, runes_char, ← encode, ih]; rfl

theorem runes_text (text : List Char) : runes (encode text) = text.map some := by
  have hrunes := runes_encode text []
  rwa [List.append_nil, runes, List.append_nil] at hrunes

theorem utf8Valid_encode (text : List Char) : utf8Valid (encode text) = true := by
  rw [utf8Valid, runes_text, List.all_map]
  exact List.all_eq_true.mpr fun _ _ => rfl

theorem repaired_encode (s : String) : repaired s.toByteArray.data.toList = s := by
  rw [repaired, toByteArray_eq, runes_text, List.map_map]
  exact (congrArg String.ofList (List.map_id _)).trans String.ofList_toList

theorem decodeRune_ff (bytes : List UInt8) : decodeRune (0xff :: bytes) = none := by
  rw [← Option.not_isSome_iff_eq_none]
  intro h
  have hfirst : UInt8.IsUTF8FirstByte 0xff := ByteArray.isUTF8FirstByte_of_isSome_utf8DecodeChar? h
  revert hfirst
  decide

/-- The byte 0xFF begins no character. -/
theorem runes_replicate (n : Nat) (bytes : List UInt8) :
    runes (List.replicate n 0xff ++ bytes) = List.replicate n none ++ runes bytes := by
  induction n with
  | zero => rfl
  | succ n ih =>
    rw [List.replicate_succ, List.cons_append, runes, decodeRune_ff]
    exact congrArg (none :: ·) ih

/-! ## White space -/

/-- `unicode.IsSpace`. -/
def isSpace (c : Char) : Bool :=
  (9 ≤ c.toNat && c.toNat ≤ 13) || c = ' ' || c.toNat = 0x85 || c.toNat = 0xa0 || c.toNat = 0x1680 ||
    (0x2000 ≤ c.toNat && c.toNat ≤ 0x200a) || c.toNat = 0x2028 || c.toNat = 0x2029 || c.toNat = 0x202f ||
    c.toNat = 0x205f || c.toNat = 0x3000

def runeBytes : Option Char → Nat
  | some c => c.utf8Size
  | none => 1

/-- The bytes of the white space at the beginning of some runes. -/
def spaceBytes (rs : List (Option Char)) : Nat := ((rs.takeWhile fun r => r.any isSpace).map runeBytes).sum

def trimLeft (s : List UInt8) : List UInt8 := s.drop (spaceBytes (runes s))

def trimRight (s : List UInt8) : List UInt8 := s.take (s.length - spaceBytes (runes s).reverse)

/-- `strings.TrimSpace`. -/
def trimSpace (s : List UInt8) : List UInt8 := trimRight (trimLeft s)

theorem length_encode (text : List Char) : (encode text).length = ((text.map some).map runeBytes).sum := by
  induction text with
  | nil => rfl
  | cons c text ih =>
    rw [encode_cons, List.length_append, ih, String.length_utf8EncodeChar]
    rfl

theorem spaceBytes_map_some (text : List Char) :
    spaceBytes (text.map some) = (encode (text.takeWhile isSpace)).length := by
  rw [spaceBytes, List.takeWhile_map, length_encode]
  rfl

theorem spaceBytes_eq_zero {rs : List (Option Char)} (h : (rs.head?.any fun r => r.any isSpace) = false) :
    spaceBytes rs = 0 := by
  cases rs with
  | nil => rfl
  | cons r rs =>
    have h : (r.any isSpace) = false := h
    rw [spaceBytes, List.takeWhile_cons_of_neg (by rw [h]; exact Bool.false_ne_true)]
    rfl

/-- A text without white space at its ends. -/
theorem trimSpace_eq_self {text : List Char} (hfirst : text.head?.any isSpace = false)
    (hlast : text.getLast?.any isSpace = false) : trimSpace (encode text) = encode text := by
  have hleft : trimLeft (encode text) = encode text := by
    rw [trimLeft, runes_text, spaceBytes_eq_zero (by rwa [List.head?_map, Option.any_map]), List.drop_zero]
  rw [trimSpace, hleft, trimRight, runes_text, spaceBytes_eq_zero, Nat.sub_zero, List.take_length]
  rwa [List.head?_reverse, List.getLast?_map, Option.any_map]

/-- A text of nothing but white space. -/
theorem trimSpace_blank {text : List Char} (h : ∀ c ∈ text, isSpace c = true) : trimSpace (encode text) = [] := by
  have hleft : trimLeft (encode text) = [] := by
    rw [trimLeft, runes_text, spaceBytes_map_some, List.takeWhile_eq_self_iff.mpr h, List.drop_length]
  rw [trimSpace, hleft, trimRight, List.take_nil]

theorem sum_runes_le (s : List UInt8) : ((runes s).map runeBytes).sum ≤ s.length := by
  induction s using runes.induct with
  | case1 =>
    rw [runes]
    rfl
  | case2 b bytes c hc ih =>
    have hsize : c.utf8Size ≤ (b :: bytes).length := by
      have hle := ByteArray.le_size_of_utf8DecodeChar?_eq_some hc
      rwa [Nat.zero_add] at hle
    rw [runes, hc]
    simp only [List.map_cons, List.sum_cons, runeBytes, List.length_cons, List.length_drop] at ih hsize ⊢
    have := c.utf8Size_pos
    omega
  | case3 b bytes hnone ih =>
    rw [runes, hnone]
    simp only [List.map_cons, List.sum_cons, runeBytes, List.length_cons] at ih ⊢
    omega

theorem spaceBytes_le (rs : List (Option Char)) : spaceBytes rs ≤ (rs.map runeBytes).sum := by
  conv => rhs; rw [← List.takeWhile_append_dropWhile (p := fun r => r.any isSpace) (l := rs), List.map_append,
    List.sum_append]
  exact Nat.le_add_right _ _

/-- What begins with an ASCII character other than white space is not blank. -/
theorem trimSpace_ne_nil {c : Char} (hc : c.toNat < 128) (hspace : isSpace c = false) (s : List UInt8) :
    trimSpace (c.toUInt8 :: s) ≠ [] := by
  have hrunes : runes (c.toUInt8 :: s) = some c :: runes s := by
    have := runes_char c s
    rwa [utf8EncodeChar_ascii hc] at this
  have hleft : trimLeft (c.toUInt8 :: s) = c.toUInt8 :: s := by
    rw [trimLeft, hrunes, spaceBytes_eq_zero (by simpa using hspace), List.drop_zero]
  -- the white space at the end ends before the first character
  have hright : spaceBytes (runes (c.toUInt8 :: s)).reverse ≤ s.length := by
    have hlast : (runes s).reverse.takeWhile (fun r => r.any isSpace) =
        ((runes s).reverse ++ [some c]).takeWhile fun r => r.any isSpace := by
      rw [List.takeWhile_append, List.takeWhile_cons_of_neg (by simpa using hspace)]
      split <;> rename_i h
      · rw [List.append_nil]
        exact (List.takeWhile_prefix _).eq_of_length h
      · rfl
    have hle := spaceBytes_le (runes s).reverse
    rw [List.map_reverse, List.sum_reverse, spaceBytes, hlast] at hle
    rw [hrunes, List.reverse_cons, spaceBytes]
    exact Nat.le_trans hle (sum_runes_le s)
  rw [trimSpace, hleft, trimRight]
  intro hnil
  have hlen := congrArg List.length hnil
  rw [List.length_take, List.length_cons, List.length_nil] at hlen
  omega

/-! ## As JSON -/

/-- A rune as `encoding/json` writes it. -/
def pieceOf : Option Char → Piece
  | some c => piece c
  | none => .unit 0xfffd

def literalOfBytes (bytes : List UInt8) : Literal := (runes bytes).map pieceOf

theorem pieceOf_ok (r : Option Char) : (pieceOf r).ok := by
  cases r with
  | none => show 0xfffd < 0x10000; decide
  | some c => exact piece_ok c

theorem code_pieceOf (r : Option Char) : (pieceOf r).code = (r.getD '\ufffd').toNat := by
  cases r with
  | none => rfl
  | some c => exact code_piece c

theorem plain_literalOfBytes (bytes : List UInt8) : ∀ p ∈ literalOfBytes bytes, p.ok ∧ Plain p := by
  intro p hp
  obtain ⟨r, -, rfl⟩ := List.mem_map.mp hp
  refine ⟨pieceOf_ok r, ?_⟩
  rw [Plain, code_pieceOf]
  exact ⟨isHigh_toNat _, isLow_toNat _⟩

/-- What is read back is the repaired string. -/
theorem text_literalOfBytes (bytes : List UInt8) : text (literalOfBytes bytes) = repaired bytes := by
  have hcodes : codes (literalOfBytes bytes) = (literalOfBytes bytes).map Piece.code :=
    codes_eq_map fun p hp => (plain_literalOfBytes bytes p hp).2.1
  rw [text, hcodes, literalOfBytes, repaired, List.map_map, List.map_map]
  refine congrArg String.ofList (List.map_congr_left fun r _ => ?_)
  show toChar (pieceOf r).code = _
  rw [code_pieceOf, toChar_toNat]

end GoString
