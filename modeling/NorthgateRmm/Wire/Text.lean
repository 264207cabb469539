import NorthgateRmm.Server.Certificates

/-!
# Bytes and identifiers on the wire

UTF-8 text as byte lists, and the UUID texts that `uuidPattern` of the agent accepts:
`UUID(text)` of the server reads each of them, and `str` of the result is the text.
-/

namespace NorthgateRmm.Wire

/-! ## UTF-8 -/

def encodeUtf8 (s : String) : List UInt8 := s.toByteArray.data.toList

/-- `none` on bytes that are not UTF-8. -/
def decodeUtf8 (raw : List UInt8) : Option String := String.fromUTF8? ⟨raw.toArray⟩

theorem decodeUtf8_encodeUtf8 (s : String) : decodeUtf8 (encodeUtf8 s) = some s := by
  have hbytes : (⟨(encodeUtf8 s).toArray⟩ : ByteArray) = s.toByteArray := by
    rw [encodeUtf8, Array.toArray_toList]
  rw [decodeUtf8, hbytes, String.fromUTF8?, dif_pos s.isValidUTF8]
  rfl

variable {ps : List (Char → Bool)} {cs : List Char} {c : Char} {s : String} {p : Char → Bool}

theorem bytes_of_decodeUtf8 {raw : List UInt8} (h : decodeUtf8 raw = some s) :
    raw = s.toByteArray.data.toList := by
  rw [decodeUtf8, String.fromUTF8?] at h
  split at h
  · obtain rfl := Option.some.inj h
    rfl
  · exact nomatch h

theorem length_encodeUtf8 (s : String) : (encodeUtf8 s).length = s.utf8ByteSize := rfl

theorem toList_loop (bs : ByteArray) (i : Nat) (r : List UInt8) :
    ByteArray.toList.loop bs i r = r.reverse ++ bs.data.toList.drop i := by
  fun_induction ByteArray.toList.loop bs i r with
  | case1 i r hlt ih =>
    have hlt' : i < bs.data.toList.length := hlt
    have hget : bs.get! i = bs.data.toList[i] := by
      rw [ByteArray.get!, getElem!_pos bs.data i hlt, Array.getElem_toList]
    rw [ih, List.drop_eq_getElem_cons hlt', hget, List.reverse_cons, List.append_assoc]
    rfl
  | case2 i r hge =>
    rw [List.drop_eq_nil_of_le (Nat.not_lt.1 hge), List.append_nil]

/-- The two ways to the bytes of a text agree. -/
theorem toList_toUTF8 (s : String) : s.toUTF8.toList = encodeUtf8 s := toList_loop s.toByteArray 0 []

/-! ## UUID texts -/

open Sha256 (isHexDigit hexDigit)

/-- A text with one character of each class. -/
def matchesClasses : List (Char → Bool) → List Char → Bool
  | [], [] => true
  | p :: ps, c :: cs => p c && matchesClasses ps cs
  | _, _ => false

def uuidClasses : List (Char → Bool) :=
  List.replicate 8 isHexDigit ++ (· == '-') :: (List.replicate 4 isHexDigit ++ (· == '-') ::
    (fun c => '1' ≤ c && c ≤ '5') :: (List.replicate 3 isHexDigit ++ (· == '-') ::
      (fun c => c == '8' || c == '9' || c == 'a' || c == 'b') :: (List.replicate 3 isHexDigit ++ (· == '-') ::
        List.replicate 12 isHexDigit)))

/-- `uuidPattern.MatchString`:
`^[0-9a-f]{8}-[0-9a-f]{4}-[1-5][0-9a-f]{3}-[89ab][0-9a-f]{3}-[0-9a-f]{12}$`. -/
def uuidPattern (s : String) : Bool := matchesClasses uuidClasses s.toList

theorem matchesClasses_cons
    (h : matchesClasses (p :: ps) cs = true) :
    ∃ c r, cs = c :: r ∧ p c = true ∧ matchesClasses ps r = true := by
  cases cs with
  | nil => cases h
  | cons c r =>
    rw [matchesClasses, Bool.and_eq_true] at h
    exact ⟨c, r, rfl, h.1, h.2⟩

theorem matchesClasses_replicate {n : Nat}
    (h : matchesClasses (List.replicate n p ++ ps) cs = true) :
    ∃ xs r, cs = xs ++ r ∧ xs.length = n ∧ (∀ c ∈ xs, p c = true) ∧ matchesClasses ps r = true := by
  induction n generalizing cs with
  | zero => exact ⟨[], cs, rfl, rfl, by simp, h⟩
  | succ n ih =>
    rw [List.replicate_succ, List.cons_append] at h
    obtain ⟨c, r, rfl, hc, hr⟩ := matchesClasses_cons h
    obtain ⟨xs, r, rfl, hlen, hxs, hr⟩ := ih hr
    exact ⟨c :: xs, r, rfl, by rw [List.length_cons, hlen], List.forall_mem_cons.mpr ⟨hc, hxs⟩, hr⟩

/-- A group of characters of one class with a hyphen after it. -/
theorem matchesClasses_group {n : Nat}
    (h : matchesClasses (List.replicate n p ++ (· == '-') :: ps) cs = true) :
    ∃ xs r, cs = xs ++ '-' :: r ∧ xs.length = n ∧ (∀ c ∈ xs, p c = true) ∧ matchesClasses ps r = true := by
  obtain ⟨xs, r, rfl, hlen, hxs, hr⟩ := matchesClasses_replicate h
  obtain ⟨c, r, rfl, hc, hps⟩ := matchesClasses_cons hr
  exact ⟨xs, r, by rw [eq_of_beq hc], hlen, hxs, hps⟩

theorem matchesClasses_nil (h : matchesClasses [] cs = true) : cs = [] := by
  cases cs with
  | nil => rfl
  | cons c r => cases h

theorem isHexDigit_of_version (h : ('1' ≤ c && c ≤ '5') = true) : isHexDigit c = true := by
  simp only [Bool.and_eq_true, decide_eq_true_eq] at h
  have h0 : '0' ≤ c := Char.le_trans (by decide) h.1
  have h9 : c ≤ '9' := Char.le_trans h.2 (by decide)
  simp [isHexDigit, h0, h9]

theorem isHexDigit_of_variant (h : (c == '8' || c == '9' || c == 'a' || c == 'b') = true) :
    isHexDigit c = true := by
  simp only [Bool.or_eq_true, beq_iff_eq] at h
  rcases h with ((rfl | rfl) | rfl) | rfl <;> decide

/-- The groups of a text that the pattern accepts. -/
theorem uuidPattern_groups (h : uuidPattern s = true) :
    ∃ a b c d e : List Char, s.toList = a ++ '-' :: b ++ '-' :: c ++ '-' :: d ++ '-' :: e ∧
      a.length = 8 ∧ b.length = 4 ∧ c.length = 4 ∧ d.length = 4 ∧ e.length = 12 ∧
      ∀ x ∈ a ++ b ++ c ++ d ++ e, isHexDigit x = true := by
  obtain ⟨a, r₁, hs, hla, ha, h₁⟩ := matchesClasses_group h
  obtain ⟨b, r₂, rfl, hlb, hb, h₂⟩ := matchesClasses_group h₁
  obtain ⟨v, r₃, rfl, hv, h₃⟩ := matchesClasses_cons h₂
  obtain ⟨c, r₄, rfl, hlc, hc, h₄⟩ := matchesClasses_group h₃
  obtain ⟨w, r₅, rfl, hw, h₅⟩ := matchesClasses_cons h₄
  obtain ⟨d, r₆, rfl, hld, hd, h₆⟩ := matchesClasses_group h₅
  rw [← List.append_nil (List.replicate 12 _)] at h₆
  obtain ⟨e, r₇, rfl, hle, he, h₇⟩ := matchesClasses_replicate h₆
  obtain rfl := matchesClasses_nil h₇
  refine ⟨a, b, v :: c, w :: d, e, by simp [hs], hla, hlb, by simp [hlc], by simp [hld], hle, ?_⟩
  intro x hx
  simp only [List.mem_append, List.mem_cons] at hx
  rcases hx with (((hx | hx) | rfl | hx) | rfl | hx) | hx
  · exact ha x hx
  · exact hb x hx
  · exact isHexDigit_of_version hv
  · exact hc x hx
  · exact isHexDigit_of_variant hw
  · exact hd x hx
  · exact he x hx

/-! ## Reading UUIDs -/

/-- The value of a hexadecimal digit, as `int(…, 16)` takes it. -/
def hexDigitValue (c : Char) : Nat := if c.isDigit then c.toNat - 48 else c.toLower.toNat - 87

def hexNumber (ds : List Char) : Nat := ds.foldl (fun n c => n * 16 + hexDigitValue c) 0

theorem toLower_hexDigit : ∀ n < 16, (hexDigit n).toLower = hexDigit n := by decide

theorem hexDigitValue_hexDigit : ∀ n < 16, hexDigitValue (hexDigit n) = n := by decide

theorem eq_hexDigit (h : isHexDigit c = true) : ∃ n < 16, c = hexDigit n := by
  simp only [isHexDigit, Bool.or_eq_true, Bool.and_eq_true, decide_eq_true_eq, Char.le_def,
    UInt32.le_iff_toNat_le] at h
  rcases h with ⟨h0, h9⟩ | ⟨ha, hf⟩
  · have h0 : 48 ≤ c.toNat := h0
    have h9 : c.toNat ≤ 57 := h9
    refine ⟨c.toNat - 48, by omega, ?_⟩
    rw [hexDigit, if_pos (by omega), show 48 + (c.toNat - 48) = c.toNat by omega, Char.ofNat_toNat]
  · have ha : 97 ≤ c.toNat := ha
    have hf : c.toNat ≤ 102 := hf
    refine ⟨c.toNat - 87, by omega, ?_⟩
    rw [hexDigit, if_neg (by omega), show 87 + (c.toNat - 87) = c.toNat by omega, Char.ofNat_toNat]

theorem hexNumber_append (a b : List Char) : hexNumber (a ++ b) = hexNumber a * 16 ^ b.length + hexNumber b := by
  induction b using List.reverseRecOn with
  | nil => simp [hexNumber]
  | append_singleton b c ih =>
    rw [← List.append_assoc]
    simp only [hexNumber, List.foldl_append, List.foldl_cons, List.foldl_nil, List.length_append,
      List.length_singleton, Nat.pow_succ] at ih ⊢
    rw [ih]
    ring

theorem hexDigitValue_lt (h : isHexDigit c = true) : hexDigitValue c < 16 := by
  obtain ⟨n, hn, rfl⟩ := eq_hexDigit h
  rwa [hexDigitValue_hexDigit n hn]

theorem hexNumber_lt {ds : List Char} (h : ∀ c ∈ ds, isHexDigit c = true) : hexNumber ds < 16 ^ ds.length := by
  induction ds using List.reverseRecOn with
  | nil => decide
  | append_singleton ds c ih =>
    have hc := hexDigitValue_lt (h c (by simp))
    have hds := ih fun x hx => h x (List.mem_append_left _ hx)
    have hone : hexNumber [c] = hexDigitValue c := by simp [hexNumber]
    rw [hexNumber_append, hone, List.length_append, List.length_singleton, Nat.pow_succ]
    omega

/-- The identifier of 32 hexadecimal digits. -/
def uuidOf (ds : List Char) : Uuid := ⟨BitVec.ofNat 128 (hexNumber ds)⟩

theorem digit_uuidOf {a b : List Char} (hlen : a.length + b.length = 31)
    (h : ∀ x ∈ a ++ c :: b, isHexDigit x = true) : (uuidOf (a ++ c :: b)).digit a.length = hexDigitValue c := by
  have hlt : hexNumber (a ++ c :: b) < 2 ^ 128 := by
    have := hexNumber_lt h
    rwa [List.length_append, List.length_cons, show a.length + (b.length + 1) = 32 by omega] at this
  have hb : hexNumber b < 16 ^ b.length := hexNumber_lt fun x hx => h x (by simp [hx])
  have hc : hexDigitValue c < 16 := hexDigitValue_lt (h c (by simp))
  have hsplit : hexNumber (a ++ c :: b) = (hexNumber a * 16 + hexDigitValue c) * 16 ^ b.length + hexNumber b := by
    have hone : hexNumber [c] = hexDigitValue c := by simp [hexNumber]
    rw [List.append_cons, hexNumber_append, hexNumber_append, hone, List.length_singleton, Nat.pow_one]
  rw [Uuid.digit, uuidOf, BitVec.toNat_ofNat, Nat.mod_eq_of_lt hlt, show 31 - a.length = b.length by omega,
    hsplit, Nat.add_comm, Nat.add_mul_div_right _ _ (Nat.pow_pos (by decide)), Nat.div_eq_of_lt hb]
  omega

/-- The digits of an identifier that was made from digits are those. -/
theorem digitsText_uuidOf {a b c : List Char} (hlen : a.length + b.length + c.length = 32)
    (h : ∀ x ∈ a ++ b ++ c, isHexDigit x = true) : (uuidOf (a ++ b ++ c)).digitsText a.length b.length = b := by
  induction b generalizing a with
  | nil => rfl
  | cons x b ih =>
    have hshape : a ++ x :: b ++ c = a ++ x :: (b ++ c) := by simp
    have hshape' : a ++ x :: b ++ c = (a ++ [x]) ++ b ++ c := by simp
    have hx : hexDigit ((uuidOf (a ++ x :: b ++ c)).digit a.length) = x := by
      rw [hshape] at h ⊢
      rw [digit_uuidOf (by simp only [List.length_cons, List.length_append] at hlen ⊢; omega) h]
      obtain ⟨n, hn, rfl⟩ := eq_hexDigit (h x (by simp))
      rw [hexDigitValue_hexDigit n hn]
    have hrest : (uuidOf (a ++ x :: b ++ c)).digitsText (a.length + 1) b.length = b := by
      have := ih (a := a ++ [x]) (by simp only [List.length_cons, List.length_append, List.length_nil] at hlen ⊢; omega)
        (by rwa [← hshape'])
      rwa [← hshape', List.length_append, List.length_singleton] at this
    rw [Uuid.digitsText] at hrest ⊢
    rw [List.length_cons, List.range'_succ, List.map_cons, hx, hrest]

/-- A text of five groups of digits is read by `UUID(…)`, and is the canonical text of what
is read. -/
theorem parseUuid_of_groups {a b c d e : List Char}
    (hs : s.toList = a ++ '-' :: b ++ '-' :: c ++ '-' :: d ++ '-' :: e) (hla : a.length = 8) (hlb : b.length = 4)
    (hlc : c.length = 4) (hld : d.length = 4) (hle : e.length = 12)
    (hhex : ∀ x ∈ a ++ b ++ c ++ d ++ e, isHexDigit x = true) :
    Server.parseUuid s = some (uuidOf (a ++ b ++ c ++ d ++ e)) ∧ (uuidOf (a ++ b ++ c ++ d ++ e)).toText = s := by
  have hkeep : ∀ l : List Char, (∀ x ∈ l, isHexDigit x = true) → l.filter (· != '-') = l := by
    intro l hl
    refine List.filter_eq_self.mpr fun x hx => ?_
    have := hl x hx
    rw [bne_iff_ne]
    rintro rfl
    exact absurd this (by decide)
  have hdigits : s.toList.filter (· != '-') = a ++ b ++ c ++ d ++ e := by
    have hsub : ∀ l : List Char, (∀ x ∈ l, x ∈ a ++ b ++ c ++ d ++ e) → l.filter (· != '-') = l :=
      fun l hl => hkeep l fun x hx => hhex x (hl x hx)
    rw [hs]
    simp only [List.filter_append, List.filter_cons, hsub a (by simp +contextual), hsub b (by simp +contextual),
      hsub c (by simp +contextual), hsub d (by simp +contextual), hsub e (by simp +contextual)]
    simp
  refine ⟨?_, ?_⟩
  · have hlen : (a ++ b ++ c ++ d ++ e).length = 32 := by
      simp only [List.length_append, hla, hlb, hlc, hld, hle]
    have hlower : (a ++ b ++ c ++ d ++ e).all (fun x => isHexDigit x.toLower) = true := by
      refine List.all_eq_true.mpr fun x hx => ?_
      obtain ⟨n, hn, rfl⟩ := eq_hexDigit (hhex x hx)
      rw [toLower_hexDigit n hn]
      exact hhex _ hx
    simp only [Server.parseUuid, hdigits]
    rw [if_pos ⟨hlen, hlower⟩]
    rfl
  · have hgroup : ∀ x y z : List Char, x ++ y ++ z = a ++ b ++ c ++ d ++ e →
        (uuidOf (a ++ b ++ c ++ d ++ e)).digitsText x.length y.length = y := by
      intro x y z hxyz
      rw [← hxyz]
      refine digitsText_uuidOf ?_ (hxyz ▸ hhex)
      have := congrArg List.length hxyz
      simp only [List.length_append, hla, hlb, hlc, hld, hle] at this
      exact this
    have ha := hgroup [] a (b ++ c ++ d ++ e) (by simp)
    have hb := hgroup a b (c ++ d ++ e) (by simp)
    have hc := hgroup (a ++ b) c (d ++ e) (by simp)
    have hd := hgroup (a ++ b ++ c) d e rfl
    have he := hgroup (a ++ b ++ c ++ d) e [] (by simp)
    simp only [List.length_append, List.length_nil, hla, hlb, hlc, hld, hle] at ha hb hc hd he
    apply String.toList_injective
    rw [Uuid.toText, String.toList_ofList, hs, ha, hb, hc, hd, he]

/-- **Canonical texts.** A text that the pattern accepts is read by `UUID(…)`, and is the
canonical text of what is read. -/
theorem parseUuid_of_pattern (h : uuidPattern s = true) :
    ∃ u, Server.parseUuid s = some u ∧ u.toText = s := by
  obtain ⟨a, b, c, d, e, hs, hla, hlb, hlc, hld, hle, hhex⟩ := uuidPattern_groups h
  exact ⟨_, parseUuid_of_groups hs hla hlb hlc hld hle hhex⟩

/-! ## The order of the texts -/

/-- The 32 digits of an identifier. -/
def digits (u : Uuid) : List Char :=
  u.digitsText 0 8 ++ u.digitsText 8 4 ++ u.digitsText 12 4 ++ u.digitsText 16 4 ++ u.digitsText 20 12

theorem isHexDigit_digitsText {u : Uuid} {lo n : Nat} : ∀ x ∈ u.digitsText lo n, isHexDigit x = true := by
  intro x hx
  obtain ⟨k, -, rfl⟩ := List.mem_map.1 hx
  exact Sha256.isHexDigit_hexDigit (u.digit_lt k)

theorem isHexDigit_digits {u : Uuid} : ∀ x ∈ digits u, isHexDigit x = true := by
  simp only [digits, List.forall_mem_append]
  exact ⟨⟨⟨⟨isHexDigit_digitsText, isHexDigit_digitsText⟩, isHexDigit_digitsText⟩, isHexDigit_digitsText⟩,
    isHexDigit_digitsText⟩

theorem length_digits (u : Uuid) : (digits u).length = 32 := by
  simp only [digits, List.length_append, Uuid.length_digitsText]

/-- `UUID(str(u))` is `u`. -/
theorem parseUuid_toText (u : Uuid) : Server.parseUuid u.toText = some u ∧ uuidOf (digits u) = u := by
  have hlen := u.length_digitsText
  have h := parseUuid_of_groups (s := u.toText) (String.toList_ofList) (hlen 0 8) (hlen 8 4) (hlen 12 4) (hlen 16 4)
    (hlen 20 12) isHexDigit_digits
  have hu : uuidOf (digits u) = u := Uuid.toText_injective h.2
  exact ⟨h.1.trans (congrArg some hu), hu⟩

theorem hexNumber_digits (u : Uuid) : hexNumber (digits u) = u.bits.toNat := by
  have hlt : hexNumber (digits u) < 2 ^ 128 := by
    have := hexNumber_lt (isHexDigit_digits (u := u))
    rwa [length_digits] at this
  have hu : (BitVec.ofNat 128 (hexNumber (digits u))).toNat = u.bits.toNat :=
    congrArg (fun u => u.bits.toNat) (parseUuid_toText u).2
  rwa [BitVec.toNat_ofNat, Nat.mod_eq_of_lt hlt] at hu

theorem append_lt_append_iff {a a' b b' : List Char} (h : a.length = a'.length) :
    a ++ b < a' ++ b' ↔ a < a' ∨ a = a' ∧ b < b' := by
  induction a generalizing a' with
  | nil =>
    cases a' with
    | nil => simp
    | cons c a' => exact nomatch h
  | cons c a ih =>
    cases a' with
    | nil => exact nomatch h
    | cons c' a' =>
      simp only [List.cons_append, List.cons_lt_cons_iff, ih (Nat.succ.inj h), List.cons.injEq]
      grind

theorem hexNumber_lt_of_lt {l l' : List Char} (hlen : l.length = l'.length) (hl : ∀ c ∈ l, isHexDigit c = true)
    (hl' : ∀ c ∈ l', isHexDigit c = true) (h : l < l') : hexNumber l < hexNumber l' := by
  have hdigit : ∀ m < 16, ∀ n < 16, hexDigit m < hexDigit n → m < n := by decide
  induction l generalizing l' with
  | nil =>
    cases l' with
    | nil => exact absurd h (by simp)
    | cons c' l' => exact nomatch hlen
  | cons c l ih =>
    cases l' with
    | nil => exact nomatch hlen
    | cons c' l' =>
      have hc := hl c List.mem_cons_self
      have hc' := hl' c' List.mem_cons_self
      replace hl := fun x hx => hl x (List.mem_cons_of_mem _ hx)
      replace hl' := fun x hx => hl' x (List.mem_cons_of_mem _ hx)
      replace hlen : l.length = l'.length := Nat.succ.inj hlen
      have hcons : ∀ x r, hexNumber (x :: r) = hexDigitValue x * 16 ^ r.length + hexNumber r := fun x r => by
        have hone : hexNumber [x] = hexDigitValue x := by simp [hexNumber]
        rw [← List.singleton_append, hexNumber_append, hone]
      have hbound := hexNumber_lt hl
      rw [hcons, hcons, ← hlen]
      rw [List.cons_lt_cons_iff] at h
      rcases h with hlt | ⟨rfl, hlt⟩
      · obtain ⟨m, hm, rfl⟩ := eq_hexDigit hc
        obtain ⟨n, hn, rfl⟩ := eq_hexDigit hc'
        have hmn := hdigit m hm n hn hlt
        rw [hexDigitValue_hexDigit m hm, hexDigitValue_hexDigit n hn]
        have : (m + 1) * 16 ^ l.length ≤ n * 16 ^ l.length := Nat.mul_le_mul_right _ hmn
        rw [Nat.add_mul, Nat.one_mul] at this
        omega
      · have := ih hlen hl hl' hlt
        omega

/-- **Texts are ordered as the numbers.** -/
theorem toText_lt_imp {u v : Uuid} (h : u.toText < v.toText) : u.bits.toNat < v.bits.toNat := by
  have hlen : ∀ lo n, (u.digitsText lo n).length = (v.digitsText lo n).length := fun lo n => by
    rw [Uuid.length_digitsText, Uuid.length_digitsText]
  rw [← hexNumber_digits, ← hexNumber_digits]
  refine hexNumber_lt_of_lt (by rw [length_digits, length_digits]) isHexDigit_digits isHexDigit_digits ?_
  change u.toText.toList < v.toText.toList at h
  rw [Uuid.toText, Uuid.toText, String.toList_ofList, String.toList_ofList] at h
  simp only [List.append_assoc, List.cons_append] at h
  simp only [digits, List.append_assoc]
  rw [append_lt_append_iff (hlen 0 8), List.cons_lt_cons_iff, append_lt_append_iff (hlen 8 4), List.cons_lt_cons_iff,
    append_lt_append_iff (hlen 12 4), List.cons_lt_cons_iff, append_lt_append_iff (hlen 16 4), List.cons_lt_cons_iff] at h
  rw [append_lt_append_iff (hlen 0 8), append_lt_append_iff (hlen 8 4), append_lt_append_iff (hlen 12 4),
    append_lt_append_iff (hlen 16 4)]
  simpa using h

theorem toText_le_iff {u v : Uuid} : u.toText ≤ v.toText ↔ u.bits.toNat ≤ v.bits.toNat := by
  constructor
  · intro h
    by_cases hlt : u.toText < v.toText
    · exact (toText_lt_imp hlt).le
    · rw [Uuid.toText_injective (String.le_antisymm h (String.not_lt.1 hlt))]
  · exact fun h => String.not_lt.1 fun hlt => absurd (toText_lt_imp hlt) (Nat.not_lt.2 h)

end NorthgateRmm.Wire
