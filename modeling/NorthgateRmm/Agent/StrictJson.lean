import NorthgateRmm.Lib.GoString
import NorthgateRmm.Wire.Text

/-!
# `strictjson.Validate`

Rejects invalid UTF-8, unpaired surrogate escapes, repeated member names and trailing
values before a caller decodes into a schema. The surrogate scan runs over the bytes,
each taken as the character of its value; all that it looks for is ASCII, so that over
UTF-8 it sees what it would see in the text, and keeps in step with the grammar.
-/

namespace NorthgateRmm.Agent.StrictJson

open Json
open GoJson (Plain)

/-- `escapedCodePoint`: the value of a `\u` escape that stands here. -/
def escapedCodePoint : List Char → Option Nat
  | '\\' :: 'u' :: a :: b :: c :: d :: _ => hex4 a b c d
  | _ => none

/-- The loop of `validateSurrogateEscapes`: `skip` characters are passed over because
`index` was advanced. -/
def scan : (inString : Bool) → (skip : Nat) → List Char → Bool
  | _, _, [] => true
  | inString, skip + 1, _ :: s => scan inString skip s
  | inString, 0, c :: s =>
    if c = '\x22' then scan (!inString) 0 s
    else if c = '\\' then
      if !inString || s.isEmpty then scan inString 0 s
      else if s.head? ≠ some 'u' then scan inString 1 s
      else match escapedCodePoint (c :: s) with
        | none => scan inString 0 s
        | some value =>
          if isLow value then false
          else if !isHigh value then scan inString 5 s
          else match escapedCodePoint (s.drop 5) with
            | some low => if isLow low then scan inString 11 s else false
            | none => false
    else scan inString 0 s

def byteChar (b : UInt8) : Char := Char.ofNat b.toNat

/-- `validateSurrogateEscapes`. -/
def validateSurrogateEscapes (raw : List UInt8) : Bool := scan false 0 (raw.map byteChar)

mutual

/-- `checkValue`: no object in the value repeats a member name. -/
def checkValue : Value → Bool
  | .arr items => checkItems items
  | .obj members => (members.map fun m => text m.1).Nodup && checkMembers members
  | _ => true

def checkItems : List Value → Bool
  | [] => true
  | v :: rest => checkValue v && checkItems rest

def checkMembers : List (Literal × Value) → Bool
  | [] => true
  | (_, v) :: rest => checkValue v && checkMembers rest

end

/-- `Validate`, with the value of the text. -/
def validate (raw : List UInt8) : Option Value :=
  (Wire.decodeUtf8 raw).bind fun s =>
    if validateSurrogateEscapes raw then
      (parse GoJson.maxNestingDepth s.toList).bind fun v => if checkValue v then some v else none
    else none

variable {s r : List Char} {l : Literal} {v : Nat} {c : Char} {raw : List UInt8} {limit : Nat} {α : Type}

/-- What a valid text is. -/
theorem validate_some {v : Value} (h : validate raw = some v) :
    ∃ s, Wire.decodeUtf8 raw = some s ∧ validateSurrogateEscapes raw = true ∧
      parse GoJson.maxNestingDepth s.toList = some v ∧ checkValue v = true := by
  obtain ⟨s, hs, h⟩ := Option.bind_eq_some_iff.1 h
  split at h
  · rename_i hscan
    obtain ⟨v', hv, h⟩ := Option.bind_eq_some_iff.1 h
    split at h
    · rename_i hcheck
      cases h
      exact ⟨s, hs, hscan, hv, hcheck⟩
    · exact nomatch h
  · exact nomatch h

theorem scan_skip (inString : Bool) (a s : List Char) : scan inString a.length (a ++ s) = scan inString 0 s := by
  induction a with
  | nil => cases s <;> rfl
  | cons c a ih => exact ih

theorem scan_char {inString : Bool} (hq : c ≠ '\x22') (hb : c ≠ '\\') (s : List Char) :
    scan inString 0 (c :: s) = scan inString 0 s := by
  rw [scan, if_neg hq, if_neg hb]

/-- Characters that the scan takes no notice of. -/
theorem scan_plain {inString : Bool} {a : List Char} (h : ∀ c ∈ a, c ≠ '\x22' ∧ c ≠ '\\') (s : List Char) :
    scan inString 0 (a ++ s) = scan inString 0 s := by
  induction a with
  | nil => rfl
  | cons c a ih =>
    obtain ⟨hq, hb⟩ := h c List.mem_cons_self
    rw [List.cons_append, scan_char hq hb, ih fun d hd => h d (List.mem_cons_of_mem _ hd)]

/-! ## Bytes and characters -/

/-- The bytes of a text, each as a character. -/
def byteChars (s : List Char) : List Char := (GoString.encode s).map byteChar

theorem byteChars_cons (c : Char) (s : List Char) :
    byteChars (c :: s) = (String.utf8EncodeChar c).map byteChar ++ byteChars s := by
  rw [byteChars, GoString.encode_cons, List.map_append]
  rfl

theorem byteChars_ascii (h : c.toNat < 128) (s : List Char) : byteChars (c :: s) = c :: byteChars s := by
  have hchar : byteChar c.toUInt8 = c := by
    rw [byteChar, GoString.toNat_toUInt8 h, Char.ofNat_toNat]
  rw [byteChars_cons, GoString.utf8EncodeChar_ascii h, List.map_singleton, hchar, List.singleton_append]

/-- The bytes of a character outside ASCII are all outside ASCII. -/
theorem byteChar_high (h : 128 ≤ c.toNat) : ∀ d ∈ (String.utf8EncodeChar c).map byteChar, 128 ≤ d.toNat := by
  intro d hd
  obtain ⟨b, hb, rfl⟩ := List.mem_map.1 hd
  have hvalid : b.toNat.isValidChar := .inl (Nat.lt_trans b.toNat_lt (by decide))
  rw [byteChar, Char.ofNat, dif_pos hvalid]
  exact GoString.le_utf8EncodeChar (Nat.le_refl 128) h b hb

theorem byteChars_ne_nil (c : Char) : (String.utf8EncodeChar c).map byteChar ≠ [] := fun h => by
  have hlen := String.length_utf8EncodeChar c
  have := c.utf8Size_pos
  rw [List.map_eq_nil_iff.1 h, List.length_nil] at hlen
  omega

/-- An ASCII character among the bytes is one of the text. -/
theorem byteChars_head (hc : c.toNat < 128) (h : byteChars s = c :: r) :
    ∃ t, s = c :: t ∧ r = byteChars t := by
  cases s with
  | nil => exact nomatch h
  | cons d s =>
    by_cases hd : d.toNat < 128
    · rw [byteChars_ascii hd] at h
      cases h
      exact ⟨s, rfl, rfl⟩
    · obtain ⟨e, u, he⟩ := List.exists_cons_of_ne_nil (byteChars_ne_nil d)
      have hhigh := byteChar_high (Nat.not_lt.1 hd) e (he ▸ List.mem_cons_self)
      rw [byteChars_cons, he] at h
      cases h
      omega

theorem hexValue_ascii {n : Nat} (h : hexValue c = some n) : c.toNat < 128 := by
  simp only [hexValue, Char.le_def, UInt32.le_iff_toNat_le] at h
  split_ifs at h with h1 h2 h3
  · exact Nat.lt_of_le_of_lt (show c.toNat ≤ 57 from h1.2) (by decide)
  · exact Nat.lt_of_le_of_lt (show c.toNat ≤ 102 from h2.2) (by decide)
  · exact Nat.lt_of_le_of_lt (show c.toNat ≤ 70 from h3.2) (by decide)

theorem hex4_ascii {a b c d : Char} (h : hex4 a b c d = some v) :
    a.toNat < 128 ∧ b.toNat < 128 ∧ c.toNat < 128 ∧ d.toNat < 128 := by
  unfold hex4 at h
  split at h
  · rename_i ha hb hc hd
    exact ⟨hexValue_ascii ha, hexValue_ascii hb, hexValue_ascii hc, hexValue_ascii hd⟩
  · exact nomatch h

theorem escapedCodePoint_some {s : List Char} (h : escapedCodePoint s = some v) :
    ∃ a b c d t, s = '\\' :: 'u' :: a :: b :: c :: d :: t ∧ hex4 a b c d = some v := by
  unfold escapedCodePoint at h
  split at h
  · exact ⟨_, _, _, _, _, rfl, h⟩
  · exact nomatch h

theorem byteChars_escape {a b c d : Char} (h : hex4 a b c d = some v) (t : List Char) :
    byteChars ('\\' :: 'u' :: a :: b :: c :: d :: t) = '\\' :: 'u' :: a :: b :: c :: d :: byteChars t := by
  obtain ⟨ha, hb, hc, hd⟩ := hex4_ascii h
  rw [byteChars_ascii (by decide), byteChars_ascii (by decide), byteChars_ascii ha, byteChars_ascii hb,
    byteChars_ascii hc, byteChars_ascii hd]

theorem escapedCodePoint_byteChars (s : List Char) : escapedCodePoint (byteChars s) = escapedCodePoint s := by
  refine Option.ext fun v => ⟨fun h => ?_, fun h => ?_⟩
  · obtain ⟨a, b, c, d, t, hs, hv⟩ := escapedCodePoint_some h
    obtain ⟨ha, hb, hc, hd⟩ := hex4_ascii hv
    obtain ⟨s₁, rfl, h₁⟩ := byteChars_head (by decide) hs
    obtain ⟨s₂, rfl, h₂⟩ := byteChars_head (by decide) h₁.symm
    obtain ⟨s₃, rfl, h₃⟩ := byteChars_head ha h₂.symm
    obtain ⟨s₄, rfl, h₄⟩ := byteChars_head hb h₃.symm
    obtain ⟨s₅, rfl, h₅⟩ := byteChars_head hc h₄.symm
    obtain ⟨s₆, rfl, -⟩ := byteChars_head hd h₅.symm
    exact hv
  · obtain ⟨a, b, c, d, t, rfl, hv⟩ := escapedCodePoint_some h
    rw [byteChars_escape hv]
    exact hv

theorem ascii_marks (h : 128 ≤ c.toNat) : c ≠ '\x22' ∧ c ≠ '\\' ∧ c ≠ 'u' := by
  refine ⟨?_, ?_, ?_⟩ <;> rintro rfl <;> exact absurd h (by decide)

/-- One character after a backslash is passed over, whatever its bytes. -/
theorem scan_skip_byteChars (inString : Bool) (c : Char) (s : List Char) :
    scan inString 1 (byteChars (c :: s)) = scan inString 0 (byteChars s) := by
  by_cases hc : c.toNat < 128
  · rw [byteChars_ascii hc]
    exact scan_skip inString [c] _
  · obtain ⟨e, u, he⟩ := List.exists_cons_of_ne_nil (byteChars_ne_nil c)
    have hhigh := byteChar_high (Nat.not_lt.1 hc)
    rw [he, List.forall_mem_cons] at hhigh
    rw [byteChars_cons, he, List.cons_append]
    exact scan_plain (fun d hd => ⟨(ascii_marks (hhigh.2 d hd)).1, (ascii_marks (hhigh.2 d hd)).2.1⟩) _

/-- **The scan of the bytes is the scan of the text.** -/
theorem scan_byteChars (inString : Bool) (s : List Char) : scan inString 0 (byteChars s) = scan inString 0 s := by
  induction hn : s.length using Nat.strong_induction_on generalizing s inString with
  | _ n ih =>
  subst hn
  cases s with
  | nil => rfl
  | cons c s =>
    have hnext : ∀ inString, scan inString 0 (byteChars s) = scan inString 0 s := fun b => ih _ (Nat.lt_succ_self _) b s rfl
    by_cases hc : c.toNat < 128
    · have hcode := escapedCodePoint_byteChars (c :: s)
      rw [byteChars_ascii hc] at hcode ⊢
      by_cases hq : c = '\x22'
      · rw [scan, if_pos hq, scan, if_pos hq, hnext]
      by_cases hb : c = '\\'
      · rw [scan, if_neg hq, if_pos hb, scan, if_neg hq, if_pos hb, hcode]
        cases s with
        | nil => rfl
        | cons d s =>
          have hempty : (byteChars (d :: s)).isEmpty = false := by
            rw [byteChars_cons, Bool.eq_false_iff, Ne, List.isEmpty_iff, List.append_eq_nil_iff, not_and]
            exact fun hnil => absurd hnil (byteChars_ne_nil d)
          have hu : (byteChars (d :: s)).head? = some 'u' ↔ d = 'u' := by
            constructor
            · intro h
              obtain ⟨t, ht⟩ := List.head?_eq_some_iff.1 h
              obtain ⟨t', ht', -⟩ := byteChars_head (by decide) ht
              exact (List.cons.inj ht').1
            · rintro rfl
              rw [byteChars_ascii (by decide)]
              rfl
          have hhead : (d :: s).head? = some 'u' ↔ d = 'u' := by rw [List.head?_cons, Option.some.injEq]
          simp only [hempty, List.isEmpty_cons, Bool.or_false, Ne, hu, hhead]
          by_cases hin : inString
          · simp only [hin, Bool.not_true, Bool.false_eq_true, if_false]
            by_cases hd : d = 'u'
            · rw [if_neg (not_not.2 hd), if_neg (not_not.2 hd)]
              subst hd
              subst hb
              cases hv : escapedCodePoint ('\\' :: 'u' :: s) with
              | none => exact hnext true
              | some v =>
                obtain ⟨a, b, c, d, t, hs, hhex⟩ := escapedCodePoint_some hv
                obtain rfl : s = a :: b :: c :: d :: t := by cases hs; rfl
                obtain ⟨ha, hb, hc, hd⟩ := hex4_ascii hhex
                have htext : byteChars ('u' :: a :: b :: c :: d :: t) = ['u', a, b, c, d] ++ byteChars t := by
                  rw [byteChars_ascii (by decide), byteChars_ascii ha, byteChars_ascii hb, byteChars_ascii hc,
                    byteChars_ascii hd]
                  rfl
                have hlen : ∀ u : List Char, u.length ≤ t.length → scan true 0 (byteChars u) = scan true 0 u :=
                  fun u hu => ih _ (by simp only [List.length_cons]; omega) true u rfl
                rw [htext, show 'u' :: a :: b :: c :: d :: t = ['u', a, b, c, d] ++ t from rfl,
                  show (['u', a, b, c, d] ++ byteChars t).drop 5 = byteChars t from rfl,
                  show (['u', a, b, c, d] ++ t).drop 5 = t from rfl, escapedCodePoint_byteChars]
                have h5 : scan true 5 (['u', a, b, c, d] ++ byteChars t) = scan true 5 (['u', a, b, c, d] ++ t) :=
                  (scan_skip true ['u', a, b, c, d] _).trans ((hlen t (Nat.le_refl _)).trans
                    (scan_skip true ['u', a, b, c, d] _).symm)
                cases hw : escapedCodePoint t with
                | none => simp only [h5]
                | some w =>
                  obtain ⟨a', b', c', d', t', rfl, hhex'⟩ := escapedCodePoint_some hw
                  have h11 : scan true 11 (['u', a, b, c, d] ++ byteChars ('\\' :: 'u' :: a' :: b' :: c' :: d' :: t')) =
                      scan true 11 (['u', a, b, c, d] ++ '\\' :: 'u' :: a' :: b' :: c' :: d' :: t') := by
                    rw [byteChars_escape hhex']
                    refine (scan_skip true ['u', a, b, c, d, '\\', 'u', a', b', c', d'] _).trans (Eq.trans ?_
                      (scan_skip true ['u', a, b, c, d, '\\', 'u', a', b', c', d'] _).symm)
                    exact hlen t' (by simp only [List.length_cons]; omega)
                  simp only [h5, h11]
            · rw [if_pos hd, if_pos hd, scan_skip_byteChars]
              exact (ih _ (by simp only [List.length_cons]; omega) true s rfl).trans (scan_skip true [d] s).symm
          · simp only [hin, Bool.not_false, if_true]
            exact hnext _
      · rw [scan_char hq hb, scan_char hq hb, hnext]
    · have hhigh := byteChar_high (Nat.not_lt.1 hc)
      have hmarks := ascii_marks (Nat.not_lt.1 hc)
      rw [byteChars_cons, scan_plain fun d hd => ⟨(ascii_marks (hhigh d hd)).1, (ascii_marks (hhigh d hd)).2.1⟩,
        scan_char hmarks.1 hmarks.2.1, hnext]

theorem validateSurrogateEscapes_eq {s : String} (h : Wire.decodeUtf8 raw = some s) :
    validateSurrogateEscapes raw = scan false 0 s.toList := by
  rw [← scan_byteChars, byteChars, ← GoString.toByteArray_eq, validateSurrogateEscapes, Wire.bytes_of_decodeUtf8 h]

/-! ## Texts that are written -/

theorem scan_piece {p : Piece} (hok : p.ok) (h : Plain p) (s : List Char) :
    scan true 0 (p.render ++ s) = scan true 0 s := by
  cases p with
  | char c => exact scan_char hok.2.1 hok.2.2 s
  | short c =>
    have hu : c ≠ 'u' := by rintro rfl; revert hok; simp [Piece.ok, shortEscapes]
    show scan true 0 ('\\' :: c :: s) = _
    rw [scan, if_neg (by decide), if_pos rfl, if_neg (by simp), if_pos (by simpa using hu)]
    exact scan_skip true [c] s
  | unit v =>
    obtain ⟨hhigh, hlow⟩ := h
    have hcode : escapedCodePoint ((Piece.unit v).render ++ s) = some v := hex4_hexDigit hok
    have hlow : isLow v = false := hlow
    have hhigh : isHigh v = false := hhigh
    simp only [Piece.render, List.cons_append, List.nil_append] at hcode ⊢
    rw [scan, if_neg (by decide), if_pos rfl, if_neg (by simp), if_neg (by simp), hcode]
    simp only [hlow, hhigh, Bool.false_eq_true, if_false, Bool.not_false, if_true]
    exact scan_skip true ['u', _, _, _, _] s

theorem scan_pieces (h : ∀ p ∈ l, p.ok ∧ Plain p) (s : List Char) :
    scan true 0 (l.flatMap Piece.render ++ s) = scan true 0 s := by
  induction l with
  | nil => rfl
  | cons p l ih =>
    obtain ⟨hok, hplain⟩ := h p List.mem_cons_self
    rw [List.flatMap_cons, List.append_assoc, scan_piece hok hplain, ih fun q hq => h q (List.mem_cons_of_mem _ hq)]

/-- A string literal is passed over as a whole. -/
theorem scan_literal (h : ∀ p ∈ l, p.ok ∧ Plain p) (s : List Char) :
    scan false 0 (renderLiteral l ++ s) = scan false 0 s := by
  have hopen : ∀ t, scan false 0 ('\x22' :: t) = scan true 0 t := fun t => by rw [scan, if_pos rfl]; rfl
  have hclose : ∀ t, scan true 0 ('\x22' :: t) = scan false 0 t := fun t => by rw [scan, if_pos rfl]; rfl
  rw [renderLiteral, List.cons_append, List.cons_append, List.append_assoc, hopen, scan_pieces h]
  exact hclose s

theorem scan_separated {write : α → List Char} {l : List α}
    (h : ∀ x ∈ l, ∀ s, scan false 0 (write x ++ s) = scan false 0 s) (s : List Char) :
    scan false 0 (separated write l ++ s) = scan false 0 s := by
  induction l with
  | nil => rfl
  | cons x l ih =>
    cases l with
    | nil => exact h x List.mem_cons_self s
    | cons y l =>
      have hsep : separated write (x :: y :: l) = write x ++ ',' :: separated write (y :: l) := rfl
      rw [hsep, List.append_assoc, h x List.mem_cons_self, List.cons_append, scan_char (by decide) (by decide),
        ih fun z hz => h z (List.mem_cons_of_mem _ hz)]

/-- A written text without surrogates is passed over. -/
theorem scan_render {v : Value} (h : Printable Plain limit v) (s : List Char) :
    scan false 0 (render v ++ s) = scan false 0 s := by
  induction h generalizing s with
  | null => exact scan_plain (by simp [render]) s
  | bool b => cases b <;> exact scan_plain (by simp [render]) s
  | @num limit n hn =>
    refine scan_plain (fun c hc => ?_) s
    rw [render, Number.render, hn.rest, List.append_nil] at hc
    rcases List.mem_append.mp hc with hc | hc
    · split at hc
      · obtain rfl := List.mem_singleton.mp hc
        decide
      · simp at hc
    · have hd := hn.digit c hc
      constructor <;> rintro rfl <;> exact absurd hd (by decide)
  | str hl => exact scan_literal hl s
  | @arr limit l _ ih =>
    have htext : render (.arr l) ++ s = '[' :: (separated render l ++ ']' :: s) := by
      simp [render, renderItems_eq]
    rw [htext, scan_char (by decide) (by decide), scan_separated ih, scan_char (by decide) (by decide)]
  | @obj limit l hn _ ih =>
    have htext : render (.obj l) ++ s = '\x7b' :: (separated renderMember l ++ '\x7d' :: s) := by
      simp [render, renderMembers_eq]
    have hmember : ∀ m ∈ l, ∀ t, scan false 0 (renderMember m ++ t) = scan false 0 t := by
      intro m hm t
      rw [renderMember, List.append_assoc, scan_literal (hn m hm), List.cons_append,
        scan_char (by decide) (by decide), ih m hm]
    rw [htext, scan_char (by decide) (by decide), scan_separated hmember, scan_char (by decide) (by decide)]

/-- A written object whose names differ. -/
theorem checkValue_object {l : List (String × Value)} (hn : (l.map (·.1)).Nodup)
    (hv : ∀ e ∈ l, checkValue e.2 = true) : checkValue (GoJson.object l) = true := by
  have hnames : (l.map fun e => (GoJson.literalOf e.1, e.2)).map (fun m => text m.1) = l.map (·.1) := by
    rw [List.map_map]
    exact List.map_congr_left fun e _ => GoJson.text_literalOf e.1
  have hmembers : checkMembers (l.map fun e => (GoJson.literalOf e.1, e.2)) = true := by
    clear hn hnames
    induction l with
    | nil => rfl
    | cons e l ih =>
      rw [List.map_cons, checkMembers, hv e List.mem_cons_self, Bool.true_and]
      exact ih fun e he => hv e (List.mem_cons_of_mem _ he)
  rw [GoJson.object, checkValue, hnames, hmembers, Bool.and_true]
  exact decide_eq_true hn

/-- **Written texts are valid.** -/
theorem validate_render {v : Value} (h : Printable Plain GoJson.maxNestingDepth v) (hnames : checkValue v = true) :
    validate (Wire.encodeUtf8 (String.ofList (render v))) = some v := by
  have hutf8 := Wire.decodeUtf8_encodeUtf8 (String.ofList (render v))
  have hscan : validateSurrogateEscapes (Wire.encodeUtf8 (String.ofList (render v))) = true := by
    have := scan_render h []
    rw [List.append_nil] at this
    rw [validateSurrogateEscapes_eq hutf8, String.toList_ofList, this]
    rfl
  rw [validate, hutf8, Option.bind_some, String.toList_ofList, if_pos hscan, parse_render h, Option.bind_some,
    if_pos hnames]

/-! ## Texts that are read -/

/-- No surrogate escape of the literal is without its other half, in one pass. -/
def surrogatesPaired : Literal → Bool
  | [] => true
  | .unit v :: l =>
    if isLow v then false
    else if isHigh v then
      match l with
      | .unit w :: l => isLow w && surrogatesPaired l
      | _ => false
    else surrogatesPaired l
  | _ :: l => surrogatesPaired l

theorem surrogatesPaired_low (h : isLow v = true) (l : Literal) : surrogatesPaired (.unit v :: l) = false := by
  unfold surrogatesPaired
  rw [if_pos h]

theorem surrogatesPaired_high (hlow : isLow v = false) (hhigh : isHigh v = true) (l : Literal) :
    surrogatesPaired (.unit v :: l) = match l with
      | .unit w :: l => isLow w && surrogatesPaired l
      | _ => false := by
  rw [surrogatesPaired.eq_def]
  simp only [hlow, hhigh, Bool.false_eq_true, if_false, if_true]
  rfl

theorem surrogatesPaired_plain (hlow : isLow v = false) (hhigh : isHigh v = false) (l : Literal) :
    surrogatesPaired (.unit v :: l) = surrogatesPaired l := by
  rw [surrogatesPaired.eq_def]
  simp only [hlow, hhigh, Bool.false_eq_true, if_false]

theorem surrogatesPaired_of_plain (h : ∀ p ∈ l, Plain p) : surrogatesPaired l = true := by
  induction l with
  | nil => rfl
  | cons p l ih =>
    obtain ⟨⟨hhigh, hlow⟩, hl⟩ := List.forall_mem_cons.1 h
    cases p with
    | char c => exact ih hl
    | short c => exact ih hl
    | unit v => exact (surrogatesPaired_plain hlow hhigh l).trans (ih hl)

/-- `r` is what is left of `s` after characters that the scan takes no notice of. -/
def Passed (s r : List Char) : Prop := ∃ a, s = a ++ r ∧ ∀ c ∈ a, c ≠ '\x22' ∧ c ≠ '\\'

theorem Passed.refl (s : List Char) : Passed s s := ⟨[], rfl, nofun⟩

theorem Passed.trans {s t r : List Char} (h : Passed s t) (h' : Passed t r) : Passed s r := by
  obtain ⟨a, rfl, ha⟩ := h
  obtain ⟨b, rfl, hb⟩ := h'
  exact ⟨a ++ b, (List.append_assoc a b r).symm, List.forall_mem_append.2 ⟨ha, hb⟩⟩

theorem Passed.cons (hq : c ≠ '\x22') (hb : c ≠ '\\') (h : Passed s r) : Passed (c :: s) r :=
  (show Passed (c :: s) s from ⟨[c], rfl, List.forall_mem_singleton.2 ⟨hq, hb⟩⟩).trans h

theorem Passed.scan (h : Passed s r) : scan false 0 s = scan false 0 r := by
  obtain ⟨a, rfl, ha⟩ := h
  exact scan_plain ha r

theorem passed_dropWhile {p : Char → Bool} (hp : ∀ c, p c = true → c ≠ '\x22' ∧ c ≠ '\\') (s : List Char) :
    Passed s (s.dropWhile p) :=
  ⟨s.takeWhile p, List.takeWhile_append_dropWhile.symm, fun c hc => hp c (List.mem_takeWhile_imp hc)⟩

theorem passed_skipWs (s : List Char) : Passed s (skipWs s) :=
  passed_dropWhile (fun c hc => by constructor <;> (rintro rfl; exact absurd hc (by decide))) s

theorem passed_digits (s : List Char) : Passed s (s.dropWhile isDigit) :=
  passed_dropWhile (fun c hc => by constructor <;> (rintro rfl; exact absurd hc (by decide))) s

theorem passed_fraction {s f r : List Char} (h : fraction s = some (f, r)) : Passed s r := by
  unfold fraction at h
  split at h
  · split at h
    · exact nomatch h
    · cases h
      exact (passed_digits _).cons (by decide) (by decide)
  · cases h
    exact .refl _

theorem passed_exponent {s f r : List Char} (h : exponent s = some (f, r)) : Passed s r := by
  unfold exponent at h
  split at h
  · rename_i e t
    split at h
    · rename_i he
      dsimp only at h
      split at h
      · exact nomatch h
      · cases h
        have hsign : Passed t (t.drop ((t.take 1).filter fun c => c = '+' || c = '-').length) := by
          cases t with
          | nil => exact .refl _
          | cons c t =>
            by_cases hc : c = '+' ∨ c = '-'
            · rcases hc with rfl | rfl <;> exact (Passed.refl t).cons (by decide) (by decide)
            · rw [not_or] at hc
              simp only [List.take_succ_cons, List.take_zero, List.filter_cons, hc.1, hc.2, decide_false, Bool.or_self,
                Bool.false_eq_true, if_false, List.filter_nil, List.length_nil, List.drop_zero]
              exact .refl _
        refine (hsign.trans (passed_digits _)).cons ?_ ?_ <;> rcases he with rfl | rfl <;> decide
    · cases h
      exact .refl _
  · cases h
    exact .refl _

theorem passed_unsigned {negative : Bool} {n : Number} (h : unsigned negative s = some (n, r)) :
    Passed s r := by
  have hdigits : Passed s (s.drop (if s.head? = some '0' then ['0'] else s.takeWhile isDigit).length) := by
    split
    · rename_i hzero
      cases s with
      | nil => exact .refl _
      | cons c s =>
        obtain rfl := Option.some.inj hzero
        exact (Passed.refl s).cons (by decide) (by decide)
    · have hdrop : ∀ t, t = s.takeWhile isDigit ++ s.dropWhile isDigit →
          t.drop (s.takeWhile isDigit).length = s.dropWhile isDigit := by
        rintro _ rfl
        exact List.drop_left
      rw [hdrop s List.takeWhile_append_dropWhile.symm]
      exact passed_digits s
  simp only [unsigned] at h
  generalize (if s.head? = some '0' then ['0'] else s.takeWhile isDigit) = ds at h hdigits
  by_cases hempty : ds.isEmpty
  · rw [if_pos hempty] at h
    cases h
  · rw [if_neg hempty, Option.bind_eq_bind, Option.bind_eq_some_iff] at h
    obtain ⟨f, hf, h⟩ := h
    obtain ⟨e, he, h⟩ := Option.bind_eq_some_iff.1 h
    cases h
    exact hdigits.trans ((passed_fraction hf).trans (passed_exponent he))

theorem passed_number {n : Number} (h : number s = some (n, r)) : Passed s r := by
  unfold number at h
  split at h
  · exact (passed_unsigned h).cons (by decide) (by decide)
  · exact passed_unsigned h

def firstUnit : Literal → Option Nat
  | .unit v :: _ => some v
  | _ => none

/-- Where a literal goes on with a `\u` escape. -/
theorem escapedCodePoint_read (h : ReadsLiteral s l r) :
    escapedCodePoint s = firstUnit l := by
  cases h with
  | close => rfl
  | unit hv _ => exact hv
  | @short e _ _ _ he _ =>
    have hu : e ≠ 'u' := by rintro rfl; exact absurd he (by decide)
    unfold escapedCodePoint
    split
    · rename_i heq
      exact absurd (List.cons.inj (List.cons.inj heq).2).1 hu
    · rfl
  | char _ hb _ _ =>
    unfold escapedCodePoint
    split
    · rename_i heq
      exact absurd (List.cons.inj heq).1 hb
    · rfl

/-- The scan of a literal ends behind its closing quote, or stops at an unpaired escape. The
second part is for the half of a pair that the scan takes together with the first. -/
theorem scan_readsLiteral (h : ReadsLiteral s l r) :
    scan true 0 s = (surrogatesPaired l && scan false 0 r) ∧
      ∀ w l', l = .unit w :: l' → scan true 0 (s.drop 6) = (surrogatesPaired l' && scan false 0 r) := by
  induction h with
  | close =>
    refine ⟨?_, nofun⟩
    rw [scan, if_pos rfl]
    rfl
  | @unit a b c d v s r l hv h ih =>
    refine ⟨?_, ?_⟩
    · have hcode : escapedCodePoint ('\\' :: 'u' :: a :: b :: c :: d :: s) = some v := hv
      have hnext := escapedCodePoint_read h
      rw [scan, if_neg (by decide), if_pos rfl, if_neg (by simp), if_neg (by simp), hcode]
      simp only [List.drop_succ_cons, List.drop_zero, hnext]
      cases hlow : isLow v with
      | true => rw [surrogatesPaired_low hlow, if_pos rfl, Bool.false_and]
      | false =>
        cases hhigh : isHigh v with
        | false =>
          rw [surrogatesPaired_plain hlow hhigh]
          exact (scan_skip true ['u', a, b, c, d] s).trans ih.1
        | true =>
          rw [surrogatesPaired_high hlow hhigh]
          cases h with
          | close => rfl
          | short => rfl
          | char => rfl
          | @unit a' b' c' d' w t _ l hw _ =>
            have hpair : scan true 11 ('u' :: a :: b :: c :: d :: '\\' :: 'u' :: a' :: b' :: c' :: d' :: t) =
                (surrogatesPaired l && scan false 0 r) :=
              (scan_skip true ['u', a, b, c, d, '\\', 'u', a', b', c', d'] t).trans (ih.2 w l rfl)
            simp only [firstUnit, Bool.false_eq_true, if_false, Bool.not_true, hpair]
            cases isLow w <;> rfl
    · rintro w l' heq
      cases heq
      exact ih.1
  | @short e s r l he h ih =>
    refine ⟨?_, nofun⟩
    have hu : e ≠ 'u' := by rintro rfl; exact absurd he (by decide)
    rw [scan, if_neg (by decide), if_pos rfl, if_neg (by simp), if_pos (by simpa using hu)]
    exact (scan_skip true [e] s).trans ih.1
  | char hq hb _ _ ih =>
    refine ⟨?_, nofun⟩
    rw [scan_char hq hb]
    exact ih.1

theorem scan_read (h : literal s = some (l, r)) :
    scan false 0 ('\x22' :: s) = (surrogatesPaired l && scan false 0 r) := by
  rw [scan, if_pos rfl]
  exact (scan_readsLiteral (readsLiteral h)).1

def allPaired (ls : List Literal) : Bool := ls.all surrogatesPaired

theorem scan_scalar {v : Value} (h : scalar s = some (v, r)) :
    scan false 0 s = (allPaired (literals v) && scan false 0 r) := by
  have hword : ∀ {word : List Char}, word.isPrefixOf s = true → (∀ c ∈ word, c ≠ '\x22' ∧ c ≠ '\\') →
      scan false 0 s = scan false 0 (s.drop word.length) := fun {word} hp hw => by
    obtain ⟨t, rfl⟩ := List.isPrefixOf_iff_prefix.1 hp
    rw [List.drop_left]
    exact scan_plain hw t
  unfold scalar at h
  split_ifs at h with hq hn ht hf
  · obtain ⟨⟨l, r'⟩, hl, h⟩ := Option.map_eq_some_iff.1 h
    cases h
    cases s with
    | nil => exact nomatch hq
    | cons c s =>
      obtain rfl := Option.some.inj hq
      rw [List.tail_cons] at hl
      rw [scan_read hl, allPaired, literals, List.all_cons, List.all_nil, Bool.and_true]
  · cases h
    exact hword hn (by simp)
  · cases h
    exact hword ht (by simp)
  · cases h
    exact hword hf (by simp)
  · obtain ⟨⟨n, r'⟩, hn, h⟩ := Option.map_eq_some_iff.1 h
    cases h
    exact (passed_number hn).scan

theorem scan_items {item : List Char → Option (α × List Char)} {lits : α → List Literal} {close : Char}
    (hq : close ≠ '\x22') (hb : close ≠ '\\')
    (hitem : ∀ s x r, item s = some (x, r) → scan false 0 s = (allPaired (lits x) && scan false 0 r)) {k : Nat}
    {l : List α} (h : items item close k s = some (l, r)) :
    scan false 0 s = (allPaired (l.flatMap lits) && scan false 0 r) := by
  induction k generalizing s l with
  | zero => cases h
  | succ k ih =>
    rw [items] at h
    split at h
    · cases h
    rename_i x t hx
    split at h
    · cases h
    rename_i c t' hskip
    have hws : scan false 0 t = scan false 0 (c :: t') := hskip ▸ (passed_skipWs t).scan
    split_ifs at h with hc hcomma
    · cases h
      rw [hitem _ _ _ hx, hws, hc, scan_char hq hb, List.flatMap_singleton]
    · obtain ⟨⟨l', r'⟩, hrest, h⟩ := Option.map_eq_some_iff.1 h
      cases h
      rw [hitem _ _ _ hx, hws, hcomma, scan_char (by decide) (by decide), ih hrest, List.flatMap_cons, allPaired,
        allPaired, allPaired, List.all_append, Bool.and_assoc]

theorem scan_bracketed {item : List Char → Option (α × List Char)} {lits : α → List Literal} {close : Char}
    (hq : close ≠ '\x22') (hb : close ≠ '\\')
    (hitem : ∀ s x r, item s = some (x, r) → scan false 0 s = (allPaired (lits x) && scan false 0 r))
    {l : List α} (h : bracketed item close s = some (l, r)) :
    scan false 0 s = (allPaired (l.flatMap lits) && scan false 0 r) := by
  unfold bracketed at h
  split at h
  · rename_i hclose
    cases h
    have hws := (passed_skipWs s).scan
    cases hskip : skipWs s with
    | nil => rw [hskip] at hclose; exact nomatch hclose
    | cons c t =>
      rw [hskip] at hclose hws
      obtain rfl := Option.some.inj hclose
      rw [hws, scan_char hq hb]
      rfl
  · exact scan_items hq hb hitem h

theorem scan_member {val : List Char → Option (Value × List Char)}
    (hval : ∀ s v r, val s = some (v, r) → scan false 0 s = (allPaired (literals v) && scan false 0 r))
    {m : Literal × Value} (h : member val s = some (m, r)) :
    scan false 0 s = (allPaired (m.1 :: literals m.2) && scan false 0 r) := by
  obtain ⟨name, t, u, hquote, hname, hcolon, hv⟩ := member_some h
  rw [(passed_skipWs s).scan, hquote, scan_read hname, (passed_skipWs t).scan, hcolon, scan_char (by decide) (by decide),
    hval _ _ _ hv, allPaired, allPaired, List.all_cons, Bool.and_assoc]

/-- The scan of a value checks its literals and goes on behind it. -/
theorem scan_value {v : Value} (h : value limit s = some (v, r)) :
    scan false 0 s = (allPaired (literals v) && scan false 0 r) := by
  induction limit generalizing s r v with
  | zero => exact (passed_skipWs s).scan.trans (scan_scalar h)
  | succ limit ih =>
    rw [value] at h
    rw [(passed_skipWs s).scan]
    split at h
    · rename_i t hskip
      obtain ⟨⟨l, r'⟩, hl, h⟩ := Option.map_eq_some_iff.1 h
      cases h
      rw [hskip, scan_char (by decide) (by decide), literals, itemLiterals_eq]
      exact scan_bracketed (by decide) (by decide) (fun _ _ _ hx => ih hx) hl
    · rename_i t hskip
      obtain ⟨⟨l, r'⟩, hl, h⟩ := Option.map_eq_some_iff.1 h
      cases h
      rw [hskip, scan_char (by decide) (by decide), literals, memberLiterals_eq]
      exact scan_bracketed (by decide) (by decide) (fun _ _ _ hm => scan_member (fun _ _ _ hv => ih hv) hm) hl
    · exact scan_scalar h

theorem validateSurrogateEscapes_of_parse {s : String} {v : Value}
    (hs : Wire.decodeUtf8 raw = some s) (h : parse limit s.toList = some v) :
    validateSurrogateEscapes raw = allPaired (literals v) := by
  unfold parse at h
  split at h
  · rename_i r hvalue
    split at h
    · rename_i hempty
      cases h
      rw [validateSurrogateEscapes_eq hs, scan_value hvalue, (passed_skipWs r).scan, List.isEmpty_iff.1 hempty, scan,
        Bool.and_true]
    · exact nomatch h
  · exact nomatch h

/-! ## Pairs -/

/-- Every escape of a high surrogate is followed by one of a low surrogate, and every
escape of a low surrogate follows one of a high surrogate. -/
def Paired (l : Literal) : Prop := ∀ i v, l[i]? = some (.unit v) →
  (isHigh v = true → ∃ w, l[i + 1]? = some (.unit w) ∧ isLow w = true) ∧
  (isLow v = true → ∃ j u, i = j + 1 ∧ l[j]? = some (.unit u) ∧ isHigh u = true)

/-- A piece that is no surrogate says nothing about the rest. -/
theorem paired_cons {p : Piece} (h : ∀ v, p = .unit v → isHigh v = false ∧ isLow v = false) :
    Paired (p :: l) ↔ Paired l := by
  constructor
  · intro hl i v hi
    obtain ⟨hhigh, hlow⟩ := hl (i + 1) v hi
    refine ⟨hhigh, fun hv => ?_⟩
    obtain ⟨j, u, hj, hu, huhigh⟩ := hlow hv
    obtain rfl : i = j := Nat.succ.inj hj
    cases i with
    | zero =>
      rw [(h u (Option.some.inj hu)).1] at huhigh
      exact nomatch huhigh
    | succ j => exact ⟨j, u, rfl, hu, huhigh⟩
  · intro hl i v hi
    cases i with
    | zero =>
      obtain ⟨hhigh, hlow⟩ := h v (Option.some.inj hi)
      rw [hhigh, hlow]
      exact ⟨nofun, nofun⟩
    | succ i =>
      obtain ⟨hhigh, hlow⟩ := hl i v hi
      refine ⟨hhigh, fun hv => ?_⟩
      obtain ⟨j, u, rfl, hu, huhigh⟩ := hlow hv
      exact ⟨j + 1, u, rfl, hu, huhigh⟩

theorem isLow_of_isHigh (h : isHigh v = true) : isLow v = false := by
  simp only [isHigh, isLow, Bool.and_eq_true, Bool.and_eq_false_iff, decide_eq_true_eq, decide_eq_false_iff_not] at h ⊢
  omega

theorem isHigh_of_isLow (h : isLow v = true) : isHigh v = false := by
  cases hh : isHigh v with
  | false => rfl
  | true =>
    rw [isLow_of_isHigh hh] at h
    exact nomatch h

/-- A pair says nothing about the rest. -/
theorem paired_pair {v w : Nat} (hv : isHigh v = true) (hw : isLow w = true) :
    Paired (.unit v :: .unit w :: l) ↔ Paired l := by
  constructor
  · intro hl i x hi
    obtain ⟨hhigh, hlow⟩ := hl (i + 2) x hi
    refine ⟨hhigh, fun hx => ?_⟩
    obtain ⟨j, u, hj, hu, huhigh⟩ := hlow hx
    obtain rfl : i + 1 = j := Nat.succ.inj hj
    cases i with
    | zero =>
      obtain rfl : w = u := Piece.unit.inj (Option.some.inj hu)
      rw [isHigh_of_isLow hw] at huhigh
      exact nomatch huhigh
    | succ j => exact ⟨j, u, rfl, hu, huhigh⟩
  · intro hl i x hi
    match i with
    | 0 =>
      obtain rfl : v = x := Piece.unit.inj (Option.some.inj hi)
      refine ⟨fun _ => ⟨w, rfl, hw⟩, fun hx => ?_⟩
      rw [isLow_of_isHigh hv] at hx
      exact nomatch hx
    | 1 =>
      obtain rfl : w = x := Piece.unit.inj (Option.some.inj hi)
      refine ⟨fun hx => ?_, fun _ => ⟨0, v, rfl, rfl, hv⟩⟩
      rw [isHigh_of_isLow hw] at hx
      exact nomatch hx
    | i + 2 =>
      obtain ⟨hhigh, hlow⟩ := hl i x hi
      refine ⟨hhigh, fun hx => ?_⟩
      obtain ⟨j, u, rfl, hu, huhigh⟩ := hlow hx
      exact ⟨j + 2, u, rfl, hu, huhigh⟩

theorem surrogatesPaired_iff (l : Literal) : surrogatesPaired l = true ↔ Paired l := by
  fun_induction surrogatesPaired l with
  | case1 => exact ⟨fun _ => nofun, fun _ => rfl⟩
  | case2 v l hlow =>
    refine ⟨nofun, fun h => ?_⟩
    obtain ⟨j, _, hj, -⟩ := (h 0 v rfl).2 hlow
    exact nomatch hj
  | case3 v hlow hhigh w l ih =>
    rw [Bool.and_eq_true]
    constructor
    · rintro ⟨hw, hl⟩
      exact (paired_pair hhigh hw).2 (ih.1 hl)
    · intro h
      obtain ⟨w', hw', hlow'⟩ := (h 0 v rfl).1 hhigh
      obtain rfl : w = w' := Piece.unit.inj (Option.some.inj hw')
      exact ⟨hlow', ih.2 ((paired_pair hhigh hlow').1 h)⟩
  | case4 v l hlow hhigh hnext =>
    refine ⟨nofun, fun h => ?_⟩
    obtain ⟨w, hw, -⟩ := (h 0 v rfl).1 hhigh
    cases l with
    | nil => exact nomatch hw
    | cons p l => exact absurd (by rw [Option.some.inj hw]) (hnext w l)
  | case5 v l hlow hhigh ih =>
    rw [ih, paired_cons]
    rintro _ ⟨⟩
    exact ⟨Bool.eq_false_iff.2 hhigh, Bool.eq_false_iff.2 hlow⟩
  | case6 p l hp ih =>
    rw [ih, paired_cons]
    exact fun v hv => absurd hv (hp v)

theorem isValidChar_unit (h : v < 0x10000) (hlow : isLow v = false) (hhigh : isHigh v = false) :
    v.isValidChar := by
  simp only [isHigh, isLow, Bool.and_eq_false_iff, decide_eq_false_iff_not] at hlow hhigh
  show v < 0xd800 ∨ 0xdfff < v ∧ v < 0x110000
  omega

/-- A literal whose surrogates are paired means code points that are characters. -/
theorem isValidChar_codes (hok : ∀ p ∈ l, p.ok) (h : surrogatesPaired l = true) :
    ∀ v ∈ codes l, v.isValidChar := by
  induction l using codes.induct with
  | case1 hi lo l hpair ih =>
    rw [codes, if_pos hpair]
    rw [Bool.and_eq_true] at hpair
    rw [surrogatesPaired_high (isLow_of_isHigh hpair.1) hpair.1, Bool.and_eq_true] at h
    refine List.forall_mem_cons.2 ⟨?_, ih (fun p hp => hok p (List.mem_cons_of_mem _ (List.mem_cons_of_mem _ hp))) h.2⟩
    simp only [isHigh, isLow, Bool.and_eq_true, decide_eq_true_eq] at hpair
    show _ < 0xd800 ∨ 0xdfff < _ ∧ _ < 0x110000
    omega
  | case2 hi lo l hpair ih =>
    rw [codes, if_neg hpair]
    obtain ⟨hlt, hok⟩ := List.forall_mem_cons.1 hok
    have hlow : isLow hi = false := by
      cases hlow : isLow hi with
      | false => rfl
      | true => rw [surrogatesPaired_low hlow] at h; cases h
    have hhigh : isHigh hi = false := by
      cases hhigh : isHigh hi with
      | false => rfl
      | true =>
        rw [surrogatesPaired_high hlow hhigh, Bool.and_eq_true] at h
        rw [hhigh, h.1] at hpair
        exact absurd rfl hpair
    rw [surrogatesPaired_plain hlow hhigh] at h
    exact List.forall_mem_cons.2 ⟨isValidChar_unit hlt hlow hhigh, ih hok h⟩
  | case3 p l hne ih =>
    have hcodes : codes (p :: l) = p.code :: codes l := by
      rw [codes]
      exact hne
    rw [hcodes]
    obtain ⟨hlt, hrest⟩ := List.forall_mem_cons.1 hok
    cases p with
    | char c => exact List.forall_mem_cons.2 ⟨c.valid, ih hrest h⟩
    | short c => exact List.forall_mem_cons.2 ⟨(unescape c).valid, ih hrest h⟩
    | unit v =>
      have hlow : isLow v = false := by
        cases hlow : isLow v with
        | false => rfl
        | true => rw [surrogatesPaired_low hlow] at h; cases h
      have hhigh : isHigh v = false := by
        cases hhigh : isHigh v with
        | false => rfl
        | true =>
          rw [surrogatesPaired_high hlow hhigh] at h
          split at h
          · exact absurd rfl (hne _ _ _ rfl)
          · cases h
      rw [surrogatesPaired_plain hlow hhigh] at h
      exact List.forall_mem_cons.2 ⟨isValidChar_unit hlt hlow hhigh, ih hrest h⟩
  | case4 => exact List.forall_mem_nil _

/-- A valid text is read without replacing anything. -/
theorem codes_of_validate {v : Value} (h : validate raw = some v) :
    ∀ l ∈ literals v, codes l = (text l).toList.map Char.toNat := by
  obtain ⟨s, hs, hscan, hparse, -⟩ := validate_some h
  rw [validateSurrogateEscapes_of_parse hs hparse, allPaired, List.all_eq_true] at hscan
  intro l hl
  exact codes_text (isValidChar_codes (ok_parse hparse l hl) (hscan l hl))

/-- **The surrogate scan agrees with the grammar.** Of the bytes of a JSON text, it accepts
those in whose string literals every surrogate escape has its other half; a text that
`Validate` accepts then means what it says, without a replacement for an escape. -/
theorem validateSurrogateEscapes_iff {limit : Nat} {raw : List UInt8} {s : String} {v : Value}
    (hs : Wire.decodeUtf8 raw = some s) (h : parse limit s.toList = some v) :
    (validateSurrogateEscapes raw = true ↔ ∀ l ∈ literals v, Paired l) ∧
    ∀ w, validate raw = some w → ∀ l ∈ literals w, (text l).toList.map Char.toNat = codes l := by
  refine ⟨?_, fun w hw l hl => (codes_of_validate hw l hl).symm⟩
  rw [validateSurrogateEscapes_of_parse hs h, allPaired, List.all_eq_true]
  exact forall₂_congr fun l _ => surrogatesPaired_iff l

/-- A backslash that is escaped, then a pair: `["\\\ud83d\ude00"]`. -/
def pairedText : String := "[\"\\\\\\ud83d\\ude00\"]"

theorem validateSurrogateEscapes_pairedText :
    validateSurrogateEscapes (Wire.encodeUtf8 pairedText) = true ∧
    Paired [.short '\\', .unit 0xd83d, .unit 0xde00] := by
  have hparse : parse 1 pairedText.toList = some (.arr [.str [.short '\\', .unit 0xd83d, .unit 0xde00]]) := by
    simp only [pairedText, String.reduceToList]
    rfl
  have h := (validateSurrogateEscapes_iff (Wire.decodeUtf8_encodeUtf8 pairedText) hparse).1
  have hscan : validateSurrogateEscapes (Wire.encodeUtf8 pairedText) = true := by decide +kernel
  exact ⟨hscan, h.1 hscan _ List.mem_cons_self⟩

end NorthgateRmm.Agent.StrictJson
