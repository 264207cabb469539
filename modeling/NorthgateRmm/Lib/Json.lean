import Mathlib

/-!
# JSON texts

The grammar of RFC 8259 as a parser. A value keeps what the text says: a string
literal is the list of characters and escapes it is written with, a number its digits,
an object its members in order, repeated names included. What a literal means is a
list of code points, in which an escaped surrogate that belongs to no pair stands for
itself.
-/

namespace Json

/-! ## Values -/

/-- One character of a string literal as it is written: itself, `\c`, or `\uXXXX`. -/
inductive Piece where
  | char (c : Char)
  | short (c : Char)
  | unit (v : Nat)
  deriving DecidableEq, Repr

abbrev Literal := List Piece

/-- A number as it is written: its sign, its integer part, and the text of its fraction
and exponent. -/
structure Number where
  negative : Bool
  digits : List Char
  rest : List Char
  deriving DecidableEq, Repr

inductive Value where
  | null
  | bool (b : Bool)
  | num (n : Number)
  | str (l : Literal)
  | arr (items : List Value)
  | obj (members : List (Literal × Value))

/-! ## What a literal means -/

def unescape (c : Char) : Char :=
  if c = 'b' then '\x08' else if c = 'f' then '\x0c' else if c = 'n' then '\n'
  else if c = 'r' then '\r' else if c = 't' then '\t' else c

def Piece.code : Piece → Nat
  | char c => c.toNat
  | short c => (unescape c).toNat
  | unit v => v

def isHigh (v : Nat) : Bool := 0xd800 ≤ v && v ≤ 0xdbff
def isLow (v : Nat) : Bool := 0xdc00 ≤ v && v ≤ 0xdfff

/-- The code points of a literal: two escapes that form a surrogate pair are one. -/
def codes : Literal → List Nat
  | .unit hi :: .unit lo :: l =>
    if isHigh hi && isLow lo then (0x10000 + (hi - 0xd800) * 0x400 + (lo - 0xdc00)) :: codes l
    else hi :: codes (.unit lo :: l)
  | p :: l => p.code :: codes l
  | [] => []

/-- A code point as a character; a surrogate is replaced. -/
def toChar (v : Nat) : Char := if v.isValidChar then Char.ofNat v else '\ufffd'

def text (l : Literal) : String := String.ofList ((codes l).map toChar)

variable {s r : List Char} {l : Literal} {v : Value}

/-- Where no escape begins a pair, every piece is one code point. -/
theorem codes_eq_map (h : ∀ p ∈ l, isHigh p.code = false) : codes l = l.map Piece.code := by
  induction l using codes.induct with
  | case1 hi lo l hpair _ =>
    have := h (.unit hi) List.mem_cons_self
    rw [Bool.and_eq_true] at hpair
    rw [Piece.code, hpair.1] at this
    cases this
  | case2 hi lo l hpair ih =>
    rw [codes, if_neg hpair, ih fun p hp => h p (List.mem_cons_of_mem _ hp)]
    rfl
  | case3 p l hne ih =>
    rw [codes, ih fun q hq => h q (List.mem_cons_of_mem _ hq)]
    · rfl
    · exact hne
  | case4 => rfl

/-- A character is no surrogate. -/
theorem toNat_not_surrogate (c : Char) : c.toNat < 0xd800 ∨ 0xdfff < c.toNat :=
  c.valid.imp id And.left

theorem toNat_lt (c : Char) : c.toNat < 0x110000 := by
  rcases c.valid with hc | hc
  · exact Nat.lt_trans hc (by decide)
  · exact hc.2

theorem isHigh_toNat (c : Char) : isHigh c.toNat = false := by
  have := toNat_not_surrogate c
  simp only [isHigh, Bool.and_eq_false_iff, decide_eq_false_iff_not]
  omega

theorem isLow_toNat (c : Char) : isLow c.toNat = false := by
  have := toNat_not_surrogate c
  simp only [isLow, Bool.and_eq_false_iff, decide_eq_false_iff_not]
  omega

theorem toChar_toNat (c : Char) : toChar c.toNat = c := by
  rw [toChar, if_pos (show c.toNat.isValidChar from c.valid), Char.ofNat_toNat]

theorem toNat_toChar {v : Nat} (h : v.isValidChar) : (toChar v).toNat = v := by
  rw [toChar, if_pos h, Char.ofNat, dif_pos h]
  rfl

/-- Code points that are characters are those of the text. -/
theorem codes_text (h : ∀ v ∈ codes l, v.isValidChar) : codes l = (text l).toList.map Char.toNat := by
  rw [text, String.toList_ofList, List.map_map]
  exact (List.map_id _).symm.trans (List.map_congr_left fun v hv => (toNat_toChar (h v hv)).symm)

/-- A text without replaced characters is written with the code points of its characters. -/
theorem codes_of_text {s : String} (h : text l = s) (hs : '\ufffd' ∉ s.toList) :
    codes l = s.toList.map Char.toNat := by
  subst h
  refine codes_text fun v hv => ?_
  by_contra hvalid
  rw [text, String.toList_ofList] at hs
  exact hs (List.mem_map.2 ⟨v, hv, if_neg hvalid⟩)

theorem text_of_codes {s : String} (h : codes l = s.toList.map Char.toNat) : text l = s := by
  apply String.toList_injective
  rw [text, h, String.toList_ofList, List.map_map]
  exact (List.map_congr_left fun c _ => toChar_toNat c).trans (List.map_id _)

/-! ## Parsing -/

def isWs (c : Char) : Bool := c = ' ' || c = '\t' || c = '\n' || c = '\r'

def skipWs (s : List Char) : List Char := s.dropWhile isWs

def hexValue (c : Char) : Option Nat :=
  if '0' ≤ c ∧ c ≤ '9' then some (c.toNat - 48)
  else if 'a' ≤ c ∧ c ≤ 'f' then some (c.toNat - 87)
  else if 'A' ≤ c ∧ c ≤ 'F' then some (c.toNat - 55)
  else none

def hex4 (a b c d : Char) : Option Nat :=
  match hexValue a, hexValue b, hexValue c, hexValue d with
  | some a, some b, some c, some d => some (((a * 16 + b) * 16 + c) * 16 + d)
  | _, _, _, _ => none

def shortEscapes : List Char := ['\x22', '\\', '/', 'b', 'f', 'n', 'r', 't']

/-- A string literal after its opening quote. -/
def literal : List Char → Option (Literal × List Char)
  | '\x22' :: s => some ([], s)
  | '\\' :: 'u' :: a :: b :: c :: d :: s =>
    (hex4 a b c d).bind fun v => (literal s).map fun r => (.unit v :: r.1, r.2)
  | '\\' :: e :: s => if e ∈ shortEscapes then (literal s).map fun r => (.short e :: r.1, r.2) else none
  | c :: s => if c = '\\' ∨ c.toNat < 32 then none else (literal s).map fun r => (.char c :: r.1, r.2)
  | [] => none
termination_by structural s => s

def isDigit (c : Char) : Bool := '0' ≤ c && c ≤ '9'

def fraction (s : List Char) : Option (List Char × List Char) :=
  match s with
  | '.' :: r => if (r.takeWhile isDigit).isEmpty then none
    else some ('.' :: r.takeWhile isDigit, r.dropWhile isDigit)
  | _ => some ([], s)

def exponent (s : List Char) : Option (List Char × List Char) :=
  match s with
  | e :: r =>
    if e = 'e' ∨ e = 'E' then
      let sign := r.take 1 |>.filter fun c => c = '+' || c = '-'
      let r := r.drop sign.length
      if (r.takeWhile isDigit).isEmpty then none
      else some (e :: sign ++ r.takeWhile isDigit, r.dropWhile isDigit)
    else some ([], s)
  | [] => some ([], [])

/-- A number without its sign. -/
def unsigned (negative : Bool) (s : List Char) : Option (Number × List Char) :=
  let digits := if s.head? = some '0' then ['0'] else s.takeWhile isDigit
  if digits.isEmpty then none
  else do
    let (f, r) ← fraction (s.drop digits.length)
    let (e, r) ← exponent r
    some (⟨negative, digits, f ++ e⟩, r)

def number : List Char → Option (Number × List Char)
  | '-' :: s => unsigned true s
  | s => unsigned false s

def scalar (s : List Char) : Option (Value × List Char) :=
  if s.head? = some '\x22' then (literal s.tail).map fun r => (.str r.1, r.2)
  else if "null".toList.isPrefixOf s then some (.null, s.drop 4)
  else if "true".toList.isPrefixOf s then some (.bool true, s.drop 4)
  else if "false".toList.isPrefixOf s then some (.bool false, s.drop 5)
  else (number s).map fun r => (.num r.1, r.2)

/-- Items with commas between them, up to the closing character. -/
def items {α : Type} (item : List Char → Option (α × List Char)) (close : Char) :
    Nat → List Char → Option (List α × List Char)
  | 0, _ => none
  | k + 1, s => match item s with
    | none => none
    | some (x, r) => match skipWs r with
      | [] => none
      | c :: r =>
        if c = close then some ([x], r)
        else if c = ',' then (items item close k r).map fun l => (x :: l.1, l.2)
        else none

/-- What stands between brackets: nothing, or items. -/
def bracketed {α : Type} (item : List Char → Option (α × List Char)) (close : Char) (s : List Char) :
    Option (List α × List Char) :=
  if (skipWs s).head? = some close then some ([], (skipWs s).tail) else items item close s.length s

def member (value : List Char → Option (Value × List Char)) (s : List Char) :
    Option ((Literal × Value) × List Char) :=
  match skipWs s with
  | '\x22' :: r => match literal r with
    | none => none
    | some (name, r) => match skipWs r with
      | ':' :: r => (value r).map fun v => ((name, v.1), v.2)
      | _ => none
  | _ => none

/-- A value with at most `limit` brackets around anything in it. -/
def value : (limit : Nat) → List Char → Option (Value × List Char)
  | 0, s => scalar (skipWs s)
  | limit + 1, s => match skipWs s with
    | '[' :: r => (bracketed (value limit) ']' r).map fun l => (.arr l.1, l.2)
    | '\x7b' :: r => (bracketed (member (value limit)) '\x7d' r).map fun l => (.obj l.1, l.2)
    | s => scalar s

/-- A whole text. -/
def parse (limit : Nat) (s : List Char) : Option Value :=
  match value limit s with
  | some (v, r) => if (skipWs r).isEmpty then some v else none
  | none => none

/-! ## What is read -/

/-- The integer part of a number as the grammar has it. -/
structure Number.Canonical (n : Number) : Prop where
  digits : n.digits ≠ []
  digit : ∀ c ∈ n.digits, isDigit c = true
  zero : n.digits.head? = some '0' → n.digits = ['0']

/-- Every number in a value meets `P`. -/
inductive Numbers (P : Number → Prop) : Value → Prop
  | null : Numbers P .null
  | bool (b : Bool) : Numbers P (.bool b)
  | num {n : Number} (h : P n) : Numbers P (.num n)
  | str (l : Literal) : Numbers P (.str l)
  | arr {l : List Value} (h : ∀ v ∈ l, Numbers P v) : Numbers P (.arr l)
  | obj {l : List (Literal × Value)} (h : ∀ m ∈ l, Numbers P m.2) : Numbers P (.obj l)

theorem canonical_unsigned {negative : Bool} {n : Number}
    (h : unsigned negative s = some (n, r)) : n.Canonical := by
  obtain ⟨hne, h⟩ : (if s.head? = some '0' then ['0'] else s.takeWhile isDigit) ≠ [] ∧
      n.digits = if s.head? = some '0' then ['0'] else s.takeWhile isDigit := by
    simp only [unsigned] at h
    generalize (if s.head? = some '0' then ['0'] else s.takeWhile isDigit) = ds at h ⊢
    by_cases hempty : ds.isEmpty
    · rw [if_pos hempty] at h
      cases h
    · rw [if_neg hempty, Option.bind_eq_bind, Option.bind_eq_some_iff] at h
      obtain ⟨f, -, h⟩ := h
      obtain ⟨e, -, h⟩ := Option.bind_eq_some_iff.mp h
      cases h
      exact ⟨by simpa using hempty, rfl⟩
  rw [← h] at hne
  split at h
  · exact ⟨hne, by simp [h, isDigit], fun _ => h⟩
  · rename_i hzero
    refine ⟨hne, fun c hc => List.mem_takeWhile_imp (h ▸ hc), fun hhead => ?_⟩
    rw [h, List.head?_takeWhile] at hhead
    cases s with
    | nil => cases hhead
    | cons c s =>
      rw [List.head?_cons, Option.filter_eq_some_iff] at hhead
      exact absurd hhead.1 hzero

theorem canonical_number {n : Number} (h : number s = some (n, r)) : n.Canonical := by
  unfold number at h
  split at h <;> exact canonical_unsigned h

theorem numbers_scalar (h : scalar s = some (v, r)) : Numbers Number.Canonical v := by
  unfold scalar at h
  split_ifs at h
  · obtain ⟨x, -, h⟩ := Option.map_eq_some_iff.mp h
    cases h
    exact .str _
  · cases h; exact .null
  · cases h; exact .bool _
  · cases h; exact .bool _
  · obtain ⟨x, hx, h⟩ := Option.map_eq_some_iff.mp h
    cases h
    exact .num (canonical_number hx)

/-- What holds of every item that is read holds of all items. -/
theorem items_forall {α : Type} {item : List Char → Option (α × List Char)} {Q : α → Prop} {close : Char}
    (hitem : ∀ s x r, item s = some (x, r) → Q x) {k : Nat} {l : List α}
    (h : items item close k s = some (l, r)) : ∀ x ∈ l, Q x := by
  induction k generalizing s l with
  | zero => cases h
  | succ k ih =>
    rw [items] at h
    split at h
    · cases h
    rename_i x t hx
    split at h
    · cases h
    split_ifs at h
    · cases h
      simpa using hitem _ _ _ hx
    · obtain ⟨y, hy, h⟩ := Option.map_eq_some_iff.mp h
      cases h
      exact List.forall_mem_cons.mpr ⟨hitem _ _ _ hx, ih hy⟩

theorem bracketed_forall {α : Type} {item : List Char → Option (α × List Char)} {Q : α → Prop} {close : Char}
    (hitem : ∀ s x r, item s = some (x, r) → Q x) {l : List α}
    (h : bracketed item close s = some (l, r)) : ∀ x ∈ l, Q x := by
  unfold bracketed at h
  split at h
  · cases h
    exact nofun
  · exact items_forall hitem h

/-- What a member was read from. -/
theorem member_some {val : List Char → Option (Value × List Char)} {m : Literal × Value}
    (h : member val s = some (m, r)) : ∃ name t u, skipWs s = '\x22' :: name ∧ literal name = some (m.1, t) ∧
      skipWs t = ':' :: u ∧ val u = some (m.2, r) := by
  unfold member at h
  split at h
  · rename_i hquote
    split at h
    · cases h
    · rename_i hname
      split at h
      · rename_i hcolon
        obtain ⟨v, hv, h⟩ := Option.map_eq_some_iff.mp h
        cases h
        exact ⟨_, _, _, hquote, hname, hcolon, hv⟩
      · cases h
  · cases h

theorem numbers_value {limit : Nat} (h : value limit s = some (v, r)) :
    Numbers Number.Canonical v := by
  induction limit generalizing s r v with
  | zero => exact numbers_scalar h
  | succ limit ih =>
    rw [value] at h
    split at h
    · obtain ⟨l, hl, h⟩ := Option.map_eq_some_iff.mp h
      cases h
      exact .arr (bracketed_forall (fun _ _ _ hv => ih hv) hl)
    · obtain ⟨l, hl, h⟩ := Option.map_eq_some_iff.mp h
      cases h
      refine .obj (bracketed_forall (fun _ m _ hm => ?_) hl)
      obtain ⟨_, _, _, -, -, -, hval⟩ := member_some hm
      exact ih hval
    · exact numbers_scalar h

/-- The numbers of a text have no leading zeros. -/
theorem numbers_parse {limit : Nat} {s : List Char} (h : parse limit s = some v) :
    Numbers Number.Canonical v := by
  unfold parse at h
  split at h
  · rename_i hv
    split at h
    · cases h
      exact numbers_value hv
    · cases h
  · cases h

/-! ## Literals -/

mutual

/-- The string literals of a value, the names of members among them. -/
def literals : Value → List Literal
  | .str l => [l]
  | .arr items => itemLiterals items
  | .obj members => memberLiterals members
  | _ => []

def itemLiterals : List Value → List Literal
  | [] => []
  | v :: rest => literals v ++ itemLiterals rest

def memberLiterals : List (Literal × Value) → List Literal
  | [] => []
  | (name, v) :: rest => name :: (literals v ++ memberLiterals rest)

end

theorem itemLiterals_eq (l : List Value) : itemLiterals l = l.flatMap literals := by
  induction l with
  | nil => rfl
  | cons v l ih => rw [itemLiterals, ih, List.flatMap_cons]

theorem memberLiterals_eq (l : List (Literal × Value)) :
    memberLiterals l = l.flatMap fun m => m.1 :: literals m.2 := by
  induction l with
  | nil => rfl
  | cons m l ih =>
    obtain ⟨name, v⟩ := m
    rw [memberLiterals, ih, List.flatMap_cons]
    rfl

def Piece.ok : Piece → Prop
  | char c => 32 ≤ c.toNat ∧ c ≠ '\x22' ∧ c ≠ '\\'
  | short c => c ∈ shortEscapes
  | unit v => v < 0x10000

/-- The pieces of a literal and the text that is left after its closing quote. -/
inductive ReadsLiteral : List Char → Literal → List Char → Prop
  | close {r : List Char} : ReadsLiteral ('\x22' :: r) [] r
  | unit {a b c d : Char} {v : Nat} {s r : List Char} {l : Literal} (hv : hex4 a b c d = some v)
      (h : ReadsLiteral s l r) : ReadsLiteral ('\\' :: 'u' :: a :: b :: c :: d :: s) (.unit v :: l) r
  | short {e : Char} {s r : List Char} {l : Literal} (he : e ∈ shortEscapes) (h : ReadsLiteral s l r) :
      ReadsLiteral ('\\' :: e :: s) (.short e :: l) r
  | char {c : Char} {s r : List Char} {l : Literal} (hq : c ≠ '\x22') (hb : c ≠ '\\') (h32 : 32 ≤ c.toNat)
      (h : ReadsLiteral s l r) : ReadsLiteral (c :: s) (.char c :: l) r

variable {s r : List Char} {v : Value}

theorem readsLiteral {l : Literal} (h : literal s = some (l, r)) : ReadsLiteral s l r := by
  induction s using literal.induct generalizing l with
  | case1 s =>
    cases h
    exact .close
  | case2 a b c d s ih =>
    rw [literal] at h
    obtain ⟨v, hv, h⟩ := Option.bind_eq_some_iff.1 h
    obtain ⟨⟨l', r'⟩, hs, h⟩ := Option.map_eq_some_iff.1 h
    cases h
    exact .unit hv (ih hs)
  | case3 e s hne he ih =>
    have heq : literal ('\\' :: e :: s) = (literal s).map fun r => (.short e :: r.1, r.2) := by
      rw [literal, if_pos he]
      exact hne
    rw [heq] at h
    obtain ⟨⟨l', r'⟩, hs, h⟩ := Option.map_eq_some_iff.1 h
    cases h
    exact .short he (ih hs)
  | case4 e s hne he =>
    have heq : literal ('\\' :: e :: s) = none := by
      rw [literal, if_neg he]
      exact hne
    exact nomatch heq.symm.trans h
  | case5 c s hq hu he hc =>
    have heq : literal (c :: s) = none := by
      rw [literal, if_pos hc]
      all_goals assumption
    exact nomatch heq.symm.trans h
  | case6 c s hq hu he hc ih =>
    have heq : literal (c :: s) = (literal s).map fun r => (.char c :: r.1, r.2) := by
      rw [literal, if_neg hc]
      all_goals assumption
    rw [heq] at h
    obtain ⟨⟨l', r'⟩, hs, h⟩ := Option.map_eq_some_iff.1 h
    cases h
    exact .char hq (not_or.1 hc).1 (Nat.not_lt.1 (not_or.1 hc).2) (ih hs)
  | case7 => exact nomatch h

theorem hexValue_lt {c : Char} {n : Nat} (h : hexValue c = some n) : n < 16 := by
  simp only [hexValue, Char.le_def, UInt32.le_iff_toNat_le] at h
  split_ifs at h with h1 h2 h3
  · have hc : c.toNat ≤ 57 := h1.2
    obtain rfl := Option.some.inj h
    omega
  · have hc : c.toNat ≤ 102 := h2.2
    obtain rfl := Option.some.inj h
    omega
  · have hc : c.toNat ≤ 70 := h3.2
    obtain rfl := Option.some.inj h
    omega

theorem hex4_lt {a b c d : Char} {v : Nat} (h : hex4 a b c d = some v) : v < 0x10000 := by
  unfold hex4 at h
  split at h
  · rename_i ha hb hc hd
    have := hexValue_lt ha
    have := hexValue_lt hb
    have := hexValue_lt hc
    have := hexValue_lt hd
    obtain rfl := Option.some.inj h
    omega
  · exact nomatch h

theorem ReadsLiteral.ok {l : Literal} (h : ReadsLiteral s l r) : ∀ p ∈ l, p.ok := by
  induction h with
  | close => exact nofun
  | unit hv _ ih => exact List.forall_mem_cons.2 ⟨hex4_lt hv, ih⟩
  | short he _ ih => exact List.forall_mem_cons.2 ⟨he, ih⟩
  | char hq hb h32 _ ih => exact List.forall_mem_cons.2 ⟨⟨h32, hq, hb⟩, ih⟩

theorem ok_scalar (h : scalar s = some (v, r)) : ∀ l ∈ literals v, ∀ p ∈ l, p.ok := by
  unfold scalar at h
  split_ifs at h
  · obtain ⟨x, hx, h⟩ := Option.map_eq_some_iff.1 h
    cases h
    exact List.forall_mem_singleton.2 (readsLiteral hx).ok
  · cases h; exact nofun
  · cases h; exact nofun
  · cases h; exact nofun
  · obtain ⟨x, -, h⟩ := Option.map_eq_some_iff.1 h
    cases h
    exact nofun

theorem ok_value {limit : Nat} (h : value limit s = some (v, r)) :
    ∀ l ∈ literals v, ∀ p ∈ l, p.ok := by
  induction limit generalizing s r v with
  | zero => exact ok_scalar h
  | succ limit ih =>
    rw [value] at h
    split at h
    · obtain ⟨x, hx, h⟩ := Option.map_eq_some_iff.1 h
      cases h
      rw [literals, itemLiterals_eq, List.forall_mem_flatMap]
      exact bracketed_forall (fun _ _ _ hv => ih hv) hx
    · obtain ⟨x, hx, h⟩ := Option.map_eq_some_iff.1 h
      cases h
      rw [literals, memberLiterals_eq, List.forall_mem_flatMap]
      refine bracketed_forall (fun _ m _ hm => ?_) hx
      obtain ⟨_, _, _, -, hname, -, hval⟩ := member_some hm
      exact List.forall_mem_cons.2 ⟨(readsLiteral hname).ok, ih hval⟩
    · exact ok_scalar h

/-- The literals of a text are written with pieces of the grammar. -/
theorem ok_parse {limit : Nat} {s : List Char} (h : parse limit s = some v) :
    ∀ l ∈ literals v, ∀ p ∈ l, p.ok := by
  unfold parse at h
  split at h
  · rename_i hv
    split at h
    · cases h
      exact ok_value hv
    · cases h
  · cases h

/-! ## Writing -/

def hexDigit (n : Nat) : Char := Nat.digitChar n

def Piece.render : Piece → List Char
  | char c => [c]
  | short c => ['\\', c]
  | unit v => ['\\', 'u', hexDigit (v / 4096), hexDigit (v / 256 % 16), hexDigit (v / 16 % 16), hexDigit (v % 16)]

def renderLiteral (l : Literal) : List Char := '\x22' :: l.flatMap Piece.render ++ ['\x22']

def Number.render (n : Number) : List Char := (if n.negative then ['-'] else []) ++ n.digits ++ n.rest

mutual

/-- The text of a value, without white space. -/
def render : Value → List Char
  | .null => "null".toList
  | .bool true => "true".toList
  | .bool false => "false".toList
  | .num n => n.render
  | .str l => renderLiteral l
  | .arr l => '[' :: renderItems l ++ [']']
  | .obj l => '\x7b' :: renderMembers l ++ ['\x7d']

def renderItems : List Value → List Char
  | [] => []
  | [v] => render v
  | v :: l => render v ++ ',' :: renderItems l

def renderMembers : List (Literal × Value) → List Char
  | [] => []
  | [(n, v)] => renderLiteral n ++ ':' :: render v
  | (n, v) :: l => renderLiteral n ++ ':' :: render v ++ ',' :: renderMembers l

end

/-! ## Reading back what was written -/

/-- An integer as the grammar writes it. -/
structure Number.Integral (n : Number) : Prop extends n.Canonical where
  rest : n.rest = []

/-- Values whose text reads back, with at most `limit` brackets around anything and
string literals of pieces that meet `P`. -/
inductive Printable (P : Piece → Prop) : Nat → Value → Prop
  | null {limit : Nat} : Printable P limit .null
  | bool {limit : Nat} (b : Bool) : Printable P limit (.bool b)
  | num {limit : Nat} {n : Number} (h : n.Integral) : Printable P limit (.num n)
  | str {limit : Nat} {l : Literal} (h : ∀ p ∈ l, p.ok ∧ P p) : Printable P limit (.str l)
  | arr {limit : Nat} {l : List Value} (h : ∀ v ∈ l, Printable P limit v) : Printable P (limit + 1) (.arr l)
  | obj {limit : Nat} {l : List (Literal × Value)} (hn : ∀ m ∈ l, ∀ p ∈ m.1, p.ok ∧ P p)
      (hv : ∀ m ∈ l, Printable P limit m.2) : Printable P (limit + 1) (.obj l)

theorem hexValue_hexDigit : ∀ n < 16, hexValue (hexDigit n) = some n := by decide

theorem hex4_hexDigit {v : Nat} (h : v < 0x10000) :
    hex4 (hexDigit (v / 4096)) (hexDigit (v / 256 % 16)) (hexDigit (v / 16 % 16)) (hexDigit (v % 16)) = some v := by
  rw [hex4, hexValue_hexDigit _ (by omega), hexValue_hexDigit _ (by omega), hexValue_hexDigit _ (by omega),
    hexValue_hexDigit _ (by omega)]
  exact congrArg some (by omega)

theorem literal_piece {p : Piece} (h : p.ok) (s : List Char) :
    literal (p.render ++ s) = (literal s).map fun r => (p :: r.1, r.2) := by
  cases p with
  | char c =>
    obtain ⟨h32, hq, hb⟩ := h
    show literal (c :: s) = _
    rw [literal]
    · simp [hb, Nat.not_lt.mpr h32]
    all_goals simp_all
  | short c =>
    have hu : c ≠ 'u' := by rintro rfl; revert h; simp [Piece.ok, shortEscapes]
    show literal ('\\' :: c :: s) = _
    rw [literal]
    · exact if_pos h
    · simp_all
  | unit v =>
    show (hex4 _ _ _ _).bind _ = _
    rw [hex4_hexDigit h]
    rfl

theorem literal_render {l : Literal} (h : ∀ p ∈ l, p.ok) (s : List Char) :
    literal (l.flatMap Piece.render ++ '\x22' :: s) = some (l, s) := by
  induction l with
  | nil => rfl
  | cons p l ih =>
    rw [List.flatMap_cons, List.append_assoc, literal_piece (h p List.mem_cons_self),
      ih fun q hq => h q (List.mem_cons_of_mem _ hq)]
    rfl

/-! ### Numbers -/

/-- What may follow a value in a text: nothing, or a character that ends it. -/
def Stop (s : List Char) : Prop := ∀ c ∈ s.head?, c = ',' ∨ c = ']' ∨ c = '\x7d'

theorem takeWhile_digits {ds s : List Char} (h : ∀ c ∈ ds, isDigit c = true) (hs : Stop s) :
    (ds ++ s).takeWhile isDigit = ds := by
  rw [List.takeWhile_append_of_pos h]
  cases s with
  | nil => simp
  | cons c s =>
    have hc : isDigit c = false := by
      rcases hs c rfl with rfl | rfl | rfl <;> rfl
    rw [List.takeWhile_cons_of_neg (by simp [hc]), List.append_nil]

variable {s : List Char} {limit : Nat} {v : Value} {α : Type}

theorem fraction_stop (hs : Stop s) : fraction s = some ([], s) := by
  unfold fraction
  split
  · rcases hs '.' rfl with h | h | h <;> exact absurd h (by decide)
  · rfl

theorem exponent_stop (hs : Stop s) : exponent s = some ([], s) := by
  unfold exponent
  split
  · rename_i e r
    have : ¬ (e = 'e' ∨ e = 'E') := by
      rcases hs e rfl with rfl | rfl | rfl <;> decide
    rw [if_neg this]
  · rfl

theorem unsigned_render {negative : Bool} {ds s : List Char} (hne : ds ≠ []) (hd : ∀ c ∈ ds, isDigit c = true)
    (hz : ds.head? = some '0' → ds = ['0']) (hs : Stop s) :
    unsigned negative (ds ++ s) = some (⟨negative, ds, []⟩, s) := by
  have hdigits : (if (ds ++ s).head? = some '0' then ['0'] else (ds ++ s).takeWhile isDigit) = ds := by
    rw [List.head?_append_of_ne_nil _ hne, takeWhile_digits hd hs]
    split
    · rename_i h
      exact (hz h).symm
    · rfl
  have hempty : ds.isEmpty = false := by simpa using hne
  simp only [unsigned, hdigits, hempty, List.drop_left, fraction_stop hs]
  simp [exponent_stop hs]

theorem number_render {n : Number} (h : n.Integral) (hs : Stop s) :
    number (n.render ++ s) = some (n, s) := by
  obtain ⟨negative, ds, rest⟩ := n
  obtain ⟨⟨hne, hd, hz⟩, rfl⟩ := h
  cases negative with
  | true =>
    simp only [Number.render, if_true, List.append_nil, List.cons_append, List.nil_append]
    exact unsigned_render hne hd hz hs
  | false =>
    simp only [Number.render, Bool.false_eq_true, if_false, List.nil_append, List.append_nil]
    rw [number]
    · exact unsigned_render hne hd hz hs
    · intro r hr
      cases ds with
      | nil => exact hne rfl
      | cons c ds =>
        have hc := hd c List.mem_cons_self
        cases hr
        exact absurd hc (by decide)

/-! ### Values -/

/-- Items written one after another. -/
def separated {α : Type} (write : α → List Char) : List α → List Char
  | [] => []
  | [x] => write x
  | x :: l => write x ++ ',' :: separated write l

theorem items_separated {item : List Char → Option (α × List Char)} {write : α → List Char}
    {close : Char} (hclose : close = ']' ∨ close = '\x7d') {l : List α} (hne : l ≠ [])
    (h : ∀ x ∈ l, ∀ s, Stop s → item (write x ++ s) = some (x, s)) {k : Nat} (hk : l.length ≤ k) (s : List Char) :
    items item close k (separated write l ++ close :: s) = some (l, s) := by
  have hstop : ∀ s, Stop (close :: s) := by
    rintro s c ⟨⟩
    exact .inr hclose
  have hws : skipWs (close :: s) = close :: s := by rcases hclose with rfl | rfl <;> rfl
  induction l generalizing k with
  | nil => exact absurd rfl hne
  | cons x l ih =>
    obtain ⟨k, rfl⟩ : ∃ j, k = j + 1 := ⟨k - 1, by simp only [List.length_cons] at hk; omega⟩
    cases l with
    | nil =>
      rw [separated, items, h x List.mem_cons_self _ (hstop s)]
      simp [hws]
    | cons y l =>
      have hcomma : Stop (',' :: (separated write (y :: l) ++ close :: s)) := by
        rintro c ⟨⟩
        exact .inl rfl
      have hsep : separated write (x :: y :: l) = write x ++ ',' :: separated write (y :: l) := rfl
      rw [hsep, List.append_assoc, List.cons_append, items, h x List.mem_cons_self _ hcomma]
      have hne' : ',' ≠ close := by rcases hclose with rfl | rfl <;> decide
      have hsw : ∀ t, skipWs (',' :: t) = ',' :: t := fun t => rfl
      simp only [hsw, if_neg hne', if_true]
      rw [ih (by simp) (fun z hz => h z (List.mem_cons_of_mem _ hz)) (by simp at hk ⊢; omega)]
      rfl

theorem renderItems_eq (l : List Value) : renderItems l = separated render l := by
  induction l with
  | nil => rfl
  | cons v l ih =>
    cases l with
    | nil => rfl
    | cons w l =>
      have hsep : separated render (v :: w :: l) = render v ++ ',' :: separated render (w :: l) := rfl
      rw [hsep, ← ih]
      rfl

def renderMember (m : Literal × Value) : List Char := renderLiteral m.1 ++ ':' :: render m.2

theorem renderMembers_eq (l : List (Literal × Value)) : renderMembers l = separated renderMember l := by
  induction l with
  | nil => rfl
  | cons m l ih =>
    cases l with
    | nil => rfl
    | cons m' l =>
      have hsep : separated renderMember (m :: m' :: l) =
        renderMember m ++ ',' :: separated renderMember (m' :: l) := rfl
      rw [hsep, ← ih]
      rfl

/-- A text that begins with neither white space nor a closing bracket. -/
def Begins (s : List Char) : Prop := ∃ c r, s = c :: r ∧ isWs c = false ∧ c ≠ ']' ∧ c ≠ '\x7d'

theorem Begins.skipWs (h : Begins s) : skipWs s = s := by
  obtain ⟨c, r, rfl, hws, -⟩ := h
  rw [Json.skipWs, List.dropWhile_cons_of_neg (by simp [hws])]

theorem Begins.append {s t : List Char} (h : Begins s) : Begins (s ++ t) := by
  obtain ⟨c, r, rfl, hc⟩ := h
  exact ⟨c, r ++ t, rfl, hc⟩

theorem begins_digit {c : Char} {r : List Char} (h : isDigit c = true) : Begins (c :: r) := by
  refine ⟨c, r, rfl, ?_, ?_, ?_⟩
  · rw [Bool.eq_false_iff]
    intro hws
    simp only [isWs, Bool.or_eq_true, decide_eq_true_eq] at hws
    rcases hws with ((rfl | rfl) | rfl) | rfl <;> exact absurd h (by decide)
  · rintro rfl; exact absurd h (by decide)
  · rintro rfl; exact absurd h (by decide)

variable {P : Piece → Prop}

theorem begins_render (h : Printable P limit v) : Begins (render v) := by
  cases h with
  | null => exact ⟨_, _, rfl, by decide⟩
  | bool b => cases b <;> exact ⟨_, _, rfl, by decide⟩
  | num hn =>
    rename_i n
    obtain ⟨negative, ds, rest⟩ := n
    cases negative with
    | true => exact ⟨_, _, rfl, by decide⟩
    | false =>
      cases ds with
      | nil => exact absurd rfl hn.digits
      | cons c ds => exact begins_digit (hn.digit c List.mem_cons_self)
  | str _ => exact ⟨_, _, rfl, by decide⟩
  | arr _ => exact ⟨_, _, rfl, by decide⟩
  | obj _ _ => exact ⟨_, _, rfl, by decide⟩

theorem length_le_separated (write : α → List Char) (l : List α) (c : Char) (s : List Char) :
    l.length ≤ (separated write l ++ c :: s).length := by
  induction l with
  | nil => exact Nat.zero_le _
  | cons x l ih =>
    cases l with
    | nil =>
      simp only [separated, List.length_append, List.length_cons, List.length_nil]
      omega
    | cons y l =>
      have hsep : separated write (x :: y :: l) = write x ++ ',' :: separated write (y :: l) := rfl
      rw [hsep]
      simp only [List.length_cons, List.length_append] at ih ⊢
      omega

theorem bracketed_separated {item : List Char → Option (α × List Char)} {write : α → List Char}
    {close : Char} (hclose : close = ']' ∨ close = '\x7d') {l : List α}
    (hbegins : ∀ x ∈ l, Begins (write x))
    (h : ∀ x ∈ l, ∀ s, Stop s → item (write x ++ s) = some (x, s)) (s : List Char) :
    bracketed item close (separated write l ++ close :: s) = some (l, s) := by
  rw [bracketed]
  cases l with
  | nil =>
    have hws : skipWs (close :: s) = close :: s := by rcases hclose with rfl | rfl <;> rfl
    simp [separated, hws]
  | cons x l =>
    have hb : Begins (separated write (x :: l) ++ close :: s) := by
      cases l with
      | nil => exact (hbegins x List.mem_cons_self).append
      | cons y l =>
        have hsep : separated write (x :: y :: l) = write x ++ ',' :: separated write (y :: l) := rfl
        rw [hsep]
        exact (hbegins x List.mem_cons_self).append.append
    have hhead : (separated write (x :: l) ++ close :: s).head? ≠ some close := by
      obtain ⟨c, r, hc, -, h1, h2⟩ := hb
      rw [hc, List.head?_cons]
      rcases hclose with rfl | rfl
      · exact fun h => h1 (Option.some.inj h)
      · exact fun h => h2 (Option.some.inj h)
    rw [hb.skipWs, if_neg hhead]
    exact items_separated hclose (List.cons_ne_nil x l) h (length_le_separated write _ close s) s

theorem value_scalar {limit : Nat} {t : List Char} (hb : Begins t) (ha : t.head? ≠ some '[')
    (ho : t.head? ≠ some '\x7b') : value limit t = scalar t := by
  cases limit with
  | zero => rw [value, hb.skipWs]
  | succ limit =>
    rw [value, hb.skipWs]
    split
    · exact absurd rfl ha
    · exact absurd rfl ho
    · rfl

theorem scalar_number {c : Char} {t : List Char} (hc : isDigit c = true ∨ c = '-') :
    scalar (c :: t) = (number (c :: t)).map fun r => (.num r.1, r.2) := by
  have hne : ∀ d : Char, isDigit d = false → d ≠ '-' → c ≠ d := by
    rintro d hd hminus rfl
    rcases hc with hc | hc
    · rw [hd] at hc; cases hc
    · exact hminus hc
  have hq : c ≠ '\x22' := hne _ (by decide) (by decide)
  have hn : ('n' == c) = false := by simpa using (hne 'n' (by decide) (by decide)).symm
  have ht : ('t' == c) = false := by simpa using (hne 't' (by decide) (by decide)).symm
  have hf : ('f' == c) = false := by simpa using (hne 'f' (by decide) (by decide)).symm
  simp [scalar, hq, List.isPrefixOf, hn, ht, hf]

theorem member_render {val : List Char → Option (Value × List Char)} {m : Literal × Value}
    (hn : ∀ p ∈ m.1, p.ok) (hv : ∀ s, Stop s → val (render m.2 ++ s) = some (m.2, s))
    (hs : Stop s) : member val (renderMember m ++ s) = some (m, s) := by
  have htext : renderMember m ++ s =
      '\x22' :: (m.1.flatMap Piece.render ++ '\x22' :: ':' :: (render m.2 ++ s)) := by
    simp [renderMember, renderLiteral]
  rw [htext, member]
  have hws : ∀ t, skipWs ('\x22' :: t) = '\x22' :: t := fun t => rfl
  have hws' : ∀ t, skipWs (':' :: t) = ':' :: t := fun t => rfl
  simp only [hws, literal_render hn, hws', hv s hs]
  rfl

/-- **Reading back.** The text of a value, followed by what may follow a value, is read
as the value. -/
theorem value_render (h : Printable P limit v) (hs : Stop s) :
    value limit (render v ++ s) = some (v, s) := by
  have hb := begins_render h
  induction h generalizing s with
  | null =>
    rw [value_scalar hb.append (by simp [render]) (by simp [render])]
    simp [render, scalar, List.isPrefixOf]
  | bool b =>
    rw [value_scalar hb.append (by cases b <;> simp [render]) (by cases b <;> simp [render])]
    cases b <;> simp [render, scalar, List.isPrefixOf]
  | @num limit n h =>
    obtain ⟨c, t, hct, hc⟩ : ∃ c t, n.render = c :: t ∧ (isDigit c = true ∨ c = '-') := by
      obtain ⟨negative, ds, rest⟩ := n
      cases negative with
      | true => exact ⟨_, _, rfl, .inr rfl⟩
      | false =>
        cases ds with
        | nil => exact absurd rfl h.digits
        | cons c ds => exact ⟨c, _, rfl, .inl (h.digit c List.mem_cons_self)⟩
    have hread := number_render h hs
    rw [render] at hb ⊢
    rw [hct] at hb hread ⊢
    have hne : ∀ d : Char, isDigit d = false → d ≠ '-' → c ≠ d := by
      rintro d hd hminus rfl
      rcases hc with hc | hc
      · rw [hd] at hc; cases hc
      · exact hminus hc
    rw [value_scalar hb.append]
    · rw [List.cons_append, scalar_number hc, ← List.cons_append, hread]
      rfl
    · simpa using hne '[' (by decide) (by decide)
    · simpa using hne '\x7b' (by decide) (by decide)
  | @str limit l h =>
    rw [value_scalar hb.append (by simp [render, renderLiteral]) (by simp [render, renderLiteral])]
    have htext : render (.str l) ++ s = '\x22' :: (l.flatMap Piece.render ++ '\x22' :: s) := by
      simp [render, renderLiteral]
    rw [htext, scalar]
    simp [literal_render fun p hp => (h p hp).1]
  | @arr limit l h ih =>
    have htext : render (.arr l) ++ s = '[' :: (separated render l ++ ']' :: s) := by
      simp [render, renderItems_eq]
    have hws : ∀ t, skipWs ('[' :: t) = '[' :: t := fun t => rfl
    rw [htext, value, hws]
    show (bracketed _ _ _).map _ = _
    rw [bracketed_separated (.inl rfl) (fun v hv => begins_render (h v hv))
      fun v hv t ht => ih v hv ht (begins_render (h v hv))]
    rfl
  | @obj limit l hn hv ih =>
    have htext : render (.obj l) ++ s = '\x7b' :: (separated renderMember l ++ '\x7d' :: s) := by
      simp [render, renderMembers_eq]
    have hws : ∀ t, skipWs ('\x7b' :: t) = '\x7b' :: t := fun t => rfl
    rw [htext, value, hws]
    show (bracketed _ _ _).map _ = _
    have hbegins : ∀ m ∈ l, Begins (renderMember m) := fun m _ => ⟨_, _, rfl, by decide⟩
    rw [bracketed_separated (.inr rfl) hbegins
      fun m hm t ht => member_render (fun p hp => (hn m hm p hp).1) (fun t ht => ih m hm ht (begins_render (hv m hm))) ht]
    rfl

/-- A text that was written reads back. -/
theorem parse_render (h : Printable P limit v) : parse limit (render v) = some v := by
  have hread : value limit (render v ++ []) = some (v, []) := value_render h nofun
  rw [List.append_nil] at hread
  simp [parse, hread, skipWs]

/-! ## Lines

What is written ends no line: it has no control character. -/

end Json
