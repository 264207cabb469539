import NorthgateRmm.Agent.Spool.Record
import NorthgateRmm.Lib.Calendar

/-!
# Timestamps on the wire

RFC 3339 date-times: the text that `time.Time.MarshalJSON` writes and what a reader
makes of a text. `Stamp` is a text's fields; a Go `time.Time` is its instant in
nanoseconds with the offset of its zone (a monotonic reading is not part of it: the
agent's times come from `UTC()`, which drops it).
-/

namespace NorthgateRmm.Wire

open Calendar
open Agent.Spool (fixedDigits length_fixedDigits)

/-! ## Fields -/

structure Stamp where
  date : Date
  hour : Nat
  minute : Nat
  second : Nat
  nanosecond : Nat
  /-- seconds east of UTC -/
  offset : Int
  deriving DecidableEq, Repr

namespace Stamp

/-- The wall clock reading in seconds since 1970-01-01T00:00:00. -/
def wallSeconds (t : Stamp) : Int :=
  t.date.dayNumber * 86400 + (t.hour * 3600 + t.minute * 60 + t.second : Nat)

/-- The instant in nanoseconds since 1970-01-01T00:00:00Z. -/
def ns (t : Stamp) : Int := (t.wallSeconds - t.offset) * 1000000000 + t.nanosecond

def valid (t : Stamp) : Bool :=
  t.date.valid && t.hour ≤ 23 && t.minute ≤ 59 && t.second ≤ 59

end Stamp

/-! ## Reading -/

def isDigit (c : Char) : Bool := '0' ≤ c && c ≤ '9'

def digitsValue (ds : List Char) : Nat := ds.foldl (fun n c => n * 10 + (c.toNat - 48)) 0

/-- A number of exactly `w` digits. -/
def readNum (w : Nat) (s : List Char) : Option (Nat × List Char) :=
  if (s.take w).length = w ∧ (s.take w).all isDigit then some (digitsValue (s.take w), s.drop w) else none

def expect (c : Char) (s : List Char) : Option (List Char) :=
  if s.head? = some c then some s.tail else none

/-- The digits of a fraction in nanoseconds; those past the ninth are dropped. -/
def fractionDigits (s : List Char) : Option (Nat × List Char) :=
  if (s.takeWhile isDigit).isEmpty then none
  else some (digitsValue ((s.takeWhile isDigit ++ List.replicate 9 '0').take 9), s.dropWhile isDigit)

def readFraction : List Char → Option (Nat × List Char)
  | '.' :: s => fractionDigits s
  | s => some (0, s)

/-- `hh:mm`, up to the end. -/
def zoneMinutes (s : List Char) : Option Nat :=
  (readNum 2 s).bind fun h => (expect ':' h.2).bind fun r => (readNum 2 r).bind fun m =>
    if m.2.isEmpty ∧ h.1 ≤ 23 ∧ m.1 ≤ 59 then some (h.1 * 60 + m.1) else none

/-- `Z` or `±hh:mm`, in seconds. -/
def readOffset : List Char → Option Int
  | 'Z' :: s => if s.isEmpty then some 0 else none
  | '+' :: s => (zoneMinutes s).map fun m : Nat => (m * 60 : Int)
  | '-' :: s => (zoneMinutes s).map fun m : Nat => -(m * 60 : Int)
  | _ => none

/-- Three numbers with a separator between them: a date or a time of day. -/
def readTriple (w : Nat) (sep : Char) (s : List Char) : Option ((Nat × Nat × Nat) × List Char) :=
  (readNum w s).bind fun a => (expect sep a.2).bind fun r => (readNum 2 r).bind fun b =>
    (expect sep b.2).bind fun r => (readNum 2 r).map fun c => ((a.1, b.1, c.1), c.2)

/-- What follows the date and the time of day. -/
def finish (date time : Nat × Nat × Nat) (s : List Char) : Option Stamp :=
  (readFraction s).bind fun f => (readOffset f.2).bind fun offset =>
    let t : Stamp := ⟨⟨date.1, date.2.1, date.2.2⟩, time.1, time.2.1, time.2.2, f.1, offset⟩
    if t.valid then some t else none

/-- An RFC 3339 date-time. -/
def readStamp (s : List Char) : Option Stamp :=
  (readTriple 4 '-' s).bind fun date => (expect 'T' date.2).bind fun r =>
    (readTriple 2 ':' r).bind fun time => finish date.1 time.1 time.2

/-! ## Writing -/

/-- The fields of an instant in UTC. -/
def stampOf (ns : Int) : Stamp where
  date := dateOf (ns / 86400000000000)
  hour := (ns % 86400000000000 / 3600000000000).toNat
  minute := (ns % 86400000000000 / 60000000000 % 60).toNat
  second := (ns % 86400000000000 / 1000000000 % 60).toNat
  nanosecond := (ns % 1000000000).toNat
  offset := 0

/-- RFC 3339 text in UTC with nanoseconds, as `MarshalJSON` writes it. -/
def stampText (t : Stamp) : List Char :=
  fixedDigits 4 t.date.year.toNat ++ '-' :: fixedDigits 2 t.date.month ++ '-' :: fixedDigits 2 t.date.day ++
    'T' :: fixedDigits 2 t.hour ++ ':' :: fixedDigits 2 t.minute ++ ':' :: fixedDigits 2 t.second ++
    Agent.Spool.fraction t.nanosecond ++ ['Z']

/-! ## Reading back -/

theorem isDigit_digitChar : ∀ d < 10, isDigit (Nat.digitChar d) = true := by decide

theorem value_digitChar : ∀ d < 10, (Nat.digitChar d).toNat - 48 = d := by decide

theorem all_fixedDigits (w n : Nat) : (fixedDigits w n).all isDigit = true := by
  induction w generalizing n with
  | zero => rfl
  | succ w ih =>
    rw [fixedDigits, List.all_append, ih, Bool.true_and]
    simp [isDigit_digitChar _ (Nat.mod_lt n (by decide : 0 < 10))]

theorem digitsValue_append (a b : List Char) :
    digitsValue (a ++ b) = b.foldl (fun n c => n * 10 + (c.toNat - 48)) (digitsValue a) :=
  List.foldl_append

theorem digitsValue_fixedDigits {w n : Nat} (h : n < 10 ^ w) : digitsValue (fixedDigits w n) = n := by
  induction w generalizing n with
  | zero => simp at h; simp [fixedDigits, digitsValue, h]
  | succ w ih =>
    have hdiv : n / 10 < 10 ^ w := by rw [Nat.pow_succ] at h; omega
    rw [fixedDigits, digitsValue_append, ih hdiv]
    simp only [List.foldl_cons, List.foldl_nil, value_digitChar _ (Nat.mod_lt n (by decide : 0 < 10))]
    omega

theorem readNum_fixedDigits {w n : Nat} (h : n < 10 ^ w) (s : List Char) :
    readNum w (fixedDigits w n ++ s) = some (n, s) := by
  have ht : (fixedDigits w n ++ s).take w = fixedDigits w n := by
    rw [List.take_append_of_le_length (length_fixedDigits w n).ge, List.take_of_length_le (length_fixedDigits w n).le]
  have hd : (fixedDigits w n ++ s).drop w = s := by
    rw [List.drop_append_of_le_length (length_fixedDigits w n).ge,
      List.drop_of_length_le (length_fixedDigits w n).le, List.nil_append]
  rw [readNum, ht, hd, if_pos ⟨length_fixedDigits w n, all_fixedDigits w n⟩, digitsValue_fixedDigits h]

theorem expect_cons (c : Char) (s : List Char) : expect c (c :: s) = some s := by simp [expect]

/-- What is left of the nine digits of a fraction, and the zeros that were left out. -/
theorem fixedDigits_strip (n : Nat) : ∃ k, k ≤ 9 ∧
    ((fixedDigits 9 n).reverse.dropWhile (· == '0')).reverse ++ List.replicate k '0' = fixedDigits 9 n := by
  have h : (fixedDigits 9 n).rdropWhile (· == '0') ++ (fixedDigits 9 n).rtakeWhile (· == '0') =
      fixedDigits 9 n := List.rdropWhile_append_rtakeWhile
  have hz : (fixedDigits 9 n).rtakeWhile (· == '0') =
      List.replicate ((fixedDigits 9 n).rtakeWhile (· == '0')).length '0' :=
    List.eq_replicate_of_mem fun c hc => by simpa using List.mem_rtakeWhile_imp hc
  refine ⟨((fixedDigits 9 n).rtakeWhile (· == '0')).length, ?_, ?_⟩
  · have := congrArg List.length h
    rw [List.length_append, length_fixedDigits] at this
    omega
  · rw [← hz]
    exact h

variable {s r : List Char} {t : Stamp} {c : Char} {n : Nat}

theorem readFraction_fraction (h : n < 1000000000) {s : List Char}
    (hs : s.head? = some 'Z') : readFraction (Agent.Spool.fraction n ++ s) = some (n, s) := by
  obtain ⟨c, s, rfl⟩ : ∃ c t, s = c :: t := by
    cases s with
    | nil => cases hs
    | cons c t => exact ⟨c, t, rfl⟩
  obtain rfl : c = 'Z' := Option.some.inj hs
  rw [Agent.Spool.fraction]
  split
  · subst n
    rfl
  · rename_i hn
    obtain ⟨k, hk, hstrip⟩ := fixedDigits_strip n
    generalize ((fixedDigits 9 n).reverse.dropWhile (· == '0')).reverse = ds at hstrip
    have hlen : ds.length + k = 9 := by
      have := congrArg List.length hstrip
      rwa [List.length_append, List.length_replicate, length_fixedDigits] at this
    have hall : ∀ c ∈ ds, isDigit c = true := fun c hc =>
      List.all_eq_true.mp (all_fixedDigits 9 n) c (hstrip ▸ List.mem_append_left _ hc)
    have htake : (ds ++ 'Z' :: s).takeWhile isDigit = ds := by
      rw [List.takeWhile_append_of_pos hall, List.takeWhile_cons_of_neg (by decide), List.append_nil]
    have hdrop : (ds ++ 'Z' :: s).dropWhile isDigit = 'Z' :: s := by
      rw [List.dropWhile_append_of_pos hall, List.dropWhile_cons_of_neg (by decide)]
    have hpad : (ds ++ List.replicate 9 '0').take 9 = fixedDigits 9 n := by
      have hsplit : List.replicate 9 '0' = List.replicate k '0' ++ List.replicate (9 - k) '0' := by
        rw [List.replicate_append_replicate, show k + (9 - k) = 9 by omega]
      rw [hsplit, ← List.append_assoc, hstrip, List.take_append_of_le_length (length_fixedDigits 9 n).ge,
        List.take_of_length_le (length_fixedDigits 9 n).le]
    have hne : ds ≠ [] := by
      rintro rfl
      rw [List.nil_append] at hstrip
      have hv := digitsValue_fixedDigits (w := 9) h
      rw [← hstrip, show k = 9 by simpa using hlen] at hv
      exact hn (hv.symm.trans (by decide))
    show fractionDigits (ds ++ 'Z' :: s) = _
    simp only [fractionDigits, htake, hdrop, hpad, digitsValue_fixedDigits (w := 9) h]
    rw [if_neg (by simpa using hne)]

def tripleText (w : Nat) (sep : Char) (a b c : Nat) : List Char :=
  fixedDigits w a ++ sep :: (fixedDigits 2 b ++ sep :: fixedDigits 2 c)

theorem readTriple_text {w a b c : Nat} (sep : Char) (ha : a < 10 ^ w) (hb : b < 100) (hc : c < 100) {s : List Char} :
    readTriple w sep (tripleText w sep a b c ++ s) = some ((a, b, c), s) := by
  rw [readTriple, tripleText, List.append_assoc, readNum_fixedDigits ha, Option.bind_some, List.cons_append,
    expect_cons, Option.bind_some, List.append_assoc, readNum_fixedDigits (w := 2) hb, Option.bind_some,
    List.cons_append, expect_cons, Option.bind_some, readNum_fixedDigits (w := 2) hc]
  rfl

/-- **Reading back.** The text of a valid date-time in UTC is read as it. -/
theorem readStamp_text (hv : t.valid = true) (hy : 0 ≤ t.date.year ∧ t.date.year ≤ 9999)
    (hn : t.nanosecond < 1000000000) (ho : t.offset = 0) : readStamp (stampText t) = some t := by
  obtain ⟨⟨year, month, day⟩, hour, minute, second, nanosecond, offset⟩ := t
  dsimp only at hy hn ho
  subst ho
  have hv' := hv
  simp only [Stamp.valid, Date.valid, Bool.and_eq_true, decide_eq_true_eq] at hv'
  obtain ⟨⟨⟨⟨⟨hm1, hm2⟩, hd1, hd2⟩, hh⟩, hmin⟩, hs⟩ := hv'
  have hdays : daysInMonth year month ≤ 31 := by unfold daysInMonth; split_ifs <;> omega
  have hyear : ((year.toNat : Nat) : Int) = year := Int.toNat_of_nonneg hy.1
  have hoff : readOffset ['Z'] = some 0 := rfl
  have hdate (s : List Char) := readTriple_text (w := 4) '-' (show year.toNat < 10 ^ 4 by omega)
    (show month < 100 by omega) (show day < 100 by omega) (s := s)
  have htime (s : List Char) := readTriple_text (w := 2) ':' (show hour < 10 ^ 2 by omega)
    (show minute < 100 by omega) (show second < 100 by omega) (s := s)
  have htext : stampText ⟨⟨year, month, day⟩, hour, minute, second, nanosecond, 0⟩ =
      tripleText 4 '-' year.toNat month day ++ 'T' :: (tripleText 2 ':' hour minute second ++
        (Agent.Spool.fraction nanosecond ++ ['Z'])) := by
    simp only [stampText, tripleText, List.append_assoc, List.cons_append]
  rw [htext, readStamp, hdate, Option.bind_some, expect_cons, Option.bind_some, htime, Option.bind_some, finish,
    readFraction_fraction hn rfl, Option.bind_some, hoff, Option.bind_some]
  simp only [hyear]
  exact if_pos hv

/-! ## Instants -/

theorem ns_stampOf (ns : Int) : (stampOf ns).ns = ns := by
  simp only [stampOf, Stamp.ns, Stamp.wallSeconds, dayNumber_dateOf]
  omega

theorem valid_stampOf (ns : Int) : (stampOf ns).valid = true := by
  have hhour : (stampOf ns).hour ≤ 23 := by simp only [stampOf]; omega
  have hminute : (stampOf ns).minute ≤ 59 := by simp only [stampOf]; omega
  have hsecond : (stampOf ns).second ≤ 59 := by simp only [stampOf]; omega
  have hdate : (stampOf ns).date.valid = true := valid_dateOf _
  simp [Stamp.valid, hhour, hminute, hsecond, hdate]

theorem nanosecond_stampOf_lt (ns : Int) : (stampOf ns).nanosecond < 1000000000 := by
  simp only [stampOf]
  omega

/-- The fields of an instant are the ones it was read from. -/
theorem stampOf_ns (hv : t.valid = true) (hn : t.nanosecond < 1000000000) (ho : t.offset = 0) :
    stampOf t.ns = t := by
  obtain ⟨date, hour, minute, second, nanosecond, offset⟩ := t
  simp only [Stamp.valid, Bool.and_eq_true, decide_eq_true_eq] at hv
  obtain ⟨⟨⟨hdate, hh⟩, hm⟩, hs⟩ := hv
  dsimp only at hn ho
  subst ho
  have hday : Stamp.ns ⟨date, hour, minute, second, nanosecond, 0⟩ / 86400000000000 = date.dayNumber := by
    simp only [Stamp.ns, Stamp.wallSeconds]
    omega
  simp only [stampOf, hday, dateOf_dayNumber hdate, Stamp.mk.injEq, true_and, and_true]
  simp only [Stamp.ns, Stamp.wallSeconds]
  omega

theorem digitsValue_lt (ds : List Char) (h : ∀ c ∈ ds, isDigit c = true) :
    digitsValue ds < 10 ^ ds.length := by
  induction ds using List.reverseRecOn with
  | nil => decide
  | append_singleton ds c ih =>
    have hc : c.toNat - 48 < 10 := by
      have := h c (by simp)
      simp only [isDigit, Bool.and_eq_true, decide_eq_true_eq, Char.le_def, UInt32.le_iff_toNat_le] at this
      have h9 : c.toNat ≤ 57 := this.2
      omega
    have := ih fun d hd => h d (List.mem_append_left _ hd)
    rw [digitsValue_append, List.length_append, List.length_singleton, Nat.pow_succ]
    simp only [List.foldl_cons, List.foldl_nil]
    omega

theorem readFraction_lt (h : readFraction s = some (n, r)) : n < 1000000000 := by
  unfold readFraction at h
  split at h
  · unfold fractionDigits at h
    split at h
    · cases h
    · cases h
      refine lt_of_lt_of_le (digitsValue_lt _ fun c hc => ?_) (Nat.pow_le_pow_right (by decide)
        (List.length_take_le 9 _))
      rcases List.mem_append.mp (List.mem_of_mem_take hc) with hc | hc
      · exact List.mem_takeWhile_imp hc
      · rw [List.eq_of_mem_replicate hc]; decide
  · cases h
    decide

theorem finish_valid {date time : Nat × Nat × Nat} {s : List Char} (h : finish date time s = some t) :
    t.valid = true ∧ t.nanosecond < 1000000000 := by
  obtain ⟨⟨nanosecond, r⟩, hfraction, h⟩ := Option.bind_eq_some_iff.mp h
  obtain ⟨offset, -, h⟩ := Option.bind_eq_some_iff.mp h
  dsimp only at h
  split at h
  · rename_i hv
    cases h
    exact ⟨hv, readFraction_lt hfraction⟩
  · cases h

/-- What is read is a valid date-time. -/
theorem readStamp_valid {s : List Char} (h : readStamp s = some t) :
    t.valid = true ∧ t.nanosecond < 1000000000 := by
  obtain ⟨date, -, h⟩ := Option.bind_eq_some_iff.mp h
  obtain ⟨r, -, h⟩ := Option.bind_eq_some_iff.mp h
  obtain ⟨time, -, h⟩ := Option.bind_eq_some_iff.mp h
  exact finish_valid h

/-! ## The characters of a date-time -/

def stampChar (c : Char) : Bool := isDigit c || c ∈ ['-', ':', 'T', '.', '+', 'Z']

/-- What was read before `r` are characters of a date-time. -/
def Consumes (s r : List Char) : Prop := ∃ p, s = p ++ r ∧ p.all stampChar = true

theorem Consumes.trans {s r q : List Char} (h : Consumes s r) (h' : Consumes r q) : Consumes s q := by
  obtain ⟨a, rfl, ha⟩ := h
  obtain ⟨b, rfl, hb⟩ := h'
  exact ⟨a ++ b, (List.append_assoc a b q).symm, by rw [List.all_append, ha, hb]; rfl⟩

theorem Consumes.cons (hc : stampChar c = true) (h : Consumes s r) :
    Consumes (c :: s) r := by
  obtain ⟨a, rfl, ha⟩ := h
  exact ⟨c :: a, rfl, by rw [List.all_cons, hc, ha]; rfl⟩

theorem consumes_digits {p : List Char} (h : p.all isDigit = true) (r : List Char) : Consumes (p ++ r) r := by
  refine ⟨p, rfl, List.all_eq_true.mpr fun c hc => ?_⟩
  rw [stampChar, List.all_eq_true.mp h c hc]
  rfl

theorem consumes_readNum {w n : Nat} (h : readNum w s = some (n, r)) : Consumes s r := by
  rw [readNum] at h
  split at h
  · rename_i hdigits
    cases h
    have := consumes_digits hdigits.2 (s.drop w)
    rwa [List.take_append_drop] at this
  · cases h

theorem consumes_expect (hc : stampChar c = true) (h : expect c s = some r) :
    Consumes s r := by
  rw [expect] at h
  split at h
  · rename_i hhead
    cases h
    obtain ⟨t, rfl⟩ := List.head?_eq_some_iff.mp hhead
    exact .cons hc ⟨[], rfl, rfl⟩
  · cases h

theorem consumes_readTriple {w : Nat} {sep : Char} (hsep : stampChar sep = true)
    {x : Nat × Nat × Nat} (h : readTriple w sep s = some (x, r)) : Consumes s r := by
  obtain ⟨a, ha, h⟩ := Option.bind_eq_some_iff.mp h
  obtain ⟨r₁, h₁, h⟩ := Option.bind_eq_some_iff.mp h
  obtain ⟨b, hb, h⟩ := Option.bind_eq_some_iff.mp h
  obtain ⟨r₂, h₂, h⟩ := Option.bind_eq_some_iff.mp h
  obtain ⟨c, hc, h⟩ := Option.map_eq_some_iff.mp h
  cases h
  exact (consumes_readNum ha).trans <| (consumes_expect hsep h₁).trans <| (consumes_readNum hb).trans <|
    (consumes_expect hsep h₂).trans (consumes_readNum hc)

theorem consumes_readFraction (h : readFraction s = some (n, r)) : Consumes s r := by
  unfold readFraction at h
  split at h
  · rename_i t
    rw [fractionDigits] at h
    split at h
    · cases h
    · cases h
      have := consumes_digits (List.all_takeWhile (p := isDigit) (l := t)) (t.dropWhile isDigit)
      rw [List.takeWhile_append_dropWhile] at this
      exact .cons (by decide) this
  · cases h
    exact ⟨[], rfl, rfl⟩

theorem consumes_zoneMinutes {m : Nat} {s : List Char} (h : zoneMinutes s = some m) : Consumes s [] := by
  obtain ⟨hour, h1, h⟩ := Option.bind_eq_some_iff.mp h
  obtain ⟨r, h2, h⟩ := Option.bind_eq_some_iff.mp h
  obtain ⟨minute, h3, h⟩ := Option.bind_eq_some_iff.mp h
  split at h
  · rename_i hend
    have := consumes_readNum h3
    rw [List.isEmpty_iff.mp hend.1] at this
    exact (consumes_readNum h1).trans ((consumes_expect (by decide) h2).trans this)
  · cases h

theorem consumes_readOffset {s : List Char} {o : Int} (h : readOffset s = some o) : Consumes s [] := by
  unfold readOffset at h
  split at h
  · split at h
    · rename_i hend
      rw [List.isEmpty_iff.mp hend]
      exact .cons (by decide) ⟨[], rfl, rfl⟩
    · cases h
  · obtain ⟨m, hm, -⟩ := Option.map_eq_some_iff.mp h
    exact .cons (by decide) (consumes_zoneMinutes hm)
  · obtain ⟨m, hm, -⟩ := Option.map_eq_some_iff.mp h
    exact .cons (by decide) (consumes_zoneMinutes hm)
  · cases h

/-- A date-time is written with digits and a few separators. -/
theorem readStamp_chars {s : List Char} (h : readStamp s = some t) : s.all stampChar = true := by
  obtain ⟨date, hd, h⟩ := Option.bind_eq_some_iff.mp h
  obtain ⟨r, hr, h⟩ := Option.bind_eq_some_iff.mp h
  obtain ⟨time, ht, h⟩ := Option.bind_eq_some_iff.mp h
  obtain ⟨f, hf, h⟩ := Option.bind_eq_some_iff.mp h
  obtain ⟨offset, ho, -⟩ := Option.bind_eq_some_iff.mp h
  obtain ⟨p, rfl, hp⟩ := (consumes_readTriple (by decide) hd).trans <| (consumes_expect (by decide) hr).trans <|
    (consumes_readTriple (by decide) ht).trans <| (consumes_readFraction hf).trans (consumes_readOffset ho)
  rwa [List.append_nil]

/-! ## `Z` and `+00:00` -/

/-- `raw.replace("Z", "+00:00")`. -/
def replaceZ (s : List Char) : List Char := s.flatMap fun c => if c = 'Z' then "+00:00".toList else [c]

theorem replaceZ_cons (h : c ≠ 'Z') (s : List Char) : replaceZ (c :: s) = c :: replaceZ s := by
  rw [replaceZ, List.flatMap_cons, if_neg h]
  rfl

theorem replaceZ_append {a : List Char} (h : ∀ c ∈ a, c ≠ 'Z') (s : List Char) :
    replaceZ (a ++ s) = a ++ replaceZ s := by
  induction a with
  | nil => rfl
  | cons c a ih =>
    rw [List.cons_append, replaceZ_cons (h c List.mem_cons_self), ih fun d hd => h d (List.mem_cons_of_mem _ hd)]
    rfl

theorem ne_Z_of_isDigit (h : isDigit c = true) : c ≠ 'Z' := by
  rintro rfl
  exact absurd h (by decide)

theorem readNum_replaceZ {w n : Nat} (h : readNum w s = some (n, r)) :
    readNum w (replaceZ s) = some (n, replaceZ r) := by
  unfold readNum at h
  split at h
  · rename_i hd
    obtain ⟨rfl, rfl⟩ := Prod.mk.inj (Option.some.inj h)
    have hz : ∀ c ∈ s.take w, c ≠ 'Z' := fun c hc => ne_Z_of_isDigit (List.all_eq_true.mp hd.2 c hc)
    have hsplit : replaceZ s = s.take w ++ replaceZ (s.drop w) := by
      rw [← replaceZ_append hz, List.take_append_drop]
    have htake : (replaceZ s).take w = s.take w := by
      rw [hsplit, List.take_append_of_le_length hd.1.ge, List.take_of_length_le hd.1.le]
    have hdrop : (replaceZ s).drop w = replaceZ (s.drop w) := by
      rw [hsplit, List.drop_append_of_le_length hd.1.ge, List.drop_of_length_le hd.1.le, List.nil_append]
    rw [readNum, htake, hdrop, if_pos hd]
  · cases h

theorem expect_replaceZ (hc : c ≠ 'Z') (h : expect c s = some r) :
    expect c (replaceZ s) = some (replaceZ r) := by
  cases s with
  | nil => cases h
  | cons d s =>
    simp only [expect, List.head?_cons, Option.some.injEq, List.tail_cons] at h
    split at h
    · rename_i hd
      cases h
      subst hd
      rw [replaceZ_cons hc, expect_cons]
    · cases h

theorem head_replaceZ (s : List Char) :
    (replaceZ s).head? = s.head?.map fun c => if c = 'Z' then '+' else c := by
  cases s with
  | nil => rfl
  | cons c s =>
    by_cases hc : c = 'Z'
    · subst hc; rfl
    · rw [replaceZ_cons hc]
      simp [hc]

theorem fractionDigits_replaceZ (h : fractionDigits s = some (n, r)) :
    fractionDigits (replaceZ s) = some (n, replaceZ r) := by
  have hdigit : ∀ c ∈ s.takeWhile isDigit, isDigit c = true := fun c hc => List.mem_takeWhile_imp hc
  have hsplit : replaceZ s = s.takeWhile isDigit ++ replaceZ (s.dropWhile isDigit) := by
    rw [← replaceZ_append fun c hc => ne_Z_of_isDigit (hdigit c hc), List.takeWhile_append_dropWhile]
  have hstop : ∀ c ∈ (replaceZ (s.dropWhile isDigit)).head?, isDigit c = false := by
    intro c hc
    rw [head_replaceZ] at hc
    obtain ⟨x, hx, rfl⟩ := Option.map_eq_some_iff.mp hc
    have hxd : isDigit x = false := by
      have := List.head?_dropWhile_not isDigit s
      rw [hx] at this
      simpa using this
    split
    · decide
    · exact hxd
  have htake : (replaceZ s).takeWhile isDigit = s.takeWhile isDigit := by
    rw [hsplit, List.takeWhile_append_of_pos hdigit]
    cases hr : replaceZ (s.dropWhile isDigit) with
    | nil => simp
    | cons c t => rw [List.takeWhile_cons_of_neg (by simp [hstop c (by rw [hr]; rfl)]), List.append_nil]
  have hdrop : (replaceZ s).dropWhile isDigit = replaceZ (s.dropWhile isDigit) := by
    rw [hsplit, List.dropWhile_append_of_pos hdigit]
    cases hr : replaceZ (s.dropWhile isDigit) with
    | nil => simp
    | cons c t => rw [List.dropWhile_cons_of_neg (by simp [hstop c (by rw [hr]; rfl)])]
  unfold fractionDigits at h ⊢
  simp only [htake, hdrop]
  split at h
  · cases h
  · rename_i hne
    rw [if_neg hne]
    cases h
    rfl

theorem readFraction_replaceZ (h : readFraction s = some (n, r)) :
    readFraction (replaceZ s) = some (n, replaceZ r) := by
  unfold readFraction at h
  split at h
  · rw [replaceZ_cons (by decide)]
    exact fractionDigits_replaceZ h
  · rename_i hdot
    cases h
    rw [readFraction]
    intro t ht
    have hhead := head_replaceZ s
    rw [ht] at hhead
    cases s with
    | nil => cases hhead
    | cons c s =>
      simp only [List.head?_cons, Option.map_some, Option.some.injEq] at hhead
      split at hhead
      · exact absurd hhead (by decide)
      · exact hdot s (by rw [hhead])

theorem zoneMinutes_replaceZ {s : List Char} {m : Nat} (h : zoneMinutes s = some m) :
    zoneMinutes (replaceZ s) = some m := by
  obtain ⟨⟨hour, r₁⟩, h1, h⟩ := Option.bind_eq_some_iff.mp h
  obtain ⟨r₂, h2, h⟩ := Option.bind_eq_some_iff.mp h
  obtain ⟨⟨minute, r₃⟩, h3, h⟩ := Option.bind_eq_some_iff.mp h
  dsimp only at h
  have hend : r₃ = [] := by
    by_contra hne
    rw [if_neg (fun hc => hne (List.isEmpty_iff.mp hc.1))] at h
    cases h
  subst hend
  rw [zoneMinutes, readNum_replaceZ h1, Option.bind_some, expect_replaceZ (by decide) h2, Option.bind_some,
    readNum_replaceZ h3, Option.bind_some]
  exact h

theorem readOffset_replaceZ {s : List Char} {o : Int} (h : readOffset s = some o) :
    readOffset (replaceZ s) = some o := by
  unfold readOffset at h
  split at h
  · split at h
    · rename_i r hr
      cases h
      rw [List.isEmpty_iff.mp hr]
      rfl
    · cases h
  · obtain ⟨m, hm, rfl⟩ := Option.map_eq_some_iff.mp h
    simp only [replaceZ_cons (show '+' ≠ 'Z' by decide), readOffset, zoneMinutes_replaceZ hm, Option.map_some]
  · obtain ⟨m, hm, rfl⟩ := Option.map_eq_some_iff.mp h
    simp only [replaceZ_cons (show '-' ≠ 'Z' by decide), readOffset, zoneMinutes_replaceZ hm, Option.map_some]
  · cases h

theorem readTriple_replaceZ {w : Nat} {sep : Char} (hsep : sep ≠ 'Z') {x : Nat × Nat × Nat}
    (h : readTriple w sep s = some (x, r)) : readTriple w sep (replaceZ s) = some (x, replaceZ r) := by
  obtain ⟨a, ha, h⟩ := Option.bind_eq_some_iff.mp h
  obtain ⟨r₁, h₁, h⟩ := Option.bind_eq_some_iff.mp h
  obtain ⟨b, hb, h⟩ := Option.bind_eq_some_iff.mp h
  obtain ⟨r₂, h₂, h⟩ := Option.bind_eq_some_iff.mp h
  obtain ⟨c, hc, h⟩ := Option.map_eq_some_iff.mp h
  cases h
  rw [readTriple, readNum_replaceZ ha, Option.bind_some, expect_replaceZ hsep h₁, Option.bind_some,
    readNum_replaceZ hb, Option.bind_some, expect_replaceZ hsep h₂, Option.bind_some, readNum_replaceZ hc]
  rfl

theorem finish_replaceZ {date time : Nat × Nat × Nat} {s : List Char}
    (h : finish date time s = some t) : finish date time (replaceZ s) = some t := by
  obtain ⟨f, hf, h⟩ := Option.bind_eq_some_iff.mp h
  obtain ⟨offset, ho, h⟩ := Option.bind_eq_some_iff.mp h
  rw [finish, readFraction_replaceZ hf, Option.bind_some, readOffset_replaceZ ho, Option.bind_some]
  exact h

/-- A date-time may be written with `+00:00` for `Z`. -/
theorem readStamp_replaceZ {s : List Char} (h : readStamp s = some t) :
    readStamp (replaceZ s) = some t := by
  obtain ⟨date, hd, h⟩ := Option.bind_eq_some_iff.mp h
  obtain ⟨r, hr, h⟩ := Option.bind_eq_some_iff.mp h
  obtain ⟨time, ht, h⟩ := Option.bind_eq_some_iff.mp h
  rw [readStamp, readTriple_replaceZ (by decide) hd, Option.bind_some, expect_replaceZ (by decide) hr,
    Option.bind_some, readTriple_replaceZ (by decide) ht, Option.bind_some]
  exact finish_replaceZ h

end NorthgateRmm.Wire
