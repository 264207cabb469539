import NorthgateRmm.Agent.Protocol

/-!
# The os-release file

`parseOSRelease` and `decodeOSReleaseValue` of the inventory collectors, on the bytes of the
file as in the source. A text that is written with its special characters escaped, or between
single quotes, is read back as it was, whatever stands on the other lines.
-/

namespace NorthgateRmm.Agent.Collector

open GoString

abbrev Bytes := List UInt8

def maxSourceFileBytes : Nat := 4096
def maxValueBytes : Nat := 512

/-- The errors that `issueCode` tells apart. -/
inductive Error
  | deadlineExceeded
  | canceled
  | limitExceeded
  | malformed
  | unsupported
  | other
  deriving DecidableEq, Repr

def validText (value : Bytes) : Bool := (runes value).all fun r => r.any fun c => !Protocol.isControl c

/-! ## Values -/

/-- The bytes of `^[0-9A-Za-z._-]+$`. -/
def isUnquoted (b : UInt8) : Bool :=
  ('0'.toUInt8 ≤ b && b ≤ '9'.toUInt8) || ('A'.toUInt8 ≤ b && b ≤ 'Z'.toUInt8) ||
    ('a'.toUInt8 ≤ b && b ≤ 'z'.toUInt8) || b = '.'.toUInt8 || b = '_'.toUInt8 || b = '-'.toUInt8

def unquotedPattern (value : Bytes) : Bool := !value.isEmpty && value.all isUnquoted

/-- The characters before which a backslash is dropped. -/
def special : List Char := ['$', '\x22', '\\', '\x60']

/-- The loop over the body; `quote` is `none` outside quotes. -/
def unescape (quote : Option UInt8) : Bytes → Option Bytes
  | [] => some []
  | character :: rest =>
    if quote = some character then none
    else if character ≠ '\\'.toUInt8 then (unescape quote rest).map (character :: ·)
    else match rest with
      | [] => none
      | escaped :: rest =>
        if escaped ∈ special.map Char.toUInt8 then (unescape quote rest).map (escaped :: ·)
        else (unescape quote rest).map ('\\'.toUInt8 :: escaped :: ·)

def decodeOSReleaseValue (value : Bytes) : Option Bytes :=
  match value with
  | [] => none
  | first :: rest =>
    if value ≠ trimSpace value then none
    else if first = '\x27'.toUInt8 ∨ first = '\x22'.toUInt8 then
      if value.length < 2 ∨ value.getLast? ≠ some first then none
      else if first = '\x27'.toUInt8 then
        if '\x27'.toUInt8 ∈ rest.dropLast then none else some rest.dropLast
      else unescape (some first) rest.dropLast
    else if !unquotedPattern value then none
    else unescape none value

/-! ## Lines -/

/-- The three keys that are read. -/
inductive Key
  | id
  | versionId
  | prettyName
  deriving DecidableEq, Repr

def Key.all : List Key := [.id, .versionId, .prettyName]

def Key.text : Key → String
  | id => "ID"
  | versionId => "VERSION_ID"
  | prettyName => "PRETTY_NAME"

def Key.name (k : Key) : Bytes := encode k.text.toList

def Key.ofName (name : Bytes) : Option Key := Key.all.find? (·.name = name)

/-- The map of the values read so far. -/
abbrev Release := Key → Option Bytes

/-- `bufio.ScanLines`, before a final carriage return is dropped. -/
def scanLines : Bytes → List Bytes
  | [] => []
  | b :: rest =>
    if b = '\n'.toUInt8 then [] :: scanLines rest
    else match scanLines rest with
      | [] => [[b]]
      | line :: lines => (b :: line) :: lines

def dropCR (line : Bytes) : Bytes := if line.getLast? = some '\r'.toUInt8 then line.dropLast else line

/-- `strings.Cut` at the first equals sign. -/
def cut (line : Bytes) : Option (Bytes × Bytes) :=
  if '='.toUInt8 ∈ line then
    some (line.takeWhile (· ≠ '='.toUInt8), (line.dropWhile (· ≠ '='.toUInt8)).tail)
  else none

/-- One round of the scanner's loop. A line that fills the buffer of the scanner ends the
loop, with the scanner's error. -/
def parseLine (result : Release) (line : Bytes) : Except Error Release :=
  if maxSourceFileBytes ≤ line.length then .error .other
  else if trimSpace (dropCR line) = [] ∨ (dropCR line).head? = some '#'.toUInt8 then .ok result
  else match cut (dropCR line) with
    | none => .error .malformed
    | some (name, value) => match Key.ofName name with
      | none => .ok result
      | some key =>
        if (result key).isSome then .error .malformed
        else match decodeOSReleaseValue value with
          | none => .error .malformed
          | some decoded =>
            if maxValueBytes < decoded.length || !validText decoded then .error .malformed
            else .ok (Function.update result key (some decoded))

def parseOSRelease (raw : Bytes) : Except Error Release :=
  if !utf8Valid raw then .error .malformed
  else (scanLines raw).foldlM parseLine fun _ => none

/-! ## Quoting -/

section Quoting

variable {text : List Char}

def escapeChar (c : Char) : List Char := if c ∈ special then ['\\', c] else [c]

theorem special_ascii {c : Char} (h : c ∈ special) : c.toNat < 128 :=
  List.forall_iff_forall_mem.mp (show special.Forall (·.toNat < 128) by decide) c h

theorem unescape_copy {quote : Option UInt8} {b : UInt8} (hq : quote ≠ some b) (hb : b ≠ '\\'.toUInt8) (s : Bytes) :
    unescape quote (b :: s) = (unescape quote s).map (b :: ·) := by
  cases s <;> simp only [unescape, if_neg hq, if_pos hb]

/-- Bytes that the loop copies. -/
theorem unescape_plain {quote : Option UInt8} {a : Bytes} (h : ∀ b ∈ a, quote ≠ some b ∧ b ≠ '\\'.toUInt8)
    (s : Bytes) : unescape quote (a ++ s) = (unescape quote s).map (a ++ ·) := by
  induction a with
  | nil => simp
  | cons b a ih =>
    obtain ⟨hq, hb⟩ := h b List.mem_cons_self
    rw [List.cons_append, unescape_copy hq hb, ih fun b' hb' => h b' (List.mem_cons_of_mem _ hb'), Option.map_map]
    rfl

theorem unescape_special {quote : Option UInt8} {c : Char} (hc : c ∈ special) (hq : quote ≠ some '\\'.toUInt8)
    (s : Bytes) : unescape quote ('\\'.toUInt8 :: c.toUInt8 :: s) = (unescape quote s).map (c.toUInt8 :: ·) := by
  rw [unescape, if_neg hq, if_neg (not_not.mpr rfl)]
  exact if_pos (List.mem_map_of_mem hc)

theorem unescape_escape (text : List Char) :
    unescape (some '\x22'.toUInt8) (encode (text.flatMap escapeChar)) = some (encode text) := by
  induction text with
  | nil => rfl
  | cons c text ih =>
    rw [List.flatMap_cons, encode_append, encode_cons]
    by_cases hc : c ∈ special
    · have hbytes : encode (escapeChar c) = ['\\'.toUInt8, c.toUInt8] := by
        rw [escapeChar, if_pos hc, encode_cons, encode_cons, utf8EncodeChar_ascii (special_ascii hc)]
        rfl
      rw [hbytes, utf8EncodeChar_ascii (special_ascii hc)]
      refine (unescape_special hc (by decide) _).trans ?_
      exact congrArg (Option.map (c.toUInt8 :: ·)) ih
    · have hbytes : encode (escapeChar c) = String.utf8EncodeChar c := by
        rw [escapeChar, if_neg hc, encode_cons]
        exact List.append_nil _
      have hplain : ∀ d ∈ special, ∀ b ∈ String.utf8EncodeChar c, b ≠ d.toUInt8 := by
        rintro d hd b hb rfl
        have hmem : d.toUInt8 ∈ encode [c] := by rwa [encode_cons, encode, List.flatMap_nil, List.append_nil]
        have hdc := mem_of_mem_encode (special_ascii hd) hmem
        rw [List.mem_singleton.mp hdc] at hd
        exact hc hd
      rw [hbytes, unescape_plain (fun b hb => ⟨fun h => ?_, ?_⟩), ih]
      · rfl
      · exact hplain '\x22' (by decide) b hb (Option.some.inj h).symm
      · exact hplain '\\' (by decide) b hb

/-- How a value is written. -/
inductive Style
  | double
  | single

def Style.quote : Style → Char
  | double => '\x22'
  | single => '\x27'

def Style.body : Style → List Char → List Char
  | double, text => text.flatMap escapeChar
  | single, text => text

def Style.value (style : Style) (text : List Char) : Bytes :=
  encode (style.quote :: (style.body text ++ [style.quote]))

theorem Style.value_eq (style : Style) (text : List Char) :
    style.value text = style.quote.toUInt8 :: (encode (style.body text) ++ [style.quote.toUInt8]) := by
  have hquote : String.utf8EncodeChar style.quote = [style.quote.toUInt8] :=
    utf8EncodeChar_ascii (by cases style <;> decide)
  rw [value, encode_cons, encode_append, encode_cons, hquote]
  rfl

theorem Style.trimSpace_value (style : Style) (text : List Char) : trimSpace (style.value text) = style.value text := by
  have hspace : isSpace style.quote = false := by cases style <;> decide
  refine trimSpace_eq_self hspace ?_
  rw [← List.cons_append, List.getLast?_concat]
  exact hspace

theorem decode_value {style : Style} (h : style = .single → '\x27' ∉ text) :
    decodeOSReleaseValue (style.value text) = some (encode text) := by
  have htrim := style.trimSpace_value text
  rw [style.value_eq] at htrim ⊢
  have hquotes : style.quote.toUInt8 = '\x27'.toUInt8 ∨ style.quote.toUInt8 = '\x22'.toUInt8 := by
    cases style with
    | double => exact .inr rfl
    | single => exact .inl rfl
  have hlast : ¬ ((style.quote.toUInt8 :: (encode (style.body text) ++ [style.quote.toUInt8])).length < 2 ∨
      (style.quote.toUInt8 :: (encode (style.body text) ++ [style.quote.toUInt8])).getLast? ≠
        some style.quote.toUInt8) := by
    rw [← List.cons_append, List.getLast?_concat, List.length_append]
    simp
  rw [decodeOSReleaseValue, if_neg (not_not.mpr htrim.symm), if_pos hquotes, if_neg hlast, List.dropLast_concat]
  cases style with
  | double => exact unescape_escape text
  | single =>
    have hfree : '\x27'.toUInt8 ∉ encode (Style.body .single text) :=
      fun hmem => h rfl (mem_of_mem_encode (by decide) hmem)
    rw [if_pos (show Style.single.quote.toUInt8 = '\x27'.toUInt8 from rfl), if_neg hfree]
    rfl

end Quoting

/-! ## Quotes that do not close -/

/-- What can stand between the quotes without closing them. -/
inductive QuotedBody : Style → Bytes → Prop
  | nil (style : Style) : QuotedBody style []
  | byte {style : Style} {b : UInt8} {s : Bytes} : b ≠ style.quote.toUInt8 → (style = .double → b ≠ '\\'.toUInt8) →
      QuotedBody style s → QuotedBody style (b :: s)
  | escape {b : UInt8} {s : Bytes} : QuotedBody .double s → QuotedBody .double ('\\'.toUInt8 :: b :: s)

/-- The closing quote is the first quote that is not escaped. -/
theorem QuotedBody.unique {style : Style} {a b s t : Bytes} (ha : QuotedBody style a) (hb : QuotedBody style b)
    (h : a ++ style.quote.toUInt8 :: s = b ++ style.quote.toUInt8 :: t) : a = b ∧ s = t := by
  have hslash : '\\'.toUInt8 ≠ Style.double.quote.toUInt8 := by decide
  induction ha generalizing b with
  | nil style =>
    cases hb with
    | nil => exact ⟨rfl, (List.cons.inj h).2⟩
    | byte hq _ _ => exact absurd (List.cons.inj h).1.symm hq
    | escape _ => exact absurd (List.cons.inj h).1.symm hslash
  | byte hq hs _ ih =>
    cases hb with
    | nil => exact absurd (List.cons.inj h).1 hq
    | byte _ _ hb =>
      obtain ⟨rfl, hrest⟩ := List.cons.inj h
      obtain ⟨rfl, rfl⟩ := ih hb hrest
      exact ⟨rfl, rfl⟩
    | escape _ => exact absurd (List.cons.inj h).1 (hs rfl)
  | escape _ ih =>
    cases hb with
    | nil => exact absurd (List.cons.inj h).1 hslash
    | byte _ hs _ => exact absurd (List.cons.inj h).1.symm (hs rfl)
    | escape hb =>
      obtain ⟨rfl, hrest⟩ := List.cons.inj (List.cons.inj h).2
      obtain ⟨rfl, rfl⟩ := ih hb hrest
      exact ⟨rfl, rfl⟩

theorem quotedBody_of_unescape : ∀ {s d : Bytes},
    unescape (some Style.double.quote.toUInt8) s = some d → QuotedBody .double s
  | [], _, _ => .nil _
  | b :: s, d, h => by
    have hq : b ≠ Style.double.quote.toUInt8 := by
      rintro rfl
      cases s <;> exact absurd h (by simp [unescape])
    by_cases hb : b = '\\'.toUInt8
    · subst hb
      cases s with
      | nil =>
        have hnone : unescape (some Style.double.quote.toUInt8) ['\\'.toUInt8] = none := by decide
        exact nomatch hnone.symm.trans h
      | cons e s =>
        rw [unescape, if_neg (by decide), if_neg (not_not.mpr rfl)] at h
        split at h
        all_goals
          obtain ⟨d', hd', -⟩ := Option.map_eq_some_iff.mp h
          exact .escape (quotedBody_of_unescape hd')
    · rw [unescape_copy (fun h => hq (Option.some.inj h).symm) hb] at h
      obtain ⟨d', hd', -⟩ := Option.map_eq_some_iff.mp h
      exact .byte hq (fun _ => hb) (quotedBody_of_unescape hd')

theorem quotedBody_single {s : Bytes} (h : '\x27'.toUInt8 ∉ s) : QuotedBody .single s := by
  induction s with
  | nil => exact .nil _
  | cons b s ih =>
    rw [List.mem_cons, not_or] at h
    exact .byte (Ne.symm h.1) nofun (ih h.2)

/-- A quoted value that is decoded ends with the quote that closes it. -/
theorem decode_quoted {style : Style} {rest d : Bytes}
    (h : decodeOSReleaseValue (style.quote.toUInt8 :: rest) = some d) :
    ∃ body, rest = body ++ [style.quote.toUInt8] ∧ QuotedBody style body := by
  rw [decodeOSReleaseValue] at h
  split at h
  · exact nomatch h
  rw [if_pos (by cases style <;> decide)] at h
  split at h
  · exact nomatch h
  rename_i hlast
  rw [not_or, not_lt, not_not] at hlast
  have hrest : rest = rest.dropLast ++ [style.quote.toUInt8] := by
    cases rest with
    | nil => exact absurd hlast.1 (by simp)
    | cons b rest =>
      rw [List.getLast?_cons_cons] at hlast
      exact (List.dropLast_append_getLast? _ hlast.2).symm
  refine ⟨rest.dropLast, hrest, ?_⟩
  cases style with
  | double => exact quotedBody_of_unescape (by rwa [if_neg (by decide)] at h)
  | single =>
    rw [if_pos (show Style.single.quote.toUInt8 = '\x27'.toUInt8 from rfl)] at h
    split at h
    · exact nomatch h
    · rename_i hfree
      exact quotedBody_single hfree

/-- No quote closes the value. -/
def Unterminated (value : Bytes) : Prop :=
  ∃ (style : Style) (rest : Bytes), value = style.quote.toUInt8 :: rest ∧
    ∀ body tail, rest = body ++ style.quote.toUInt8 :: tail → ¬ QuotedBody style body

/-- The quote that closes the value is not its end. -/
def ClosesEarly (value : Bytes) : Prop :=
  ∃ (style : Style) (body tail : Bytes),
    value = style.quote.toUInt8 :: (body ++ style.quote.toUInt8 :: tail) ∧ QuotedBody style body ∧ tail ≠ []

theorem decode_misquoted {value : Bytes} (h : Unterminated value ∨ ClosesEarly value) :
    decodeOSReleaseValue value = none := by
  rw [Option.eq_none_iff_forall_ne_some]
  intro d hd
  rcases h with ⟨style, rest, rfl, hopen⟩ | ⟨style, body, tail, rfl, hbody, htail⟩
  · obtain ⟨body, rfl, hbody⟩ := decode_quoted hd
    exact hopen body [] rfl hbody
  · obtain ⟨body', heq, hbody'⟩ := decode_quoted hd
    exact htail (hbody.unique hbody' heq).2

/-! ## Lines that assign a key -/

section Assignment

variable {result result' : Release} {line value : Bytes} {k : Key}

/-- The line is `KEY=` and then the value. -/
def Assigns (k : Key) (value line : Bytes) : Prop := dropCR line = k.name ++ '='.toUInt8 :: value

theorem cut_append {name : Bytes} (h : '='.toUInt8 ∉ name) (value : Bytes) :
    cut (name ++ '='.toUInt8 :: value) = some (name, value) := by
  have hall : ∀ b ∈ name, decide (b ≠ '='.toUInt8) = true := by
    intro b hb
    exact decide_eq_true fun heq => h (heq ▸ hb)
  rw [cut, if_pos (by simp), List.takeWhile_append_of_pos hall, List.dropWhile_append_of_pos hall,
    List.takeWhile_cons_of_neg (by simp), List.dropWhile_cons_of_neg (by simp), List.append_nil, List.tail_cons]

theorem Key.head_name (k : Key) : ∃ (c : Char) (rest : Bytes), k.name = c.toUInt8 :: rest ∧ c.toNat < 128 ∧
    isSpace c = false ∧ c ≠ '#' := by
  cases k with
  | id => exact ⟨'I', _, rfl, by decide, by decide, by decide⟩
  | versionId => exact ⟨'V', _, rfl, by decide, by decide, by decide⟩
  | prettyName => exact ⟨'P', _, rfl, by decide, by decide, by decide⟩

theorem Key.ofName_name (k : Key) : Key.ofName k.name = some k := by cases k <;> decide

theorem Key.name_of_ofName {name : Bytes} (h : Key.ofName name = some k) : name = k.name := by
  have := List.find?_some h
  exact (of_decide_eq_true this).symm

theorem Key.equals_not_mem (k : Key) : '='.toUInt8 ∉ k.name := by cases k <;> decide

theorem parseLine_assigns (hlen : line.length < maxSourceFileBytes) (h : Assigns k value line) :
    parseLine result line =
      if (result k).isSome then .error .malformed
      else match decodeOSReleaseValue value with
        | none => .error .malformed
        | some decoded =>
          if maxValueBytes < decoded.length || !validText decoded then .error .malformed
          else .ok (Function.update result k (some decoded)) := by
  obtain ⟨c, rest, hname, hascii, hspace, hc⟩ := k.head_name
  have hread : ¬ (trimSpace (dropCR line) = [] ∨ (dropCR line).head? = some '#'.toUInt8) := by
    rw [h, hname, List.cons_append, not_or]
    refine ⟨trimSpace_ne_nil hascii hspace _, fun hhead => hc ?_⟩
    have hbyte := congrArg UInt8.toNat (Option.some.inj hhead)
    rw [toNat_toUInt8 hascii, toNat_toUInt8 (by decide)] at hbyte
    exact Char.toNat_inj.mp hbyte
  rw [parseLine, if_neg (Nat.not_le.mpr hlen), if_neg hread, h, cut_append k.equals_not_mem]
  dsimp only
  rw [k.ofName_name]

/-- What a round that goes on has done: it has read a value that was missing, or nothing. -/
theorem parseLine_ok (h : parseLine result line = .ok result') :
    (∀ k, (result k).isSome → result' k = result k) ∧
    ∀ k value, Assigns k value line → result k = none ∧ (result' k).isSome ∧ (decodeOSReleaseValue value).isSome := by
  have hlen : line.length < maxSourceFileBytes := by
    by_contra hlen
    rw [parseLine, if_pos (Nat.not_lt.mp hlen)] at h
    exact nomatch h
  refine ⟨fun k hk => ?_, fun k value hassign => ?_⟩
  · rw [parseLine, if_neg (Nat.not_le.mpr hlen)] at h
    split at h
    · rw [← Except.ok.inj h]
    split at h
    · exact nomatch h
    split at h
    · rw [← Except.ok.inj h]
    rename_i key hkey
    split at h
    · exact nomatch h
    rename_i hnone
    split at h
    · exact nomatch h
    split at h
    · exact nomatch h
    rw [← Except.ok.inj h, Function.update_of_ne]
    rintro rfl
    exact hnone hk
  · rw [parseLine_assigns hlen hassign] at h
    split at h
    · exact nomatch h
    rename_i hnone
    split at h
    · exact nomatch h
    rename_i decoded hdecoded
    split at h
    · exact nomatch h
    rw [← Except.ok.inj h, Function.update_self, hdecoded]
    exact ⟨Option.not_isSome_iff_eq_none.mp hnone, rfl, rfl⟩

end Assignment

/-! ## Runs of the loop -/

section Runs

variable {result result' : Release} {lines : List Bytes} {value : Bytes} {k : Key}

theorem foldlM_cons_ok {line : Bytes} (h : (line :: lines).foldlM parseLine result = .ok result') :
    ∃ next, parseLine result line = .ok next ∧ lines.foldlM parseLine next = .ok result' := by
  rw [List.foldlM_cons] at h
  cases hline : parseLine result line with
  | error e =>
    rw [hline] at h
    exact nomatch h
  | ok next =>
    rw [hline] at h
    exact ⟨next, rfl, h⟩

/-- A loop that reaches its end has decoded every value. -/
theorem decodes_of_ok (h : lines.foldlM parseLine result = .ok result') {line : Bytes} (hline : line ∈ lines)
    (hassign : Assigns k value line) : (decodeOSReleaseValue value).isSome := by
  induction lines generalizing result with
  | nil => exact absurd hline List.not_mem_nil
  | cons first lines ih =>
    obtain ⟨next, hfirst, hrest⟩ := foldlM_cons_ok h
    rcases List.mem_cons.mp hline with rfl | hline
    · exact ((parseLine_ok hfirst).2 k value hassign).2.2
    · exact ih hrest hline

/-- It has met no key that it had read before. -/
theorem fresh_of_ok (h : lines.foldlM parseLine result = .ok result') {line : Bytes} (hline : line ∈ lines)
    (hassign : Assigns k value line) : result k = none := by
  induction lines generalizing result with
  | nil => exact absurd hline List.not_mem_nil
  | cons first lines ih =>
    obtain ⟨next, hfirst, hrest⟩ := foldlM_cons_ok h
    obtain ⟨hkept, hassigned⟩ := parseLine_ok hfirst
    rcases List.mem_cons.mp hline with rfl | hline
    · exact (hassigned k value hassign).1
    · by_contra hread
      have hnext := hkept k (Option.isSome_iff_ne_none.mpr hread)
      rw [ih hrest hline] at hnext
      exact hread hnext.symm

theorem once_of_ok (h : lines.foldlM parseLine result = .ok result') {line line' value' : Bytes}
    (htwo : [line, line'].Sublist lines) (hassign : Assigns k value line) (hassign' : Assigns k value' line') :
    False := by
  induction lines generalizing result with
  | nil => exact nomatch htwo
  | cons first lines ih =>
    obtain ⟨next, hfirst, hrest⟩ := foldlM_cons_ok h
    cases htwo with
    | cons _ htwo => exact ih hrest htwo
    | cons_cons _ hone =>
      have hsome := ((parseLine_ok hfirst).2 k value hassign).2.1
      have hnone := fresh_of_ok hrest (List.singleton_sublist.mp hone) hassign'
      rw [hnone] at hsome
      exact nomatch hsome

end Runs

/-! ## Files -/

/-- A line of an os-release file that gives the keys the texts `text`. -/
inductive Line
  | assignment (key : Key) (style : Style) (carriageReturn : Bool)
  | comment (content : Bytes)
  | blank (spaces : List Char)
  | other (name value : Bytes)

namespace Line

variable (text : Key → List Char)

def bytes : Line → Bytes
  | assignment key style carriageReturn =>
    key.name ++ '='.toUInt8 :: (style.value (text key) ++ if carriageReturn then ['\r'.toUInt8] else [])
  | comment content => '#'.toUInt8 :: content
  | blank spaces => encode spaces
  | other name value => name ++ '='.toUInt8 :: value

def Ok : Line → Prop
  | assignment key style _ => style = .single → '\x27' ∉ text key
  | comment content => '\n'.toUInt8 ∉ content
  | blank spaces => '\n' ∉ spaces ∧ ∀ c ∈ spaces, isSpace c = true
  | other name value => '\n'.toUInt8 ∉ name ∧ '='.toUInt8 ∉ name ∧ (∀ k, name ≠ Key.name k) ∧ '\n'.toUInt8 ∉ value

def key : Line → Option Key
  | assignment key _ _ => some key
  | comment _ | blank _ | other _ _ => none

end Line

/-- The lines of a file, with a line feed between any two. -/
def joinLines : List Bytes → Bytes
  | [] => []
  | [line] => line
  | line :: lines => line ++ '\n'.toUInt8 :: joinLines lines

section Files

variable {text : Key → List Char} {result : Release}

theorem dropCR_append {b : UInt8} (h : b ≠ '\r'.toUInt8) (a v : Bytes) : dropCR (a ++ b :: v) = a ++ b :: dropCR v := by
  cases v with
  | nil =>
    rw [dropCR, dropCR, List.getLast?_concat, if_neg (by simpa using h)]
    rfl
  | cons c v =>
    have hlast : (a ++ b :: c :: v).getLast? = (c :: v).getLast? := by
      rw [List.getLast?_append_of_ne_nil _ (List.cons_ne_nil _ _), List.getLast?_cons_cons]
    have hdrop : (a ++ b :: c :: v).dropLast = a ++ b :: (c :: v).dropLast := by
      rw [List.dropLast_append_of_ne_nil (List.cons_ne_nil _ _), List.dropLast_cons_cons]
    rw [dropCR, dropCR, hlast, hdrop]
    split <;> rfl

/-- White space stays white space without its carriage return. -/
theorem trimSpace_dropCR {spaces : List Char} (h : ∀ c ∈ spaces, isSpace c = true) :
    trimSpace (dropCR (encode spaces)) = [] := by
  rw [dropCR]
  split
  · rename_i hlast
    obtain ⟨front, c, rfl⟩ : ∃ front c, spaces = front ++ [c] := by
      refine (List.eq_nil_or_concat' spaces).resolve_left ?_
      rintro rfl
      exact nomatch hlast
    have hne : encode [c] ≠ [] := fun hnil => by
      have hlen := congrArg List.length hnil
      rw [encode_cons, List.length_append, String.length_utf8EncodeChar, List.length_nil] at hlen
      have := c.utf8Size_pos
      omega
    rw [encode_append, List.getLast?_append_of_ne_nil _ hne] at hlast
    have hc := List.mem_singleton.mp (mem_of_mem_encode (by decide) (List.mem_of_getLast? hlast))
    subst hc
    have hdrop : (encode (front ++ ['\r'])).dropLast = encode front := by
      rw [encode_append]
      exact List.dropLast_concat
    rw [hdrop]
    exact trimSpace_blank fun c hc => h c (List.mem_append_left _ hc)
  · exact trimSpace_blank h

/-- A line that assigns no key is skipped. -/
theorem parseLine_other {line : Line} (hok : line.Ok text) (hkey : line.key = none)
    (hlen : (line.bytes text).length < maxSourceFileBytes) : parseLine result (line.bytes text) = .ok result := by
  rw [parseLine, if_neg (Nat.not_le.mpr hlen)]
  cases line with
  | assignment key style cr => exact nomatch hkey
  | comment content =>
    have hhash : dropCR (Line.bytes text (.comment content)) = '#'.toUInt8 :: dropCR content :=
      dropCR_append (by decide) [] content
    rw [hhash]
    exact if_pos (.inr rfl)
  | blank spaces => exact if_pos (.inl (trimSpace_dropCR hok.2))
  | other name value =>
    obtain ⟨-, hequals, hname, -⟩ := hok
    split
    · rfl
    have hnone : Key.ofName name = none := by
      rw [Option.eq_none_iff_forall_ne_some]
      exact fun k hk => hname k (Key.name_of_ofName hk)
    rw [Line.bytes, dropCR_append (by decide), cut_append hequals]
    dsimp only
    rw [hnone]

theorem validText_encode {text : List Char} (h : ∀ c ∈ text, Protocol.isControl c = false) :
    validText (encode text) = true := by
  rw [validText, runes_text, List.all_map, List.all_eq_true]
  intro c hc
  show (!Protocol.isControl c) = true
  rw [h c hc]
  rfl

/-- A line that assigns a key gives it its text. -/
theorem parseLine_assignment {key : Key} {style : Style} {cr : Bool}
    (hquote : style = .single → '\x27' ∉ text key) (hcontrol : ∀ c ∈ text key, Protocol.isControl c = false)
    (hmax : (encode (text key)).length ≤ maxValueBytes) (hread : result key = none)
    (hlen : (Line.bytes text (.assignment key style cr)).length < maxSourceFileBytes) :
    parseLine result (Line.bytes text (.assignment key style cr)) =
      .ok (Function.update result key (some (encode (text key)))) := by
  have hassign : Assigns key (style.value (text key)) (Line.bytes text (.assignment key style cr)) := by
    rw [Assigns, Line.bytes, dropCR_append (by decide)]
    congr 2
    rw [style.value_eq, ← List.cons_append]
    have hquote : style.quote.toUInt8 ≠ '\r'.toUInt8 := by cases style <;> decide
    cases cr with
    | false => rw [if_neg Bool.false_ne_true, List.append_nil, dropCR_append hquote]; rfl
    | true => rw [if_pos rfl, List.append_assoc, List.singleton_append, dropCR_append hquote]; rfl
  rw [parseLine_assigns hlen hassign, hread, decode_value hquote]
  simp [Nat.not_lt.mpr hmax, validText_encode hcontrol]

theorem Style.mem_body {style : Style} {text : List Char} {c : Char} (h : c ∈ style.body text) : c ∈ text ∨ c = '\\' := by
  cases style with
  | single => exact .inl h
  | double =>
    obtain ⟨d, hd, hc⟩ := List.mem_flatMap.mp h
    rw [escapeChar] at hc
    split at hc
    · rcases List.mem_cons.mp hc with rfl | hc
      · exact .inr rfl
      · exact .inl (List.mem_singleton.mp hc ▸ hd)
    · exact .inl (List.mem_singleton.mp hc ▸ hd)

theorem Style.newline_not_mem_value {style : Style} {text : List Char}
    (hcontrol : ∀ c ∈ text, Protocol.isControl c = false) : '\n'.toUInt8 ∉ style.value text := by
  intro h
  have hquote : '\n' ≠ style.quote := by cases style <;> decide
  have hmem := mem_of_mem_encode (by decide) h
  rw [List.mem_cons, List.mem_append, List.mem_singleton] at hmem
  rcases hmem with heq | hbody | heq
  · exact hquote heq
  · rcases Style.mem_body hbody with htext | hslash
    · exact absurd (hcontrol _ htext) (by decide)
    · exact absurd hslash (by decide)
  · exact hquote heq

theorem newline_not_mem {line : Line} (hok : line.Ok text) (hcontrol : ∀ k, ∀ c ∈ text k, Protocol.isControl c = false) :
    '\n'.toUInt8 ∉ line.bytes text := by
  have hequals : '\n'.toUInt8 ≠ '='.toUInt8 := by decide
  cases line with
  | assignment key style cr =>
    have hname : '\n'.toUInt8 ∉ key.name := by cases key <;> decide
    have hcr : '\n'.toUInt8 ∉ (if cr then ['\r'.toUInt8] else []) := by cases cr <;> decide
    rw [Line.bytes, List.mem_append, List.mem_cons, List.mem_append]
    exact not_or.mpr ⟨hname, not_or.mpr ⟨hequals, not_or.mpr ⟨Style.newline_not_mem_value (hcontrol key), hcr⟩⟩⟩
  | comment content =>
    rw [Line.bytes, List.mem_cons]
    exact not_or.mpr ⟨by decide, hok⟩
  | blank spaces => exact fun h => hok.1 (mem_of_mem_encode (by decide) h)
  | other name value =>
    rw [Line.bytes, List.mem_append, List.mem_cons]
    exact not_or.mpr ⟨hok.1, not_or.mpr ⟨hequals, hok.2.2.2⟩⟩

theorem scanLines_append {line : Bytes} (h : '\n'.toUInt8 ∉ line) (rest : Bytes) :
    scanLines (line ++ '\n'.toUInt8 :: rest) = line :: scanLines rest := by
  induction line with
  | nil => rw [List.nil_append, scanLines, if_pos rfl]
  | cons b line ih =>
    rw [List.mem_cons, not_or] at h
    rw [List.cons_append, scanLines, if_neg (Ne.symm h.1), ih h.2]

theorem scanLines_last {line : Bytes} (h : '\n'.toUInt8 ∉ line) (hne : line ≠ []) : scanLines line = [line] := by
  induction line with
  | nil => exact absurd rfl hne
  | cons b line ih =>
    rw [List.mem_cons, not_or] at h
    rw [scanLines, if_neg (Ne.symm h.1)]
    cases line with
    | nil => rfl
    | cons c line => rw [ih h.2 (List.cons_ne_nil _ _)]

/-- An empty last line is no line for the scanner, and would be skipped. -/
theorem foldlM_scanLines {lines : List Bytes} (h : ∀ line ∈ lines, '\n'.toUInt8 ∉ line) :
    (scanLines (joinLines lines)).foldlM parseLine result = lines.foldlM parseLine result := by
  induction lines generalizing result with
  | nil => rfl
  | cons line lines ih =>
    have hline := h line List.mem_cons_self
    cases lines with
    | nil =>
      rw [joinLines]
      by_cases hne : line = []
      · subst hne
        have hblank : parseLine result (Line.bytes (fun _ => []) (.blank [])) = .ok result :=
          parseLine_other ⟨List.not_mem_nil, nofun⟩ rfl (by decide)
        rw [List.foldlM_cons, show ([] : Bytes) = Line.bytes (fun _ => []) (.blank []) from rfl, hblank]
        rfl
      · rw [scanLines_last hline hne]
    | cons next lines =>
      rw [joinLines, scanLines_append hline, List.foldlM_cons, List.foldlM_cons]
      · refine bind_congr fun result => ih fun line' hline' => h line' (List.mem_cons_of_mem _ hline')
      · exact List.cons_ne_nil _ _

theorem length_le_joinLines {lines : List Bytes} {line : Bytes} (h : line ∈ lines) :
    line.length ≤ (joinLines lines).length := by
  induction lines with
  | nil => exact absurd h List.not_mem_nil
  | cons first lines ih =>
    cases lines with
    | nil => rw [List.mem_singleton.mp h, joinLines]
    | cons next lines =>
      rw [joinLines, List.length_append, List.length_cons]
      · rcases List.mem_cons.mp h with rfl | h
        · omega
        · have := ih h
          omega
      · exact List.cons_ne_nil _ _

/-- The lines of a file give each key they assign its text. -/
theorem foldlM_lines {lines : List Line} (hok : ∀ line ∈ lines, line.Ok text)
    (hcontrol : ∀ k, ∀ c ∈ text k, Protocol.isControl c = false)
    (hmax : ∀ k, (encode (text k)).length ≤ maxValueBytes)
    (hlen : ∀ line ∈ lines, (line.bytes text).length < maxSourceFileBytes)
    (hnodup : (lines.filterMap Line.key).Nodup) (hread : ∀ k ∈ lines.filterMap Line.key, result k = none) :
    (lines.map (Line.bytes text)).foldlM parseLine result =
      .ok fun k => if k ∈ lines.filterMap Line.key then some (encode (text k)) else result k := by
  induction lines generalizing result with
  | nil => rfl
  | cons line lines ih =>
    have hfirst := hok line List.mem_cons_self
    have hshort := hlen line List.mem_cons_self
    have hok' : ∀ l ∈ lines, l.Ok text := fun l h => hok l (List.mem_cons_of_mem _ h)
    have hlen' : ∀ l ∈ lines, (l.bytes text).length < maxSourceFileBytes := fun l h => hlen l (List.mem_cons_of_mem _ h)
    rw [List.map_cons, List.foldlM_cons]
    cases hkey : line.key with
    | none =>
      rw [List.filterMap_cons_none hkey] at hnodup hread ⊢
      rw [parseLine_other hfirst hkey hshort]
      exact ih hok' hlen' hnodup hread
    | some key =>
      rw [List.filterMap_cons_some hkey] at hnodup hread ⊢
      obtain ⟨hnew, hnodup⟩ := List.nodup_cons.mp hnodup
      obtain ⟨style, cr, rfl⟩ : ∃ style cr, line = .assignment key style cr := by
        cases line with
        | assignment key' style cr => exact ⟨style, cr, by rw [Option.some.inj hkey]⟩
        | comment _ | blank _ | other _ _ => exact nomatch hkey
      rw [parseLine_assignment hfirst (hcontrol key) (hmax key) (hread key List.mem_cons_self) hshort]
      refine (ih hok' hlen' hnodup fun k hk => ?_).trans (congrArg Except.ok (funext fun k => ?_))
      · have hne : k ≠ key := fun h => hnew (h ▸ hk)
        rw [Function.update_of_ne hne]
        exact hread k (List.mem_cons_of_mem _ hk)
      · by_cases hk : k = key
        · subst hk
          rw [if_neg hnew, Function.update_self, if_pos List.mem_cons_self]
        · simp only [Function.update_of_ne hk, List.mem_cons, hk, false_or]

end Files

/-- A file that gives each of the three keys one text is read as those texts; a file that gives a
key twice, or a value whose quote does not close or closes before its end, is an error. -/
theorem parseOSRelease_unquotes :
    (∀ (text : Key → List Char) (lines : List Line),
      (∀ k, ∀ c ∈ text k, Protocol.isControl c = false) → (∀ k, (encode (text k)).length ≤ maxValueBytes) →
      (∀ line ∈ lines, line.Ok text) → (lines.filterMap Line.key).Perm Key.all →
      utf8Valid (joinLines (lines.map (Line.bytes text))) = true →
      (joinLines (lines.map (Line.bytes text))).length < maxSourceFileBytes →
      parseOSRelease (joinLines (lines.map (Line.bytes text))) = .ok fun k => some (encode (text k))) ∧
    ∀ raw k,
      ((∃ line line' value value', [line, line'].Sublist (scanLines raw) ∧ Assigns k value line ∧
          Assigns k value' line') ∨
        ∃ line ∈ scanLines raw, ∃ value, Assigns k value line ∧ (Unterminated value ∨ ClosesEarly value)) →
      ∃ e, parseOSRelease raw = .error e := by
  refine ⟨fun text lines hcontrol hmax hok hkeys hvalid hlen => ?_, fun raw k hbad => ?_⟩
  · have hnewline : ∀ line ∈ lines.map (Line.bytes text), '\n'.toUInt8 ∉ line := by
      intro line hline
      obtain ⟨l, hl, rfl⟩ := List.mem_map.mp hline
      exact newline_not_mem (hok l hl) hcontrol
    have hshort : ∀ line ∈ lines, (line.bytes text).length < maxSourceFileBytes := fun line hline =>
      Nat.lt_of_le_of_lt (length_le_joinLines (List.mem_map_of_mem hline)) hlen
    have hnodup : (lines.filterMap Line.key).Nodup := hkeys.nodup_iff.mpr (by decide)
    rw [parseOSRelease, hvalid, if_neg (by decide), foldlM_scanLines hnewline,
      foldlM_lines hok hcontrol hmax hshort hnodup fun _ _ => rfl]
    refine congrArg Except.ok (funext fun k => if_pos (hkeys.mem_iff.mpr ?_))
    cases k <;> decide
  · cases hresult : parseOSRelease raw with
    | error e => exact ⟨e, rfl⟩
    | ok result =>
      exfalso
      rw [parseOSRelease] at hresult
      split at hresult
      · exact nomatch hresult
      rcases hbad with ⟨line, line', value, value', htwo, hassign, hassign'⟩ | ⟨line, hline, value, hassign, hquote⟩
      · exact once_of_ok hresult htwo hassign hassign'
      · have hsome := decodes_of_ok hresult hline hassign
        rw [decode_misquoted hquote] at hsome
        exact nomatch hsome

def sampleText : Key → List Char
  | .id => "a$b".toList
  | .versionId => "13\\".toList
  | .prettyName => "Gr\u00fcn \x22x\x22".toList

def sampleLines : List Line :=
  [.comment (encode " os".toList), .assignment .versionId .single true, .other (encode "A".toList) (encode "b=c".toList),
    .blank [' '], .assignment .prettyName .double false, .assignment .id .double false, .blank []]

theorem parseOSRelease_sample :
    parseOSRelease (encode
      "# os\nVERSION_ID='13\\'\r\nA=b=c\n \nPRETTY_NAME=\x22Gr\u00fcn \\\x22x\\\x22\x22\nID=\x22a\\$b\x22\n".toList) =
      .ok fun k => some (encode (sampleText k)) := by
  have hfile : joinLines (sampleLines.map (Line.bytes sampleText)) = encode
      "# os\nVERSION_ID='13\\'\r\nA=b=c\n \nPRETTY_NAME=\x22Gr\u00fcn \\\x22x\\\x22\x22\nID=\x22a\\$b\x22\n".toList := by
    decide +kernel
  rw [← hfile]
  refine parseOSRelease_unquotes.1 sampleText sampleLines ?_ ?_ ?_ (by decide) ?_ (by decide +kernel)
  · intro k
    cases k <;> exact List.forall_iff_forall_mem.mp (by decide +kernel)
  · intro k
    cases k <;> decide +kernel
  · simp only [sampleLines, List.forall_mem_cons, List.not_mem_nil, false_implies, implies_true, and_true, Line.Ok]
    refine ⟨by decide +kernel, fun _ => by decide +kernel, ⟨by decide +kernel, by decide +kernel, ?_, by decide +kernel⟩,
      by decide +kernel, (fun h => by cases h), (fun h => by cases h), not_false⟩
    intro k
    cases k <;> decide +kernel
  · rw [hfile]
    exact utf8Valid_encode _

end NorthgateRmm.Agent.Collector
