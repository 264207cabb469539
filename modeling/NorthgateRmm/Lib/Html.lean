import Mathlib

/-!
# Texts with tags

A text as a browser splits it: tags, each with the text that follows it. Reading is a fold
over the characters, so that what a text means is put together from what its parts do to
the reader. The entities are those that keep a character from being markup.
-/

namespace Html

/-- The characters that make markup. -/
def isMarkup (c : Char) : Bool := c = '<' || c = '>' || c = '\x22' || c = '\x27'

def markup (text : String) : List Char := text.toList.filter isMarkup

theorem markup_append (a b : String) : markup (a ++ b) = markup a ++ markup b := by
  rw [markup, String.toList_append, List.filter_append]
  rfl

/-! ## Entities -/

def entityOf (c : Char) : List Char :=
  if c = '&' then ['&', 'a', 'm', 'p', ';']
  else if c = '<' then ['&', 'l', 't', ';']
  else if c = '>' then ['&', 'g', 't', ';']
  else if c = '\x22' then ['&', 'q', 'u', 'o', 't', ';']
  else if c = '\x27' then ['&', '#', 'x', '2', '7', ';']
  else [c]

/-- The texts that stand for a character that must not be itself. -/
def entities : List (List Char) :=
  [['&', 'a', 'm', 'p', ';'], ['&', 'l', 't', ';'], ['&', 'g', 't', ';'], ['&', 'q', 'u', 'o', 't', ';'], ['&', '#', 'x', '2', '7', ';']]

def decode : List Char → List Char
  | '&' :: 'a' :: 'm' :: 'p' :: ';' :: s => '&' :: decode s
  | '&' :: 'l' :: 't' :: ';' :: s => '<' :: decode s
  | '&' :: 'g' :: 't' :: ';' :: s => '>' :: decode s
  | '&' :: 'q' :: 'u' :: 'o' :: 't' :: ';' :: s => '\x22' :: decode s
  | '&' :: '#' :: 'x' :: '2' :: '7' :: ';' :: s => '\x27' :: decode s
  | c :: s => c :: decode s
  | [] => []

theorem decode_cons {c : Char} (h : c ≠ '&') (s : List Char) : decode (c :: s) = c :: decode s := by
  rw [decode]
  all_goals exact fun _ hc _ => h hc

theorem decode_entityOf (c : Char) (s : List Char) : decode (entityOf c ++ s) = c :: decode s := by
  unfold entityOf
  split_ifs with h1 h2 h3 h4 h5
  · subst h1; rfl
  · subst h2; rfl
  · subst h3; rfl
  · subst h4; rfl
  · subst h5; rfl
  · exact decode_cons h1 s

theorem decode_flatMap (text s : List Char) : decode (text.flatMap entityOf ++ s) = text ++ decode s := by
  induction text with
  | nil => rfl
  | cons c text ih => rw [List.flatMap_cons, List.append_assoc, decode_entityOf, ih, List.cons_append]

/-- A text without ampersands means itself. -/
theorem decode_plain {text : List Char} (h : '&' ∉ text) : decode text = text := by
  induction text with
  | nil => rfl
  | cons c text ih =>
    rw [List.mem_cons, not_or] at h
    rw [decode_cons (Ne.symm h.1), ih h.2]

/-- Every ampersand begins an entity. -/
def Escaped (text : List Char) : Prop := ∀ before after, text = before ++ '&' :: after → ∃ e ∈ entities, e <+: '&' :: after

theorem escaped_of_plain {text : List Char} (h : '&' ∉ text) : Escaped text := by
  rintro before after rfl
  simp at h

theorem Escaped.append {a b : List Char} (ha : Escaped a) (hb : Escaped b) : Escaped (a ++ b) := by
  intro before after h
  rcases List.append_eq_append_iff.1 h with ⟨l, hl, hr⟩ | ⟨l, hl, hr⟩
  · obtain ⟨e, he, hpre⟩ := hb l after hr
    exact ⟨e, he, hpre⟩
  · cases l with
    | nil =>
      rw [List.nil_append] at hr
      exact hb [] after hr.symm
    | cons c l =>
      rw [List.cons_append, List.cons.injEq] at hr
      obtain ⟨rfl, rfl⟩ := hr
      obtain ⟨e, he, hpre⟩ := ha before l hl
      exact ⟨e, he, hpre.trans (List.prefix_append _ _)⟩

theorem escaped_entity {rest : List Char} (he : '&' :: rest ∈ entities) (hrest : '&' ∉ rest) : Escaped ('&' :: rest) := by
  intro before after h
  cases before with
  | nil => exact ⟨_, he, h ▸ List.prefix_refl _⟩
  | cons c before =>
    rw [List.cons_append, List.cons.injEq] at h
    exact absurd (h.2 ▸ List.mem_append_right _ List.mem_cons_self) hrest

theorem escaped_entityOf (c : Char) : Escaped (entityOf c) := by
  unfold entityOf
  split_ifs with h1
  all_goals first
    | exact escaped_entity (by decide) (by decide)
    | exact escaped_of_plain (by simpa using Ne.symm h1)

theorem escaped_flatMap (text : List Char) : Escaped (text.flatMap entityOf) := by
  induction text with
  | nil => exact escaped_of_plain nofun
  | cons c text ih => exact (escaped_entityOf c).append ih

theorem entityOf_not_markup (c : Char) : ∀ d ∈ entityOf c, isMarkup d = false := by
  unfold entityOf
  split_ifs with h1 h2 h3 h4 h5
  · exact List.forall_iff_forall_mem.mp (by decide)
  · exact List.forall_iff_forall_mem.mp (by decide)
  · exact List.forall_iff_forall_mem.mp (by decide)
  · exact List.forall_iff_forall_mem.mp (by decide)
  · exact List.forall_iff_forall_mem.mp (by decide)
  · simp [isMarkup, h2, h3, h4, h5]

/-! ## Tags -/

/-- A tag, without its angle brackets, and the text after it. -/
structure Token where
  tag : List Char
  text : List Char
  deriving DecidableEq, Repr

/-- What was read: the tokens before the current one, the current one, and whether its tag
is still open. -/
structure Reader where
  tokens : List Token
  tag : List Char
  text : List Char
  inTag : Bool
  deriving DecidableEq, Repr

namespace Reader

def start : Reader := ⟨[], [], [], false⟩

def read (r : Reader) (c : Char) : Reader :=
  if r.inTag then
    if c = '>' then { r with inTag := false } else { r with tag := r.tag ++ [c] }
  else if c = '<' then ⟨r.tokens ++ [⟨r.tag, r.text⟩], [], [], true⟩
  else { r with text := r.text ++ [c] }

def finished (r : Reader) : List Token := r.tokens ++ [⟨r.tag, r.text⟩]

theorem foldl_tag {s : List Char} (h : '>' ∉ s) (tokens : List Token) (tag text : List Char) :
    s.foldl read ⟨tokens, tag, text, true⟩ = ⟨tokens, tag ++ s, text, true⟩ := by
  induction s generalizing tag with
  | nil => rw [List.foldl_nil, List.append_nil]
  | cons c s ih =>
    rw [List.mem_cons, not_or] at h
    rw [List.foldl_cons, read, if_pos rfl, if_neg (Ne.symm h.1), ih h.2, List.append_assoc, List.singleton_append]

theorem foldl_text {s : List Char} (h : '<' ∉ s) (tokens : List Token) (tag text : List Char) :
    s.foldl read ⟨tokens, tag, text, false⟩ = ⟨tokens, tag, text ++ s, false⟩ := by
  induction s generalizing text with
  | nil => rw [List.foldl_nil, List.append_nil]
  | cons c s ih =>
    rw [List.mem_cons, not_or] at h
    rw [List.foldl_cons, read, if_neg Bool.false_ne_true, if_neg (Ne.symm h.1), ih h.2, List.append_assoc,
      List.singleton_append]

end Reader

/-- The tags of a text and what the text after each of them says. What stands before the
first tag counts as the text of an empty one. -/
def cells (html : String) : List (String × String) :=
  (html.toList.foldl Reader.read Reader.start).finished.map fun t => (String.ofList t.tag, String.ofList (decode t.text))

/-- The text with these tags and texts. -/
def write : List (String × String) → String
  | [] => ""
  | cell :: rest => "<" ++ cell.1 ++ ">" ++ cell.2 ++ write rest

theorem write_append (a b : List (String × String)) : write (a ++ b) = write a ++ write b := by
  induction a with
  | nil => simp [write]
  | cons cell a ih => simp only [List.cons_append, write, ih, String.append_assoc]

/-- No bracket where it would be taken for the end of a tag or the beginning of one. -/
def WellFormed (cell : String × String) : Prop := '>' ∉ cell.1.toList ∧ '<' ∉ cell.2.toList

variable {l : List (String × String)}

theorem finished_write (h : ∀ cell ∈ l, WellFormed cell) (tokens : List Token)
    (tag text : List Char) :
    ((write l).toList.foldl Reader.read ⟨tokens, tag, text, false⟩).finished =
      tokens ++ ⟨tag, text⟩ :: l.map fun cell => ⟨cell.1.toList, cell.2.toList⟩ := by
  induction l generalizing tokens tag text with
  | nil => rfl
  | cons cell l ih =>
    obtain ⟨⟨htag, htext⟩, hl⟩ := List.forall_mem_cons.1 h
    have hopen : "<".toList = ['<'] ∧ ">".toList = ['>'] := ⟨rfl, rfl⟩
    simp only [write, String.toList_append, hopen.1, hopen.2, List.foldl_append]
    have hstart : ['<'].foldl Reader.read ⟨tokens, tag, text, false⟩ = ⟨tokens ++ [⟨tag, text⟩], [], [], true⟩ := rfl
    rw [hstart, Reader.foldl_tag htag]
    have hclose : ['>'].foldl Reader.read ⟨tokens ++ [⟨tag, text⟩], [] ++ cell.1.toList, [], true⟩ =
        ⟨tokens ++ [⟨tag, text⟩], [] ++ cell.1.toList, [], false⟩ := rfl
    rw [hclose, Reader.foldl_text htext, ih hl, List.nil_append, List.nil_append, List.append_assoc,
      List.singleton_append, List.map_cons]

/-- What was written is read back. -/
theorem cells_write (h : ∀ cell ∈ l, WellFormed cell) :
    cells (write l) = ("", "") :: l.map fun cell => (cell.1, String.ofList (decode cell.2.toList)) := by
  rw [cells, Reader.start, finished_write h, List.nil_append, List.map_cons, List.map_map]
  refine congrArg₂ _ rfl (List.map_congr_left fun cell _ => ?_)
  rw [Function.comp, String.ofList_toList]

/-- The markup of a text is that of its tags when the texts between them have none. -/
theorem markup_write (h : ∀ cell ∈ l, markup cell.2 = []) :
    markup (write l) = l.flatMap fun cell => '<' :: markup cell.1 ++ ['>'] := by
  induction l with
  | nil => rfl
  | cons cell l ih =>
    obtain ⟨hcell, hl⟩ := List.forall_mem_cons.1 h
    have hopen : markup "<" = ['<'] ∧ markup ">" = ['>'] := ⟨rfl, rfl⟩
    simp only [write, markup_append, hcell, ih hl, hopen.1, hopen.2, List.flatMap_cons, List.append_nil,
      List.cons_append, List.nil_append]

theorem escaped_write (h : ∀ cell ∈ l, '&' ∉ cell.1.toList ∧ Escaped cell.2.toList) :
    Escaped (write l).toList := by
  induction l with
  | nil => exact escaped_of_plain nofun
  | cons cell l ih =>
    obtain ⟨⟨htag, htext⟩, hl⟩ := List.forall_mem_cons.1 h
    simp only [write, String.toList_append]
    exact ((((escaped_of_plain (by decide)).append (escaped_of_plain htag)).append (escaped_of_plain (by decide))).append
      htext).append (ih hl)

end Html
