import NorthgateRmm.Lib.Json

/-!
# `encoding/json`

How Go's `encoding/json` writes strings and maps and how a decoder with
`DisallowUnknownFields` stores a value in a struct: a member goes to the field of
exactly its name, or else to one whose name is the same after case folding; a member
that occurs again is stored again; `null` leaves a field as it is; a field without a
member keeps its zero value.
-/

namespace GoJson

open Json

/-- Brackets that a text may nest. -/
def maxNestingDepth : Nat := 10000

/-! ## Maps -/

/-- A `map[string]string`, in the order of its keys. -/
structure StringMap where
  entries : List (String × String)
  sorted : entries.Pairwise (·.1 < ·.1)
  deriving DecidableEq

namespace StringMap

def empty : StringMap := ⟨[], .nil⟩

def insertEntry (k v : String) : List (String × String) → List (String × String)
  | [] => [(k, v)]
  | (k', v') :: l =>
    if k < k' then (k, v) :: (k', v') :: l
    else if k' < k then (k', v') :: insertEntry k v l
    else (k, v) :: l

variable {l : List (String × String)} {k v : String}

theorem mem_insertEntry {e : String × String}
    (h : e ∈ insertEntry k v l) : e = (k, v) ∨ e ∈ l := by
  induction l with
  | nil => simpa [insertEntry] using h
  | cons a l ih =>
    obtain ⟨k', v'⟩ := a
    simp only [insertEntry] at h
    split_ifs at h with h1 h2
    · simpa using h
    · rcases List.mem_cons.mp h with rfl | h
      · exact .inr List.mem_cons_self
      · exact (ih h).imp_right (List.mem_cons_of_mem _)
    · rcases List.mem_cons.mp h with rfl | h
      · exact .inl rfl
      · exact .inr (List.mem_cons_of_mem _ h)

theorem sorted_insertEntry (h : l.Pairwise (·.1 < ·.1)) :
    (insertEntry k v l).Pairwise (·.1 < ·.1) := by
  induction l with
  | nil => simp [insertEntry]
  | cons a l ih =>
    obtain ⟨k', v'⟩ := a
    obtain ⟨hhead, htail⟩ := List.pairwise_cons.mp h
    simp only [insertEntry]
    split_ifs with h1 h2
    · refine List.pairwise_cons.mpr ⟨fun e he => ?_, h⟩
      rcases List.mem_cons.mp he with rfl | he
      · exact h1
      · exact lt_trans h1 (hhead e he)
    · refine List.pairwise_cons.mpr ⟨fun e he => ?_, ih htail⟩
      rcases mem_insertEntry he with rfl | he
      · exact h2
      · exact hhead e he
    · have hk : k = k' := le_antisymm (not_lt.mp h2) (not_lt.mp h1)
      subst hk
      exact List.pairwise_cons.mpr ⟨hhead, htail⟩

/-- `m[k] = v`. -/
def insert (m : StringMap) (k v : String) : StringMap := ⟨insertEntry k v m.entries, sorted_insertEntry m.sorted⟩

/-- A key past all others goes to the end. -/
theorem insertEntry_last (h : ∀ e ∈ l, e.1 < k) :
    insertEntry k v l = l ++ [(k, v)] := by
  induction l with
  | nil => rfl
  | cons a l ih =>
    obtain ⟨k', v'⟩ := a
    have hk : k' < k := h (k', v') List.mem_cons_self
    rw [insertEntry, if_neg (lt_asymm hk), if_pos hk, ih fun e he => h e (List.mem_cons_of_mem _ he)]
    rfl

end StringMap

/-! ## Writing -/

/-- A character of a string, with the escapes that make the text safe inside HTML. -/
def piece (c : Char) : Piece :=
  if c = '\x22' ∨ c = '\\' then .short c
  else if c = '\x08' then .short 'b'
  else if c = '\x0c' then .short 'f'
  else if c = '\n' then .short 'n'
  else if c = '\r' then .short 'r'
  else if c = '\t' then .short 't'
  else if c.toNat < 32 ∨ c = '<' ∨ c = '>' ∨ c = '&' ∨ c.toNat = 0x2028 ∨ c.toNat = 0x2029 then .unit c.toNat
  else .char c

def literalOf (s : String) : Literal := s.toList.map piece

theorem piece_ok (c : Char) : (piece c).ok := by
  unfold piece
  split_ifs with h1 h2 h3 h4 h5 h6 h7
  · rcases h1 with rfl | rfl <;> simp [Piece.ok, shortEscapes]
  · simp [Piece.ok, shortEscapes]
  · simp [Piece.ok, shortEscapes]
  · simp [Piece.ok, shortEscapes]
  · simp [Piece.ok, shortEscapes]
  · simp [Piece.ok, shortEscapes]
  · show c.toNat < 0x10000
    rcases h7 with h | rfl | rfl | rfl | h | h <;> first | omega | decide
  · simp only [not_or] at h1 h7
    exact ⟨Nat.not_lt.mp h7.1, h1.1, h1.2⟩

theorem code_piece (c : Char) : (piece c).code = c.toNat := by
  unfold piece
  split_ifs with h1 h2 h3 h4 h5 h6 h7
  · rcases h1 with rfl | rfl <;> rfl
  · subst h2; rfl
  · subst h3; rfl
  · subst h4; rfl
  · subst h5; rfl
  · subst h6; rfl
  · rfl
  · rfl

/-- What is written for a string means the string. -/
theorem text_literalOf (s : String) : text (literalOf s) = s := by
  have hcodes : codes (literalOf s) = (literalOf s).map Piece.code := by
    refine codes_eq_map fun p hp => ?_
    obtain ⟨c, -, rfl⟩ := List.mem_map.mp hp
    rw [code_piece]
    exact isHigh_toNat c
  have hchar : ∀ c, toChar (piece c).code = c := fun c => by rw [code_piece, toChar_toNat]
  apply String.toList_injective
  rw [text, hcodes, literalOf, String.toList_ofList, List.map_map, List.map_map]
  exact (List.map_congr_left fun c _ => hchar c).trans (List.map_id _)

def string (s : String) : Value := .str (literalOf s)

/-- An object of named values. -/
def object (l : List (String × Value)) : Value := .obj (l.map fun e => (literalOf e.1, e.2))

/-- A piece that is no surrogate. -/
def Plain (p : Piece) : Prop := isHigh p.code = false ∧ isLow p.code = false

theorem plain_literalOf (s : String) : ∀ p ∈ literalOf s, p.ok ∧ Plain p := by
  intro p hp
  obtain ⟨c, -, rfl⟩ := List.mem_map.mp hp
  refine ⟨piece_ok c, ?_⟩
  rw [Plain, code_piece]
  exact ⟨isHigh_toNat c, isLow_toNat c⟩

/-- A literal of single code points that are no surrogates is written without any. -/
theorem plain_of_codes {l : Literal} (h : ∀ v ∈ codes l, v < 0x10000 ∧ isHigh v = false ∧ isLow v = false) :
    ∀ p ∈ l, Plain p := by
  induction l using codes.induct with
  | case1 hi lo l hpair _ =>
    rw [codes, if_pos hpair] at h
    have := (h _ List.mem_cons_self).1
    omega
  | case2 hi lo l hpair ih =>
    rw [codes, if_neg hpair, List.forall_mem_cons] at h
    exact List.forall_mem_cons.2 ⟨h.1.2, ih h.2⟩
  | case3 p l hne ih =>
    rw [codes, List.forall_mem_cons] at h
    · exact List.forall_mem_cons.2 ⟨h.1.2, ih h.2⟩
    · exact hne
  | case4 => exact List.forall_mem_nil _

/-- A text of characters below the replacement character is written without surrogates. -/
theorem plain_of_text {l : Literal} {s : String} (h : text l = s) (hs : ∀ c ∈ s.toList, c.toNat < 0xfffd) :
    ∀ p ∈ l, Plain p := by
  have hcodes := codes_of_text h fun hmem => absurd (hs _ hmem) (by decide)
  refine plain_of_codes fun v hv => ?_
  obtain ⟨c, hc, rfl⟩ := List.mem_map.1 (hcodes ▸ hv)
  exact ⟨Nat.lt_trans (hs c hc) (by decide), isHigh_toNat c, isLow_toNat c⟩

theorem printable_string (s : String) {limit : Nat} : Printable Plain limit (string s) := .str (plain_literalOf s)

theorem printable_object {limit : Nat} {l : List (String × Value)} (h : ∀ e ∈ l, Printable Plain limit e.2) :
    Printable Plain (limit + 1) (object l) := by
  refine .obj (fun m hm => ?_) fun m hm => ?_
  · obtain ⟨e, -, rfl⟩ := List.mem_map.mp hm
    exact plain_literalOf e.1
  · obtain ⟨e, he, rfl⟩ := List.mem_map.mp hm
    exact h e he

/-- The number of an integer. -/
def numberOf (n : Int) : Number := ⟨n < 0, Nat.toDigits 10 n.natAbs, []⟩

theorem toDigits_head {n : Nat} (h : (Nat.toDigits 10 n).head? = some '0') : n = 0 := by
  induction n using Nat.strongRecOn with
  | _ n ih =>
    by_cases hn : n < 10
    · rw [Nat.toDigits_of_lt_base hn] at h
      have hdigit : ∀ d < 10, Nat.digitChar d = '0' → d = 0 := by decide
      exact hdigit n hn (Option.some.inj h)
    · rw [Nat.toDigits_of_base_le (by decide) (Nat.not_lt.mp hn),
        List.head?_append_of_ne_nil _ (Nat.toDigits_ne_nil)] at h
      have := ih (n / 10) (by omega) h
      omega

theorem integral_numberOf (n : Int) : (numberOf n).Integral where
  rest := rfl
  digits := Nat.toDigits_ne_nil
  digit := fun c hc => by
    have := Nat.isDigit_of_mem_toDigits (by decide) (by decide) hc
    simpa [Char.isDigit, isDigit, Char.le_def] using this
  zero := fun h => by
    have : n.natAbs = 0 := toDigits_head h
    rw [numberOf, this]
    rfl

/-! ## Sizes -/

section Sizes

open String (utf8Len)

/-- Characters that are written as they are, in one byte. -/
def Bare (c : Char) : Prop := piece c = .char c ∧ c.utf8Size = 1

theorem bare_of_range {c : Char} (h : 39 ≤ c.toNat ∧ c.toNat ≤ 122) (hne : c ∉ ['<', '>', '\\']) : Bare c := by
  have hmarks : '\x22'.toNat < 39 ∧ '\x08'.toNat < 39 ∧ '\x0c'.toNat < 39 ∧ '\n'.toNat < 39 ∧ '\r'.toNat < 39 ∧
      '\t'.toNat < 39 ∧ '&'.toNat < 39 := by decide
  have hother : ∀ m : Char, m.toNat < 39 → c ≠ m := by
    rintro m hm rfl
    omega
  simp only [List.mem_cons, List.not_mem_nil, or_false, not_or] at hne
  refine ⟨?_, ?_⟩
  · rw [piece, if_neg (not_or.2 ⟨hother _ hmarks.1, hne.2.2⟩), if_neg (hother _ hmarks.2.1), if_neg (hother _ hmarks.2.2.1),
      if_neg (hother _ hmarks.2.2.2.1), if_neg (hother _ hmarks.2.2.2.2.1), if_neg (hother _ hmarks.2.2.2.2.2.1), if_neg]
    rintro (h | h | h | h | h | h)
    · omega
    · exact hne.1 h
    · exact hne.2.1 h
    · exact hother _ hmarks.2.2.2.2.2.2 h
    · omega
    · omega
  · rw [Char.utf8Size_eq_one_iff]
    have hval : c.val.toNat ≤ 122 := h.2
    exact UInt32.le_iff_toNat_le.2 (by
      show c.val.toNat ≤ 127
      omega)

theorem utf8Len_bare {l : List Char} (h : ∀ c ∈ l, Bare c) : utf8Len l = l.length := by
  induction l with
  | nil => rfl
  | cons c l ih =>
    obtain ⟨hc, hl⟩ := List.forall_mem_cons.1 h
    rw [String.utf8Len_cons, ih hl, hc.2, List.length_cons]

/-- Bare characters are written in a byte each. -/
theorem utf8Len_string_bare {s : String} (h : ∀ c ∈ s.toList, Bare c) :
    utf8Len (render (string s)) = s.toList.length + 2 := by
  have hpieces : (s.toList.map piece).flatMap Piece.render = s.toList := by
    rw [List.map_congr_left fun c hc => (h c hc).1, List.flatMap_map]
    exact List.flatMap_singleton' s.toList
  have hquote : '\x22'.utf8Size = 1 := rfl
  rw [string, render, renderLiteral, List.cons_append, String.utf8Len_cons, String.utf8Len_append, String.utf8Len_cons,
    String.utf8Len_nil, literalOf, hpieces, utf8Len_bare h, hquote]

theorem utf8Len_separated {α : Type} (write : α → List Char) (l : List α) :
    utf8Len (separated write l) ≤ (l.map fun x => utf8Len (write x) + 1).sum := by
  have hcomma : ','.utf8Size = 1 := rfl
  induction l with
  | nil => exact Nat.le_refl 0
  | cons x l ih =>
    rw [List.map_cons, List.sum_cons]
    cases l with
    | nil =>
      show utf8Len (write x) ≤ _
      omega
    | cons y l =>
      show utf8Len (write x ++ ',' :: separated write (y :: l)) ≤ _
      rw [String.utf8Len_append, String.utf8Len_cons, hcomma]
      omega

/-- An object takes its names and values, and at most two bytes more for each of them. -/
theorem utf8Len_object_le (l : List (String × Value)) :
    utf8Len (render (object l)) ≤
      2 + (l.map fun e => utf8Len (render (string e.1)) + utf8Len (render e.2) + 2).sum := by
  have hmarks : '\x7b'.utf8Size = 1 ∧ '\x7d'.utf8Size = 1 ∧ ':'.utf8Size = 1 := ⟨rfl, rfl, rfl⟩
  have hmember : ∀ e : String × Value, utf8Len (renderMember (literalOf e.1, e.2)) =
      utf8Len (render (string e.1)) + utf8Len (render e.2) + 1 := by
    intro e
    rw [renderMember, String.utf8Len_append, String.utf8Len_cons, hmarks.2.2, string, render]
    exact (Nat.add_assoc _ _ _).symm
  have hmembers := utf8Len_separated renderMember (l.map fun e => (literalOf e.1, e.2))
  rw [List.map_map] at hmembers
  have hsum : ((fun x => utf8Len (renderMember x) + 1) ∘ fun e : String × Value => (literalOf e.1, e.2)) =
      fun e => utf8Len (render (string e.1)) + utf8Len (render e.2) + 2 := by
    funext e
    rw [Function.comp_apply, hmember]
  rw [hsum] at hmembers
  rw [object, render, renderMembers_eq, List.cons_append, String.utf8Len_cons, String.utf8Len_append, String.utf8Len_cons,
    String.utf8Len_nil, hmarks.1, hmarks.2.1]
  omega

theorem utf8Len_numberOf {n k : Nat} (hk : 0 < k) (h : n < 10 ^ k) : utf8Len (render (.num (numberOf n))) ≤ k := by
  have hdigits : ∀ l : List Char, (∀ c ∈ l, c.isDigit = true) → utf8Len l = l.length := by
    intro l
    induction l with
    | nil => intro _; rfl
    | cons c l ih =>
      intro h
      obtain ⟨hc, hl⟩ := List.forall_mem_cons.1 h
      have hsize : c.utf8Size = 1 := by
        rw [Char.utf8Size_eq_one_iff]
        simp only [Char.isDigit, Bool.and_eq_true, decide_eq_true_eq] at hc
        exact UInt32.le_trans hc.2 (by decide)
      rw [String.utf8Len_cons, ih hl, hsize, List.length_cons]
  have hsign : ¬ ((n : Int) < 0) := Int.not_lt.2 (Int.natCast_nonneg n)
  rw [render, Number.render, numberOf, decide_eq_false hsign, if_neg Bool.false_ne_true, List.nil_append, List.append_nil,
    Int.natAbs_natCast, hdigits _ fun c hc => Nat.isDigit_of_mem_toDigits (by decide) (by decide) hc]
  exact Nat.toDigits_length 10 n k hk h

end Sizes

/-! ## Decoding into structs -/

/-- The representative of a character among those that fold to it. Only these fold to
an ASCII character. -/
def foldChar (c : Char) : Char :=
  if 'a' ≤ c ∧ c ≤ 'z' then Char.ofNat (c.toNat - 32)
  else if c.toNat = 0x17f then 'S'
  else if c.toNat = 0x212a then 'K'
  else c

def foldName (name : String) : String := String.ofList (name.toList.map foldChar)

/-- A field of a struct: its name and how a value is stored in it. -/
structure StructField (σ : Type) where
  name : String
  store : Value → σ → Option σ

variable {σ : Type}

def lookup (fields : List (StructField σ)) (name : String) : Option (StructField σ) :=
  (fields.find? (·.name = name)).or (fields.find? fun f => foldName f.name = foldName name)

def decodeMembers (fields : List (StructField σ)) : List (Literal × Value) → σ → Option σ
  | [], s => some s
  | (name, v) :: rest, s => (lookup fields (text name)).bind fun f =>
    (f.store v s).bind (decodeMembers fields rest)

/-- A name that is spelled as in the struct finds its field. -/
theorem lookup_self {fields : List (StructField σ)} {f : StructField σ} (hf : f ∈ fields)
    (hn : (fields.map (·.name)).Nodup) : lookup fields f.name = some f := by
  have hfind : fields.find? (·.name = f.name) = some f := by
    induction fields with
    | nil => cases hf
    | cons g fields ih =>
      rw [List.map_cons, List.nodup_cons] at hn
      rcases List.mem_cons.mp hf with rfl | hf
      · simp
      · have hne : g.name ≠ f.name := fun h => hn.1 (h ▸ List.mem_map_of_mem hf)
        rw [List.find?_cons_of_neg (by simpa using hne), ih hf hn.2]
  rw [lookup, hfind]
  rfl

/-- An object stored in a struct. -/
def decodeStruct (fields : List (StructField σ)) : Value → σ → Option σ
  | .null, s => some s
  | .obj members, s => decodeMembers fields members s
  | _, _ => none

section Exact

/-! ### Members that are spelled as in the struct -/

variable {β : Type} {fields : List (StructField σ)} {π : σ → β} {members : List (Literal × Value)} {s s' : σ}
  {f : StructField σ}

/-- Only the field `f` changes the part `π` of the struct. -/
def Owns (fields : List (StructField σ)) (f : StructField σ) (π : σ → β) : Prop :=
  ∀ g ∈ fields, g.name ≠ f.name → ∀ v s s', g.store v s = some s' → π s' = π s

/-- Every member is spelled as a field. -/
def Exact (fields : List (StructField σ)) (members : List (Literal × Value)) : Prop :=
  ∀ m ∈ members, text m.1 ∈ fields.map (·.name)

theorem decodeMembers_cons (hn : (fields.map (·.name)).Nodup) {m : Literal × Value}
    (hm : text m.1 ∈ fields.map (·.name)) (h : decodeMembers fields (m :: members) s = some s') :
    ∃ g ∈ fields, g.name = text m.1 ∧ ∃ t, g.store m.2 s = some t ∧ decodeMembers fields members t = some s' := by
  obtain ⟨g, hg, hname⟩ := List.mem_map.mp hm
  obtain ⟨name, v⟩ := m
  rw [decodeMembers, ← hname, lookup_self hg hn, Option.bind_some, Option.bind_eq_some_iff] at h
  exact ⟨g, hg, hname, h⟩

/-- Without a member of its name a field keeps its value. -/
theorem decodeMembers_absent (hn : (fields.map (·.name)).Nodup) (hown : Owns fields f π) (hx : Exact fields members)
    (habs : ∀ m ∈ members, text m.1 ≠ f.name) (h : decodeMembers fields members s = some s') : π s' = π s := by
  induction members generalizing s with
  | nil => cases h; rfl
  | cons m members ih =>
    obtain ⟨g, hg, hname, t, hstore, hrest⟩ := decodeMembers_cons hn (hx m List.mem_cons_self) h
    have hne : g.name ≠ f.name := fun he => habs m List.mem_cons_self (hname.symm.trans he)
    rw [ih (fun x hx' => hx x (List.mem_cons_of_mem _ hx')) (fun x hx' => habs x (List.mem_cons_of_mem _ hx')) hrest,
      hown g hg hne m.2 s t hstore]

/-- The one member of a field's name decides its value. -/
theorem decodeMembers_present (hn : (fields.map (·.name)).Nodup) (hf : f ∈ fields) (hown : Owns fields f π)
    (hx : Exact fields members) (hnodup : (members.map fun m => text m.1).Nodup) {m : Literal × Value}
    (hm : m ∈ members) (hname : text m.1 = f.name) (h : decodeMembers fields members s = some s') :
    ∃ t t', π t = π s ∧ f.store m.2 t = some t' ∧ π s' = π t' := by
  induction members generalizing s with
  | nil => cases hm
  | cons x members ih =>
    have hx' : Exact fields members := fun y hy => hx y (List.mem_cons_of_mem _ hy)
    rw [List.map_cons, List.nodup_cons] at hnodup
    obtain ⟨g, hg, hgname, t, hstore, hrest⟩ := decodeMembers_cons hn (hx x List.mem_cons_self) h
    rcases List.mem_cons.mp hm with rfl | hm
    · have hgf : g = f := by
        have h1 := lookup_self hg hn
        have h2 := lookup_self hf hn
        rw [hgname, hname, h2] at h1
        exact (Option.some.inj h1).symm
      subst hgf
      refine ⟨s, t, rfl, hstore, decodeMembers_absent hn hown hx' (fun y hy he => ?_) hrest⟩
      exact hnodup.1 (List.mem_map.mpr ⟨y, hy, he.trans hgname⟩)
    · have hne : g.name ≠ f.name := fun he =>
        hnodup.1 (List.mem_map.mpr ⟨m, hm, hname.trans (he.symm.trans hgname)⟩)
      obtain ⟨u, u', hu, hustore, hs'⟩ := ih hx' hnodup.2 hm hrest
      exact ⟨u, u', hu.trans (hown g hg hne x.2 s t hstore), hustore, hs'⟩

/-- A field that changed has a member of its name. -/
theorem decodeMembers_changed (hn : (fields.map (·.name)).Nodup) (hf : f ∈ fields) (hown : Owns fields f π)
    (hx : Exact fields members) (hnodup : (members.map fun m => text m.1).Nodup)
    (h : decodeMembers fields members s = some s') (hne : π s' ≠ π s) :
    ∃ m ∈ members, text m.1 = f.name ∧ ∃ t t', π t = π s ∧ f.store m.2 t = some t' ∧ π s' = π t' := by
  by_cases hex : ∃ m ∈ members, text m.1 = f.name
  · obtain ⟨m, hm, hname⟩ := hex
    exact ⟨m, hm, hname, decodeMembers_present hn hf hown hx hnodup hm hname h⟩
  · refine absurd (decodeMembers_absent hn hown hx (fun m hm he => hex ⟨m, hm, he⟩) h) hne

end Exact

/-- A value for each field of a struct, in order. -/
def storeAll : List (StructField σ) → List Value → σ → Option σ
  | f :: fs, v :: vs, s => (f.store v s).bind (storeAll fs vs)
  | _, _, s => some s

/-- A written struct is stored field by field. -/
theorem decodeStruct_object {fields : List (StructField σ)} (hn : (fields.map (·.name)).Nodup) {vs : List Value}
    {s : σ} : decodeStruct fields (object (fields.zipWith (fun f v => (f.name, v)) vs)) s = storeAll fields vs s := by
  suffices h : ∀ rest : List (StructField σ), (∀ f ∈ rest, f ∈ fields) → ∀ vs s,
      decodeMembers fields ((rest.zipWith (fun f v => (f.name, v)) vs).map fun e => (literalOf e.1, e.2)) s =
        storeAll rest vs s from h fields (fun f hf => hf) vs s
  intro rest
  induction rest with
  | nil => intro _ vs s; cases vs <;> rfl
  | cons f rest ih =>
    intro hmem vs s
    cases vs with
    | nil => rfl
    | cons v vs =>
      rw [List.zipWith_cons_cons, List.map_cons, decodeMembers, text_literalOf,
        lookup_self (hmem f List.mem_cons_self) hn, Option.bind_some, storeAll]
      exact congrArg _ (funext fun s' => ih (fun g hg => hmem g (List.mem_cons_of_mem _ hg)) vs s')

def storeString (set : String → σ → σ) : Value → σ → Option σ
  | .null, s => some s
  | .str l, s => some (set (text l) s)
  | _, _ => none

def storeBool (set : Bool → σ → σ) : Value → σ → Option σ
  | .null, s => some s
  | .bool b, s => some (set b s)
  | _, _ => none

/-- A `*bool`: `null` makes it nil. -/
def storeBoolPointer (set : Option Bool → σ → σ) : Value → σ → Option σ
  | .null, s => some (set none s)
  | .bool b, s => some (set (some b) s)
  | _, _ => none

/-- `strconv.ParseInt(text, 10, 64)`. -/
def parseInt64 (n : Number) : Option Int :=
  let m : Nat := Nat.ofDigitChars 10 n.digits 0
  let v : Int := if n.negative then -m else m
  if n.rest.isEmpty ∧ -2 ^ 63 ≤ v ∧ v < 2 ^ 63 then some v else none

theorem parseInt64_numberOf {n : Int} (hlo : -2 ^ 63 ≤ n) (hhi : n < 2 ^ 63) : parseInt64 (numberOf n) = some n := by
  have hv : (if (numberOf n).negative then -(n.natAbs : Int) else n.natAbs) = n := by
    simp only [numberOf, decide_eq_true_eq]
    split <;> omega
  have hm : Nat.ofDigitChars 10 (numberOf n).digits 0 = n.natAbs :=
    Nat.ofDigitChars_toDigits (by decide) (by decide)
  simp only [parseInt64, hm, hv]
  exact if_pos ⟨rfl, hlo, hhi⟩

def storeInt (set : Int → σ → σ) : Value → σ → Option σ
  | .null, s => some s
  | .num n, s => (parseInt64 n).map fun v => set v s
  | _, _ => none

/-- `strconv.ParseUint(text, 10, 64)`. -/
def parseUint64 (n : Number) : Option Nat :=
  let m : Nat := Nat.ofDigitChars 10 n.digits 0
  if n.rest.isEmpty ∧ n.negative = false ∧ m < 2 ^ 64 then some m else none

theorem parseUint64_numberOf {n : Nat} (h : n < 2 ^ 64) : parseUint64 (numberOf n) = some n := by
  have hm : Nat.ofDigitChars 10 (numberOf n).digits 0 = n :=
    Nat.ofDigitChars_toDigits (by decide) (by decide)
  have hsign : (numberOf n).negative = false := decide_eq_false (Int.not_lt.2 (Int.natCast_nonneg n))
  simp only [parseUint64, hm]
  exact if_pos ⟨rfl, hsign, h⟩

def storeUint64 (set : Nat → σ → σ) : Value → σ → Option σ
  | .null, s => some s
  | .num n, s => (parseUint64 n).map fun v => set v s
  | _, _ => none

/-- Members stored in a map of strings; `null` is the zero value of an element. -/
def decodeEntries : List (Literal × Value) → StringMap → Option StringMap
  | [], m => some m
  | (name, v) :: rest, m => match v with
    | .null => decodeEntries rest (m.insert (text name) "")
    | .str l => decodeEntries rest (m.insert (text name) (text l))
    | _ => none

/-- The entries of a map in the order of their keys. -/
theorem decodeEntries_sorted {l : List (String × String)} {m : StringMap} (hm : (m.entries ++ l).Pairwise (·.1 < ·.1)) :
    decodeEntries (l.map fun e => (literalOf e.1, string e.2)) m = some ⟨m.entries ++ l, hm⟩ := by
  induction l generalizing m with
  | nil => simp [decodeEntries]
  | cons e l ih =>
    obtain ⟨k, v⟩ := e
    have hlast : (m.insert k v).entries = m.entries ++ [(k, v)] :=
      StringMap.insertEntry_last fun e he => (List.pairwise_append.mp hm).2.2 e he (k, v) List.mem_cons_self
    have hm' : ((m.insert k v).entries ++ l).Pairwise (·.1 < ·.1) := by
      rw [hlast, List.append_assoc]
      exact hm
    rw [List.map_cons, string, decodeEntries, text_literalOf]
    dsimp only
    rw [text_literalOf, ih hm']
    simp [hlast]

/-- A map is made when it is nil, and `null` makes it nil. -/
def storeMap (get : σ → Option StringMap) (set : Option StringMap → σ → σ) : Value → σ → Option σ
  | .null, s => some (set none s)
  | .obj members, s => (decodeEntries members ((get s).getD .empty)).map fun m => set (some m) s
  | _, _ => none

end GoJson
