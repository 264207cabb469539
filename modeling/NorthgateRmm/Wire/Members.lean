import NorthgateRmm.Agent.Protocol
import NorthgateRmm.Server.Codec

/-!
# Members of schema objects

The agent decodes an object into a struct, the server looks its keys up. Where every
member is spelled as in the schema and none occurs twice, both see the same values: what
`DecodeInventory` stored in a field is what the server reads under the field's name.
-/

namespace NorthgateRmm.Wire

open Json GoJson
open Server (codesOf valueOf exactKeys hookError membersError repeatedName integerError asInteger asTimestamp
  fieldPairs Python Datetime)
open Agent.Protocol (storeTime Time)

variable {members : List (Literal × Value)} {name : String}

/-! ## Names -/

def names (members : List (Literal × Value)) : List String := members.map fun m => text m.1

/-- A name without the character that stands for an unpaired surrogate. -/
def Proper (name : String) : Prop := '\ufffd' ∉ name.toList

instance (name : String) : Decidable (Proper name) := inferInstanceAs (Decidable (_ ∉ _))

theorem codes_eq_iff (h : Proper name) {l : Literal} : codes l = codesOf name ↔ text l = name :=
  ⟨text_of_codes, fun ht => codes_of_text ht h⟩

/-- The member of a name is what a lookup finds. -/
theorem valueOf_eq (hp : Proper name) (hn : (names members).Nodup) {m : Literal × Value} (hm : m ∈ members)
    (hname : text m.1 = name) : valueOf members name = m.2 := by
  have hfind : members.find? (fun m => codes m.1 = codesOf name) = some m := by
    induction members with
    | nil => cases hm
    | cons x members ih =>
      rw [names, List.map_cons, List.nodup_cons] at hn
      rcases List.mem_cons.mp hm with rfl | hm
      · rw [List.find?_cons_of_pos (by simpa using (codes_eq_iff hp).mpr hname)]
      · have hx : codes x.1 ≠ codesOf name := fun hx =>
          hn.1 (List.mem_map.mpr ⟨m, hm, hname.trans ((codes_eq_iff hp).mp hx).symm⟩)
        rw [List.find?_cons_of_neg (by simpa using hx), ih hn.2 hm]
  rw [valueOf, hfind]
  rfl

/-- A lookup that finds something finds a member. -/
theorem mem_of_valueOf (hv : valueOf members name ≠ .null) :
    ∃ m ∈ members, text m.1 = name ∧ m.2 = valueOf members name := by
  unfold valueOf at hv ⊢
  cases hfind : members.find? (fun m => codes m.1 = codesOf name) with
  | none => rw [hfind] at hv; exact absurd rfl hv
  | some m =>
    have hcodes := List.find?_some hfind
    exact ⟨m, List.mem_of_find?_eq_some hfind, text_of_codes (of_decide_eq_true hcodes), rfl⟩

/-- An object with the expected names has the exact keys. -/
theorem exactKeys_of_perm {py : Python} {expected : List String} {fieldName : String}
    (hproper : ∀ s ∈ expected, Proper s) (h : (names members).Perm expected) :
    exactKeys py members expected fieldName = .ok () := by
  have hmissing : expected.filter (fun s => codesOf s ∉ members.map fun m => codes m.1) = [] := by
    refine List.filter_eq_nil_iff.mpr fun s hs => ?_
    obtain ⟨m, hm, hname⟩ := List.mem_map.mp (h.mem_iff.mpr hs)
    have : codesOf s ∈ members.map fun m => codes m.1 :=
      List.mem_map.mpr ⟨m, hm, (codes_eq_iff (hproper s hs)).mpr hname⟩
    simpa using this
  have hunknown : (members.map (·.1)).filter (fun l => !expected.any fun s => codesOf s = codes l) = [] := by
    refine List.filter_eq_nil_iff.mpr fun l hl => ?_
    obtain ⟨m, hm, rfl⟩ := List.mem_map.mp hl
    have hs : text m.1 ∈ expected := h.mem_iff.mp (List.mem_map.mpr ⟨m, hm, rfl⟩)
    have : ∃ s ∈ expected, codesOf s = codes m.1 :=
      ⟨text m.1, hs, ((codes_eq_iff (hproper _ hs)).mpr rfl).symm⟩
    simpa using this
  simp only [exactKeys, hmissing, hunknown]
  rfl

theorem repeatedName_none {seen : List (List Nat)} {l : List Literal} (hn : (l.map text).Nodup)
    (hseen : ∀ x ∈ l, codes x ∉ seen) : repeatedName seen l = none := by
  induction l generalizing seen with
  | nil => rfl
  | cons x l ih =>
    rw [List.map_cons, List.nodup_cons] at hn
    rw [repeatedName, if_neg (hseen x List.mem_cons_self)]
    refine ih hn.2 fun y hy hmem => ?_
    rcases List.mem_cons.mp hmem with h | h
    · exact hn.1 (List.mem_map.mpr ⟨y, hy, by rw [text, text, h]⟩)
    · exact hseen y (List.mem_cons_of_mem _ hy) h

theorem membersError_none (h : ∀ m ∈ members, hookError m.2 = none) : membersError members = none := by
  induction members with
  | nil => rfl
  | cons m members ih =>
    obtain ⟨l, v⟩ := m
    have hv : hookError v = none := h (l, v) List.mem_cons_self
    rw [membersError, hv, Option.none_or]
    exact ih fun m hm => h m (List.mem_cons_of_mem _ hm)

/-- No hook objects to an object of accepted values without repeated names. -/
theorem hookError_obj (hn : (names members).Nodup) (h : ∀ m ∈ members, hookError m.2 = none) :
    hookError (.obj members) = none := by
  have hrep : repeatedName [] (members.map (·.1)) = none :=
    repeatedName_none (by rwa [List.map_map]) fun _ _ => List.not_mem_nil
  rw [hookError, membersError_none h, hrep]
  rfl

/-! ## Integers -/

theorem le_ofDigitChars (ds : List Char) (n : Nat) : 10 ^ ds.length * n ≤ Nat.ofDigitChars 10 ds n := by
  induction ds generalizing n with
  | nil => simp
  | cons c ds ih =>
    rw [Nat.ofDigitChars_cons, List.length_cons, Nat.pow_succ]
    refine le_trans ?_ (ih _)
    rw [Nat.mul_assoc]
    exact Nat.mul_le_mul_left _ (Nat.le_add_right _ _)

/-- A number without leading zeros that fits 64 bits has at most 19 digits. -/
theorem length_digits_le {n : Number} (h : n.Canonical) (hlt : Nat.ofDigitChars 10 n.digits 0 ≤ 2 ^ 63) :
    n.digits.length ≤ 19 := by
  cases hds : n.digits with
  | nil => simp
  | cons c ds =>
    by_cases hc : c = '0'
    · rw [h.zero (by rw [hds, hc]; rfl)] at hds
      rw [← hds]
      decide
    · have hdigit := h.digit c (by rw [hds]; exact List.mem_cons_self)
      have hone : 1 ≤ c.toNat - '0'.toNat := by
        rw [Json.isDigit, Bool.and_eq_true, decide_eq_true_eq, decide_eq_true_eq] at hdigit
        have hle : 48 ≤ c.toNat := hdigit.1
        have hne : c.toNat ≠ 48 := fun he => hc (Char.ext (UInt32.toNat_inj.mp he))
        show 1 ≤ c.toNat - 48
        omega
      rw [hds, Nat.ofDigitChars_cons] at hlt
      have hpow : 10 ^ ds.length ≤ 2 ^ 63 := calc
        10 ^ ds.length ≤ 10 ^ ds.length * (10 * 0 + (c.toNat - '0'.toNat)) := Nat.le_mul_of_pos_right _ (by omega)
        _ ≤ 2 ^ 63 := le_trans (le_ofDigitChars ds _) hlt
      have : ds.length < 19 := by
        by_contra hge
        have : 10 ^ 19 ≤ 10 ^ ds.length := Nat.pow_le_pow_right (by decide) (Nat.not_lt.mp hge)
        omega
      rw [List.length_cons]
      omega

/-- An integer that the agent stores is one that the server reads. -/
theorem integer_agrees {n : Number} {v : Int} (hc : n.Canonical) (h : parseInt64 n = some v) :
    hookError (.num n) = none ∧ ∀ fieldName, asInteger fieldName (.num n) = .ok v := by
  simp only [parseInt64, Option.ite_none_right_eq_some, Option.some.injEq] at h
  obtain ⟨⟨hrest, hlo, hhi⟩, rfl⟩ := h
  have hlen : n.digits.length ≤ 19 := by
    refine length_digits_le hc ?_
    cases hneg : n.negative <;> simp only [hneg, if_true, Bool.false_eq_true, if_false] at hlo hhi <;> omega
  have hmax : ((Server.maxSequence : Nat) : Int) = 2 ^ 63 - 1 := by decide
  refine ⟨?_, fun fieldName => by rw [asInteger, if_pos hrest]⟩
  rw [hookError, integerError]
  refine if_neg ?_
  rintro ⟨-, h | h | h⟩ <;> omega

/-! ## Timestamps -/

/-- What is documented of `datetime.fromisoformat` on RFC 3339 texts: digits past the
sixth are dropped, and an offset of zero is `timezone.utc`. -/
structure ReadsRfc3339 (py : Python) : Prop where
  aware : ∀ s t, readStamp s = some t → 1 ≤ t.date.year → ∃ d, py.fromisoformat (String.ofList s) = .aware d ∧
    d.wall = t.wallSeconds * 1000000 + (t.nanosecond / 1000 : Nat) ∧ d.utcoffset = t.offset * 1000000 ∧
    (t.offset = 0 → d.tzinfo = 0)

/-- A text that is written without escapes. -/
theorem eq_map_char {l : Literal} (h : '\\' ∉ l.flatMap Piece.render) : ∃ cs : List Char, l = cs.map .char := by
  induction l with
  | nil => exact ⟨[], rfl⟩
  | cons p l ih =>
    rw [List.flatMap_cons, List.mem_append, not_or] at h
    obtain ⟨cs, rfl⟩ := ih h.2
    cases p with
    | char c => exact ⟨c :: cs, rfl⟩
    | short c => exact absurd List.mem_cons_self h.1
    | unit v => exact absurd List.mem_cons_self h.1

theorem text_map_char (cs : List Char) : text (cs.map .char) = String.ofList cs := by
  apply text_of_codes
  rw [codes_eq_map fun p hp => ?_, List.map_map, String.toList_ofList]
  · rfl
  · obtain ⟨c, -, rfl⟩ := List.mem_map.mp hp
    exact isHigh_toNat c

theorem text_of_stamp {l : Literal} {t : Stamp} (h : readStamp (l.flatMap Piece.render) = some t) :
    text l = String.ofList (l.flatMap Piece.render) := by
  have hchars := List.all_eq_true.mp (readStamp_chars h)
  obtain ⟨cs, rfl⟩ := eq_map_char fun hmem => absurd (hchars _ hmem) (by decide)
  rw [text_map_char, List.flatMap_map]
  exact congrArg String.ofList (List.flatMap_singleton' cs).symm

/-- A timestamp in UTC that the agent stores is read by the server to the microsecond. -/
theorem timestamp_agrees {py : Python} (hpy : ReadsRfc3339 py) {l : Literal} {t : Stamp}
    (h : readStamp (l.flatMap Piece.render) = some t) (ho : t.offset = 0) (hy : 1 ≤ t.date.year) (fieldName : String) :
    asTimestamp py fieldName (.str l) = .ok (some (Datetime.utc (t.ns / 1000))) := by
  obtain ⟨⟨wall, tzinfo, utcoffset⟩, hiso, hwall, hoffset, hzone⟩ := hpy.aware _ t (readStamp_replaceZ h) hy
  have hinstant : t.ns / 1000 = t.wallSeconds * 1000000 + (t.nanosecond / 1000 : Nat) := by
    rw [Stamp.ns, ho]
    omega
  dsimp only at hwall hoffset hzone
  rw [ho, Int.zero_mul] at hoffset
  rw [asTimestamp, Server.asString, text_of_stamp h]
  dsimp only
  rw [String.toList_ofList, hiso, hinstant]
  dsimp only [Datetime.utc]
  rw [hwall, hoffset, hzone ho]

/-! ## Structs -/

section Decoded

variable {σ β : Type} {fields : List (StructField σ)} {s s' : σ} {π : σ → β}

/-- An object whose members are spelled as in the schema, each at most once, and what it
was decoded to. -/
structure Decoded (fields : List (StructField σ)) (members : List (Literal × Value)) (s s' : σ) : Prop where
  fieldNames : (fields.map (·.name)).Nodup
  proper : ∀ f ∈ fields, Proper f.name
  exact : Exact fields members
  nodup : (names members).Nodup
  decoded : decodeMembers fields members s = some s'

namespace Decoded

/-- The member of a field that changed. -/
theorem changed (d : Decoded fields members s s') {f : StructField σ} (hf : f ∈ fields) (hown : Owns fields f π)
    (hne : π s' ≠ π s) : f.name ∈ names members ∧
      ∃ t t', π t = π s ∧ f.store (valueOf members f.name) t = some t' ∧ π s' = π t' := by
  obtain ⟨m, hm, hname, t, t', ht, hstore, hs'⟩ :=
    decodeMembers_changed d.fieldNames hf hown d.exact d.nodup d.decoded hne
  refine ⟨List.mem_map.mpr ⟨m, hm, hname⟩, t, t', ht, ?_, hs'⟩
  rwa [valueOf_eq (d.proper f hf) d.nodup hm hname]

theorem string (d : Decoded fields members s s') {set : String → σ → σ} {π : σ → String}
    (hf : ⟨name, storeString set⟩ ∈ fields) (hown : Owns fields ⟨name, storeString set⟩ π)
    (hset : ∀ v x, π (set v x) = v) (hne : π s' ≠ π s) :
    name ∈ names members ∧ ∃ l, valueOf members name = .str l ∧ text l = π s' := by
  obtain ⟨hname, t, t', ht, hstore, hs'⟩ := d.changed hf hown hne
  refine ⟨hname, ?_⟩
  dsimp only at hstore
  cases hv : valueOf members name with
  | null => rw [hv] at hstore; cases hstore; exact absurd (hs'.trans ht) hne
  | str l => rw [hv] at hstore; cases hstore; exact ⟨l, rfl, (hs'.trans (hset _ _)).symm⟩
  | _ => rw [hv] at hstore; cases hstore

theorem int (d : Decoded fields members s s') {set : Int → σ → σ} {π : σ → Int}
    (hf : ⟨name, storeInt set⟩ ∈ fields) (hown : Owns fields ⟨name, storeInt set⟩ π)
    (hset : ∀ v x, π (set v x) = v) (hne : π s' ≠ π s) :
    name ∈ names members ∧ ∃ n, valueOf members name = .num n ∧ parseInt64 n = some (π s') := by
  obtain ⟨hname, t, t', ht, hstore, hs'⟩ := d.changed hf hown hne
  refine ⟨hname, ?_⟩
  dsimp only at hstore
  cases hv : valueOf members name with
  | null => rw [hv] at hstore; cases hstore; exact absurd (hs'.trans ht) hne
  | num n =>
    rw [hv, storeInt] at hstore
    obtain ⟨v, hparse, rfl⟩ := Option.map_eq_some_iff.mp hstore
    exact ⟨n, rfl, by rw [hparse, hs', hset]⟩
  | _ => rw [hv] at hstore; cases hstore

theorem time (d : Decoded fields members s s') {set : Time → σ → σ} {π : σ → Time}
    (hf : ⟨name, storeTime set⟩ ∈ fields) (hown : Owns fields ⟨name, storeTime set⟩ π)
    (hset : ∀ v x, π (set v x) = v) (hne : π s' ≠ π s) :
    name ∈ names members ∧ ∃ l t, valueOf members name = .str l ∧ readStamp (l.flatMap Piece.render) = some t ∧
      π s' = ⟨t.ns, t.offset⟩ := by
  obtain ⟨hname, t, t', ht, hstore, hs'⟩ := d.changed hf hown hne
  refine ⟨hname, ?_⟩
  dsimp only at hstore
  cases hv : valueOf members name with
  | null => rw [hv] at hstore; cases hstore; exact absurd (hs'.trans ht) hne
  | str l =>
    rw [hv, storeTime] at hstore
    obtain ⟨v, hread, rfl⟩ := Option.map_eq_some_iff.mp hstore
    exact ⟨l, v, rfl, hread, by rw [hs', hset]⟩
  | _ => rw [hv] at hstore; cases hstore

/-- The names of an object that has all members. -/
theorem perm (d : Decoded fields members s s') (h : ∀ f ∈ fields, f.name ∈ names members) :
    (names members).Perm (fields.map (·.name)) := by
  refine (List.perm_ext_iff_of_nodup d.nodup d.fieldNames).mpr fun a => ⟨fun ha => ?_, fun ha => ?_⟩
  · obtain ⟨m, hm, rfl⟩ := List.mem_map.mp ha
    exact d.exact m hm
  · obtain ⟨f, hf, rfl⟩ := List.mem_map.mp ha
    exact h f hf

theorem hooks (d : Decoded fields members s s') (h : ∀ f ∈ fields, hookError (valueOf members f.name) = none) :
    hookError (.obj members) = none := by
  refine hookError_obj d.nodup fun m hm => ?_
  obtain ⟨f, hf, hname⟩ := List.mem_map.mp (d.exact m hm)
  have := h f hf
  rwa [valueOf_eq (d.proper f hf) d.nodup hm hname.symm] at this

end Decoded

end Decoded

/-! ## Maps -/

theorem perm_insertEntry {k v : String} {l : List (String × String)} (h : ∀ e ∈ l, e.1 ≠ k) :
    (StringMap.insertEntry k v l).Perm ((k, v) :: l) := by
  induction l with
  | nil => exact .refl _
  | cons e l ih =>
    obtain ⟨k', v'⟩ := e
    have hk : k' ≠ k := h (k', v') List.mem_cons_self
    rw [StringMap.insertEntry]
    split_ifs with h1 h2
    · exact .refl _
    · exact ((ih fun e he => h e (List.mem_cons_of_mem _ he)).cons _).trans (.swap _ _ _)
    · exact absurd (le_antisymm (not_lt.mp h1) (not_lt.mp h2)) hk

/-- An entry in code points, as the server has it. -/
def coded (e : String × String) : Server.Str × Server.Str := (codesOf e.1, codesOf e.2)

/-- A map decoded from an object without `null` has the pairs that the server collects. -/
theorem fieldPairs_decodeEntries {l : List (Literal × Value)} {m₀ m : StringMap} (hn : (names l).Nodup)
    (hcodes : ∀ y ∈ memberLiterals l, codes y = codesOf (text y)) (hfresh : ∀ e ∈ m₀.entries, e.1 ∉ names l)
    (hnull : ∀ x ∈ l, x.2 ≠ .null) (h : decodeEntries l m₀ = some m) :
    (∀ x ∈ l, hookError x.2 = none) ∧ ∃ pairs, fieldPairs l = .ok pairs ∧
      (m.entries.map coded).Perm (m₀.entries.map coded ++ pairs) := by
  induction l generalizing m₀ with
  | nil => cases h; exact ⟨nofun, [], rfl, by simp⟩
  | cons x l ih =>
    obtain ⟨n, v⟩ := x
    rw [names, List.map_cons, List.nodup_cons] at hn
    rw [memberLiterals, List.forall_mem_cons, List.forall_mem_append] at hcodes
    have hnull' : v ≠ .null := hnull (n, v) List.mem_cons_self
    have hkeys : ∀ e ∈ m₀.entries, e.1 ≠ text n := fun e he hk =>
      hfresh e he (hk ▸ List.mem_cons_self)
    cases v with
    | str s =>
      rw [decodeEntries] at h
      have hfresh' : ∀ e ∈ (m₀.insert (text n) (text s)).entries, e.1 ∉ names l := by
        intro e he
        rcases StringMap.mem_insertEntry he with rfl | he
        · exact hn.1
        · exact fun hmem => hfresh e he (List.mem_cons_of_mem _ hmem)
      obtain ⟨hhooks, pairs, hpairs, hperm⟩ :=
        ih hn.2 hcodes.2.2 hfresh' (fun x hx => hnull x (List.mem_cons_of_mem _ hx)) h
      have hcoded : coded (text n, text s) = (codes n, codes s) :=
        Prod.ext hcodes.1.symm (hcodes.2.1 s List.mem_cons_self).symm
      refine ⟨List.forall_mem_cons.mpr ⟨rfl, hhooks⟩, (codes n, codes s) :: pairs, ?_, ?_⟩
      · rw [fieldPairs, hpairs]
        rfl
      · refine hperm.trans ((((perm_insertEntry hkeys).map coded).append_right pairs).trans ?_)
        rw [List.map_cons, hcoded]
        exact List.perm_middle.symm
    | null => exact absurd rfl hnull'
    | _ => cases h

theorem strLe_codesOf {s t : String} (h : s < t) : Server.strLe (codesOf s) (codesOf t) = true := by
  have hlist : ∀ a b : List Char, a < b → Server.strLe (a.map Char.toNat) (b.map Char.toNat) = true := by
    intro a
    induction a with
    | nil => exact fun _ _ => rfl
    | cons c a ih =>
      intro b hb
      cases b with
      | nil => exact absurd hb (by simp)
      | cons d b =>
        rw [List.cons_lt_cons_iff] at hb
        simp only [List.map_cons, Server.strLe, Bool.or_eq_true, Bool.and_eq_true, decide_eq_true_eq, beq_iff_eq]
        exact hb.imp id fun h => ⟨congrArg Char.toNat h.1, ih b h.2⟩
  exact hlist _ _ h

theorem codesOf_injective {s t : String} (h : codesOf s = codesOf t) : s = t := by
  rw [← Server.shown_codesOf s, h, Server.shown_codesOf]

theorem nodup_coded (m : StringMap) : ((m.entries.map coded).map (·.1)).Nodup := by
  rw [List.map_map]
  exact List.pairwise_map.2 (m.sorted.imp fun h heq => ne_of_lt h (codesOf_injective heq))

/-- Sorting the pairs gives the entries of the map. -/
theorem sortedPairs_eq_entries {m : StringMap} {pairs : List (Server.Str × Server.Str)}
    (h : (m.entries.map coded).Perm pairs) : Server.sortedPairs pairs = m.entries.map coded :=
  Server.sortedPairs_eq h (nodup_coded m) (List.pairwise_map.2 (m.sorted.imp fun h => strLe_codesOf h))

end NorthgateRmm.Wire
