import NorthgateRmm.Server.Codec

/-!
# What a payload digest identifies

`canonical_digest` hashes ASCII JSON with sorted keys. The text reads back as the value it
was written from, and the escapes of a `str` read back as its code points, since a `str`
that `json.loads` returns has no high surrogate in front of a low one. So the text says
what the payload is, and up to collisions of SHA-256 so does the digest.
-/

namespace NorthgateRmm.Server

open Json

variable {py : Python}

/-! ## Strings -/

/-- The strings that `json.loads` returns: no two surrogates that would be read as a pair. -/
structure WellFormed (s : Str) : Prop where
  range : ∀ v ∈ s, v < 0x110000
  apart : s.IsChain fun a b => ¬ (isHigh a = true ∧ isLow b = true)

variable {name : String} {l l' : List (Literal × Value)} {v w : Value} {p : Piece} {s : Str} {m : Message}

theorem asciiPieces_ok {c : Char} : ∀ p ∈ asciiPieces c, p.ok := by
  have hvalid := toNat_lt c
  unfold asciiPieces
  split_ifs with h1 h2 h3 h4 h5 h6 h7 h8
  · rcases h1 with rfl | rfl <;> simp [Piece.ok, shortEscapes]
  all_goals try simp [Piece.ok, shortEscapes]
  · exact ⟨h7.1, fun h => h1 (.inl h), fun h => h1 (.inr h)⟩
  · exact h8
  · omega

theorem asciiCode_ok {v : Nat} (h : v < 0x110000) : ∀ p ∈ asciiCode v, p.ok := by
  unfold asciiCode
  split
  · exact asciiPieces_ok
  · rename_i hv
    have hlt : v < 0x10000 := by
      have hv : ¬ (v < 0xd800 ∨ 0xdfff < v ∧ v < 0x110000) := hv
      omega
    exact List.forall_mem_singleton.2 hlt

/-- The values that `canonical_digest` is given. -/
abbrev Canonical (limit : Nat) (v : Value) : Prop := Printable (fun _ => True) limit v

theorem canonical_asciiStr (h : WellFormed s) (limit : Nat) : Canonical limit (asciiStr s) := by
  refine .str fun p hp => ?_
  obtain ⟨v, hv, hp⟩ := List.mem_flatMap.1 hp
  exact ⟨asciiCode_ok (h.range v hv) p hp, trivial⟩

theorem canonical_asciiString (s : String) (limit : Nat) : Canonical limit (asciiString s) := by
  refine .str fun p hp => ?_
  obtain ⟨c, -, hp⟩ := List.mem_flatMap.1 hp
  exact ⟨asciiPieces_ok p hp, trivial⟩

theorem canonical_asciiObject {l : List (String × Value)} {limit : Nat} (h : ∀ e ∈ l, Canonical limit e.2) :
    Canonical (limit + 1) (asciiObject l) := by
  refine .obj (fun m hm p hp => ?_) fun m hm => ?_
  · obtain ⟨e, -, rfl⟩ := List.mem_map.1 hm
    obtain ⟨c, -, hp⟩ := List.mem_flatMap.1 hp
    exact ⟨asciiPieces_ok p hp, trivial⟩
  · obtain ⟨e, he, rfl⟩ := List.mem_map.1 hm
    exact h e he

/-- What holds of the payload of every decoded message. -/
def Payload.WellFormed : Payload → Prop
  | .heartbeat p => Server.WellFormed p.agentVersion ∧ ∀ c ∈ p.capabilities, Server.WellFormed c
  | .inventory p => Server.WellFormed p.architecture ∧ (∀ e ∈ p.fields, Server.WellFormed e.1 ∧ Server.WellFormed e.2) ∧
      (p.fields.map (·.1)).Nodup ∧ p.schemaVersion = 1

theorem Payload.WellFormed.canonical {p : Payload} (h : p.WellFormed) : Canonical 2 p.value := by
  cases p with
  | heartbeat p =>
    refine canonical_asciiObject ?_
    simp only [List.forall_mem_cons, List.not_mem_nil, false_implies, implies_true, and_true]
    refine ⟨canonical_asciiStr h.1 _, .arr fun v hv => ?_⟩
    obtain ⟨c, hc, rfl⟩ := List.mem_map.1 hv
    exact canonical_asciiStr (h.2 c hc) _
  | inventory p =>
    obtain ⟨harch, hfields, -, hversion⟩ := h
    refine canonical_asciiObject ?_
    simp only [List.forall_mem_cons, List.not_mem_nil, false_implies, implies_true, and_true]
    refine ⟨canonical_asciiStr harch _, .bool _, ?_, canonical_asciiString _ _, .num ?_⟩
    · refine .obj (fun m hm => ?_) fun m hm => ?_
      · obtain ⟨e, he, rfl⟩ := List.mem_map.1 hm
        obtain ⟨hkey, -⟩ := hfields e ((perm_sortedPairs _).mem_iff.1 he)
        intro x hx
        obtain ⟨v, hv, hx⟩ := List.mem_flatMap.1 hx
        exact ⟨asciiCode_ok (hkey.range v hv) x hx, trivial⟩
      · obtain ⟨e, he, rfl⟩ := List.mem_map.1 hm
        exact canonical_asciiStr (hfields e ((perm_sortedPairs _).mem_iff.1 he)).2 _
    · rw [hversion]
      exact ⟨⟨by decide, List.forall_iff_forall_mem.mp (by decide), by decide⟩, rfl⟩

/-- Two payloads of one kind with the same content; the fields count as a mapping. -/
def Payload.Same : Payload → Payload → Prop
  | .heartbeat p, .heartbeat q => p.agentVersion = q.agentVersion ∧ p.capabilities = q.capabilities
  | .inventory p, .inventory q => p.platform = q.platform ∧ p.architecture = q.architecture ∧
      p.collectorComplete = q.collectorComplete ∧ p.schemaVersion = q.schemaVersion ∧
      ∀ key, p.fields.lookup key = q.fields.lookup key
  | _, _ => False

/-- Two values that differ in the order of members and in the escapes of strings. -/
inductive Respelled : Value → Value → Prop
  | null : Respelled .null .null
  | bool (b : Bool) : Respelled (.bool b) (.bool b)
  | num (n : Number) : Respelled (.num n) (.num n)
  | str {l l' : Literal} (h : codes l = codes l') : Respelled (.str l) (.str l')
  | arr {l l' : List Value} (h : List.Forall₂ Respelled l l') : Respelled (.arr l) (.arr l')
  | obj {l k l' : List (Literal × Value)} (hperm : l.Perm k)
      (hnames : (k.map fun m => codes m.1) = l'.map fun m => codes m.1)
      (h : List.Forall₂ Respelled (k.map (·.2)) (l'.map (·.2))) : Respelled (.obj l) (.obj l')

/-- Respelled objects, member by member. -/
theorem Respelled.members (h : Respelled (.obj l) (.obj l')) :
    ∃ k, l.Perm k ∧ List.Forall₂ (fun m m' => codes m.1 = codes m'.1 ∧ Respelled m.2 m'.2) k l' := by
  cases h with
  | @obj _ k _ hperm hnames hall =>
    refine ⟨k, hperm, ?_⟩
    clear hperm
    induction k generalizing l' with
    | nil =>
      obtain rfl := List.map_eq_nil_iff.1 hnames.symm
      exact .nil
    | cons m k ih =>
      cases l' with
      | nil => exact nomatch hnames
      | cons m' l' =>
        obtain ⟨hname, hnames⟩ := List.cons.inj hnames
        cases hall with
        | cons hv hall => exact .cons ⟨hname, hv⟩ (ih hnames hall)

end NorthgateRmm.Server
