import NorthgateRmm.Agent.Protocol
import NorthgateRmm.Lib.GoUrl

/-!
# The two copies of the destination rule

The control-plane URL is checked by `Config.Validate` when the configuration is read, and by
`validateOrigin` when the sender is made. The checks differ in order and in what they name;
they accept the same strings.
-/

namespace NorthgateRmm.Agent.Destination

open GoString GoUrl

/-! ## Hosts -/

def hasSuffix (s : Bytes) (c : Char) : Bool := s.getLast? = some c.toUInt8

def isLabelByte (b : UInt8) : Bool :=
  ('a'.toUInt8 ≤ b && b ≤ 'z'.toUInt8) || ('A'.toUInt8 ≤ b && b ≤ 'Z'.toUInt8) || isDigit b || b = '-'.toUInt8

/-- The check of one label, the same in both copies. -/
def validLabel (label : Bytes) : Bool :=
  !(label.length = 0 || 63 < label.length || label.head? = some '-'.toUInt8 || hasSuffix label '-') &&
    label.all isLabelByte

/-- One component of an address in the notations of `inet_aton`. -/
def legacyComponent (component : Bytes) : Bool :=
  if component = [] then false
  else
    let hex := 2 < component.length && component.head? = some '0'.toUInt8 &&
      (component.tail.head? = some 'x'.toUInt8 || component.tail.head? = some 'X'.toUInt8)
    let candidate := if hex then component.drop 2 else component
    !candidate.isEmpty && candidate.all fun b => isDigit b ||
      hex && (('a'.toUInt8 ≤ b && b ≤ 'f'.toUInt8) || ('A'.toUInt8 ≤ b && b ≤ 'F'.toUInt8))

def looksLikeLegacyIPv4 (hostname : Bytes) : Bool := (hostname.splitOn '.'.toUInt8).all legacyComponent

/-- A port that is given and is no number from 1 to 65535. -/
def invalidPort (port : Bytes) : Bool := port ≠ [] && !(atoi port).any fun n => 1 ≤ n && n ≤ 65535

def containsControl (value : Bytes) : Bool := (runes value).any fun r => r.any Protocol.isControl

section

variable (library : Library)

/-! ## `Config.Validate` -/

def validControlPlaneHostname (hostname : Bytes) : Bool :=
  if library.parseIP hostname then true
  else if looksLikeLegacyIPv4 hostname then false
  else if 253 < hostname.length || hasSuffix hostname '.' then false
  else (hostname.splitOn '.'.toUInt8).all validLabel

def invalidHostname (hostname : Bytes) : Bool :=
  hostname = [] || !utf8Valid hostname || containsControl hostname || hostname ≠ library.toLower hostname ||
    !validControlPlaneHostname library hostname

def https : Bytes := encode "https".toList

def root : Bytes := encode "/".toList

/-- The lines of `Config.Validate` about the URL. -/
def validateControlPlaneURL (url : Bytes) : Except String Unit :=
  if !utf8Valid url then .error "control_plane_url contains invalid UTF-8"
  else if '#'.toUInt8 ∈ url then .error "control_plane_url must not contain a fragment delimiter"
  else if '%'.toUInt8 ∈ url then .error "control_plane_url must not contain percent escapes"
  else match library.parse url with
    | none => .error "control_plane_url must be an absolute HTTPS URL"
    | some parsed =>
      if parsed.scheme ≠ https ∨ parsed.host = [] then .error "control_plane_url must be an absolute HTTPS URL"
      else if invalidHostname library parsed.hostname then .error "control_plane_url contains an invalid hostname"
      else if hasSuffix parsed.host ':' then .error "control_plane_url contains an empty port"
      else if invalidPort parsed.port then .error "control_plane_url contains an invalid port"
      else if parsed.user || parsed.rawQuery ≠ [] || parsed.forceQuery || parsed.fragment ≠ [] then
        .error "control_plane_url must not contain userinfo, query, or fragment"
      else if parsed.path ≠ [] ∧ parsed.path ≠ root then
        .error "control_plane_url must not contain an application path"
      else .ok ()

/-! ## `validateOrigin` -/

def validAuthorityHostname (hostname : Bytes) : Bool :=
  if library.parseIP hostname then true
  else if hostname.length = 0 || 253 < hostname.length || hasSuffix hostname '.' || looksLikeLegacyIPv4 hostname then
    false
  else (hostname.splitOn '.'.toUInt8).all validLabel

end

/-! ## What they accept -/

section

variable {library : Library} {s hostname : Bytes} {u : Url}

/-- The rule that both copies state. -/
structure Accepted (library : Library) (s : Bytes) (u : Url) : Prop where
  percent : '%'.toUInt8 ∉ s
  hash : '#'.toUInt8 ∉ s
  parse : library.parse s = some u
  scheme : u.scheme = https
  host : u.host ≠ []
  hostname : u.hostname ≠ []
  lower : u.hostname = library.toLower u.hostname
  valid : validAuthorityHostname library u.hostname = true
  closed : hasSuffix u.host ':' = false
  port : invalidPort u.port = false
  user : u.user = false
  rawQuery : u.rawQuery = []
  forceQuery : u.forceQuery = false
  fragment : u.fragment = []
  path : u.path = [] ∨ u.path = root

end

/-! ## The bytes of an accepted URL -/

section

variable {library : Library} {s hostname : Bytes} {u : Url}

/-- A printable ASCII byte. -/
def Graphic (b : UInt8) : Prop := 32 ≤ b.toNat ∧ b.toNat < 127

instance (b : UInt8) : Decidable (Graphic b) := inferInstanceAs (Decidable (_ ∧ _))

theorem graphic_of_between {b c d : UInt8} (hc : Graphic c) (hd : Graphic d) (h : c ≤ b ∧ b ≤ d) : Graphic b :=
  ⟨Nat.le_trans hc.1 (UInt8.le_iff_toNat_le.mp h.1), Nat.lt_of_le_of_lt (UInt8.le_iff_toNat_le.mp h.2) hd.2⟩

theorem graphic_of_isDigit {b : UInt8} (h : isDigit b = true) : Graphic b := by
  rw [isDigit, Bool.and_eq_true, decide_eq_true_eq, decide_eq_true_eq] at h
  exact graphic_of_between (by decide) (by decide) h

theorem graphic_of_ipByte {b : UInt8} (h : ipByte b = true) : Graphic b := by
  simp only [ipByte, Bool.or_eq_true, Bool.and_eq_true, decide_eq_true_eq] at h
  rcases h with (((h | h) | h) | rfl) | rfl
  · exact graphic_of_isDigit h
  · exact graphic_of_between (by decide) (by decide) h
  · exact graphic_of_between (by decide) (by decide) h
  · decide
  · decide

theorem graphic_of_isLabelByte {b : UInt8} (h : isLabelByte b = true) : Graphic b := by
  simp only [isLabelByte, Bool.or_eq_true, Bool.and_eq_true, decide_eq_true_eq] at h
  rcases h with ((h | h) | h) | rfl
  · exact graphic_of_between (by decide) (by decide) h
  · exact graphic_of_between (by decide) (by decide) h
  · exact graphic_of_isDigit h
  · decide

theorem mem_intercalate {x b : UInt8} {ls : List Bytes} (h : b ∈ [x].intercalate ls) : b = x ∨ ∃ l ∈ ls, b ∈ l := by
  induction ls with
  | nil => exact nomatch h
  | cons l ls ih =>
    cases ls with
    | nil => exact .inr ⟨l, List.mem_cons_self, by simpa [List.intercalate] using h⟩
    | cons l' ls =>
      rw [List.intercalate_cons_cons, List.append_assoc, List.mem_append, List.mem_append, List.mem_singleton] at h
      rcases h with h | h | h
      · exact .inr ⟨l, List.mem_cons_self, h⟩
      · exact .inl h
      · exact (ih h).imp_right fun ⟨l'', hl'', hb⟩ => ⟨l'', List.mem_cons_of_mem _ hl'', hb⟩

theorem graphic_hostname (hdoc : library.Documented) (h : validAuthorityHostname library hostname = true) :
    ∀ b ∈ hostname, Graphic b := by
  intro b hb
  rw [validAuthorityHostname] at h
  split at h
  · rename_i hip
    exact graphic_of_ipByte (List.all_eq_true.mp (hdoc.parseIP hostname hip) b hb)
  split at h
  · exact nomatch h
  have hsplit : ['.'.toUInt8].intercalate (hostname.splitOn '.'.toUInt8) = hostname := List.intercalate_splitOn _
  rw [← hsplit] at hb
  rcases mem_intercalate hb with rfl | ⟨label, hlabel, hb⟩
  · decide
  · have hvalid := List.all_eq_true.mp h label hlabel
    rw [validLabel, Bool.and_eq_true] at hvalid
    exact graphic_of_isLabelByte (List.all_eq_true.mp hvalid.2 b hb)

theorem graphic_of_lower {b : UInt8} (h : Graphic (lower b)) : Graphic b := by
  rw [lower] at h
  split at h
  · rename_i hupper
    exact graphic_of_between (by decide) (by decide) hupper
  · exact h

/-- The documented form leaves no byte of the URL out of sight. -/
theorem Accepted.graphic (hdoc : library.Documented) (h : Accepted library s u) : s ≠ [] ∧ ∀ b ∈ s, Graphic b := by
  obtain ⟨scheme, hscheme, rfl⟩ := hdoc.parse s u h.parse h.host h.user h.rawQuery h.forceQuery h.hash h.percent
  refine ⟨by simp, fun b hb => ?_⟩
  rw [List.mem_append, List.mem_cons, List.mem_cons, List.mem_cons, List.mem_append] at hb
  rcases hb with hb | rfl | rfl | rfl | hb | hb
  · have hhttps : ∀ c ∈ https, Graphic c := List.forall_iff_forall_mem.mp (by decide)
    refine graphic_of_lower (hhttps _ ?_)
    rw [← h.scheme, ← hscheme]
    exact List.mem_map_of_mem hb
  · decide
  · decide
  · decide
  · rcases mem_hostname hb with hb | hb | hb
    · exact graphic_hostname hdoc h.valid b hb
    · have hmarks : ∀ c ∈ ['['.toUInt8, ']'.toUInt8, ':'.toUInt8], Graphic c :=
        List.forall_iff_forall_mem.mp (by decide)
      exact hmarks b hb
    · exact graphic_of_isDigit hb
  · rcases h.path with hp | hp
    · rw [hp] at hb
      exact nomatch hb
    · rw [hp] at hb
      have hroot : ∀ c ∈ root, Graphic c := List.forall_iff_forall_mem.mp (by decide)
      exact hroot b hb

end

end NorthgateRmm.Agent.Destination
