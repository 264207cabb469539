import NorthgateRmm.Lib.GoString

/-!
# URLs and addresses

The parts of `net/url` and `net` that a program without a network uses. What `url.Parse` and
`net.ParseIP` make of a string is left open; `Documented` is what their documentation says
about it. The methods of a parsed URL are written out.
-/

namespace GoUrl

abbrev Bytes := List UInt8

structure Url where
  scheme : Bytes
  /-- there is user information -/
  user : Bool
  host : Bytes
  path : Bytes
  rawQuery : Bytes
  forceQuery : Bool
  fragment : Bytes
  deriving DecidableEq

def isDigit (b : UInt8) : Bool := '0'.toUInt8 ≤ b && b ≤ '9'.toUInt8

/-- The host before its last colon and the port after it: digits, or nothing. -/
def splitPort (host : Bytes) : Option (Bytes × Bytes) :=
  match host.reverse.dropWhile (· ≠ ':'.toUInt8) with
  | [] => none
  | _ :: front =>
    let port := (host.reverse.takeWhile (· ≠ ':'.toUInt8)).reverse
    if port.all isDigit then some (front.reverse, port) else none

/-- The host without a pair of square brackets around it. -/
def unbracketed (host : Bytes) : Bytes :=
  if host.head? = some '['.toUInt8 ∧ host.getLast? = some ']'.toUInt8 then host.tail.dropLast else host

/-- `Hostname`: the host without a port and without square brackets. -/
def Url.hostname (u : Url) : Bytes := unbracketed (((splitPort u.host).map (·.1)).getD u.host)

/-- `Port`: empty when there is none. -/
def Url.port (u : Url) : Bytes := ((splitPort u.host).map (·.2)).getD []

/-- `strconv.Atoi` on digits. -/
def atoi (digits : Bytes) : Option Nat :=
  let value := digits.foldl (fun n b => 10 * n + (b.toNat - 48)) 0
  if digits ≠ [] ∧ digits.all isDigit ∧ value < 2 ^ 63 then some value else none

/-- The functions of the library that are left open. -/
structure Library where
  /-- `url.Parse`; `none` is an error -/
  parse : Bytes → Option Url
  /-- `net.ParseIP` is not nil -/
  parseIP : Bytes → Bool
  /-- `strings.ToLower` -/
  toLower : Bytes → Bytes

/-- ASCII letters in lower case. -/
def lower (b : UInt8) : UInt8 := if 'A'.toUInt8 ≤ b ∧ b ≤ 'Z'.toUInt8 then b + 32 else b

def ipByte (b : UInt8) : Bool :=
  isDigit b || ('a'.toUInt8 ≤ b && b ≤ 'f'.toUInt8) || ('A'.toUInt8 ≤ b && b ≤ 'F'.toUInt8) || b = '.'.toUInt8 ||
    b = ':'.toUInt8

structure Library.Documented (library : Library) : Prop where
  /-- The general form is `[scheme:][//[userinfo@]host][/]path[?query][#fragment]`, with
  percent escapes decoded and the scheme in lower case. -/
  parse : ∀ s u, library.parse s = some u → u.host ≠ [] → u.user = false → u.rawQuery = [] → u.forceQuery = false →
    '#'.toUInt8 ∉ s → '%'.toUInt8 ∉ s →
    ∃ scheme, scheme.map lower = u.scheme ∧ s = scheme ++ ':'.toUInt8 :: '/'.toUInt8 :: '/'.toUInt8 :: (u.host ++ u.path)
  /-- An address is dotted decimal, or groups of hexadecimal digits between colons. -/
  parseIP : ∀ s, library.parseIP s = true → s.all ipByte = true

/-! ## Bytes of the host -/

theorem splitPort_some {host front port : Bytes} (h : splitPort host = some (front, port)) :
    host = front ++ ':'.toUInt8 :: port ∧ port.all isDigit = true := by
  rw [splitPort] at h
  split at h
  · cases h
  rename_i colon rest hdrop
  dsimp only at h
  split at h
  · rename_i hdigits
    cases h
    have hcolon : colon = ':'.toUInt8 := by
      have hhead := List.head?_dropWhile_not (fun b => decide (b ≠ ':'.toUInt8)) host.reverse
      rw [hdrop] at hhead
      simpa using hhead
    have hhost := congrArg List.reverse
      (List.takeWhile_append_dropWhile (p := fun b => decide (b ≠ ':'.toUInt8)) (l := host.reverse))
    rw [hdrop, List.reverse_append, List.reverse_cons, List.reverse_reverse, List.append_assoc, hcolon] at hhost
    exact ⟨hhost.symm, hdigits⟩
  · cases h

theorem mem_unbracketed {host : Bytes} {b : UInt8} (hb : b ∈ host) :
    b ∈ unbracketed host ∨ b ∈ ['['.toUInt8, ']'.toUInt8, ':'.toUInt8] := by
  rw [unbracketed]
  split
  · rename_i h
    cases host with
    | nil => exact nomatch hb
    | cons c rest =>
      rcases List.mem_cons.mp hb with rfl | hb
      · have hc : b = '['.toUInt8 := Option.some.inj h.1
        rw [hc]
        exact .inr (by decide)
      · have hrest : rest = rest.dropLast ++ [']'.toUInt8] := by
          cases rest with
          | nil => exact nomatch hb
          | cons d rest =>
            rw [List.getLast?_cons_cons] at h
            exact (List.dropLast_append_getLast? _ h.2).symm
        rw [hrest] at hb
        rcases List.mem_append.mp hb with hb | hb
        · exact .inl hb
        · rw [List.mem_singleton.mp hb]
          exact .inr (by decide)
  · exact .inl hb

/-- Every byte of the host is one of its name, its brackets or its port. -/
theorem mem_hostname {u : Url} {b : UInt8} (hb : b ∈ u.host) :
    b ∈ u.hostname ∨ b ∈ ['['.toUInt8, ']'.toUInt8, ':'.toUInt8] ∨ isDigit b = true := by
  rw [Url.hostname]
  cases hsplit : splitPort u.host with
  | none => exact (mem_unbracketed hb).imp_right .inl
  | some parts =>
    obtain ⟨front, port⟩ := parts
    obtain ⟨hhost, hdigits⟩ := splitPort_some hsplit
    rw [hhost, List.mem_append, List.mem_cons] at hb
    rcases hb with hb | rfl | hb
    · exact (mem_unbracketed hb).imp_right .inl
    · exact .inr (.inl (by decide))
    · exact .inr (.inr (List.all_eq_true.mp hdigits b hb))

end GoUrl
