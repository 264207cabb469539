import NorthgateRmm.Lib.Env
import NorthgateRmm.Lib.Html
import NorthgateRmm.Server.Views

/-!
# What the pages say

The HTML of `views.py` read back: which tags it has, and what stands after each of them.
Texts that an endpoint or an operator chose are written with entities, the other values
hold no markup, so that the tags are those of the fixed text whatever the values are.
-/

namespace NorthgateRmm.Server.Operator

open Html

/-! ## Values without markup -/

/-- A text that is written as it is. -/
structure Clean (text : String) : Prop where
  markup : markup text = []
  ampersand : '&' ∉ text.toList

theorem clean_of_forall {text : String} (h : ∀ c ∈ text.toList, isMarkup c = false ∧ c ≠ '&') : Clean text where
  markup := List.filter_eq_nil_iff.2 fun c hc => by simp [(h c hc).1]
  ampersand := fun hc => (h '&' hc).2 rfl

theorem Clean.append {a b : String} (ha : Clean a) (hb : Clean b) : Clean (a ++ b) where
  markup := by rw [markup_append, ha.markup, hb.markup]; rfl
  ampersand := by rw [String.toList_append, List.mem_append]; exact not_or.2 ⟨ha.ampersand, hb.ampersand⟩

theorem clean_digit {c : Char} (h : Sha256.isHexDigit c = true ∨ c = '-') : isMarkup c = false ∧ c ≠ '&' := by
  rcases h with h | rfl
  · constructor
    · simp only [isMarkup, Bool.or_eq_false_iff, decide_eq_false_iff_not]
      refine ⟨⟨⟨?_, ?_⟩, ?_⟩, ?_⟩ <;> (rintro rfl; exact absurd h (by decide))
    · rintro rfl
      exact absurd h (by decide)
  · decide

theorem clean_toText (id : Uuid) : Clean id.toText := clean_of_forall fun _ hc => clean_digit (Uuid.mem_toText hc)

theorem clean_decimal (width n : Nat) : Clean (decimal width n) := by
  refine clean_of_forall fun c hc => clean_digit (.inl ?_)
  rw [decimal, String.toList_ofList, List.mem_append] at hc
  rw [Sha256.isHexDigit, Bool.or_eq_true]
  refine .inl ?_
  rcases hc with hc | hc
  · rw [List.eq_of_mem_replicate hc]
    decide
  · simpa [Char.isDigit, Char.le_def] using Nat.isDigit_of_mem_toDigits (by decide) (by decide) hc

theorem clean_isoformat (t : Instant) : Clean (isoformat t) := by
  have hsign : ∀ text ∈ ["-", ":", "T", ".", "+00:00", ""], Clean text := by
    simp only [List.forall_mem_cons, List.not_mem_nil, false_implies, implies_true, and_true]
    refine ⟨?_, ?_, ?_, ?_, ?_, ?_⟩ <;> exact clean_of_forall (by simp [isMarkup])
  simp only [List.forall_mem_cons] at hsign
  obtain ⟨hdash, hcolon, hT, hpoint, hzone, hempty, -⟩ := hsign
  have hfraction : Clean (if (t % 86400000000).toNat % 1000000 = 0 then "" else
      "." ++ decimal 6 ((t % 86400000000).toNat % 1000000)) := by
    split
    · exact hempty
    · exact hpoint.append (clean_decimal _ _)
  have hd := clean_decimal
  exact (((((((((((((hd _ _).append hdash).append (hd _ _)).append hdash).append (hd _ _)).append hT).append
    (hd _ _)).append hcolon).append (hd _ _)).append hcolon).append (hd _ _)).append hfraction).append hzone)

theorem clean_timeText (t : Option Instant) : Clean (timeText t) := by
  cases t with
  | none => exact clean_of_forall (by simp [timeText, isMarkup])
  | some t => exact clean_isoformat t

theorem clean_empty : Clean "" := ⟨rfl, nofun⟩

/-! ## Escaped values -/

theorem toList_escape (text : String) : (escape text).toList = text.toList.flatMap entityOf := by
  rw [escape, String.toList_ofList]
  congr 1
  funext c
  split <;> simp_all [entityOf]

theorem markup_escape (text : String) : markup (escape text) = [] := by
  rw [markup, toList_escape, List.filter_eq_nil_iff]
  intro c hc
  obtain ⟨d, -, hd⟩ := List.mem_flatMap.1 hc
  simp [entityOf_not_markup d c hd]

theorem decode_escape (text : String) (s : List Char) : decode ((escape text).toList ++ s) = text.toList ++ decode s := by
  rw [toList_escape, decode_flatMap]

theorem escaped_escape (text : String) : Escaped (escape text).toList := by
  rw [toList_escape]
  exact escaped_flatMap _

theorem decode_escape_nil (text : String) : String.ofList (decode (escape text).toList) = text := by
  have h := decode_escape text []
  rw [List.append_nil] at h
  rw [h, decode, List.append_nil, String.ofList_toList]

theorem decode_clean {text : String} (h : Clean text) : String.ofList (decode text.toList) = text := by
  rw [decode_plain h.ampersand, String.ofList_toList]

/-! ## The tags and the texts of the pages

`w` is how a chosen text is written: `escape` in the HTML, and as it is in what the HTML says. -/

abbrev Row := Endpoint × EndpointStatus

section Cells

variable (w : String → String)

def rowCells (row : Row) : List (String × String) :=
  [("tr", ""), ("td", ""), ("a href=\"/endpoints/" ++ row.1.endpointId.toText ++ "\"", w row.1.displayName), ("/a", ""),
    ("/td", ""), ("td", w row.1.platform.value), ("/td", ""), ("td", w row.1.architecture), ("/td", ""),
    ("td", w row.2.lifecycle.value), ("/td", ""), ("td", w row.2.health.value), ("/td", ""),
    ("td", timeText row.2.lastHeartbeatAt), ("/td", ""), ("/tr", "")]

def pageHead : List (String × String) :=
  [("!doctype html", ""), ("html lang=\"en\"", ""), ("head", ""), ("meta charset=\"utf-8\"", ""),
    ("title", "NorthGate RMM endpoints"), ("/title", ""), ("/head", ""), ("body", ""), ("main", ""), ("h1", "Endpoints"),
    ("/h1", ""), ("table", ""), ("thead", ""), ("tr", ""), ("th", "Name"), ("/th", ""), ("th", "Platform"), ("/th", ""),
    ("th", "Architecture"), ("/th", ""), ("th", "Lifecycle"), ("/th", ""), ("th", "Health"), ("/th", ""),
    ("th", "Last heartbeat"), ("/th", ""), ("/tr", ""), ("/thead", ""), ("tbody", "")]

def noRows : List (String × String) := [("tr", ""), ("td colspan=\"6\"", "No endpoints"), ("/td", ""), ("/tr", "")]

def nextCells : Option Uuid → List (String × String)
  | none => []
  | some id => [("nav", ""), ("a href=\"/endpoints?after=" ++ id.toText ++ "\"", "Next page"), ("/a", ""), ("/nav", "")]

def pageCells (rows : List Row) (nextAfter : Option Uuid) : List (String × String) :=
  pageHead ++ (if rows.isEmpty then noRows else rows.flatMap (rowCells w)) ++ [("/tbody", ""), ("/table", "")] ++
    nextCells nextAfter ++ [("/main", ""), ("/body", ""), ("/html", "")]

def itemCells (item : String × String) : List (String × String) :=
  [("dt", w item.1), ("/dt", ""), ("dd", w item.2), ("/dd", "")]

/-- The labels and values of the page of one endpoint. -/
def detailValues (endpoint : Endpoint) (identity : EndpointIdentity) (status : EndpointStatus) :
    List (String × String) :=
  [("Endpoint ID", endpoint.endpointId.toText),
   ("Display name", endpoint.displayName),
   ("Platform", endpoint.platform.value),
   ("Architecture", endpoint.architecture),
   ("Identity ID", identity.identityId.toText),
   ("Fingerprint", identity.publicKeyFingerprint),
   ("Lifecycle", status.lifecycle.value),
   ("Health", status.health.value),
   ("Enrolled", timeText (some endpoint.enrolledAt)),
   ("Last receipt", timeText endpoint.lastReceiptAt),
   ("Last heartbeat", timeText endpoint.lastHeartbeatAt),
   ("Revoked", timeText identity.revokedAt),
   ("Revocation reason", identity.revocationReason.getD "")]

def detailCells (endpoint : Endpoint) (identity : EndpointIdentity) (status : EndpointStatus) :
    List (String × String) :=
  [("!doctype html", ""), ("html lang=\"en\"", ""), ("head", ""), ("meta charset=\"utf-8\"", ""),
    ("title", w endpoint.displayName ++ " — NorthGate RMM"), ("/title", ""), ("/head", ""), ("body", ""), ("main", ""),
    ("a href=\"/endpoints\"", "Endpoints"), ("/a", ""), ("h1", w endpoint.displayName), ("/h1", ""), ("dl", "")] ++
    (detailValues endpoint identity status).flatMap (itemCells w) ++
    [("/dl", ""), ("/main", ""), ("/body", ""), ("/html", "")]

end Cells

/-! ## The HTML is written from them -/

theorem endpointRow_eq (row : Row) : endpointRow row.1 row.2 = write (rowCells escape row) := by
  apply String.toList_injective
  delta endpointRow
  simp only [rowCells, write, String.toList_append, String.reduceToList, List.cons_append, List.nil_append,
    List.append_assoc]

/-- The rows of a page with the statuses that were read for them. -/
def rowsText : List Row → String
  | [] => ""
  | row :: rest => endpointRow row.1 row.2 ++ rowsText rest

theorem rowsText_eq (rows : List Row) : rowsText rows = write (rows.flatMap (rowCells escape)) := by
  induction rows with
  | nil => rfl
  | cons row rows ih => rw [rowsText, List.flatMap_cons, write_append, endpointRow_eq, ih]

def pageHtml (rows : List Row) (nextAfter : Option Uuid) : String :=
  "<!doctype html><html lang=\"en\"><head><meta charset=\"utf-8\">" ++
    "<title>NorthGate RMM endpoints</title></head><body><main><h1>Endpoints</h1><table><thead><tr>" ++
    "<th>Name</th><th>Platform</th><th>Architecture</th>" ++
    "<th>Lifecycle</th><th>Health</th><th>Last heartbeat</th></tr></thead><tbody>" ++
    (if (rowsText rows).isEmpty then "<tr><td colspan=\"6\">No endpoints</td></tr>" else rowsText rows) ++
    "</tbody></table>" ++ (match nextAfter with
      | some id => "<nav><a href=\"/endpoints?after=" ++ id.toText ++ "\">Next page</a></nav>"
      | none => "") ++ "</main></body></html>"

theorem pageHtml_eq (rows : List Row) (nextAfter : Option Uuid) :
    pageHtml rows nextAfter = write (pageCells escape rows nextAfter) := by
  have hbody : (if (rowsText rows).isEmpty then "<tr><td colspan=\"6\">No endpoints</td></tr>" else rowsText rows) =
      write (if rows.isEmpty then noRows else rows.flatMap (rowCells escape)) := by
    cases rows with
    | nil => rfl
    | cons row rows =>
      rw [if_neg, if_neg (by simp), rowsText_eq]
      rw [String.isEmpty_iff]
      intro h
      have h := congrArg String.toList h
      rw [rowsText_eq, List.flatMap_cons, write_append] at h
      simp [rowCells, write] at h
  have hnext : (match nextAfter with
      | some id => "<nav><a href=\"/endpoints?after=" ++ id.toText ++ "\">Next page</a></nav>"
      | none => "") = write (nextCells nextAfter) := by
    cases nextAfter with
    | none => rfl
    | some id =>
      apply String.toList_injective
      simp [nextCells, write]
  have hhead : "<!doctype html><html lang=\"en\"><head><meta charset=\"utf-8\">" ++
      "<title>NorthGate RMM endpoints</title></head><body><main><h1>Endpoints</h1><table><thead><tr>" ++
      "<th>Name</th><th>Platform</th><th>Architecture</th>" ++
      "<th>Lifecycle</th><th>Health</th><th>Last heartbeat</th></tr></thead><tbody>" = write pageHead := by
    decide +kernel
  have htail : "</tbody></table>" = write [("/tbody", ""), ("/table", "")] ∧
      "</main></body></html>" = write [("/main", ""), ("/body", ""), ("/html", "")] := by decide +kernel
  delta pageHtml
  rw [hhead, hbody, hnext, htail.1, htail.2, pageCells, write_append, write_append, write_append, write_append]

def detailHtml (endpoint : Endpoint) (identity : EndpointIdentity) (status : EndpointStatus) : String :=
  "<!doctype html><html lang=\"en\"><head><meta charset=\"utf-8\"><title>" ++
    escape endpoint.displayName ++ " — NorthGate RMM</title></head><body><main>" ++
    "<a href=\"/endpoints\">Endpoints</a><h1>" ++ escape endpoint.displayName ++ "</h1><dl>" ++
    String.join ((detailValues endpoint identity status).map fun p =>
      "<dt>" ++ escape p.1 ++ "</dt><dd>" ++ escape p.2 ++ "</dd>") ++
    "</dl></main></body></html>"

theorem join_items (values : List (String × String)) :
    String.join (values.map fun p => "<dt>" ++ escape p.1 ++ "</dt><dd>" ++ escape p.2 ++ "</dd>") =
      write (values.flatMap (itemCells escape)) := by
  induction values with
  | nil => rfl
  | cons item values ih =>
    rw [List.map_cons, String.join_cons, ih, List.flatMap_cons, write_append]
    congr 1
    apply String.toList_injective
    simp [itemCells, write]

theorem detailHtml_eq (endpoint : Endpoint) (identity : EndpointIdentity) (status : EndpointStatus) :
    detailHtml endpoint identity status = write (detailCells escape endpoint identity status) := by
  delta detailHtml
  rw [join_items, detailCells, write_append, write_append]
  apply String.toList_injective
  simp only [write, String.toList_append, String.reduceToList, List.cons_append, List.nil_append, List.append_assoc,
    List.append_nil]

/-! ## Reading them back -/

/-- A cell that is read as it was written and whose text has no markup. -/
structure Good (cell : String × String) : Prop where
  tag : '>' ∉ cell.1.toList ∧ '&' ∉ cell.1.toList
  markup : markup cell.2 = []
  escaped : Escaped cell.2.toList

theorem good_clean {tag text : String} (htag : '>' ∉ tag.toList ∧ '&' ∉ tag.toList) (h : Clean text) :
    Good (tag, text) := ⟨htag, h.markup, escaped_of_plain h.ampersand⟩

theorem good_escape {tag : String} (htag : '>' ∉ tag.toList ∧ '&' ∉ tag.toList) (text : String) :
    Good (tag, escape text) := ⟨htag, markup_escape text, escaped_escape text⟩

/-- A fixed list of cells is checked as it stands. -/
def goodList (l : List (String × String)) : Bool :=
  l.all fun cell => '>' ∉ cell.1.toList && '&' ∉ cell.1.toList && (markup cell.2).isEmpty && '&' ∉ cell.2.toList

theorem good_of_goodList {l : List (String × String)} (h : goodList l = true) : ∀ cell ∈ l, Good cell := by
  intro cell hcell
  have hc := List.all_eq_true.1 h cell hcell
  simp only [Bool.and_eq_true, decide_eq_true_eq, List.isEmpty_iff] at hc
  exact good_clean hc.1.1 ⟨hc.1.2, hc.2⟩

theorem good_link {before : String} (hbefore : '>' ∉ before.toList ∧ '&' ∉ before.toList) (id : Uuid) :
    '>' ∉ (before ++ id.toText ++ "\"").toList ∧ '&' ∉ (before ++ id.toText ++ "\"").toList := by
  have hid := clean_toText id
  have hbracket : '>' ∉ id.toText.toList := fun h => by
    have := List.filter_eq_nil_iff.1 hid.markup '>' h
    exact this rfl
  simp only [String.toList_append, List.mem_append, not_or]
  exact ⟨⟨⟨hbefore.1, hbracket⟩, by decide⟩, ⟨hbefore.2, hid.ampersand⟩, by decide⟩

theorem good_rowCells (row : Row) : ∀ cell ∈ rowCells escape row, Good cell := by
  have hlit : ∀ cell ∈ [("tr", ""), ("td", ""), ("/a", ""), ("/td", ""), ("/tr", "")], Good cell :=
    good_of_goodList (by decide +kernel)
  simp only [List.forall_mem_cons, List.not_mem_nil, false_implies, implies_true, and_true] at hlit
  obtain ⟨htr, htd, ha, htd', htr'⟩ := hlit
  have hcell := fun text => good_escape htd.tag text
  simp only [rowCells, List.forall_mem_cons, List.not_mem_nil, false_implies, implies_true, and_true]
  exact ⟨htr, htd, good_escape (good_link (by decide +kernel) _) _, ha, htd', hcell _, htd', hcell _, htd', hcell _, htd',
    hcell _, htd', good_clean htd.tag (clean_timeText _), htd', htr'⟩

theorem good_nextCells (nextAfter : Option Uuid) : ∀ cell ∈ nextCells nextAfter, Good cell := by
  have hlit : ∀ cell ∈ [("nav", ""), ("/a", ""), ("/nav", ""), ("a", "Next page")], Good cell :=
    good_of_goodList (by decide +kernel)
  simp only [List.forall_mem_cons, List.not_mem_nil, false_implies, implies_true, and_true] at hlit
  obtain ⟨hnav, ha, hnav', htext⟩ := hlit
  cases nextAfter with
  | none => exact nofun
  | some id =>
    simp only [nextCells, List.forall_mem_cons, List.not_mem_nil, false_implies, implies_true, and_true]
    exact ⟨hnav, ⟨good_link (by decide +kernel) id, htext.markup, htext.escaped⟩, ha, hnav'⟩

theorem good_pageCells (rows : List Row) (nextAfter : Option Uuid) :
    ∀ cell ∈ pageCells escape rows nextAfter, Good cell := by
  have hfixed : ∀ l ∈ [pageHead, noRows, [("/tbody", ""), ("/table", "")], [("/main", ""), ("/body", ""), ("/html", "")]],
      goodList l = true := by decide +kernel
  simp only [List.forall_mem_cons, List.not_mem_nil, false_implies, implies_true, and_true] at hfixed
  obtain ⟨hhead, hnone, htable, htail⟩ := hfixed
  simp only [pageCells, List.forall_mem_append]
  refine ⟨⟨⟨⟨good_of_goodList hhead, ?_⟩, good_of_goodList htable⟩, good_nextCells nextAfter⟩, good_of_goodList htail⟩
  split
  · exact good_of_goodList hnone
  · intro cell hcell
    obtain ⟨row, -, hrow⟩ := List.mem_flatMap.1 hcell
    exact good_rowCells row cell hrow

theorem good_detailCells (endpoint : Endpoint) (identity : EndpointIdentity) (status : EndpointStatus) :
    ∀ cell ∈ detailCells escape endpoint identity status, Good cell := by
  have hlit : ∀ cell ∈ [("title", ""), ("h1", ""), ("dt", ""), ("dd", ""), ("/dt", ""), ("/dd", "")], Good cell :=
    good_of_goodList (by decide +kernel)
  have hfixed : ∀ l ∈ [[("!doctype html", ""), ("html lang=\"en\"", ""), ("head", ""), ("meta charset=\"utf-8\"", "")],
      [("/title", ""), ("/head", ""), ("body", ""), ("main", ""), ("a href=\"/endpoints\"", "Endpoints"), ("/a", "")],
      [("/h1", ""), ("dl", "")], [("/dl", ""), ("/main", ""), ("/body", ""), ("/html", "")]], goodList l = true := by
    decide +kernel
  have hname : Clean " — NorthGate RMM" := ⟨by decide +kernel, by decide +kernel⟩
  simp only [List.forall_mem_cons, List.not_mem_nil, false_implies, implies_true, and_true] at hlit hfixed
  obtain ⟨htitle, hh1, hdt, hdd, hdt', hdd'⟩ := hlit
  obtain ⟨hhead, hbody, hlist, htail⟩ := hfixed
  have hhead := good_of_goodList hhead
  have hbody := good_of_goodList hbody
  have hlist := good_of_goodList hlist
  have htail := good_of_goodList htail
  have hitem : ∀ item, ∀ cell ∈ itemCells escape item, Good cell := fun item => by
    simp only [itemCells, List.forall_mem_cons, List.not_mem_nil, false_implies, implies_true, and_true]
    exact ⟨good_escape hdt.tag _, hdt', good_escape hdd.tag _, hdd'⟩
  have htext : Good ("title", escape endpoint.displayName ++ " — NorthGate RMM") := by
    refine ⟨htitle.tag, ?_, ?_⟩
    · rw [markup_append, markup_escape, hname.markup]
      rfl
    · rw [String.toList_append]
      exact (escaped_escape _).append (escaped_of_plain hname.ampersand)
  simp only [List.forall_mem_cons, List.not_mem_nil, false_implies, implies_true, and_true] at hhead hbody hlist htail
  simp only [detailCells, List.forall_mem_append, List.forall_mem_cons, List.not_mem_nil, false_implies, implies_true,
    and_true]
  refine ⟨⟨⟨hhead.1, hhead.2.1, hhead.2.2.1, hhead.2.2.2, htext, hbody.1, hbody.2.1, hbody.2.2.1, hbody.2.2.2.1,
    hbody.2.2.2.2.1, hbody.2.2.2.2.2, good_escape hh1.tag _, hlist.1, hlist.2⟩, fun cell hcell => ?_⟩, htail⟩
  obtain ⟨item, -, hmem⟩ := List.mem_flatMap.1 hcell
  exact hitem item cell hmem

/-- What the cells of a text say. -/
def said (l : List (String × String)) : List (String × String) :=
  l.map fun cell => (cell.1, String.ofList (decode cell.2.toList))

theorem said_append (a b : List (String × String)) : said (a ++ b) = said a ++ said b := List.map_append

theorem said_flatMap {α : Type} {f g : α → List (String × String)} (h : ∀ x, said (f x) = g x) (l : List α) :
    said (l.flatMap f) = l.flatMap g := by
  rw [said, List.map_flatMap]
  exact congrArg (List.flatMap · l) (funext h)

theorem said_rowCells (row : Row) : said (rowCells escape row) = rowCells id row := by
  have hempty := decode_clean clean_empty
  simp only [said, rowCells, List.map_cons, List.map_nil, decode_escape_nil, hempty, decode_clean (clean_timeText _), id]

theorem said_pageCells (rows : List Row) (nextAfter : Option Uuid) :
    said (pageCells escape rows nextAfter) = pageCells id rows nextAfter := by
  have hfixed : ∀ l ∈ [pageHead, noRows, [("/tbody", ""), ("/table", "")], [("/main", ""), ("/body", ""), ("/html", "")]],
      said l = l := by decide +kernel
  simp only [List.forall_mem_cons, List.not_mem_nil, false_implies, implies_true, and_true] at hfixed
  obtain ⟨hhead, hnone, htable, htail⟩ := hfixed
  have hnext : said (nextCells nextAfter) = nextCells nextAfter := by
    have htext : String.ofList (decode "Next page".toList) = "Next page" := by decide +kernel
    cases nextAfter with
    | none => rfl
    | some id => simp only [said, nextCells, List.map_cons, List.map_nil, decode_clean clean_empty, htext]
  simp only [pageCells, said_append, hhead, htable, hnext, htail]
  split
  · rw [hnone]
  · rw [said_flatMap said_rowCells]

theorem said_detailCells (endpoint : Endpoint) (identity : EndpointIdentity) (status : EndpointStatus) :
    said (detailCells escape endpoint identity status) = detailCells id endpoint identity status := by
  have hempty := decode_clean clean_empty
  have hitem : ∀ item, said (itemCells escape item) = itemCells id item := fun item => by
    simp only [said, itemCells, List.map_cons, List.map_nil, decode_escape_nil, hempty, id]
  have htitle : String.ofList (decode (escape endpoint.displayName ++ " — NorthGate RMM").toList) =
      endpoint.displayName ++ " — NorthGate RMM" := by
    rw [String.toList_append, decode_escape, decode_plain (by decide +kernel), String.ofList_append, String.ofList_toList,
      String.ofList_toList]
  have htext : String.ofList (decode "Endpoints".toList) = "Endpoints" := by decide +kernel
  have htail : said [("/dl", ""), ("/main", ""), ("/body", ""), ("/html", "")] =
      [("/dl", ""), ("/main", ""), ("/body", ""), ("/html", "")] := by decide +kernel
  rw [detailCells, said_append, said_append, said_flatMap hitem, htail]
  simp only [said, List.map_cons, List.map_nil, hempty, htitle, htext, decode_escape_nil]
  rfl

/-! ## The markup does not depend on the values -/

def cellMarkup (cell : String × String) : List Char := '<' :: markup cell.1 ++ ['>']

theorem markup_rowCells (row row' : Row) :
    (rowCells escape row).flatMap cellMarkup = (rowCells escape row').flatMap cellMarkup := by
  simp only [rowCells, List.flatMap_cons, cellMarkup, markup_append, (clean_toText _).markup]

theorem markup_pageCells {rows rows' : List Row} {nextAfter nextAfter' : Option Uuid} (hrows : rows.length = rows'.length)
    (hnext : nextAfter.isSome = nextAfter'.isSome) :
    (pageCells escape rows nextAfter).flatMap cellMarkup = (pageCells escape rows' nextAfter').flatMap cellMarkup := by
  have hcells : (rows.flatMap (rowCells escape)).flatMap cellMarkup =
      (rows'.flatMap (rowCells escape)).flatMap cellMarkup := by
    induction rows generalizing rows' with
    | nil =>
      cases rows' with
      | nil => rfl
      | cons row' rows' => exact nomatch hrows
    | cons row rows ih =>
      cases rows' with
      | nil => exact nomatch hrows
      | cons row' rows' =>
        simp only [List.flatMap_cons, List.flatMap_append, markup_rowCells row row', ih (Nat.succ.inj hrows)]
  have hempty : rows.isEmpty = rows'.isEmpty := by
    rw [Bool.eq_iff_iff, List.isEmpty_iff_length_eq_zero, List.isEmpty_iff_length_eq_zero, hrows]
  have hnext : (nextCells nextAfter).flatMap cellMarkup = (nextCells nextAfter').flatMap cellMarkup := by
    cases nextAfter with
    | none =>
      cases nextAfter' with
      | none => rfl
      | some id' => exact nomatch hnext
    | some id =>
      cases nextAfter' with
      | none => exact nomatch hnext
      | some id' => simp only [nextCells, List.flatMap_cons, cellMarkup, markup_append, (clean_toText _).markup]
  simp only [pageCells, List.flatMap_append, hnext, hempty]
  split
  · rfl
  · rw [hcells]

theorem markup_detailCells (endpoint endpoint' : Endpoint) (identity identity' : EndpointIdentity)
    (status status' : EndpointStatus) : (detailCells escape endpoint identity status).flatMap cellMarkup =
      (detailCells escape endpoint' identity' status').flatMap cellMarkup := by
  simp only [detailCells, detailValues, itemCells, List.flatMap_append, List.flatMap_cons, List.flatMap_nil, cellMarkup]

/-! ## What the views return -/

/-- An answer of the control plane to a view. -/
inductive Answer
  | endpoint (endpoint : Endpoint)
  | identity (identity : EndpointIdentity)
  | status (status : EndpointStatus)

variable {isprintable : String → Bool}

def Ask.shown : {β : Type} → Ask isprintable β → β → List Answer
  | _, .getEndpoint _, .ok endpoint => [.endpoint endpoint]
  | _, .getIdentity _, .ok identity => [.identity identity]
  | _, .endpointStatus _ _, .ok status => [.status status]
  | _, _, _ => []

/-- A control plane that may answer anything, with what it answered. -/
def anyReader : Env (Ask isprintable) (List Answer) where
  step log o b log' := log' = log ++ o.shown b
  cut _ _ _ := False

section Rows

variable {σ : Type} {E : Env (Ask isprintable) σ} {C : σ → Prop} {I : List EndpointStatus → σ → Prop} {now : Instant}

/-- The statuses that are read, one for each endpoint; `I` is what holds when some were. -/
theorem renderRows_holds (hC : ∀ {β : Type} {o : Ask isprintable β} {s s' : σ}, E.cut s o s' → C s')
    (hI : ∀ {id status statuses s s'}, E.step s (.endpointStatus id now) (.ok status) s' → I statuses s →
      I (statuses ++ [status]) s')
    (endpoints : List Endpoint) {read : List EndpointStatus} {s : σ} (hs : I read s) :
    (renderRows now endpoints : Prog (Ask isprintable) Exc String).Holds E C
      (fun r s' => ∀ text, r = .ok text → ∃ statuses : List EndpointStatus, I (read ++ statuses) s' ∧
        statuses.length = endpoints.length ∧ text = rowsText (endpoints.zip statuses)) s := by
  induction endpoints generalizing read s with
  | nil => exact fun text ht => ⟨[], (List.append_nil read).symm ▸ hs, rfl, (Except.ok.inj ht).symm⟩
  | cons e endpoints ih =>
    refine ⟨fun _ => hC, ?_⟩
    rintro (x | status) s' hstep
    · exact nofun
    · show Prog.Holds _ _ (renderRows now endpoints >>= fun rows => pure (endpointRow e status ++ rows)) _ _
      refine .bind ((ih (hI hstep hs)).mono fun r s'' hr => ?_)
      cases r with
      | error x => exact nofun
      | ok rows =>
        obtain ⟨statuses, hI', hlength, rfl⟩ := hr rows rfl
        refine fun text ht => ⟨status :: statuses, ?_, by rw [List.length_cons, hlength, List.length_cons],
          (Except.ok.inj ht).symm⟩
        rwa [List.append_assoc, List.singleton_append] at hI'

theorem renderEndpointPage_holds (hC : ∀ {β : Type} {o : Ask isprintable β} {s s' : σ}, E.cut s o s' → C s')
    (hI : ∀ {id status statuses s s'}, E.step s (.endpointStatus id now) (.ok status) s' → I statuses s →
      I (statuses ++ [status]) s')
    {endpoints : List Endpoint} {nextAfter : Option Uuid} {s : σ} (hs : I [] s) :
    (renderEndpointPage endpoints nextAfter now : Prog (Ask isprintable) Exc String).Holds E C
      (fun r s' => ∀ text, r = .ok text → ∃ statuses : List EndpointStatus, I statuses s' ∧
        statuses.length = endpoints.length ∧ text = pageHtml (endpoints.zip statuses) nextAfter) s := by
  refine .bind ((renderRows_holds hC hI endpoints hs).mono fun r s' hr => ?_)
  cases r with
  | error x => exact nofun
  | ok rows =>
    obtain ⟨statuses, hI', hlength, rfl⟩ := hr rows rfl
    exact fun text ht => ⟨statuses, hI', hlength, (Except.ok.inj ht).symm⟩

end Rows

theorem page_returned {endpoints : List Endpoint} {nextAfter : Option Uuid} {now : Instant} {html : String}
    {log : List Answer}
    (h : (renderEndpointPage endpoints nextAfter now : Prog (Ask isprintable) Exc String).Runs anyReader []
      (some (.ok html)) log) :
    ∃ statuses : List EndpointStatus, log = statuses.map .status ∧ statuses.length = endpoints.length ∧
      html = pageHtml (endpoints.zip statuses) nextAfter := by
  have hstep : ∀ {id status statuses log log'}, (anyReader : Env (Ask isprintable) _).step log
      (.endpointStatus id now) (.ok status) log' → log = List.map Answer.status statuses →
      log' = List.map Answer.status (statuses ++ [status]) := by
    rintro id status statuses _ _ rfl rfl
    rw [List.map_append]
    rfl
  exact (h.of_holds (renderEndpointPage_holds (C := fun _ => True) (I := fun statuses log => log = statuses.map .status)
    (fun _ => trivial) hstep rfl)).1 _ rfl html rfl

theorem detail_returned {endpointId : Uuid} {now : Instant} {html : String} {log : List Answer}
    (h : (renderEndpointDetail endpointId now : Prog (Ask isprintable) Exc String).Runs anyReader []
      (some (.ok html)) log) :
    ∃ endpoint identity status, log = [.endpoint endpoint, .identity identity, .status status] ∧
      html = detailHtml endpoint identity status := by
  have hrun : (renderEndpointDetail endpointId now : Prog (Ask isprintable) Exc String).Holds anyReader
      (fun _ => False) (fun r log' => ∀ text, r = .ok text → ∃ endpoint identity status,
        log' = [.endpoint endpoint, .identity identity, .status status] ∧
          text = detailHtml endpoint identity status) [] := by
    refine ⟨nofun, ?_⟩
    rintro (x | endpoint) _ rfl
    · exact nofun
    · refine ⟨nofun, ?_⟩
      rintro (x | identity) _ rfl
      · exact nofun
      · refine ⟨nofun, ?_⟩
        rintro (x | status) _ rfl
        · exact nofun
        · exact fun text ht => ⟨endpoint, identity, status, rfl, (Except.ok.inj ht).symm⟩
  exact (h.of_holds hrun).1 _ rfl html rfl

theorem cells_of_good {l : List (String × String)} (h : ∀ cell ∈ l, Good cell) :
    cells (write l) = ("", "") :: said l := by
  refine cells_write fun cell hcell => ⟨(h cell hcell).tag.1, fun hmem => ?_⟩
  exact List.filter_eq_nil_iff.1 (h cell hcell).markup '<' hmem rfl

theorem escaped_of_good {l : List (String × String)} (h : ∀ cell ∈ l, Good cell) : Escaped (write l).toList :=
  escaped_write fun cell hcell => ⟨(h cell hcell).tag.2, (h cell hcell).escaped⟩

theorem markup_of_good {l : List (String × String)} (h : ∀ cell ∈ l, Good cell) :
    markup (write l) = l.flatMap cellMarkup := markup_write fun cell hcell => (h cell hcell).markup

/-- **Chosen text cannot alter a page.** Whatever the control plane answers, a page has the
markup of any other page with as many endpoints and a next link or none; every ampersand
begins an entity; and read back, the fixed tags stand in their places with each value as it is
in its own cell. The same for the page of one endpoint. -/
theorem pages_keep_their_structure (isprintable : String → Bool) :
    (∀ endpoints nextAfter now html log,
      (renderEndpointPage endpoints nextAfter now : Prog (Ask isprintable) Exc String).Runs anyReader []
        (some (.ok html)) log →
      Escaped html.toList ∧
      (∃ statuses : List EndpointStatus, log = statuses.map .status ∧ statuses.length = endpoints.length ∧
        cells html = ("", "") :: pageCells id (endpoints.zip statuses) nextAfter) ∧
      ∀ endpoints' nextAfter' now' html' log',
        (renderEndpointPage endpoints' nextAfter' now' : Prog (Ask isprintable) Exc String).Runs anyReader []
          (some (.ok html')) log' →
        endpoints'.length = endpoints.length → nextAfter'.isSome = nextAfter.isSome → markup html' = markup html) ∧
    ∀ endpointId now html log,
      (renderEndpointDetail endpointId now : Prog (Ask isprintable) Exc String).Runs anyReader [] (some (.ok html)) log →
      Escaped html.toList ∧
      (∃ endpoint identity status, log = [.endpoint endpoint, .identity identity, .status status] ∧
        cells html = ("", "") :: detailCells id endpoint identity status) ∧
      ∀ endpointId' now' html' log',
        (renderEndpointDetail endpointId' now' : Prog (Ask isprintable) Exc String).Runs anyReader []
          (some (.ok html')) log' → markup html' = markup html := by
  refine ⟨fun endpoints nextAfter now html log h => ?_, fun endpointId now html log h => ?_⟩
  · obtain ⟨statuses, hlog, hlength, rfl⟩ := page_returned h
    have hgood := good_pageCells (endpoints.zip statuses) nextAfter
    rw [pageHtml_eq]
    refine ⟨escaped_of_good hgood, ⟨statuses, hlog, hlength, ?_⟩, fun endpoints' nextAfter' now' html' log' h' hn hx => ?_⟩
    · rw [cells_of_good hgood, said_pageCells]
    · obtain ⟨statuses', -, hlength', rfl⟩ := page_returned h'
      rw [pageHtml_eq, markup_of_good hgood, markup_of_good (good_pageCells _ _)]
      refine markup_pageCells ?_ hx
      rw [List.length_zip, List.length_zip, hlength, hlength', hn]
  · obtain ⟨endpoint, identity, status, hlog, rfl⟩ := detail_returned h
    have hgood := good_detailCells endpoint identity status
    rw [detailHtml_eq]
    refine ⟨escaped_of_good hgood, ⟨endpoint, identity, status, hlog, ?_⟩, fun endpointId' now' html' log' h' => ?_⟩
    · rw [cells_of_good hgood, said_detailCells]
    · obtain ⟨endpoint', identity', status', -, rfl⟩ := detail_returned h'
      rw [detailHtml_eq, markup_of_good hgood, markup_of_good (good_detailCells _ _ _)]
      exact markup_detailCells ..

/-- An endpoint whose name would close the page and open a script. -/
def scripted : Endpoint :=
  ⟨⟨1⟩, "</h1><script>alert('&lt;')</script>", .linux, "\"x86\"", ⟨2⟩, 0, none, none⟩

def scriptedStatus : EndpointStatus := ⟨⟨1⟩, .active, .offline, none⟩

theorem scripted_keeps_its_structure :
    ∃ html, (renderEndpointPage [scripted] (some ⟨1⟩) 0 : Prog (Ask fun _ => true) Exc String).Runs anyReader []
      (some (.ok html)) [.status scriptedStatus] ∧ Escaped html.toList := by
  have hrun : (renderEndpointPage [scripted] (some ⟨1⟩) 0 : Prog (Ask fun _ => true) Exc String).Runs anyReader []
      (some (.ok (pageHtml [(scripted, scriptedStatus)] (some ⟨1⟩)))) [.status scriptedStatus] :=
    .act (.ok scriptedStatus) [.status scriptedStatus] rfl (.ret _ _)
  exact ⟨_, hrun, ((pages_keep_their_structure fun _ => true).1 _ _ _ _ _ hrun).1⟩

end NorthgateRmm.Server.Operator
