import NorthgateRmm.Lib.Paging
import NorthgateRmm.Server.Correspondence
import NorthgateRmm.Server.OperatorApi
import NorthgateRmm.Server.Pages
import NorthgateRmm.Wire.Text

/-!
# Walking the endpoint pages

`list_endpoints` and `list_endpoint_page` of both control planes, and an operator who asks
for `/endpoints` and follows the next link of each page. The table is compared by number in
both, and sorted by text only in `ControlPlane.list_endpoints`; the texts of identifiers are
ordered as their numbers are.
-/

namespace NorthgateRmm.Server

/-! ## The control planes -/

/-- `UUID.int`, by which identifiers are compared. -/
def number (id : Uuid) : Nat := id.bits.toNat

theorem number_injective {a b : Uuid} (h : number a = number b) : a = b :=
  congrArg Uuid.mk (BitVec.eq_of_toNat_eq h)

def key (e : Endpoint) : Nat := number e.endpointId

def endpointPageLimit (limit : Nat) : Except Error Unit :=
  if 1 ≤ limit ∧ limit ≤ 1000 then .ok () else .error (.validation "endpoint page limit is invalid")

namespace Memory.ControlPlane

def listEndpoints (c : ControlPlane) : List Memory.Endpoint :=
  c.endpoints.mergeSort fun a b => a.endpointId.toText ≤ b.endpointId.toText

/-- `nsmallest` is the sorted list cut off. -/
def listEndpointPage (c : ControlPlane) (after : Option Uuid) (limit : Nat) : Except Error (List Memory.Endpoint) := do
  endpointPageLimit limit
  let candidates := c.endpoints.filter fun e => match after with
    | none => true
    | some id => number id < number e.endpointId
  return (candidates.mergeSort fun a b => number a.endpointId ≤ number b.endpointId).take limit

end Memory.ControlPlane

namespace Db

def listEndpoints (db : Db) : List Endpoint := db.endpoints.mergeSort fun a b => number a.endpointId ≤ number b.endpointId

def listEndpointPage (db : Db) (after : Option Uuid) (limit : Nat) : Except Error (List Endpoint) := do
  endpointPageLimit limit
  match after with
  | none => return (db.endpoints.mergeSort fun a b => number a.endpointId ≤ number b.endpointId).take limit
  | some id =>
    return ((db.endpoints.filter fun e => number id < number e.endpointId).mergeSort fun a b =>
      number a.endpointId ≤ number b.endpointId).take limit

end Db

/-- A control plane that the operator application reads. -/
inductive Store
  | memory (c : Memory.ControlPlane)
  | postgres (db : Db)

namespace Store

def endpoints : Store → List Endpoint
  | memory c => c.endpoints.map Memory.Endpoint.stored
  | postgres db => db.endpoints

def listEndpoints : Store → List Endpoint
  | memory c => c.listEndpoints.map Memory.Endpoint.stored
  | postgres db => db.listEndpoints

def listEndpointPage (s : Store) (after : Option Uuid) (limit : Nat) : Except Error (List Endpoint) :=
  match s with
  | memory c => (c.listEndpointPage after limit).map (List.map Memory.Endpoint.stored)
  | postgres db => db.listEndpointPage after limit

/-- The endpoints are held by their identifiers: the keys of a dict, or a primary key. -/
def Keyed (s : Store) : Prop := (s.endpoints.map (·.endpointId)).Nodup

theorem Keyed.keys {s : Store} (h : s.Keyed) : (s.endpoints.map key).Nodup := by
  have h := List.Nodup.map (f := number) (fun _ _ => number_injective) h
  rwa [List.map_map] at h

/-- Both orders are the same. -/
theorem listEndpoints_eq (s : Store) : s.listEndpoints = Paging.sorted key s.endpoints := by
  cases s with
  | memory c =>
    refine List.map_mergeSort fun a _ b _ => decide_eq_decide.2 ?_
    exact Wire.toText_le_iff
  | postgres db => rfl

theorem listEndpointPage_eq (s : Store) (after : Option Uuid) {limit : Nat} (hlow : 1 ≤ limit) (hhigh : limit ≤ 1000) :
    s.listEndpointPage after limit = .ok (Paging.page key s.endpoints (after.map number) limit) := by
  have hlimit : endpointPageLimit limit = .ok () := if_pos ⟨hlow, hhigh⟩
  cases s with
  | memory c =>
    have hsort : ∀ l : List Memory.Endpoint,
        (l.mergeSort fun a b => number a.endpointId ≤ number b.endpointId).map Memory.Endpoint.stored =
          Paging.sorted key (l.map Memory.Endpoint.stored) := fun l => List.map_mergeSort fun a _ b _ => rfl
    rw [listEndpointPage, Memory.ControlPlane.listEndpointPage, hlimit]
    refine congrArg Except.ok ?_
    rw [List.map_take, hsort, Paging.page, Paging.rest, endpoints, List.filter_map]
    cases after <;> rfl
  | postgres db =>
    rw [listEndpointPage]
    delta Db.listEndpointPage
    rw [hlimit]
    cases after with
    | none =>
      refine congrArg Except.ok ?_
      rw [Paging.page, Paging.rest]
      simp only [Option.map_none, Paging.beyond, List.filter_true]
      rfl
    | some id => rfl

end Store

namespace Operator

open Html

/-! ## What a page shows -/

/-- What a link says after these words, without its closing quote. -/
def linkTail (lead tag : String) : Option String :=
  (dropText lead tag).map fun rest => String.ofList rest.toList.dropLast

structure ShownRow where
  endpointId : String
  displayName : String
  platform : String
  architecture : String
  deriving DecidableEq

def ShownRow.of (e : Endpoint) : ShownRow := ⟨e.endpointId.toText, e.displayName, e.platform.value, e.architecture⟩

/-- The rows among the tags: a link to an endpoint, and the two cells after it. -/
def rowsIn : List (String × String) → List ShownRow
  | [] => []
  | cell :: rest => match linkTail "a href=\"/endpoints/" cell.1 with
    | some id => ⟨id, cell.2, (rest.getD 2 ("", "")).2, (rest.getD 4 ("", "")).2⟩ :: rowsIn rest
    | none => rowsIn rest

def shownRows (html : String) : List ShownRow := rowsIn (cells html)

/-- The query of the next link. -/
def nextQuery (html : String) : Option String :=
  (cells html).findSome? fun cell => linkTail "a href=\"/endpoints?" cell.1

theorem dropText_append (lead text : String) : dropText lead (lead ++ text) = some text := by
  have hprefix : lead.toList.isPrefixOf (lead ++ text).toList = true := by
    rw [String.toList_append]
    exact List.isPrefixOf_iff_prefix.2 (List.prefix_append _ _)
  rw [dropText, if_pos hprefix, String.toList_append, ← String.length_toList, List.drop_left, String.ofList_toList]

theorem linkTail_of (lead text : String) : linkTail lead (lead ++ text ++ "\"") = some text := by
  rw [linkTail, String.append_assoc, dropText_append, Option.map_some, String.toList_append]
  have hquote : "\"".toList = ['\x22'] := rfl
  rw [hquote, List.dropLast_concat, String.ofList_toList]

theorem rowsIn_append {l rest : List (String × String)}
    (h : ∀ cell ∈ l, linkTail "a href=\"/endpoints/" cell.1 = none) : rowsIn (l ++ rest) = rowsIn rest := by
  induction l with
  | nil => rfl
  | cons cell l ih =>
    obtain ⟨hcell, hl⟩ := List.forall_mem_cons.1 h
    rw [List.cons_append, rowsIn, hcell]
    exact ih hl

theorem rowsIn_rowCells (row : Row) (rest : List (String × String)) :
    rowsIn (rowCells id row ++ rest) = ShownRow.of row.1 :: rowsIn rest := by
  have hfixed : ∀ tag ∈ ["tr", "td", "/a", "/td", "/tr"], linkTail "a href=\"/endpoints/" tag = none := by decide +kernel
  simp only [List.forall_mem_cons, List.not_mem_nil, false_implies, implies_true, and_true] at hfixed
  obtain ⟨htr, htd, ha, htd', htr'⟩ := hfixed
  simp only [rowCells, List.cons_append, List.nil_append, rowsIn, htr, htd, ha, htd', htr', linkTail_of]
  rfl

/-- The fixed tags of a page. -/
def fixedTags : List (String × String) :=
  ("", "") :: pageHead ++ noRows ++ [("/tbody", ""), ("/table", "")] ++ [("nav", ""), ("/a", ""), ("/nav", "")] ++
    [("/main", ""), ("/body", ""), ("/html", "")]

theorem fixedTags_links : ∀ cell ∈ fixedTags, linkTail "a href=\"/endpoints/" cell.1 = none ∧
    linkTail "a href=\"/endpoints?" cell.1 = none := by
  decide +kernel

theorem cells_pageHtml (rows : List Row) (nextAfter : Option Uuid) :
    cells (pageHtml rows nextAfter) = ("", "") :: pageCells id rows nextAfter := by
  rw [pageHtml_eq, cells_of_good (good_pageCells rows nextAfter), said_pageCells]

/-- Neither link is taken for the other. -/
theorem linkTail_other (text : String) :
    linkTail "a href=\"/endpoints/" ("a href=\"/endpoints?after=" ++ text ++ "\"") = none ∧
      linkTail "a href=\"/endpoints?" ("a href=\"/endpoints/" ++ text ++ "\"") = none := by
  simp only [linkTail, dropText, String.append_assoc, String.toList_append, String.reduceToList, List.cons_append,
    List.isPrefixOf_cons_cons, List.isPrefixOf_nil_left]
  exact ⟨rfl, rfl⟩

theorem linkTail_next (id : Uuid) :
    linkTail "a href=\"/endpoints?" ("a href=\"/endpoints?after=" ++ id.toText ++ "\"") = some ("after=" ++ id.toText) := by
  have hlead : "a href=\"/endpoints?after=" = "a href=\"/endpoints?" ++ "after=" := by decide +kernel
  have hassoc : "a href=\"/endpoints?" ++ "after=" ++ id.toText = "a href=\"/endpoints?" ++ ("after=" ++ id.toText) :=
    String.append_assoc
  rw [hlead, hassoc, linkTail_of]

theorem shownRows_pageHtml (rows : List Row) (nextAfter : Option Uuid) :
    shownRows (pageHtml rows nextAfter) = (rows.map Prod.fst).map ShownRow.of := by
  have hfixed := fun cell hcell => (fixedTags_links cell hcell).1
  simp only [fixedTags, List.forall_mem_append] at hfixed
  obtain ⟨⟨⟨⟨hhead, hnone⟩, htable⟩, hnav⟩, htail⟩ := hfixed
  have hnext : ∀ cell ∈ nextCells nextAfter, linkTail "a href=\"/endpoints/" cell.1 = none := by
    simp only [List.forall_mem_cons, List.not_mem_nil, false_implies, implies_true, and_true] at hnav
    cases nextAfter with
    | none => exact nofun
    | some id =>
      simp only [nextCells, List.forall_mem_cons, List.not_mem_nil, false_implies, implies_true, and_true]
      exact ⟨hnav.1, (linkTail_other _).1, hnav.2⟩
  have hrest : rowsIn ([("/tbody", ""), ("/table", "")] ++ (nextCells nextAfter ++
      [("/main", ""), ("/body", ""), ("/html", "")])) = [] := by
    rw [rowsIn_append htable, rowsIn_append hnext, ← List.append_nil [("/main", ""), _, _], rowsIn_append htail]
    rfl
  have hrows : ∀ rest, rowsIn (rows.flatMap (rowCells id) ++ rest) =
      (rows.map Prod.fst).map ShownRow.of ++ rowsIn rest := fun rest => by
    induction rows with
    | nil => rfl
    | cons row rows ih =>
      rw [List.flatMap_cons, List.append_assoc, rowsIn_rowCells, ih, List.map_cons, List.map_cons, List.cons_append]
  rw [shownRows, cells_pageHtml, pageCells, List.append_assoc, List.append_assoc, List.append_assoc, ← List.cons_append,
    rowsIn_append hhead]
  split
  · rename_i hempty
    rw [rowsIn_append hnone, hrest, List.isEmpty_iff.1 hempty, List.map_nil, List.map_nil]
  · rw [hrows, hrest, List.append_nil]

theorem nextQuery_pageHtml (rows : List Row) (nextAfter : Option Uuid) :
    nextQuery (pageHtml rows nextAfter) = nextAfter.map fun id => "after=" ++ id.toText := by
  have hfixed := fun cell hcell => (fixedTags_links cell hcell).2
  have hskip : ∀ {l rest : List (String × String)}, (∀ cell ∈ l, linkTail "a href=\"/endpoints?" cell.1 = none) →
      (l ++ rest).findSome? (fun cell => linkTail "a href=\"/endpoints?" cell.1) =
        rest.findSome? fun cell => linkTail "a href=\"/endpoints?" cell.1 := fun h => by
    rw [List.findSome?_append, List.findSome?_eq_none_iff.2 h, Option.none_or]
  simp only [fixedTags, List.forall_mem_append] at hfixed
  obtain ⟨⟨⟨⟨hhead, hnone⟩, htable⟩, hnav⟩, htail⟩ := hfixed
  have hrow : ∀ row, ∀ cell ∈ rowCells id row, linkTail "a href=\"/endpoints?" cell.1 = none := fun row => by
    have hlit : ∀ tag ∈ ["tr", "td", "/a", "/td", "/tr"], linkTail "a href=\"/endpoints?" tag = none := by decide +kernel
    simp only [List.forall_mem_cons, List.not_mem_nil, false_implies, implies_true, and_true] at hlit
    obtain ⟨htr, htd, ha, htd', htr'⟩ := hlit
    simp only [rowCells, List.forall_mem_cons, List.not_mem_nil, false_implies, implies_true, and_true]
    exact ⟨htr, htd, (linkTail_other _).2, ha, htd', htd, htd', htd, htd', htd, htd', htd, htd', htd, htd', htr'⟩
  have hbody : ∀ cell ∈ (if rows.isEmpty then noRows else rows.flatMap (rowCells id)),
      linkTail "a href=\"/endpoints?" cell.1 = none := by
    split
    · exact hnone
    · intro cell hcell
      obtain ⟨row, -, hmem⟩ := List.mem_flatMap.1 hcell
      exact hrow row cell hmem
  rw [nextQuery, cells_pageHtml, pageCells, List.append_assoc, List.append_assoc, List.append_assoc, ← List.cons_append,
    hskip hhead, hskip hbody, hskip htable]
  cases nextAfter with
  | none => exact List.findSome?_eq_none_iff.2 htail
  | some id =>
    have hnav := hnav _ List.mem_cons_self
    rw [nextCells, List.cons_append, List.findSome?_cons, hnav, List.cons_append, List.findSome?_cons, linkTail_next]
    rfl

theorem endpointPageAfter_next (after : Option Uuid) :
    endpointPageAfter ((after.map fun id => "after=" ++ id.toText).getD "") = .ok after := by
  cases after with
  | none => rfl
  | some id =>
    have hempty : ("after=" ++ id.toText).isEmpty = false := by
      rw [Bool.eq_false_iff, ne_eq, String.isEmpty_iff, String.append_eq_empty_iff]
      exact fun h => absurd h.1 (by decide)
    have hid : canonicalUuid id.toText = some id := by
      rw [canonicalUuid, (Wire.parseUuid_toText id).1, Option.bind_some, if_pos rfl]
    rw [Option.map_some, Option.getD_some, endpointPageAfter, hempty, if_neg Bool.false_ne_true, dropText_append,
      Option.bind_some, hid]

theorem endpointPageAfter_first : endpointPageAfter "" = .ok none := rfl

/-! ## Walks -/

variable {isprintable : String → Bool} {policy : OperatorAuthorizationPolicy isprintable}

/-- Endpoints are added, and their rows may change. -/
structure Grown (s s' : Store) : Prop where
  kept : ∀ id ∈ s.endpoints.map (·.endpointId), id ∈ s'.endpoints.map (·.endpointId)
  keyed : s.Keyed → s'.Keyed

def Still (s s' : Store) : Prop := s'.endpoints = s.endpoints

/-- A page is answered from the store, if it is; everything else may be answered in any way,
and the store may change with every call. -/
def reading (changed : Store → Store → Prop) : Env (Ask isprintable) Store where
  step s o b s' := changed s s' ∧ match o, b with
    | .listEndpointPage after limit, .ok page => s.listEndpointPage after limit = .ok page
    | _, _ => True
  cut _ _ _ := False

/-- A request for the endpoints that is answered with a page. -/
def Visit (policy : OperatorAuthorizationPolicy isprintable) (changed : Store → Store → Prop) (s : Store) (query html : String)
    (s' : Store) : Prop :=
  ∃ authorization now correlationId response,
    (handle policy ⟨some "GET", some "/endpoints", authorization, some query⟩ now correlationId).Runs (reading changed) s
      (some (.ok response)) s' ∧ response.status = 200 ∧ response.body = html

/-- The pages from a query on, to one without a next link. -/
inductive Walk (policy : OperatorAuthorizationPolicy isprintable) (changed : Store → Store → Prop) :
    Store → String → List String → Prop
  | last {s s' : Store} {query html : String} : Visit policy changed s query html s' → nextQuery html = none →
      Walk policy changed s query [html]
  | more {s s' s'' : Store} {query html query' : String} {pages : List String} : Visit policy changed s query html s' →
      nextQuery html = some query' → changed s' s'' → Walk policy changed s'' query' pages →
      Walk policy changed s query (html :: pages)

/-- The request can be answered, and following the next links comes to an end. -/
inductive WalkEnds (policy : OperatorAuthorizationPolicy isprintable) (changed : Store → Store → Prop) : Store → String → Prop
  | intro {s : Store} {query : String} : (∃ html s', Visit policy changed s query html s') →
      (∀ html s' query' s'', Visit policy changed s query html s' → nextQuery html = some query' → changed s' s'' →
        WalkEnds policy changed s'' query') → WalkEnds policy changed s query

/-- A page that shows what the store held when it was asked. -/
structure Shows (changed : Store → Store → Prop) (s : Store) (after : Option Uuid) (html : String) (s' : Store)
    (table : Store) (nextAfter : Option Uuid) : Prop where
  before : changed s table
  behind : changed table s'
  rows : shownRows html =
    (Paging.page key table.endpoints (after.map number) operatorEndpointPageSize).map ShownRow.of
  next : Paging.next key operatorEndpointPageSize
    (Paging.page key table.endpoints (after.map number) (operatorEndpointPageSize + 1)) = nextAfter.map number
  query : nextQuery html = nextAfter.map fun id => "after=" ++ id.toText

theorem holds_ask {σ β γ : Type} {E : Env (Ask isprintable) σ} {o : Ask isprintable (Except Exc β)}
    {k : β → Prog (Ask isprintable) Exc γ} {Q : Except Exc γ → σ → Prop} {s : σ}
    (herror : ∀ x s', E.step s o (.error x) s' → Q (.error x) s')
    (hok : ∀ b s', E.step s o (.ok b) s' → (k b).Holds E (fun _ => True) Q s') :
    (ask o >>= k).Holds E (fun _ => True) Q s := by
  refine .bind ⟨fun _ _ => trivial, ?_⟩
  rintro (x | b) s' hstep
  · exact herror x s' hstep
  · exact hok b s' hstep

section

variable {changed : Store → Store → Prop} (hrefl : ∀ s, changed s s)
  (htrans : ∀ a b c, changed a b → changed b c → changed a c)

include htrans

theorem serveList_shows (p : OperatorPrincipal isprintable) (after : Option Uuid) (correlationId : Uuid) (now : Instant)
    {s₀ s : Store} (hs : changed s₀ s) :
    (serveList p after correlationId now).Holds (reading changed) (fun _ => True)
      (fun r s' => ∀ response, r = .ok response → ∃ table nextAfter,
        Shows changed s₀ after response.body s' table nextAfter) s := by
  refine holds_ask (fun _ _ _ _ h => by cases h) fun page s₁ hstep => ?_
  have hpage : s.listEndpointPage after (operatorEndpointPageSize + 1) = .ok page := hstep.2
  rw [Store.listEndpointPage_eq s after (by decide) (by decide)] at hpage
  obtain rfl := Except.ok.inj hpage
  have htake : (Paging.page key s.endpoints (after.map number) (operatorEndpointPageSize + 1)).take
      operatorEndpointPageSize = Paging.page key s.endpoints (after.map number) operatorEndpointPageSize := by
    rw [Paging.page, Paging.page, List.take_take, Nat.min_eq_left (Nat.le_succ _)]
  refine .bind ((renderEndpointPage_holds (E := reading changed) (I := fun _ s' => changed s s') (fun _ => trivial)
    (fun hstep hI => htrans _ _ _ hI hstep.1) hstep.1).mono fun r s₂ hr => ?_)
  cases r with
  | error x => exact fun _ h => by cases h
  | ok body =>
    obtain ⟨statuses, hs₂, hlength, rfl⟩ := hr body rfl
    refine holds_ask (fun _ _ _ _ h => by cases h) fun _ s₃ hstep => ?_
    rintro _ ⟨⟩
    refine ⟨s, _, hs, htrans _ _ _ hs₂ hstep.1, ?_, ?_, nextQuery_pageHtml _ _⟩
    · rw [html, shownRows_pageHtml, List.map_fst_zip hlength.ge, htake]
    · rw [Paging.next, htake, apply_ite (Option.map number), Option.map_map, Option.map_none]
      rfl

theorem serve_shows {p : OperatorPrincipal isprintable} {request : OperatorRequest} {query : String} {after : Option Uuid}
    (hpath : request.path = some "/endpoints") (hquery : request.queryString = some query)
    (hafter : endpointPageAfter query = .ok after) (correlationId : Uuid) (now : Instant) {s₀ s : Store}
    (hs : changed s₀ s) :
    (serve p request correlationId now).Holds (reading changed) (fun _ => True) (fun r s' => ∀ response,
      r = .ok response → response.status = 200 → ∃ table nextAfter, Shows changed s₀ after response.body s' table nextAfter)
      s := by
  rw [serve]
  cases hroute : routeOk isprintable request with
  | none =>
    refine holds_ask nofun fun _ s' _ => ?_
    rintro _ ⟨⟩ ⟨⟩
  | some route =>
    have hpq : route = ("/endpoints", query) := by
      rw [routeOk, hpath, hquery] at hroute
      split at hroute
      · rename_i hm hp hq
        obtain rfl := Option.some.inj hp
        obtain rfl := Option.some.inj hq
        split at hroute
        · exact (Option.some.inj hroute).symm
        · exact nomatch hroute
      · exact nomatch hroute
    subst hpq
    simp only [if_true, hafter]
    exact (serveList_shows htrans p after correlationId now hs).mono fun r s' h response hr _ => h response hr

include hrefl

theorem holds_changed {α : Type} (p : Prog (Ask isprintable) Exc α) (s : Store) :
    p.Holds (reading changed) (fun _ => True) (fun _ s' => changed s s') s :=
  have hkept : ∀ {β : Type} {o : Ask isprintable β} {b : β} {a a' : Store}, (reading changed).step a o b a' →
      changed s a → changed s a' := fun hstep hs => htrans _ _ _ hs hstep.1
  ((Prog.Holds.top p fun _ => trivial).stable hkept (hrefl s)).mono fun _ _ h => h.2

theorem handle_shows {query : String} {after : Option Uuid} (hafter : endpointPageAfter query = .ok after)
    (authorization : Option String) (now : Instant) (correlationId : Uuid) (s : Store) :
    (handle policy ⟨some "GET", some "/endpoints", authorization, some query⟩ now correlationId).Holds (reading changed)
      (fun _ => True) (fun r s' => ∀ response, r = .ok response → response.status = 200 → ∃ table nextAfter,
        Shows changed s after response.body s' table nextAfter) s := by
  refine .bind (.attempt ((holds_changed hrefl htrans _ s).mono fun r s₁ hs₁ => ?_))
  dsimp only
  split
  · rintro _ ⟨⟩ ⟨⟩
  · exact nofun
  · rename_i principal
    refine holds_ask nofun fun _ s₂ hstep => ?_
    cases hdenied : authorizationDenial policy principal now with
    | some denial =>
      refine holds_ask nofun fun _ s' _ => ?_
      rintro _ ⟨⟩ ⟨⟩
    | none => exact serve_shows htrans rfl rfl hafter correlationId now (htrans _ _ _ hs₁ hstep.1)

theorem Visit.shows {s s' : Store} {query page : String} {after : Option Uuid} (h : Visit policy changed s query page s')
    (hafter : endpointPageAfter query = .ok after) :
    ∃ table nextAfter, Shows changed s after page s' table nextAfter := by
  obtain ⟨authorization, now, correlationId, response, hrun, hstatus, rfl⟩ := h
  exact (hrun.of_holds (handle_shows hrefl htrans hafter authorization now correlationId s)).1 _ rfl response rfl hstatus

end

/-! ## Every request is answered -/

theorem runs_ask {σ β γ : Type} {E : Env (Ask isprintable) σ} {o : Ask isprintable (Except Exc β)}
    {k : β → Prog (Ask isprintable) Exc γ} {r : Option (Except Exc γ)} {s s' s'' : σ} (b : β)
    (hstep : E.step s o (.ok b) s') (h : (k b).Runs E s' r s'') : (ask o >>= k).Runs E s r s'' :=
  .bind (.act (.ok b) s' hstep (.ret b s')) h

/-- A session that the policy lets in. -/
def viewer (policy : OperatorAuthorizationPolicy isprintable) (now : Instant) : OperatorPrincipal isprintable where
  issuer := policy.issuer
  tenant := policy.tenant
  subject := policy.subject
  sessionId := policy.issuer
  clientId := policy.clientId
  roles := [policy.requiredRole]
  authenticatedAt := now
  expiresAt := now + 1
  mfa := true
  texts_valid := by
    have h := policy.texts_valid
    simp only [List.forall_mem_cons, List.not_mem_nil, false_implies, implies_true, and_true] at h ⊢
    exact ⟨h.1, h.2.1, h.1, h.2.2⟩
  subject_valid := policy.subject_valid
  roles_valid := ⟨le_rfl, Nat.le_add_left 1 7, List.nodup_singleton _, by simpa using policy.role_valid⟩
  lifetime_valid := Int.lt_succ now

theorem viewer_authorized (policy : OperatorAuthorizationPolicy isprintable) (now : Instant) :
    authorizationDenial policy (viewer policy now) now = none := by
  have hage : (0 : Int) ≤ policy.maximumSessionAge := le_trans (by decide) policy.age_valid.1
  have hcurrent : now < now + 1 := Int.lt_succ now
  simp [authorizationDenial, viewer, hcurrent, hage]

section

variable {changed : Store → Store → Prop} (hrefl : ∀ s, changed s s)

include hrefl

theorem renderRows_answered (now : Instant) (endpoints : List Endpoint) (s : Store) :
    ∃ rows, (renderRows now endpoints : Prog (Ask isprintable) Exc String).Runs (reading changed) s (some (.ok rows)) s := by
  induction endpoints with
  | nil => exact ⟨_, .ret _ _⟩
  | cons e endpoints ih =>
    obtain ⟨rows, hrows⟩ := ih
    exact ⟨_, runs_ask ⟨e.endpointId, .active, .offline, none⟩ ⟨hrefl s, trivial⟩ (hrows.bind (.ret _ _))⟩

theorem serveList_answered (p : OperatorPrincipal isprintable) (after : Option Uuid) (correlationId : Uuid) (now : Instant)
    (s : Store) : ∃ body, (serveList p after correlationId now).Runs (reading changed) s (some (.ok (html body))) s := by
  have hpage := s.listEndpointPage_eq after (show 1 ≤ operatorEndpointPageSize + 1 by decide) (by decide)
  obtain ⟨rows, hrows⟩ : ∃ rows, (renderRows now ((Paging.page key s.endpoints (after.map number)
      (operatorEndpointPageSize + 1)).take operatorEndpointPageSize) : Prog (Ask isprintable) Exc String).Runs
      (reading changed) s (some (.ok rows)) s := renderRows_answered hrefl now _ s
  exact ⟨_, runs_ask _ ⟨hrefl s, hpage⟩
    (.bind (.bind hrows (.ret _ _)) (runs_ask () ⟨hrefl s, trivial⟩ (.ret _ _)))⟩

theorem visit_answered (hprint : isprintable "/endpoints" = true) {query : String} {after : Option Uuid}
    (hafter : endpointPageAfter query = .ok after) (s : Store) : ∃ body s', Visit policy changed s query body s' := by
  obtain ⟨body, hbody⟩ := serveList_answered hrefl (viewer policy 0) after ⟨0⟩ 0 s
  refine ⟨body, s, some "Bearer token", 0, ⟨0⟩, html body, ?_, rfl, rfl⟩
  have hserve : serve (viewer policy 0) ⟨some "GET", some "/endpoints", some "Bearer token", some query⟩ ⟨0⟩ 0 =
      serveList (viewer policy 0) after ⟨0⟩ 0 := by
    have hroute : routeOk isprintable ⟨some "GET", some "/endpoints", some "Bearer token", some query⟩ =
        some ("/endpoints", query) := if_pos ⟨rfl, by decide, by decide, hprint⟩
    rw [serve, hroute]
    simp only [if_true, hafter]
  have hauth : ((authenticate (some "Bearer token") 0 ⟨0⟩).attempt :
      Prog (Ask isprintable) Exc (Except Exc (OperatorPrincipal isprintable))).Runs (reading changed) s
      (some (.ok (.ok (viewer policy 0)))) s := by
    have hok : (some "Bearer token").filter credentialOk = some "Bearer token" := by decide +kernel
    rw [authenticate, hok]
    exact .act (.ok (some (viewer policy 0))) s ⟨hrefl s, trivial⟩ (.ret _ _)
  refine .bind hauth (runs_ask () ⟨hrefl s, trivial⟩ ?_)
  rw [viewer_authorized, hserve]
  exact hbody

end

/-! ## The walk reads the table -/

theorem Grown.refl (s : Store) : Grown s s := ⟨fun _ => id, id⟩

theorem Grown.trans (a b c : Store) (h : Grown a b) (h' : Grown b c) : Grown a c :=
  ⟨fun id hid => h'.kept id (h.kept id hid), fun hkeyed => h'.keyed (h.keyed hkeyed)⟩

theorem Still.refl (s : Store) : Still s s := rfl

theorem Still.trans (a b c : Store) (h : Still a b) (h' : Still b c) : Still a c := Eq.trans h' h

variable {after : Option Uuid} {query : String} {s : Store}

theorem Walk.paged {changed : Store → Store → Prop} (hrefl : ∀ s, changed s s)
    (htrans : ∀ a b c, changed a b → changed b c → changed a c) {pages : List String}
    (h : Walk policy changed s query pages) (hafter : endpointPageAfter query = .ok after) :
    ∃ (tables : List Store) (shown : List (List Endpoint)), (∀ table ∈ tables, changed s table) ∧
      Paging.Walk key operatorEndpointPageSize (after.map number) (tables.map Store.endpoints) shown ∧
      pages.map shownRows = shown.map (List.map ShownRow.of) := by
  induction h generalizing after with
  | last hvisit hnone =>
    obtain ⟨table, nextAfter, hshows⟩ := hvisit.shows hrefl htrans hafter
    obtain rfl : nextAfter = none := by
      rw [hshows.query, Option.map_eq_none_iff] at hnone
      exact hnone
    exact ⟨[table], _, List.forall_mem_singleton.2 hshows.before, .last hshows.next, congrArg (fun l => [l]) hshows.rows⟩
  | more hvisit hnext hchanged _ ih =>
    obtain ⟨table, nextAfter, hshows⟩ := hvisit.shows hrefl htrans hafter
    rw [hshows.query, Option.map_eq_some_iff] at hnext
    obtain ⟨id, rfl, rfl⟩ := hnext
    obtain ⟨tables, shown, htables, hwalk, hpages⟩ := ih (endpointPageAfter_next (some id))
    have hlater := htrans _ _ _ (htrans _ _ _ hshows.before hshows.behind) hchanged
    exact ⟨table :: tables, _, List.forall_mem_cons.2 ⟨hshows.before, fun t ht => htrans _ _ _ hlater (htables t ht)⟩,
      .more hshows.next hwalk, congrArg₂ List.cons hshows.rows hpages⟩

/-- How many identifiers lie beyond a cursor, at most. -/
def room : Option Uuid → Nat
  | none => 2 ^ 128
  | some id => 2 ^ 128 - 1 - number id

theorem room_lt {id : Uuid} (h : Paging.beyond (after.map number) (number id) = true) :
    room (some id) < room after := by
  have hid : number id < 2 ^ 128 := id.bits.isLt
  cases after with
  | none =>
    show 2 ^ 128 - 1 - number id < 2 ^ 128
    omega
  | some c =>
    have hlt : number c < number id := of_decide_eq_true h
    show 2 ^ 128 - 1 - number id < 2 ^ 128 - 1 - number c
    omega

theorem walkEnds_of_after (hprint : isprintable "/endpoints" = true) (hs : s.Keyed)
    (hafter : endpointPageAfter query = .ok after) : WalkEnds policy Grown s query := by
  induction hroom : room after using Nat.strong_induction_on generalizing s query after with
  | _ n ih =>
    refine .intro (visit_answered Grown.refl hprint hafter s) fun html s' query' s'' hvisit hnext hgrown => ?_
    obtain ⟨table, nextAfter, hshows⟩ := hvisit.shows Grown.refl Grown.trans hafter
    rw [hshows.query, Option.map_eq_some_iff] at hnext
    obtain ⟨id, rfl, rfl⟩ := hnext
    have hbeyond := (Paging.rest_of_next_some (hshows.before.keyed hs).keys hshows.next).1
    exact ih _ (hroom ▸ room_lt hbeyond) (hgrown.keyed (hshows.behind.keyed (hshows.before.keyed hs)))
      (endpointPageAfter_next (some id)) rfl

/-- Where the links come to an end, there is a walk to it. -/
theorem WalkEnds.walk {changed : Store → Store → Prop} (hrefl : ∀ s, changed s s)
    (h : WalkEnds policy changed s query) : ∃ pages, Walk policy changed s query pages := by
  induction h with
  | intro hvisit _ ih =>
    obtain ⟨html, s', hvisit⟩ := hvisit
    cases hnext : nextQuery html with
    | none => exact ⟨_, .last hvisit hnext⟩
    | some query' =>
      obtain ⟨pages, hpages⟩ := ih html s' query' s' hvisit hnext (hrefl s')
      exact ⟨_, .more hvisit hnext (hrefl s') hpages⟩

/-- **A walk over the pages lists every endpoint once.** It comes to an end, also while
endpoints are added; no page shows more than a hundred; each endpoint that was there at the
start is shown once; and when none is added, the pages together are `list_endpoints()`. -/
theorem walk_lists_each_endpoint_once (hprint : isprintable "/endpoints" = true)
    (policy : OperatorAuthorizationPolicy isprintable) (s : Store) (hs : s.Keyed) :
    WalkEnds policy Grown s "" ∧
    (∀ pages, Walk policy Grown s "" pages →
      (∀ html ∈ pages, (shownRows html).length ≤ 100) ∧
      ∀ e ∈ s.endpoints, ((pages.flatMap shownRows).map (·.endpointId)).count e.endpointId.toText = 1) ∧
    ∀ pages, Walk policy Still s "" pages → pages.flatMap shownRows = s.listEndpoints.map ShownRow.of := by
  refine ⟨walkEnds_of_after hprint hs endpointPageAfter_first, fun pages hwalk => ?_, fun pages hwalk => ?_⟩
  · obtain ⟨tables, shown, htables, hpaged, hrows⟩ := hwalk.paged Grown.refl Grown.trans endpointPageAfter_first
    have hkeys : ∀ table ∈ tables.map Store.endpoints, (table.map key).Nodup :=
      List.forall_mem_map.2 fun t ht => ((htables t ht).keyed hs).keys
    have hflat : pages.flatMap shownRows = shown.flatten.map ShownRow.of := by
      rw [List.flatMap_def, hrows, List.map_flatten]
    refine ⟨fun html hhtml => ?_, fun e he => ?_⟩
    · have hmem : shownRows html ∈ shown.map (List.map ShownRow.of) := hrows ▸ List.mem_map_of_mem hhtml
      obtain ⟨l, hl, heq⟩ := List.mem_map.1 hmem
      rw [← heq, List.length_map]
      exact hpaged.length_le l hl
    · rw [hflat, List.map_map]
      refine List.count_eq_one_of_mem (List.pairwise_map.2 ?_) ?_
      · refine (hpaged.strict (by decide) hkeys).1.imp fun {a b} hlt heq => ?_
        have hid : a.endpointId = b.endpointId := Uuid.toText_injective heq
        rw [key, key, hid] at hlt
        exact lt_irrefl _ hlt
      · have hthere : ∀ table ∈ tables.map Store.endpoints, key e ∈ table.map key := List.forall_mem_map.2 fun t ht => by
          obtain ⟨e', he', hid⟩ := List.mem_map.1 ((htables t ht).kept _ (List.mem_map_of_mem he))
          exact List.mem_map.2 ⟨e', he', congrArg number hid⟩
        obtain ⟨e', he', hkey⟩ := List.mem_map.1 (hpaged.complete (by decide) hkeys rfl hthere)
        exact List.mem_map.2 ⟨e', he', congrArg Uuid.toText (number_injective hkey)⟩
  · obtain ⟨tables, shown, htables, hpaged, hrows⟩ := hwalk.paged Still.refl Still.trans endpointPageAfter_first
    have hstill := hpaged.still (by decide) hs.keys (List.forall_mem_map.2 htables)
    have hall : Paging.rest key s.endpoints none = Paging.sorted key s.endpoints := by
      rw [Paging.rest]
      simp only [Paging.beyond, List.filter_true]
    rw [List.flatMap_def, hrows, ← List.map_flatten, hstill, s.listEndpoints_eq, ← hall]
    rfl

theorem operator_valid : validText (fun _ => true) maxOperatorAuditIdentifierLength "operator" = true := by decide +kernel

theorem viewer_valid : validText (fun _ => true) maxOperatorRoleLength "viewer" = true := by decide +kernel

theorem age_valid : minutes 5 ≤ minutes (12 * 60) ∧ minutes (12 * 60) ≤ minutes (24 * 60) := by decide

def openPolicy : OperatorAuthorizationPolicy fun _ => true where
  issuer := "login"
  tenant := "northgate"
  subject := "operator"
  clientId := "console"
  texts_valid := by decide +kernel
  subject_valid := operator_valid
  role_valid := viewer_valid
  age_valid := age_valid

def oneEndpoint : Store := .postgres { endpoints := [scripted] }

theorem oneEndpoint_listed_once :
    ∃ pages, Walk openPolicy Grown oneEndpoint "" pages ∧
      ((pages.flatMap shownRows).map (·.endpointId)).count scripted.endpointId.toText = 1 := by
  have h := walk_lists_each_endpoint_once rfl openPolicy oneEndpoint (List.nodup_singleton _)
  obtain ⟨pages, hpages⟩ := h.1.walk Grown.refl
  exact ⟨pages, hpages, (h.2.1 pages hpages).2 scripted List.mem_cons_self⟩

end Operator

end NorthgateRmm.Server
