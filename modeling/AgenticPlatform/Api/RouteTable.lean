import AgenticPlatform.Foundation.StableSort
import AgenticPlatform.Foundation.Text
import Mathlib.Data.Prod.Lex
import Mathlib.Data.String.Basic

/-!
# The table of routes

The middleware finds the policy of a request in a table of the registered routes, sorted
by template. The router finds the handler in the routes themselves, in the order of their
registration. Both ask the same compiled pattern whether a route matches.
-/
namespace AgenticPlatform.Api
open AgenticPlatform.Foundation

/-! ## Templates -/

inductive Segment where
  | literal (text : String)
  | param (name : String)
deriving DecidableEq

def Segment.text : Segment → String
  | .literal text => text
  | .param name => "\x7b" ++ name ++ "\x7d"

/-- What compiles: a parameter has a name of its own and takes a whole segment. -/
structure Template where
  segments : List Segment
  nonempty : segments ≠ []
  plain : ∀ text, Segment.literal text ∈ segments → '/' ∉ text.toList
  distinct : (segments.filterMap
    (fun s => match s with | .param name => some name | .literal _ => none)).Nodup

def Template.text (t : Template) : String := String.join (t.segments.map (fun s => "/" ++ s.text))

abbrev Params := List (String × String)

/-- The pattern ends in `$`, which also matches before a line break at the very end. -/
def matchSegments : List Segment → List String → Option Params
  | [], [] => some []
  | .literal text :: segments, part :: parts =>
    if part = text ∨ segments = [] ∧ part = text ++ "\n" then matchSegments segments parts else none
  | .param name :: segments, part :: parts =>
    if part = "" then none
    else (matchSegments segments parts).map (fun params => (name, part) :: params)
  | _, _ => none

def splitPath (path : String) : Option (List String) :=
  match path.toList with
  | '/' :: rest => some ((rest.splitOn '/').map String.ofList)
  | _ => none

def Template.match (t : Template) (path : String) : Option Params :=
  (splitPath path).bind (matchSegments t.segments)

/-! ## Routes -/

variable {η : Type*}

/-- A registered route; the endpoint is what runs. -/
structure Route (η : Type*) where
  methods : List String
  methods_nodup : methods.Nodup
  methods_upper : ∀ method ∈ methods, upper method = method
  template : Template
  endpoint : η

structure RouteEntry (η : Type*) where
  method : String
  template : String
  route : Route η

def RouteEntry.match (e : RouteEntry η) (path : String) : Option Params :=
  e.route.template.match path

def skippedMethods : List String := ["HEAD", "OPTIONS"]

def Route.entry (r : Route η) (method : String) : RouteEntry η := ⟨method, r.template.text, r⟩

def entriesOf (r : Route η) : List (RouteEntry η) :=
  ((sortedBy id r.methods).filter (fun method => method ∉ skippedMethods)).map r.entry

def templateKey (template : String) : ℤ ×ₗ String := toLex (-(template.length : ℤ), template)

/-- Longest template first. -/
def sortKey (e : RouteEntry η) : ℤ ×ₗ String := templateKey e.template

def emptyTable : String :=
  "route table is empty — the authorisation middleware would permit every request. " ++
    "This is the FastAPI/Starlette routing-model bug documented in " ++
    "platform_core/api/route_table.py; do not start with an empty table."

def buildRouteTable (routes : List (Route η)) : Except String (List (RouteEntry η)) :=
  let entries := sortedBy sortKey (routes.flatMap entriesOf)
  if entries.isEmpty then .error emptyTable else .ok entries

/-- The loop of `_authorize` over the table. -/
def selectEntry (table : List (RouteEntry η)) (method path : String) :
    Option (RouteEntry η × Params) :=
  table.findSome? (fun candidate =>
    (candidate.match path).bind
      (fun params => if candidate.method = method then some (candidate, params) else none))

def Route.serves (r : Route η) (method path : String) : Bool :=
  method ∈ r.methods && (r.template.match path).isSome

/-- The router takes the first full match. -/
def dispatch (routes : List (Route η)) (method path : String) : Option (Route η) :=
  routes.find? (fun r => r.serves method path)

/-! ## Overlapping templates -/

/-- The first has a literal at the first segment where the two differ, and the second a
parameter. -/
def literalAtDifference : List Segment → List Segment → Bool
  | .literal a :: s, .literal b :: t => a = b && literalAtDifference s t
  | .param _ :: s, .param _ :: t => literalAtDifference s t
  | .literal _ :: _, .param _ :: _ => true
  | _, _ => false

def Route.moreLiteral (r r' : Route η) : Bool :=
  literalAtDifference r.template.segments r'.template.segments

/-- Of two routes of one method that match a common path, the more literal one is registered
earlier. -/
def LiteralsFirst (routes : List (Route η)) : Prop :=
  routes.Pairwise
    (fun r r' => (∃ method path, r.serves method path ∧ r'.serves method path) → ¬ r'.moreLiteral r)

/-- No route that is registered after the first match, and matches too, has a longer template,
or one as long that sorts before. -/
def FirstSortsFirst (routes : List (Route η)) (method path : String) : Prop :=
  ∀ pre r post, routes = pre ++ r :: post → (∀ x ∈ pre, ¬ x.serves method path) →
    r.serves method path → ∀ r' ∈ post, r'.serves method path →
    ¬ templateKey r'.template.text < templateKey r.template.text

/-! ## The two searches -/

section
variable {routes : List (Route η)} {table : List (RouteEntry η)} {method path : String}

theorem literalAtDifference_self (s : List Segment) : literalAtDifference s s = false := by
  induction s with
  | nil => rfl
  | cons a s ih => cases a <;> simp [literalAtDifference, ih]

/-- The candidate that the loop stops at. -/
def RouteEntry.answers (e : RouteEntry η) (method path : String) : Bool :=
  e.method = method && (e.match path).isSome

theorem selectEntry_route : (selectEntry table method path).map (fun e => e.1) =
    table.find? (fun e => e.answers method path) := by
  induction table with
  | nil => rfl
  | cons e table ih =>
    unfold selectEntry at ih ⊢
    rw [List.findSome?_cons, List.find?_cons]
    cases hmatch : e.match path with
    | none => simpa [RouteEntry.answers, hmatch] using ih
    | some params =>
      by_cases hmethod : e.method = method
      · simp [RouteEntry.answers, hmatch, hmethod]
      · simpa [RouteEntry.answers, hmatch, hmethod] using ih

theorem mem_entriesOf {r : Route η} {e : RouteEntry η} :
    e ∈ entriesOf r ↔ ∃ method ∈ r.methods, method ∉ skippedMethods ∧ e = r.entry method := by
  simp only [entriesOf, List.mem_map, List.mem_filter, mem_sortedBy, decide_eq_true_eq]
  constructor
  · rintro ⟨m, ⟨hm, hskip⟩, rfl⟩
    exact ⟨m, hm, hskip, rfl⟩
  · rintro ⟨m, hm, hskip, rfl⟩
    exact ⟨m, ⟨hm, hskip⟩, rfl⟩

theorem entry_answers {r : Route η} {m : String} :
    (r.entry m).answers method path = true ↔
      m = method ∧ (r.template.match path).isSome = true := by
  change (decide (m = method) && (r.template.match path).isSome) = true ↔ _
  rw [Bool.and_eq_true, decide_eq_true_eq]

theorem sortKey_entry (r : Route η) (m : String) :
    sortKey (r.entry m) = templateKey r.template.text :=
  rfl

theorem serves_iff {r : Route η} :
    r.serves method path = true ↔ method ∈ r.methods ∧ (r.template.match path).isSome = true := by
  simp [Route.serves]

/-- The entries that answer are those of the routes that serve. -/
theorem answers_iff (hmethod : method ∉ skippedMethods) {e : RouteEntry η} {r : Route η} :
    e ∈ entriesOf r ∧ e.answers method path = true ↔
      r.serves method path = true ∧ e = r.entry method := by
  rw [mem_entriesOf, serves_iff]
  constructor
  · rintro ⟨⟨m, hm, -, rfl⟩, hanswers⟩
    obtain ⟨rfl, hmatch⟩ := entry_answers.mp hanswers
    exact ⟨⟨hm, hmatch⟩, rfl⟩
  · rintro ⟨⟨hm, hmatch⟩, rfl⟩
    exact ⟨⟨method, hm, hmethod, rfl⟩, entry_answers.mpr ⟨rfl, hmatch⟩⟩

theorem find?_entriesOf (hmethod : method ∉ skippedMethods) (r : Route η) :
    (entriesOf r).find? (fun e => e.answers method path) =
      if r.serves method path then some (r.entry method) else none := by
  cases hfind : (entriesOf r).find? (fun e => e.answers method path) with
  | none =>
    have hno := List.find?_eq_none.mp hfind
    rw [if_neg]
    intro hserves
    obtain ⟨hmem, hanswers⟩ := (answers_iff hmethod).mpr ⟨hserves, rfl⟩
    exact hno _ hmem hanswers
  | some e =>
    obtain ⟨hserves, rfl⟩ :=
      (answers_iff hmethod).mp ⟨List.mem_of_find?_eq_some hfind,
        List.find?_some (p := fun e : RouteEntry η => e.answers method path) hfind⟩
    rw [if_pos hserves]

/-- In the order of registration the entries and the routes find the same. -/
theorem find?_entries (hmethod : method ∉ skippedMethods) (routes : List (Route η)) :
    (routes.flatMap entriesOf).find? (fun e => e.answers method path) =
      (dispatch routes method path).map (fun r => r.entry method) := by
  unfold dispatch
  induction routes with
  | nil => rfl
  | cons r routes ih =>
    rw [List.flatMap_cons, List.find?_append, find?_entriesOf hmethod, ih, List.find?_cons]
    cases r.serves method path <;> rfl

theorem find?_entries_of_skipped (hmethod : method ∈ skippedMethods) (routes : List (Route η)) :
    (sortedBy sortKey (routes.flatMap entriesOf)).find? (fun e => e.answers method path) =
      none := by
  refine List.find?_eq_none.mpr ?_
  intro e he hanswers
  obtain ⟨r, -, he⟩ := List.mem_flatMap.mp (mem_sortedBy.mp he)
  obtain ⟨m, -, hkept, rfl⟩ := mem_entriesOf.mp he
  obtain ⟨rfl, -⟩ := entry_answers.mp hanswers
  exact hkept hmethod

/-- A route that serves the request is the one that is taken, or registered after it. -/
theorem dispatch_first {r r' : Route η} (hr : dispatch routes method path = some r)
    (hr' : r' ∈ routes) (hserves' : r'.serves method path = true) :
    ∃ pre post, routes = pre ++ r :: post ∧ (∀ x ∈ pre, ¬ x.serves method path = true) ∧
      r.serves method path = true ∧ (r' = r ∨ r' ∈ post) := by
  obtain ⟨hserves, pre, post, rfl, hpre⟩ := List.find?_eq_some_iff_append.mp hr
  have hpre : ∀ x ∈ pre, ¬ x.serves method path = true := by simpa using hpre
  refine ⟨pre, post, rfl, hpre, hserves, ?_⟩
  rcases List.mem_append.mp hr' with hmem | hmem
  · exact absurd hserves' (hpre r' hmem)
  · exact List.mem_cons.mp hmem

/-- The same of the route that the router takes. -/
theorem firstSortsFirst_iff : FirstSortsFirst routes method path ↔
    ∀ r, dispatch routes method path = some r → ∀ r' ∈ routes, r'.serves method path = true →
      templateKey r.template.text ≤ templateKey r'.template.text := by
  constructor
  · intro h r hr r' hr' hserves'
    obtain ⟨pre, post, hroutes, hpre, hserves, rfl | hmem⟩ := dispatch_first hr hr' hserves'
    · exact le_refl _
    · exact not_lt.mp (h pre r post hroutes hpre hserves r' hmem hserves')
  · rintro h pre r post rfl hpre hserves r' hr' hserves'
    have hr : dispatch (pre ++ r :: post) method path = some r :=
      List.find?_eq_some_iff_append.mpr ⟨hserves, pre, post, rfl, by simpa using hpre⟩
    exact not_lt.mpr (h r hr r' (by simp [hr']) hserves')

/-- An entry that answers is known by its route. -/
theorem map_entry_find? (hmethod : method ∉ skippedMethods) {l : List (RouteEntry η)}
    (hl : ∀ e ∈ l, e ∈ routes.flatMap entriesOf) :
    ((l.find? (fun e => e.answers method path)).map RouteEntry.route).map
      (fun r => r.entry method) =
      l.find? (fun e => e.answers method path) := by
  cases hfind : l.find? (fun e => e.answers method path) with
  | none => rfl
  | some e =>
    obtain ⟨r, -, he⟩ := List.mem_flatMap.mp (hl e (List.mem_of_find?_eq_some hfind))
    have hanswers := List.find?_some (p := fun e : RouteEntry η => e.answers method path) hfind
    obtain ⟨-, rfl⟩ := (answers_iff hmethod).mp ⟨he, hanswers⟩
    rfl

/-- Found in the sorted table is what is registered first, where the two searches agree. -/
theorem route_sorted_eq_iff (hmethod : method ∉ skippedMethods) :
    ((sortedBy sortKey (routes.flatMap entriesOf)).find? (fun e => e.answers method path)).map
      RouteEntry.route = dispatch routes method path ↔
      (sortedBy sortKey (routes.flatMap entriesOf)).find? (fun e => e.answers method path) =
      (routes.flatMap entriesOf).find? (fun e => e.answers method path) := by
  rw [find?_entries hmethod]
  constructor
  · intro h
    rw [← map_entry_find? hmethod (fun e he => mem_sortedBy.mp he), h]
  · intro h
    rw [h, Option.map_map]
    exact Option.map_id'

theorem least_iff (hmethod : method ∉ skippedMethods) :
    (∀ e, (routes.flatMap entriesOf).find? (fun e => e.answers method path) = some e →
        ∀ e' ∈ routes.flatMap entriesOf, e'.answers method path = true → sortKey e ≤ sortKey e') ↔
      FirstSortsFirst routes method path := by
  rw [firstSortsFirst_iff, find?_entries hmethod]
  constructor
  · intro h r hr r' hr' hserves
    obtain ⟨hmem, hanswers⟩ := (answers_iff hmethod).mpr ⟨hserves, rfl⟩
    have hkey :=
      h _ (Option.map_eq_some_iff.mpr ⟨r, hr, rfl⟩) _
        (List.mem_flatMap.mpr ⟨r', hr', hmem⟩) hanswers
    rwa [sortKey_entry, sortKey_entry] at hkey
  · rintro h e he e' he' hanswers
    obtain ⟨r, hr, rfl⟩ := Option.map_eq_some_iff.mp he
    obtain ⟨r', hr', hmem⟩ := List.mem_flatMap.mp he'
    obtain ⟨hserves, rfl⟩ := (answers_iff hmethod).mp ⟨hmem, hanswers⟩
    rw [sortKey_entry, sortKey_entry]
    exact h r hr r' hr' hserves

theorem buildRouteTable_eq_ok (h : buildRouteTable routes = .ok table) :
    table = sortedBy sortKey (routes.flatMap entriesOf) := by
  simp only [buildRouteTable] at h
  split at h
  · cases h
  · exact (Except.ok.inj h).symm

theorem dispatch_eq_none :
    dispatch routes method path = none ↔ ∀ r ∈ routes, ¬ r.serves method path = true :=
  List.find?_eq_none

theorem select_eq_dispatch_iff (hbuild : buildRouteTable routes = .ok table) :
    (selectEntry table method path).map (fun e => e.1.route) = dispatch routes method path ↔
      (method ∈ skippedMethods → ∀ r ∈ routes, ¬ r.serves method path = true) ∧
      FirstSortsFirst routes method path := by
  have hroute : (selectEntry table method path).map (fun e => e.1.route) =
      (table.find? (fun e => e.answers method path)).map RouteEntry.route := by
    rw [← selectEntry_route, Option.map_map]
    rfl
  rw [hroute, buildRouteTable_eq_ok hbuild, ← dispatch_eq_none]
  by_cases hmethod : method ∈ skippedMethods
  · rw [find?_entries_of_skipped hmethod, Option.map_none]
    constructor
    · intro h
      refine ⟨fun _ => h.symm, firstSortsFirst_iff.mpr ?_⟩
      intro r hr
      rw [← h] at hr
      cases hr
    · exact fun h => (h.1 hmethod).symm
  · rw [route_sorted_eq_iff hmethod, find?_sortedBy_eq_iff, least_iff hmethod]
    exact ⟨fun h => ⟨fun hskip => absurd hskip hmethod, h⟩, fun h => h.2⟩

/-- Where literals are registered first, the first match is the most literal one. -/
theorem not_moreLiteral (hfirst : LiteralsFirst routes) {r r' : Route η}
    (hr : dispatch routes method path = some r) (hr' : r' ∈ routes)
    (hserves' : r'.serves method path = true) : ¬ r'.moreLiteral r = true := by
  obtain ⟨pre, post, rfl, -, hserves, rfl | hmem⟩ := dispatch_first hr hr' hserves'
  · simp [Route.moreLiteral, literalAtDifference_self]
  · exact (List.pairwise_cons.mp (List.pairwise_append.mp hfirst).2.1).1 r' hmem
      ⟨method, path, hserves, hserves'⟩

/-- The policy that is checked is the handler's, and a literal wins over a parameter, exactly
where no later match sorts before the first one. -/
theorem entry_is_dispatched_iff (hbuild : buildRouteTable routes = .ok table)
    (hfirst : LiteralsFirst routes) :
    ((selectEntry table method path).map (fun e => e.1.route) = dispatch routes method path ∧
      ∀ e, selectEntry table method path = some e → ∀ r ∈ routes, r.serves method path = true →
      ¬ r.moreLiteral e.1.route = true) ↔
      (method ∈ skippedMethods → ∀ r ∈ routes, ¬ r.serves method path = true) ∧
      FirstSortsFirst routes method path := by
  rw [← select_eq_dispatch_iff hbuild]
  constructor
  · exact And.left
  · intro h
    refine ⟨h, ?_⟩
    intro e he r hr hserves
    rw [he] at h
    exact not_moreLiteral hfirst h.symm hr hserves

end

/-! ## Two routes of one method -/

def runTemplate (last : Segment) (h : ∀ text, last = .literal text → '/' ∉ text.toList) :
    Template where
  segments := [.literal "api", .literal "runs", last]
  nonempty := by simp
  plain := by
    intro text hmem
    simp only [List.mem_cons, Segment.literal.injEq, List.not_mem_nil, or_false] at hmem
    rcases hmem with rfl | rfl | hlast
    · decide
    · decide
    · exact h text hlast.symm
  distinct := by cases last <;> simp

def activeRoute : Route Nat :=
  ⟨["GET"], by decide, by decide,
    runTemplate (.literal "active") (by intro text h; cases h; decide), 1⟩

def runRoute : Route Nat := ⟨["GET"], by decide, by decide, runTemplate (.param "run_id") nofun, 2⟩

theorem literalsFirst_runs : LiteralsFirst [activeRoute, runRoute] := by
  refine List.pairwise_cons.mpr ⟨?_, List.pairwise_singleton _ _⟩
  intro r hr _
  cases List.mem_singleton.mp hr
  decide

theorem runs_table :
    buildRouteTable [activeRoute, runRoute] = .ok [runRoute.entry "GET", activeRoute.entry "GET"] :=
  rfl

/-- A path that one of the two serves gets the policy of its handler. -/
theorem entry_is_dispatched_run :
    (selectEntry [runRoute.entry "GET", activeRoute.entry "GET"] "GET" "/api/runs/7").map
      (fun e => e.1.route) =
      dispatch [activeRoute, runRoute] "GET" "/api/runs/7" := by
  refine ((entry_is_dispatched_iff runs_table literalsFirst_runs).mpr
    ⟨?_, firstSortsFirst_iff.mpr ?_⟩).1
  · intro hskipped
    exact absurd hskipped (by decide)
  · intro r hr
    have hactive : activeRoute.serves "GET" "/api/runs/7" = false := by decide +kernel
    have hrun : runRoute.serves "GET" "/api/runs/7" = true := by decide +kernel
    simp only [dispatch, List.find?_cons, hactive, hrun, Option.some.injEq] at hr
    subst hr
    decide +kernel

/-- The path of the literal route gets the policy of the other one. -/
theorem entry_is_not_dispatched :
    ¬ ∀ (routes : List (Route Nat)) table method path, buildRouteTable routes = .ok table →
      LiteralsFirst routes →
      (selectEntry table method path).map (fun e => e.1.route) = dispatch routes method path := by
  intro h
  have hsame := h _ _ "GET" "/api/runs/active" runs_table literalsFirst_runs
  have hendpoint := congrArg (Option.map Route.endpoint) hsame
  revert hendpoint
  decide +kernel

end AgenticPlatform.Api
