import AgenticPlatform.Foundation.Dict
import AgenticPlatform.Settings
import Mathlib.Algebra.Order.Floor.Ring
import Mathlib.Data.List.Chain
import Mathlib.Data.List.TakeWhile
import Mathlib.Data.Rat.Floor
import Mathlib.Tactic.Linarith

/-!
# Local rate limits

Where Redis is absent a process counts the calls of each key itself. A window is opened by
the first call after the last one has ended, and the map of all windows is pruned when it
grows large. The clock is an argument of each call, and exact; `time.monotonic` is a double.
-/
namespace AgenticPlatform.Security
open AgenticPlatform.Foundation

structure LimitDecision where
  allowed : Bool
  limit : Int
  remaining : Int
  retryAfterSeconds : Int
deriving DecidableEq

/-- `_decision`. -/
def decision (count ttl limit windowSeconds : Int) : LimitDecision :=
  let retryAfter := max 1 (if 0 < ttl then ttl else windowSeconds)
  { allowed := count ≤ limit
    limit := limit
    remaining := max 0 (limit - count)
    retryAfterSeconds := if limit < count then retryAfter else 0 }

/-- `int(x)`. -/
def truncated (x : ℚ) : Int := if 0 ≤ x then ⌊x⌋ else ⌈x⌉

/-- The count of a window and when it ends. -/
abbrev Window := Nat × Time

abbrev LocalWindows := List (String × Window)

/-- The window a call falls in, before it is counted. -/
def windowAt (windowSeconds : Int) (now : Time) (found : Option Window) : Window :=
  let window := found.getD (0, now + windowSeconds)
  if window.2 ≤ now then (0, now + windowSeconds) else window

/-- The window with the call counted. -/
def counted (windowSeconds : Int) (now : Time) (found : Option Window) : Window :=
  ((windowAt windowSeconds now found).1 + 1, (windowAt windowSeconds now found).2)

def decided (limit windowSeconds : Int) (now : Time) (window : Window) : LimitDecision :=
  decision window.1 (max 1 (truncated (window.2 - now))) limit windowSeconds

/-- Only windows that have not ended stay. -/
def pruned (now : Time) (windows : LocalWindows) : LocalWindows :=
  if 10000 < windows.length then windows.filter (fun e => now < e.2.2) else windows

/-- The windows and the decision after a call, with the map pruned in some way. -/
def checkWith (prune : Time → LocalWindows → LocalWindows) (limit windowSeconds : Int)
    (windows : LocalWindows) (now : Time) (key : String) : LocalWindows × LimitDecision :=
  let window := counted windowSeconds now (windows.lookup key)
  (prune now (Dict.setItem windows key window), decided limit windowSeconds now window)

/-- `_check_local`. -/
def checkLocal : Int → Int → LocalWindows → Time → String → LocalWindows × LimitDecision :=
  checkWith pruned

structure LocalCall where
  key : String
  now : Time
deriving DecidableEq

/-- Calls one after another, each with its decision. -/
def decisionsWith (check : LocalWindows → Time → String → LocalWindows × LimitDecision) :
    LocalWindows → List LocalCall → List (LocalCall × LimitDecision)
  | _, [] => []
  | windows, c :: calls =>
    (c, (check windows c.now c.key).2) :: decisionsWith check (check windows c.now c.key).1 calls

/-! ## Pruning -/

section
variable {limit windowSeconds : Int} {now : Time} {windows windows' : LocalWindows}
  {found found' : Option Window}

/-- From this time on no call can tell the two apart. -/
def SameFrom (windowSeconds : Int) (now : Time) (found found' : Option Window) : Prop :=
  ∀ later ≥ now, windowAt windowSeconds later found = windowAt windowSeconds later found'

theorem SameFrom.later {later : Time} (h : SameFrom windowSeconds now found found')
    (hle : now ≤ later) : SameFrom windowSeconds later found found' :=
  fun t ht => h t (hle.trans ht)

/-- A window that has ended is as good as none. -/
theorem sameFrom_ended {window : Window} (h : window.2 ≤ now) :
    SameFrom windowSeconds now (some window) none := by
  intro later hlater
  rw [windowAt, windowAt, Option.getD_some, Option.getD_none, if_pos (h.trans hlater), ite_self]

theorem nodup_pruned (h : (windows.map Prod.fst).Nodup) (now : Time) :
    ((pruned now windows).map Prod.fst).Nodup := by
  unfold pruned
  split
  · exact h.sublist (List.filter_sublist.map Prod.fst)
  · exact h

theorem lookup_pruned (h : (windows.map Prod.fst).Nodup) (now : Time) (key : String) :
    SameFrom windowSeconds now ((pruned now windows).lookup key) (windows.lookup key) := by
  unfold pruned
  split
  · have hkept : ((windows.filter (fun e => now < e.2.2)).map Prod.fst).Nodup :=
      h.sublist (List.filter_sublist.map Prod.fst)
    cases hlookup : windows.lookup key with
    | none =>
      have hgone : (windows.filter (fun e => now < e.2.2)).lookup key = none := by
        rw [Dict.lookup_eq_none] at hlookup ⊢
        exact fun hmem => hlookup ((List.filter_sublist.map Prod.fst).subset hmem)
      rw [hgone]
      exact fun _ _ => rfl
    | some window =>
      have hmem := (Dict.lookup_eq_some_iff_mem h).mp hlookup
      by_cases hopen : now < window.2
      · have hstays : (windows.filter (fun e => now < e.2.2)).lookup key = some window :=
          (Dict.lookup_eq_some_iff_mem hkept).mpr (List.mem_filter.mpr ⟨hmem, decide_eq_true hopen⟩)
        rw [hstays]
        exact fun _ _ => rfl
      · have hgone : (windows.filter (fun e => now < e.2.2)).lookup key = none := by
          refine Option.eq_none_iff_forall_ne_some.mpr ?_
          intro other hother
          obtain ⟨hin, hnow⟩ := List.mem_filter.mp ((Dict.lookup_eq_some_iff_mem hkept).mp hother)
          have heq : some other = some window :=
            ((Dict.lookup_eq_some_iff_mem h).mpr hin).symm.trans hlookup
          cases heq
          exact hopen (of_decide_eq_true hnow)
        rw [hgone]
        exact fun t ht => (sameFrom_ended (not_lt.mp hopen) t ht).symm
  · exact fun _ _ => rfl

/-- Without pruning. -/
def kept (_ : Time) (windows : LocalWindows) : LocalWindows := windows

/-- Pruning changes no decision. -/
theorem decisions_pruned {calls : List LocalCall}
    (hclock : calls.Pairwise (fun a b => a.now ≤ b.now)) (hstart : ∀ c ∈ calls, now ≤ c.now)
    (hnodup : (windows.map Prod.fst).Nodup)
    (hsame : ∀ key, SameFrom windowSeconds now (windows.lookup key) (windows'.lookup key)) :
    decisionsWith (checkLocal limit windowSeconds) windows calls =
      decisionsWith (checkWith kept limit windowSeconds) windows' calls := by
  induction calls generalizing now windows windows' with
  | nil => rfl
  | cons c calls ih =>
    obtain ⟨hlater, hclock⟩ := List.pairwise_cons.mp hclock
    have hnow : now ≤ c.now := hstart c List.mem_cons_self
    have hwindow : counted windowSeconds c.now (windows.lookup c.key) =
        counted windowSeconds c.now (windows'.lookup c.key) := by
      rw [counted, counted, hsame c.key c.now hnow]
    have hset : ∀ key, SameFrom windowSeconds c.now
        ((Dict.setItem windows c.key (counted windowSeconds c.now (windows.lookup c.key))).lookup
          key)
        ((Dict.setItem windows' c.key (counted windowSeconds c.now (windows'.lookup c.key))).lookup
          key) := by
      intro key
      rw [Dict.lookup_setItem, Dict.lookup_setItem, hwindow]
      split
      · exact fun _ _ => rfl
      · exact (hsame key).later hnow
    have hnodup' :=
      Dict.nodup_setItem hnodup c.key (counted windowSeconds c.now (windows.lookup c.key))
    have hrest := ih hclock hlater (nodup_pruned hnodup' c.now)
      (fun key t ht => (lookup_pruned hnodup' c.now key t ht).trans (hset key t ht))
    rw [decisionsWith, decisionsWith]
    refine List.cons_eq_cons.mpr ⟨?_, hrest⟩
    rw [checkLocal, checkWith, checkWith, hwindow]

end

/-! ## One key -/

/-- The decisions of one key, with their times. -/
def ofKey (key : String) (answers : List (LocalCall × LimitDecision)) :
    List (Time × LimitDecision) :=
  (answers.filter (fun r => r.1.key = key)).map (fun r => (r.1.now, r.2))

/-- Calls of one key alone. -/
def serve (limit windowSeconds : Int) : Option Window → List Time → List (Time × LimitDecision)
  | _, [] => []
  | found, now :: times =>
    (now, decided limit windowSeconds now (counted windowSeconds now found)) ::
      serve limit windowSeconds (some (counted windowSeconds now found)) times

section
variable {limit windowSeconds : Int}

/-- The calls of the other keys change nothing. -/
theorem ofKey_decisions (key : String) (windows : LocalWindows) (calls : List LocalCall) :
    ofKey key (decisionsWith (checkWith kept limit windowSeconds) windows calls) =
      serve limit windowSeconds (windows.lookup key)
      ((calls.filter (fun c => c.key = key)).map LocalCall.now) := by
  induction calls generalizing windows with
  | nil => rfl
  | cons c calls ih =>
    have hrest :=
      ih (Dict.setItem windows c.key (counted windowSeconds c.now (windows.lookup c.key)))
    rw [Dict.lookup_setItem] at hrest
    by_cases hkey : c.key = key
    · subst hkey
      rw [if_pos rfl] at hrest
      rw [List.filter_cons_of_pos (by simp), List.map_cons, serve, ← hrest, ofKey, decisionsWith,
        List.filter_cons_of_pos (by simp), List.map_cons]
      rfl
    · rw [if_neg (Ne.symm hkey)] at hrest
      rw [List.filter_cons_of_neg (by simpa using hkey), ← hrest, ofKey, decisionsWith,
        List.filter_cons_of_neg (by simpa using hkey)]
      rfl

/-! ## Windows -/

/-- When the window was opened. -/
def opened (window : List (Time × LimitDecision)) : Option Time := window.head?.map Prod.fst

/-- Calls that fall in one window, of which the first ones are allowed. -/
structure IsWindow (limit windowSeconds : Int) (window : List (Time × LimitDecision)) : Prop where
  nonempty : window ≠ []
  within : ∀ start ∈ opened window, ∀ c ∈ window.tail, c.1 < start + windowSeconds
  allowed : window.map (fun c => c.2.allowed) =
    List.replicate (min limit.toNat window.length) true ++
    List.replicate (window.length - limit.toNat) false

/-- It is opened when the other one has ended. -/
def Follows (windowSeconds : Int) (window next : List (Time × LimitDecision)) : Prop :=
  ∀ start ∈ opened window, ∀ start' ∈ opened next, start + windowSeconds ≤ start'

/-- The calls of a key, divided into windows. -/
def InWindows (limit windowSeconds : Int) (answers : List (Time × LimitDecision)) : Prop :=
  ∃ windows : List (List (Time × LimitDecision)), windows.flatten = answers ∧
    (∀ w ∈ windows, IsWindow limit windowSeconds w) ∧ windows.IsChain (Follows windowSeconds)

theorem counted_open {count : Nat} {expiresAt now : Time} (h : now < expiresAt) :
    counted windowSeconds now (some (count, expiresAt)) = (count + 1, expiresAt) := by
  rw [counted, windowAt, Option.getD_some, if_neg (not_le.mpr h)]

theorem counted_none (now : Time) : counted windowSeconds now none = (1, now + windowSeconds) := by
  rw [counted, windowAt, Option.getD_none, ite_self]

/-- Calls before the end of a window are counted in it, and from its end on it does not matter. -/
theorem serve_split (count : Nat) (expiresAt : Time) (times : List Time) :
    serve limit windowSeconds (some (count, expiresAt)) times =
      serve limit windowSeconds (some (count, expiresAt))
      (times.takeWhile (fun t => t < expiresAt)) ++
      serve limit windowSeconds none (times.dropWhile (fun t => t < expiresAt)) := by
  induction times generalizing count with
  | nil => rfl
  | cons t times ih =>
    by_cases h : t < expiresAt
    · have hopen : decide (t < expiresAt) = true := decide_eq_true h
      rw [List.takeWhile_cons, List.dropWhile_cons, if_pos hopen, if_pos hopen, serve, serve,
        counted_open h, ih, List.cons_append]
    · have hnone : counted windowSeconds t (some (count, expiresAt)) =
          counted windowSeconds t none := by
        rw [counted, counted, sameFrom_ended (not_lt.mp h) t le_rfl]
      have hended : ¬ decide (t < expiresAt) = true := by simpa using h
      rw [List.takeWhile_cons, List.dropWhile_cons, if_neg hended, if_neg hended, serve, serve,
        serve, hnone, List.nil_append]

/-- In an open window the decision depends on the number of the call alone. -/
theorem allowed_serve_open {expiresAt : Time} {times : List Time} (h : ∀ t ∈ times, t < expiresAt)
    (count : Nat) :
    (serve limit windowSeconds (some (count, expiresAt)) times).map (fun c => c.2.allowed) =
      List.replicate (min (limit.toNat - count) times.length) true ++
      List.replicate (times.length - (limit.toNat - count)) false := by
  induction times generalizing count with
  | nil => simp [serve]
  | cons t times ih =>
    rw [serve, counted_open (h t List.mem_cons_self), List.map_cons,
      ih (fun t' ht' => h t' (List.mem_cons_of_mem t ht')) (count + 1), List.length_cons]
    have hdecided : (decided limit windowSeconds t (count + 1, expiresAt)).allowed =
        decide (((count + 1 : Nat) : Int) ≤ limit) := rfl
    rw [hdecided]
    by_cases hle : ((count + 1 : Nat) : Int) ≤ limit
    · have hmin : min (limit.toNat - count) (times.length + 1) =
          min (limit.toNat - (count + 1)) times.length + 1 := by omega
      have hrest : times.length + 1 - (limit.toNat - count) =
          times.length - (limit.toNat - (count + 1)) := by omega
      rw [decide_eq_true hle, hmin, hrest, List.replicate_succ, List.cons_append]
    · have hzero : limit.toNat - count = 0 := by omega
      have hzero' : limit.toNat - (count + 1) = 0 := by omega
      rw [decide_eq_false hle, hzero, hzero', Nat.zero_min, Nat.zero_min, Nat.sub_zero,
        Nat.sub_zero, List.replicate_zero, List.nil_append, List.nil_append, List.replicate_succ]

theorem map_fst_serve (found : Option Window) (times : List Time) :
    (serve limit windowSeconds found times).map Prod.fst = times := by
  induction times generalizing found with
  | nil => rfl
  | cons t times ih => rw [serve, List.map_cons, ih]

/-- The first call opens a window, which takes the calls up to its end. -/
theorem isWindow_serve {now : Time} {times : List Time} (h : ∀ t ∈ times, t < now + windowSeconds) :
    IsWindow limit windowSeconds (serve limit windowSeconds none (now :: times)) := by
  rw [serve, counted_none]
  refine ⟨List.cons_ne_nil _ _, ?_, ?_⟩
  · intro start hstart c hc
    cases hstart
    rw [List.tail_cons] at hc
    have htime := List.mem_map_of_mem (f := Prod.fst) hc
    rw [map_fst_serve] at htime
    exact h c.1 htime
  · have hlength : (serve limit windowSeconds (some (1, now + windowSeconds)) times).length =
        times.length := by
      rw [← List.length_map (f := Prod.fst), map_fst_serve]
    have hdecided : (decided limit windowSeconds now (1, now + windowSeconds)).allowed =
        decide (1 ≤ limit) := rfl
    rw [List.map_cons, allowed_serve_open h, hdecided, List.length_cons, hlength]
    by_cases hle : 1 ≤ limit
    · have hmin : min limit.toNat (times.length + 1) = min (limit.toNat - 1) times.length + 1 := by
        omega
      have hrest : times.length + 1 - limit.toNat = times.length - (limit.toNat - 1) := by omega
      rw [decide_eq_true hle, hmin, hrest, List.replicate_succ, List.cons_append]
    · have hzero : limit.toNat = 0 := by omega
      rw [decide_eq_false hle, hzero, Nat.zero_sub, Nat.zero_min, Nat.zero_min, Nat.sub_zero,
        Nat.sub_zero, List.replicate_zero, List.nil_append, List.nil_append, List.replicate_succ]

theorem opened_serve (found : Option Window) (times : List Time) :
    opened (serve limit windowSeconds found times) = times.head? := by
  rw [opened, ← List.head?_map, map_fst_serve]

theorem inWindows_serve (times : List Time) :
    InWindows limit windowSeconds (serve limit windowSeconds none times) := by
  match times with
  | [] => exact ⟨[], rfl, nofun, .nil⟩
  | now :: times =>
    have hshort : (times.dropWhile (fun t => t < now + windowSeconds)).length <
        (now :: times).length :=
      Nat.lt_succ_of_le (List.dropWhile_sublist _).length_le
    obtain ⟨windows, hflatten, hwindows, hchain⟩ :=
      inWindows_serve (times.dropWhile (fun t => t < now + windowSeconds))
    have hfirst : ∀ t ∈ times.takeWhile (fun t => t < now + windowSeconds),
        t < now + windowSeconds := by
      intro t ht
      simpa using List.mem_takeWhile_imp ht
    refine ⟨serve limit windowSeconds none
      (now :: times.takeWhile (fun t => t < now + windowSeconds)) :: windows, ?_,
      List.forall_mem_cons.mpr ⟨isWindow_serve hfirst, hwindows⟩, ?_⟩
    · rw [List.flatten_cons, hflatten, serve, serve, counted_none, List.cons_append, ← serve_split]
    · cases windows with
      | nil => exact .singleton _
      | cons next windows =>
        refine .cons_cons ?_ hchain
        intro start hstart start' hstart'
        rw [opened_serve] at hstart
        cases hstart
        -- The next window is opened by the first call that is left.
        have hnext : (times.dropWhile (fun t => t < now + windowSeconds)).head? = some start' := by
          have hhead : opened (next :: windows).flatten = some start' := by
            obtain ⟨first, rest, rfl⟩ :=
              List.exists_cons_of_ne_nil (hwindows next List.mem_cons_self).nonempty
            exact hstart'
          rw [hflatten, opened_serve] at hhead
          exact hhead
        have hnot := List.head?_dropWhile_not (fun t => decide (t < now + windowSeconds)) times
        rw [hnext] at hnot
        exact not_lt.mp (of_decide_eq_false hnot)
  termination_by times.length
  decreasing_by exact hshort

end

/-- The calls of every key fall into windows of one length, each opened by the first call
after the last one, with the first calls of each window allowed; and pruning changes none
of the decisions. -/
theorem local_limit_exact (limit windowSeconds : Int) {calls : List LocalCall}
    (hclock : calls.Pairwise (fun a b => a.now ≤ b.now)) :
    (∀ key, InWindows limit windowSeconds
      (ofKey key (decisionsWith (checkLocal limit windowSeconds) [] calls))) ∧
      decisionsWith (checkLocal limit windowSeconds) [] calls =
      decisionsWith (checkWith kept limit windowSeconds) [] calls := by
  have hpruned : decisionsWith (checkLocal limit windowSeconds) [] calls =
      decisionsWith (checkWith kept limit windowSeconds) [] calls := by
    cases calls with
    | nil => rfl
    | cons c calls =>
      have hstart : ∀ c' ∈ c :: calls, c.now ≤ c'.now :=
        List.forall_mem_cons.mpr ⟨le_rfl, (List.pairwise_cons.mp hclock).1⟩
      exact decisions_pruned hclock hstart List.nodup_nil (fun _ _ _ => rfl)
  refine ⟨?_, hpruned⟩
  intro key
  rw [hpruned, ofKey_decisions]
  exact inWindows_serve _

/-! Two keys, a window of ten seconds, and two calls allowed in it. -/

def twoKeys : List LocalCall :=
  [⟨"alice", 0⟩, ⟨"bob", 4⟩, ⟨"alice", 5⟩, ⟨"alice", 9⟩, ⟨"alice", 10⟩]

theorem local_limit_exact_twoKeys :
    (∀ key, InWindows 2 10 (ofKey key (decisionsWith (checkLocal 2 10) [] twoKeys))) ∧
      decisionsWith (checkLocal 2 10) [] twoKeys = decisionsWith (checkWith kept 2 10) [] twoKeys :=
  local_limit_exact 2 10 (by decide +kernel)

example :
    (decisionsWith (checkLocal 2 10) [] twoKeys).map (fun r => r.2.allowed) =
      [true, true, true, false, true] := by
  decide +kernel

end AgenticPlatform.Security
