import AgenticPlatform.Foundation.Transition
import AgenticPlatform.Identity.Principal
import AgenticPlatform.Security.RateLimit

/-!
# Shared rate limits

Replicas that admit through one Redis. The script counts a call in the window of its key; the
answer may be lost, or the script not be reached, and the replica then does what its settings
say. Whatever the replicas do, the calls of a subject are counted as one process would count
them, and where the limiter fails closed none is admitted that was not counted.
-/
namespace AgenticPlatform.Security
open AgenticPlatform.Foundation AgenticPlatform.Identity

inductive Environment where
  | local_ | ci | staging | production
deriving DecidableEq

structure LimiterSettings where
  environment : Environment
  jwtSecret : String
  rateLimitEnabled : Bool
  rateLimitFailClosed : Bool
  authenticatedRequestsPerMinute : Nat
  loginAttemptsPerWindow : Nat
  loginWindowSeconds : Nat
  authenticated_bound : 1 ≤ authenticatedRequestsPerMinute
  attempts_bound : 1 ≤ loginAttemptsPerWindow
  window_bound : 1 ≤ loginWindowSeconds

structure LimiterEnv where
  /-- In hexadecimal. -/
  hmac : String → String → String
  uuidText : Uuid → String
  casefold : String → String
  /-- `TTL`, of the time that is left. -/
  ttl : Time → Int

/-- Whoever calls the limiter: the middleware for a principal, or a login. -/
inductive Applicant where
  | authenticated (tenantId principalId : Uuid)
  | login (clientIp : Option String) (tenant subject : String)
deriving DecidableEq

namespace Applicant

def bucket : Applicant → String
  | .authenticated .. => "authenticated"
  | .login .. => "login"

def subjectText (env : LimiterEnv) : Applicant → String
  | .authenticated tenantId principalId => env.uuidText tenantId ++ ":" ++ env.uuidText principalId
  | .login clientIp tenant subject =>
    clientIp.getD "unknown" ++ ":" ++ env.casefold tenant ++ ":" ++ env.casefold subject

def limit (settings : LimiterSettings) : Applicant → Nat
  | .authenticated .. => settings.authenticatedRequestsPerMinute
  | .login .. => settings.loginAttemptsPerWindow

def windowSeconds (settings : LimiterSettings) : Applicant → Nat
  | .authenticated .. => 60
  | .login .. => settings.loginWindowSeconds

end Applicant

/-- How far a call of the script comes. -/
inductive ScriptCall where
  | answered
  /-- It runs, and its answer does not arrive. -/
  | lost
  | unreached
deriving DecidableEq

/-- A call of the limiter. -/
structure LimitEvent where
  applicant : Applicant
  /-- When the script counted it, and what its answer amounts to. -/
  counted : Option (Time × LimitDecision)
  /-- `none` for `RateLimitUnavailable`. -/
  answer : Option LimitDecision

structure LimiterState where
  /-- Counts and when they expire; from then on they are not there. -/
  shared : String → Option Window
  /-- The clock of Redis. -/
  now : Time
  /-- The windows of each replica. -/
  locals : Nat → LocalWindows
  /-- Not stored. -/
  log : List LimitEvent

def LimiterState.initial (now : Time) : LimiterState := ⟨fun _ => none, now, fun _ => [], []⟩

inductive LimiterAct where
  | tick (later : Time)
  /-- With the monotonic clock of the replica. -/
  | check (replica : Nat) (a : Applicant) (call : ScriptCall) (monotonic : Time)

/-- `_WINDOW_SCRIPT`. -/
def windowScript (windowSeconds : Int) (now : Time) (found : Option Window) : Window :=
  match found.filter (fun window => now < window.2) with
  | none => (1, now + windowSeconds)
  | some (count, expiresAt) => (count + 1, if count + 1 = 1 then now + windowSeconds else expiresAt)

section
variable (env : LimiterEnv) (settings : LimiterSettings)

/-- `_key`. -/
def limiterKey (a : Applicant) : String :=
  "platform:limit:" ++ a.bucket ++ ":" ++ toString (a.windowSeconds settings) ++ ":" ++
    env.hmac settings.jwtSecret (a.subjectText env)

/-- All calls are let through. -/
def unlimited (a : Applicant) : LimitDecision := ⟨true, a.limit settings, a.limit settings, 0⟩

/-- The answer without Redis, and the windows of the replica after it. -/
def withoutRedis (windows : LocalWindows) (a : Applicant) (monotonic : Time) :
    LocalWindows × Option LimitDecision :=
  if settings.environment = .staging ∨ settings.environment = .production then
    (windows, if settings.rateLimitFailClosed then none else some (unlimited settings a))
  else
    let checked :=
      checkLocal (a.limit settings) (a.windowSeconds settings) windows monotonic
        (limiterKey env settings a)
    (checked.1, some checked.2)

/-- `check`. -/
def limiterStep (s : LimiterState) : LimiterAct → Option LimiterState
  | .tick later => if s.now ≤ later then some { s with now := later } else none
  | .check replica a call monotonic =>
    if settings.rateLimitEnabled then
      let key := limiterKey env settings a
      let window := windowScript (a.windowSeconds settings) s.now (s.shared key)
      let d :=
        decision window.1 (env.ttl (window.2 - s.now)) (a.limit settings) (a.windowSeconds settings)
      let without := withoutRedis env settings (s.locals replica) a monotonic
      match call with
      | .answered =>
        some { s with shared := Function.update s.shared key (some window), log := s.log ++
          [⟨a, some (s.now, d), some d⟩] }
      | .lost =>
        some { s with
          shared := Function.update s.shared key (some window)
          locals := Function.update s.locals replica without.1
          log := s.log ++ [⟨a, some (s.now, d), without.2⟩] }
      | .unreached =>
        some { s with
          locals := Function.update s.locals replica without.1
          log := s.log ++ [⟨a, none, without.2⟩] }
    else some { s with log := s.log ++ [⟨a, none, some (unlimited settings a)⟩] }

end

/-! ## Keys -/

section
variable {env : LimiterEnv} {settings : LimiterSettings} {a b : Applicant}

theorem bucket_ne (x y : String) :
    "platform:limit:" ++ "authenticated" ++ x ≠ "platform:limit:" ++ "login" ++ y := by
  intro h
  rw [String.append_assoc, String.append_assoc, String.append_right_inj] at h
  have hletters := congrArg String.toList h
  rw [String.toList_append, String.toList_append] at hletters
  cases hletters

theorem limiterKey_eq (a : Applicant) :
    limiterKey env settings a = "platform:limit:" ++ a.bucket ++
      (":" ++ (toString (a.windowSeconds settings) ++
        (":" ++ env.hmac settings.jwtSecret (a.subjectText env)))) := by
  unfold limiterKey
  rw [String.append_assoc, String.append_assoc, String.append_assoc]

theorem bucket_of_limiterKey (h : limiterKey env settings a = limiterKey env settings b) :
    a.bucket = b.bucket := by
  rw [limiterKey_eq, limiterKey_eq] at h
  cases a with
  | authenticated => cases b with
    | authenticated => rfl
    | login => exact absurd h (bucket_ne _ _)
  | login => cases b with
    | authenticated => exact absurd h.symm (bucket_ne _ _)
    | login => rfl

theorem window_of_bucket (h : a.bucket = b.bucket) :
    a.windowSeconds settings = b.windowSeconds settings ∧ a.limit settings = b.limit settings := by
  have hne : Applicant.bucket (.authenticated 0 0) ≠ Applicant.bucket (.login none "" "") := by
    decide
  cases a with
  | authenticated => cases b with
    | authenticated => exact ⟨rfl, rfl⟩
    | login => exact absurd h hne
  | login => cases b with
    | authenticated => exact absurd h.symm hne
    | login => exact ⟨rfl, rfl⟩

/-- Applicants share a window exactly where they are the same to the limiter. -/
theorem limiterKey_eq_iff (hinj : Function.Injective (env.hmac settings.jwtSecret)) :
    limiterKey env settings a = limiterKey env settings b ↔
      a.bucket = b.bucket ∧ a.subjectText env = b.subjectText env := by
  constructor
  · intro h
    have hbucket := bucket_of_limiterKey h
    rw [limiterKey_eq, limiterKey_eq, hbucket, (window_of_bucket hbucket).1] at h
    simp only [String.append_right_inj] at h
    exact ⟨hbucket, hinj h⟩
  · rintro ⟨hbucket, hsubject⟩
    rw [limiterKey_eq, limiterKey_eq, hbucket, (window_of_bucket hbucket).1, hsubject]

end

/-! ## One window -/

section
variable {limit windowSeconds : Int} {now : Time} {found : Option Window}

/-- No window has counted nothing. -/
def Opened (found : Option Window) : Prop := ∀ window ∈ found, window.1 ≠ 0

/-- The script counts as the replicas do. -/
theorem windowScript_eq (h : Opened found) :
    windowScript windowSeconds now found = counted windowSeconds now found := by
  unfold windowScript
  cases found with
  | none => exact (counted_none now).symm
  | some window =>
    obtain ⟨count, expiresAt⟩ := window
    by_cases hopen : now < expiresAt
    · have hcount : ¬ count + 1 = 1 := by
        have hpos := h _ rfl
        omega
      rw [Option.filter_some, if_pos (decide_eq_true hopen), counted_open hopen]
      simp only [if_neg hcount]
    · have hended : ¬ decide (now < expiresAt) = true := by simpa using hopen
      rw [Option.filter_some, if_neg hended, counted, sameFrom_ended (not_lt.mp hopen) now le_rfl]
      exact (counted_none now).symm

/-- What calls at these times leave of a window. -/
def windowAfter (windowSeconds : Int) (found : Option Window) (times : List Time) : Option Window :=
  times.foldl (fun found now => some (counted windowSeconds now found)) found

theorem windowAfter_concat (found : Option Window) (times : List Time) (now : Time) :
    windowAfter windowSeconds found (times ++ [now]) =
      some (counted windowSeconds now (windowAfter windowSeconds found times)) := by
  rw [windowAfter, List.foldl_append]
  rfl

theorem opened_windowAfter (times : List Time) : Opened (windowAfter windowSeconds none times) := by
  intro window hwindow
  rcases List.eq_nil_or_concat times with rfl | ⟨times, now, rfl⟩
  · cases hwindow
  · rw [List.concat_eq_append, windowAfter_concat] at hwindow
    cases hwindow
    exact Nat.succ_ne_zero _

theorem serve_concat (found : Option Window) (times : List Time) (now : Time) :
    serve limit windowSeconds found (times ++ [now]) = serve limit windowSeconds found times ++
      [(now, decided limit windowSeconds now
        (counted windowSeconds now (windowAfter windowSeconds found times)))] := by
  induction times generalizing found with
  | nil => rfl
  | cons t times ih =>
    rw [List.cons_append, serve, serve, ih, List.cons_append]
    rfl

/-- A decision but for the time to wait. -/
def plain (c : Time × LimitDecision) : Time × Bool × Int × Int :=
  (c.1, c.2.allowed, c.2.limit, c.2.remaining)

/-- Windows can be told without the time to wait. -/
theorem isWindow_congr {window window' : List (Time × LimitDecision)}
    (hplain : window'.map plain = window.map plain) (h : IsWindow limit windowSeconds window) :
    IsWindow limit windowSeconds window' := by
  have htimes : window'.map Prod.fst = window.map Prod.fst := by
    simpa [plain, Function.comp_def] using congrArg (List.map Prod.fst) hplain
  have hallowed : window'.map (fun c => c.2.allowed) = window.map (fun c => c.2.allowed) := by
    simpa [plain, Function.comp_def] using congrArg (List.map (fun p => p.2.1)) hplain
  have hlength : window'.length = window.length := by
    simpa using congrArg List.length htimes
  refine ⟨?_, ?_, ?_⟩
  · intro hnil
    rw [hnil, List.length_nil] at hlength
    exact h.nonempty (List.length_eq_zero_iff.mp hlength.symm)
  · intro start hstart c hc
    rw [opened, ← List.head?_map, htimes, List.head?_map] at hstart
    have hmem : c.1 ∈ (window.map Prod.fst).tail := by
      rw [← htimes, ← List.map_tail]
      exact List.mem_map_of_mem hc
    rw [← List.map_tail] at hmem
    obtain ⟨c', hc', heq⟩ := List.mem_map.mp hmem
    exact heq ▸ h.within start hstart c' hc'
  · rw [hallowed, hlength]
    exact h.allowed

theorem opened_congr {window window' : List (Time × LimitDecision)}
    (hplain : window'.map plain = window.map plain) : opened window' = opened window := by
  have htimes : window'.map Prod.fst = window.map Prod.fst := by
    simpa [plain, Function.comp_def] using congrArg (List.map Prod.fst) hplain
  rw [opened, opened, ← List.head?_map, ← List.head?_map, htimes]

theorem split_congr {β γ : Type} {f : β → γ} {parts : List (List β)} {l : List β}
    (h : l.map f = parts.flatten.map f) :
    ∃ parts', parts'.flatten = l ∧
      List.Forall₂ (fun part' part => part'.map f = part.map f) parts' parts := by
  induction parts generalizing l with
  | nil =>
    have hnil : l = [] := List.map_eq_nil_iff.mp h
    exact ⟨[], hnil.symm, .nil⟩
  | cons part parts ih =>
    rw [List.flatten_cons, List.map_append] at h
    obtain ⟨first, rest, rfl, hfirst, hrest⟩ := List.map_eq_append_iff.mp h
    obtain ⟨parts', rfl, hparts⟩ := ih hrest
    exact ⟨first :: parts', rfl, .cons hfirst hparts⟩

theorem inWindows_congr {answers answers' : List (Time × LimitDecision)}
    (hplain : answers'.map plain = answers.map plain) (h : InWindows limit windowSeconds answers) :
    InWindows limit windowSeconds answers' := by
  obtain ⟨windows, rfl, hwindows, hchain⟩ := h
  obtain ⟨windows', rfl, hparts⟩ := split_congr hplain
  refine ⟨windows', rfl, ?_, ?_⟩
  · clear hplain hchain
    induction hparts with
    | nil => exact hwindows
    | cons hfirst _ ih =>
      obtain ⟨hhead, htail⟩ := List.forall_mem_cons.mp hwindows
      exact List.forall_mem_cons.mpr ⟨isWindow_congr hfirst hhead, ih htail⟩
  · clear hplain hwindows
    induction hparts with
    | nil => exact .nil
    | cons hfirst hrest ih =>
      cases hrest with
      | nil => exact .singleton _
      | cons hsecond hrest =>
        rw [List.isChain_cons_cons] at hchain
        refine .cons_cons ?_ (ih hchain.2)
        rw [Follows, opened_congr hfirst, opened_congr hsecond]
        exact hchain.1

end

/-! ## All replicas -/

section
variable (env : LimiterEnv) (settings : LimiterSettings)

/-- What was counted under a key, in the order of Redis. -/
def countedUnder (key : String) (log : List LimitEvent) : List (Time × LimitDecision) :=
  log.filterMap (fun e => if limiterKey env settings e.applicant = key then e.counted else none)

/-- What was counted of callers that are the same to the limiter as this one. -/
def countedOf (a : Applicant) (log : List LimitEvent) : List (Time × LimitDecision) :=
  log.filterMap (fun e =>
    if e.applicant.bucket = a.bucket ∧
      e.applicant.subjectText env = a.subjectText env then e.counted else none)

/-- The calls counted in a bucket, as calls of one process. -/
def bucketCalls (bucket : String) (log : List LimitEvent) : List LocalCall :=
  log.filterMap (fun e =>
    if e.applicant.bucket =
      bucket then e.counted.map (fun c => ⟨limiterKey env settings e.applicant, c.1⟩)
    else none)

structure LimiterInv (s : LimiterState) : Prop where
  windows : ∀ a : Applicant, s.shared (limiterKey env settings a) =
    windowAfter (a.windowSeconds settings) none
    ((countedUnder env settings (limiterKey env settings a) s.log).map Prod.fst)
  decisions : ∀ a : Applicant,
    (countedUnder env settings (limiterKey env settings a) s.log).map plain =
    (serve (a.limit settings) (a.windowSeconds settings) none
      ((countedUnder env settings (limiterKey env settings a) s.log).map Prod.fst)).map plain
  past : ∀ e ∈ s.log, ∀ c ∈ e.counted, c.1 ≤ s.now
  clock : s.log.Pairwise (fun e e' => ∀ c ∈ e.counted, ∀ c' ∈ e'.counted, c.1 ≤ c'.1)

/-- What a step writes to the log, and what the store then has. -/
inductive LimiterMove (s : LimiterState) : LimiterState → Prop
  | ticked (later : Time) (h : s.now ≤ later) : LimiterMove s { s with now := later }
  | counted (t : LimiterState) (a : Applicant) (answer : Option LimitDecision) (d : LimitDecision)
    (hd : d = decision
      (windowScript (a.windowSeconds settings) s.now (s.shared (limiterKey env settings a))).1
      (env.ttl ((windowScript (a.windowSeconds settings) s.now (s.shared
      (limiterKey env settings a))).2 - s.now)) (a.limit settings) (a.windowSeconds settings))
    (hshared : t.shared = Function.update s.shared (limiterKey env settings a)
      (some (windowScript (a.windowSeconds settings) s.now (s.shared (limiterKey env settings a)))))
    (hnow : t.now = s.now) (hlog : t.log = s.log ++ [⟨a, some (s.now, d), answer⟩])
    (hanswer : answer = some d ∨
      ∃ windows monotonic, answer = (withoutRedis env settings windows a monotonic).2) :
    LimiterMove s t
  | uncounted (t : LimiterState) (a : Applicant) (answer : Option LimitDecision)
    (hshared : t.shared = s.shared) (hnow : t.now = s.now)
    (hlog : t.log = s.log ++ [⟨a, none, answer⟩])
    (hanswer : settings.rateLimitEnabled = false ∨
      ∃ windows monotonic, answer = (withoutRedis env settings windows a monotonic).2) :
    LimiterMove s t

variable {env settings} {s t : LimiterState}

theorem limiterStep_move {act : LimiterAct} (h : limiterStep env settings s act = some t) :
    LimiterMove env settings s t := by
  cases act with
  | tick later =>
    simp only [limiterStep] at h
    split at h
    · cases h
      exact .ticked later ‹_›
    · cases h
  | check replica a call monotonic =>
    simp only [limiterStep] at h
    split at h
    · cases call with
      | answered =>
        cases h
        exact .counted _ a _ _ rfl rfl rfl rfl (.inl rfl)
      | lost =>
        cases h
        exact .counted _ a _ _ rfl rfl rfl rfl (.inr ⟨_, _, rfl⟩)
      | unreached =>
        cases h
        exact .uncounted _ a _ rfl rfl rfl (.inr ⟨_, _, rfl⟩)
    · rename_i hdisabled
      cases h
      exact .uncounted _ a _ rfl rfl rfl (.inl (Bool.eq_false_of_not_eq_true hdisabled))

theorem countedUnder_concat (key : String) (log : List LimitEvent) (e : LimitEvent) :
    countedUnder env settings key (log ++ [e]) = countedUnder env settings key log ++
      (if limiterKey env settings e.applicant = key then e.counted else none).toList := by
  unfold countedUnder
  rw [List.filterMap_append]
  cases h : (if limiterKey env settings e.applicant = key then e.counted else none) <;> simp [h]

theorem limiterInv_initial (now : Time) : LimiterInv env settings (.initial now) where
  windows _ := rfl
  decisions _ := rfl
  past _ he := absurd he List.not_mem_nil
  clock := .nil

/-- Nothing is counted. -/
theorem LimiterInv.uncounted {a : Applicant} {answer : Option LimitDecision}
    (h : LimiterInv env settings s) (hshared : t.shared = s.shared) (hnow : t.now = s.now)
    (hlog : t.log = s.log ++ [⟨a, none, answer⟩]) : LimiterInv env settings t := by
  have hsame : ∀ key,
      countedUnder env settings key t.log = countedUnder env settings key s.log := by
    intro key
    rw [hlog, countedUnder_concat, ite_self]
    exact List.append_nil _
  refine ⟨?_, ?_, ?_, ?_⟩
  · intro b
    rw [hshared, hsame]
    exact h.windows b
  · intro b
    rw [hsame]
    exact h.decisions b
  · intro e he c hc
    rw [hlog] at he
    rcases List.mem_append.mp he with hold | hnew
    · exact hnow ▸ h.past e hold c hc
    · cases List.mem_singleton.mp hnew
      cases hc
  · rw [hlog]
    refine List.pairwise_append.mpr ⟨h.clock, List.pairwise_singleton _ _, ?_⟩
    intro e _ e' he' c _ c' hc'
    cases List.mem_singleton.mp he'
    cases hc'

/-- A call is counted as one process would count it. -/
theorem LimiterInv.counted {a : Applicant} {answer : Option LimitDecision} {d : LimitDecision}
    (h : LimiterInv env settings s) (hd : d = decision
      (windowScript (a.windowSeconds settings) s.now (s.shared (limiterKey env settings a))).1
      (env.ttl ((windowScript (a.windowSeconds settings) s.now (s.shared
      (limiterKey env settings a))).2 - s.now)) (a.limit settings) (a.windowSeconds settings))
    (hshared : t.shared = Function.update s.shared (limiterKey env settings a)
      (some (windowScript (a.windowSeconds settings) s.now (s.shared (limiterKey env settings a)))))
    (hnow : t.now = s.now) (hlog : t.log = s.log ++ [⟨a, some (s.now, d), answer⟩]) :
    LimiterInv env settings t := by
  have hother : ∀ b : Applicant, limiterKey env settings a ≠ limiterKey env settings b →
      countedUnder env settings (limiterKey env settings b) t.log =
      countedUnder env settings (limiterKey env settings b) s.log := by
    intro b hne
    rw [hlog, countedUnder_concat, if_neg hne]
    exact List.append_nil _
  have hsame : countedUnder env settings (limiterKey env settings a) t.log =
      countedUnder env settings (limiterKey env settings a) s.log ++ [(s.now, d)] := by
    rw [hlog, countedUnder_concat, if_pos rfl]
    rfl
  have hscript :
      windowScript (a.windowSeconds settings) s.now (s.shared (limiterKey env settings a)) =
      Security.counted (a.windowSeconds settings) s.now (s.shared (limiterKey env settings a)) :=
    windowScript_eq (h.windows a ▸ opened_windowAfter _)
  refine ⟨?_, ?_, ?_, ?_⟩
  · intro b
    by_cases hkey : limiterKey env settings a = limiterKey env settings b
    · obtain ⟨hwindow, -⟩ : a.windowSeconds settings = b.windowSeconds settings ∧
          a.limit settings = b.limit settings :=
        window_of_bucket (bucket_of_limiterKey hkey)
      rw [← hkey, ← hwindow, hshared, Function.update_self, hsame, List.map_append,
        List.map_singleton, windowAfter_concat, hscript, h.windows a]
    · rw [hother b hkey, hshared, Function.update_of_ne (Ne.symm hkey)]
      exact h.windows b
  · intro b
    by_cases hkey : limiterKey env settings a = limiterKey env settings b
    · obtain ⟨hwindow, hlimit⟩ : a.windowSeconds settings = b.windowSeconds settings ∧
          a.limit settings = b.limit settings :=
        window_of_bucket (bucket_of_limiterKey hkey)
      rw [← hkey, ← hwindow, ← hlimit, hsame, List.map_append, List.map_append, List.map_singleton,
        List.map_singleton, serve_concat, List.map_append, h.decisions a, ← h.windows a]
      congr 1
      rw [hd, hscript]
      rfl
    · rw [hother b hkey]
      exact h.decisions b
  · intro e he c hc
    rw [hlog] at he
    rcases List.mem_append.mp he with hold | hnew
    · exact hnow ▸ h.past e hold c hc
    · cases List.mem_singleton.mp hnew
      cases hc
      exact hnow ▸ le_rfl
  · rw [hlog]
    refine List.pairwise_append.mpr ⟨h.clock, List.pairwise_singleton _ _, ?_⟩
    intro e he e' he' c hc c' hc'
    cases List.mem_singleton.mp he'
    cases hc'
    exact h.past e he c hc

theorem LimiterInv.step {act : LimiterAct} (h : LimiterInv env settings s)
    (hstep : limiterStep env settings s act = some t) : LimiterInv env settings t := by
  cases limiterStep_move hstep with
  | ticked later hle =>
    exact ⟨h.windows, h.decisions, fun e he c hc => (h.past e he c hc).trans hle, h.clock⟩
  | counted _ a answer d hd hshared hnow hlog hanswer => exact h.counted hd hshared hnow hlog
  | uncounted _ a answer hshared hnow hlog hanswer => exact h.uncounted hshared hnow hlog

theorem limiterInv_run {now : Time} {acts : List LimiterAct}
    (h : Reaches (limiterStep env settings) (.initial now) acts s) : LimiterInv env settings s :=
  h.invariant (fun _ _ _ => LimiterInv.step) (limiterInv_initial now)

/-! ## The same as one process, and never more -/

theorem countedOf_eq (hinj : Function.Injective (env.hmac settings.jwtSecret)) (a : Applicant)
    (log : List LimitEvent) :
    countedOf env a log = countedUnder env settings (limiterKey env settings a) log := by
  refine List.filterMap_congr ?_
  intro e _
  simp only [limiterKey_eq_iff hinj]

/-- The calls of the bucket under one of its keys. -/
theorem bucketCalls_under (a : Applicant) (log : List LimitEvent) :
    ((bucketCalls env settings a.bucket log).filter
      (fun c => c.key = limiterKey env settings a)).map LocalCall.now =
      (countedUnder env settings (limiterKey env settings a) log).map Prod.fst := by
  induction log with
  | nil => rfl
  | cons e log ih =>
    by_cases hkey : limiterKey env settings e.applicant = limiterKey env settings a
    · have hbucket := bucket_of_limiterKey hkey
      cases hcounted : e.counted with
      | none => simpa [bucketCalls, countedUnder, hcounted] using ih
      | some c => simpa [bucketCalls, countedUnder, hcounted, hkey, hbucket] using ih
    · have hrest : (countedUnder env settings (limiterKey env settings a) (e :: log)) =
          countedUnder env settings (limiterKey env settings a) log := by simp [countedUnder, hkey]
      rw [hrest, ← ih]
      cases hcounted : e.counted with
      | none => simp [bucketCalls, hcounted]
      | some c =>
        by_cases hbucket : e.applicant.bucket = a.bucket
        · simp [bucketCalls, hcounted, hbucket, hkey]
        · simp [bucketCalls, hbucket]

theorem bucketCalls_clock (h : LimiterInv env settings s) (bucket : String) :
    (bucketCalls env settings bucket s.log).Pairwise (fun a b => a.now ≤ b.now) := by
  refine List.pairwise_filterMap.mpr (h.clock.imp ?_)
  intro e e' hclock c hc c' hc'
  split at hc
  · split at hc'
    · obtain ⟨counted, hcounted, rfl⟩ := Option.map_eq_some_iff.mp hc
      obtain ⟨counted', hcounted', rfl⟩ := Option.map_eq_some_iff.mp hc'
      exact hclock counted hcounted counted' hcounted'
    · cases hc'
  · cases hc

theorem decisions_kept (limit windowSeconds : Int) {calls : List LocalCall}
    (hclock : calls.Pairwise (fun a b => a.now ≤ b.now)) :
    decisionsWith (checkLocal limit windowSeconds) [] calls =
      decisionsWith (checkWith kept limit windowSeconds) [] calls := by
  cases calls with
  | nil => rfl
  | cons c calls =>
    have hstart : ∀ c' ∈ c :: calls, c.now ≤ c'.now :=
      List.forall_mem_cons.mpr ⟨le_rfl, (List.pairwise_cons.mp hclock).1⟩
    exact decisions_pruned hclock hstart List.nodup_nil (fun _ _ _ => rfl)

/-- However the calls of the replicas are mixed, and whatever answers are lost: Redis decides on
those it counts as one process would that counts them all itself. -/
theorem shared_as_local (hinj : Function.Injective (env.hmac settings.jwtSecret)) {now : Time}
    {acts : List LimiterAct} (h : Reaches (limiterStep env settings) (.initial now) acts s)
    (a : Applicant) :
    (countedOf env a s.log).map plain = (ofKey (limiterKey env settings a)
      (decisionsWith (checkLocal (a.limit settings) (a.windowSeconds settings)) []
        (bucketCalls env settings a.bucket s.log))).map plain := by
  have hinv := limiterInv_run h
  rw [countedOf_eq hinj, decisions_kept _ _ (bucketCalls_clock hinv a.bucket), ofKey_decisions,
    bucketCalls_under]
  exact hinv.decisions a

/-- Nobody is admitted without having been counted. -/
def FailsClosed (log : List LimitEvent) : Prop :=
  ∀ e ∈ log, ∀ d, e.answer = some d → ∃ now, e.counted = some (now, d)

theorem failsClosed_step {act : LimiterAct} (henabled : settings.rateLimitEnabled = true)
    (hdeployed : settings.environment = .staging ∨ settings.environment = .production)
    (hclosed : settings.rateLimitFailClosed = true) (h : FailsClosed s.log)
    (hstep : limiterStep env settings s act = some t) : FailsClosed t.log := by
  have hwithout : ∀ windows a monotonic,
      (withoutRedis env settings windows a monotonic).2 = none := by
    intro windows a monotonic
    rw [withoutRedis, if_pos hdeployed, if_pos hclosed]
  cases limiterStep_move hstep with
  | ticked later hle => exact h
  | counted _ a answer d hd hshared hnow hlog hanswer =>
    rw [hlog]
    intro e he d' hd'
    rcases List.mem_append.mp he with hold | hnew
    · exact h e hold d' hd'
    · cases List.mem_singleton.mp hnew
      rcases hanswer with rfl | ⟨windows, monotonic, rfl⟩
      · cases hd'
        exact ⟨s.now, rfl⟩
      · exact absurd ((hwithout windows a monotonic).symm.trans hd') (Option.some_ne_none d').symm
  | uncounted _ a answer hshared hnow hlog hanswer =>
    rw [hlog]
    intro e he d' hd'
    rcases List.mem_append.mp he with hold | hnew
    · exact h e hold d' hd'
    · cases List.mem_singleton.mp hnew
      rcases hanswer with hdisabled | ⟨windows, monotonic, rfl⟩
      · cases henabled.symm.trans hdisabled
      · exact absurd ((hwithout windows a monotonic).symm.trans hd') (Option.some_ne_none d').symm

/-- In a deployment that fails closed, over all its replicas and whatever answers of Redis are
lost: whoever is admitted was counted, and the calls counted of one subject fall into windows
of one length, in each of which the first ones are allowed, as many as the limit says. -/
theorem shared_limit (hinj : Function.Injective (env.hmac settings.jwtSecret))
    (henabled : settings.rateLimitEnabled = true)
    (hdeployed : settings.environment = .staging ∨ settings.environment = .production)
    (hclosed : settings.rateLimitFailClosed = true) {now : Time} {acts : List LimiterAct}
    (h : Reaches (limiterStep env settings) (.initial now) acts s) :
    FailsClosed s.log ∧ ∀ a : Applicant,
      InWindows (a.limit settings) (a.windowSeconds settings) (countedOf env a s.log) := by
  constructor
  · refine h.invariant (fun _ _ _ => failsClosed_step henabled hdeployed hclosed) ?_
    intro e he
    exact absurd he List.not_mem_nil
  · intro a
    rw [countedOf_eq hinj]
    exact inWindows_congr ((limiterInv_run h).decisions a) (inWindows_serve _)

end

/-! ## Two replicas and one login -/

/-- Texts that stand for their digests. -/
def plainLimiter : LimiterEnv :=
  ⟨fun _ subject => subject, fun id => toString id, id, fun left => ⌈left⌉⟩

theorem one_le_sixHundred : 1 ≤ 600 := by decide

def twoAttempts : LimiterSettings where
  environment := .production
  jwtSecret := "key"
  rateLimitEnabled := true
  rateLimitFailClosed := true
  authenticatedRequestsPerMinute := 600
  loginAttemptsPerWindow := 2
  loginWindowSeconds := 300
  authenticated_bound := one_le_sixHundred
  attempts_bound := by decide
  window_bound := by decide

def aliceLogin : Applicant := .login (some "10.0.0.1") "acme" "alice"

/-- One attempt is counted and not heard, and one does not reach Redis. -/
def sprayed : List LimiterAct :=
  [.check 0 aliceLogin .answered 0, .tick 10, .check 1 aliceLogin .lost 4,
    .check 1 (.authenticated 1 7) .answered 5, .tick 20, .check 0 aliceLogin .answered 20,
    .check 1 aliceLogin .unreached 9, .tick 300, .check 1 aliceLogin .answered 290]

theorem sprayed_run :
    (sprayed.foldlM (limiterStep plainLimiter twoAttempts) (.initial 0)).isSome = true := by
  decide +kernel

def afterSpray : LimiterState :=
  (sprayed.foldlM (limiterStep plainLimiter twoAttempts) (.initial 0)).get sprayed_run

theorem shared_as_local_sprayed :
    (countedOf plainLimiter aliceLogin afterSpray.log).map plain =
      (ofKey (limiterKey plainLimiter twoAttempts aliceLogin)
        (decisionsWith (checkLocal 2 300) []
        (bucketCalls plainLimiter twoAttempts "login" afterSpray.log))).map plain :=
  shared_as_local (fun _ _ h => h) (reaches_get sprayed_run) aliceLogin

theorem shared_limit_sprayed :
    afterSpray.log.map (fun e => e.answer.map LimitDecision.allowed) =
      [some true, none, some true, some false, none, some true] ∧
      FailsClosed afterSpray.log ∧ ∀ a : Applicant,
      InWindows (a.limit twoAttempts) (a.windowSeconds twoAttempts)
      (countedOf plainLimiter a afterSpray.log) :=
  ⟨by decide +kernel, shared_limit (fun _ _ h => h) rfl (.inr rfl) rfl (reaches_get sprayed_run)⟩

end AgenticPlatform.Security
