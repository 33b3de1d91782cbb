import AgenticPlatform.Foundation.Transition
import AgenticPlatform.Onboarding.Transactions

/-!
# Users, workers and their transactions

The sessions of one tenant under transactions that overlap. A statement sees what is
committed and what its own transaction wrote; it waits while another transaction has
written a row it wants to write, or an entry of the unique index; an error rolls the whole
transaction back. A drafting worker issues transactions of one statement. Such a
transaction, and a request of one UPDATE, takes effect at its commit.
-/
namespace AgenticPlatform.Onboarding
open AgenticPlatform.Foundation AgenticPlatform.Identity AgenticPlatform.Db

/-! ## Transactions -/

structure Txn where
  no : Nat
  work : Work
  sessions : List SessionRow
  artifacts : List (ArtifactKey × Json)

/-- What the transaction sees, and what its commit leaves. -/
def Txn.view (x : Txn) (db : OnboardingDb) : OnboardingDb where
  sessions := db.sessions.overlay x.sessions
  artifacts := fun key => (x.artifacts.lookup key).or (db.artifacts key)

def Txn.holds (x : Txn) : Lock → Prop
  | .session id => id ∈ x.sessions.map SessionRow.id
  | .artifact key => key ∈ x.artifacts.map Prod.fst
  | .published domain => ∃ r ∈ x.sessions, r.status = .published ∧ r.domain = domain

instance (x : Txn) : DecidablePred x.holds
  | .session id => inferInstanceAs (Decidable (id ∈ _))
  | .artifact key => inferInstanceAs (Decidable (key ∈ _))
  | .published _ => inferInstanceAs (Decidable (∃ r ∈ x.sessions, _))

def Txn.after (x : Txn) (o : Outcome Work) : Txn where
  no := x.no
  work := o.next
  sessions := o.sessions ++ x.sessions
  artifacts := o.artifacts ++ x.artifacts

inductive Request where
  | edit (q : EditRequest)
  | approve (sessionId by_ : Uuid)
  | publish (sessionId : Uuid)

def Request.work : Request → Work
  | .edit q => .edit q .readSession
  | .approve sessionId by_ => .approve sessionId by_ .readSession
  | .publish sessionId => .publish sessionId .readSession

/-! ## Drafting -/

/-- What an analysis leaves to be stored. -/
structure Produced where
  yaml : String
  instanceTable : Option Json
  predicateMap : Option Json
  extractionCache : List (String × Json)
  /-- The proposed queries, if there are any. -/
  candidateQueries : Option Json
  stats : Json

/-- In the order they are written. -/
def Produced.artifacts (p : Produced) (sessionId : Uuid) : List (ArtifactKey × Json) :=
  (if p.yaml = "" then [] else [(singleton sessionId .schema, .obj [("yaml", .str p.yaml)])]) ++
  p.instanceTable.toList.map (fun table => (singleton sessionId .instanceTable, table)) ++
  p.predicateMap.toList.map (fun map => (singleton sessionId .predicateMap, map)) ++
  p.extractionCache.map (fun file => (⟨sessionId, .extractionCache, file.1⟩, file.2)) ++
  p.candidateQueries.toList.map (fun queries => (singleton sessionId .candidateQueries, queries))

/-- Where an execution of a drafting run stands. -/
inductive DraftPhase where
  | idle
  | drafting (sessionId : Uuid)
  | writing (sessionId : Uuid) (rest : List (ArtifactKey × Json)) (stats : Json)

/-! ## The system -/

/-- A commit that matters to who wrote and who checked. -/
inductive CommitEvent where
  | edited (sessionId by_ : Uuid)
  | approved (sessionId by_ : Uuid) (schema instanceTable : Option Json)
deriving DecidableEq

structure OnboardingState where
  db : OnboardingDb
  txns : Table Txn Txn.no
  execs : Nat → DraftPhase
  /-- The newest commit first. -/
  journal : List CommitEvent

def OnboardingState.initial : OnboardingState := ⟨.empty, Table.empty, fun _ => .idle, []⟩

def Work.events (db : OnboardingDb) : Work → List CommitEvent
  | .edit q _ => [.edited q.sessionId q.by_]
  | .approve sessionId by_ _ =>
    [.approved sessionId by_ (db.artifactsFor sessionId).schema
      (db.artifactsFor sessionId).instanceTable]
  | .publish _ _ => []

/-- No other transaction holds one of the locks. -/
def OnboardingState.free (s : OnboardingState) (no : Option Nat) (locks : List Lock) : Prop :=
  ∀ x ∈ s.txns.rows, some x.no ≠ no → ∀ l ∈ locks, ¬ x.holds l

instance (s : OnboardingState) (no : Option Nat) (locks : List Lock) :
    Decidable (s.free no locks) :=
  inferInstanceAs (Decidable (∀ x ∈ s.txns.rows, _))

inductive OnboardingAct where
  | create (id : Uuid) (domain collection : String) (runId : Option Uuid) (by_ : Uuid) (now : Time)
  | begin (no : Nat) (q : Request)
  | statement (no : Nat) (now : Time)
  | commit (no : Nat)
  | rollback (no : Nat)
  | cancel (id : Uuid) (now : Time)
  /-- `run` reads the session. -/
  | startDraft (i : Nat) (sessionId : Uuid)
  | progress (i : Nat) (entry : Json) (now : Time)
  | analyzed (i : Nat) (produced : Produced)
  | put (i : Nat)
  | ready (i : Nat) (now : Time)
  /-- The corpus is empty, or an exception is caught. -/
  | giveUp (i : Nat) (error : String) (now : Time)
  | crash (i : Nat)

def OnboardingState.closed (s : OnboardingState) (no : Nat) : Table Txn Txn.no :=
  s.txns.deleteWhere (fun x => x.no = no)

def OnboardingState.exec (s : OnboardingState) (i : Nat) (phase : DraftPhase) : OnboardingState :=
  { s with execs := Function.update s.execs i phase }

def DraftPhase.sessionId : DraftPhase → Option Uuid
  | .idle => none
  | .drafting id => some id
  | .writing id _ _ => some id

/-- The worker's UPDATE of the session, and where it stands afterwards. -/
def setStatusStep (s : OnboardingState) (i : Nat) (id : Uuid) (status : SessionStatus)
    (error : Option String) (stats : Option Json) (now : Time) : Option OnboardingState :=
  if s.free none [.session id] then
    some { s.exec i .idle with db := s.db.setStatus id status error stats now }
  else none

def onboardingStep (env : OnboardingEnv) (s : OnboardingState) :
    OnboardingAct → Option OnboardingState
  | .create id domain collection runId by_ now =>
    (s.db.sessions.tryInsert (newSession id domain collection runId by_ now)).map
      (fun sessions => { s with db := { s.db with sessions := sessions } })
  | .begin no q => (s.txns.tryInsert ⟨no, q.work, [], []⟩).map (fun txns => { s with txns := txns })
  | .statement no now =>
    match s.txns.get no with
    | none => none
    | some x =>
      if s.free (some no) (x.work.locks (x.view s.db)) then
        match x.work.statement env (x.view s.db) now with
        | .error _ => some { s with txns := s.closed no }
        | .ok o => some { s with
          txns := s.txns.updateWhere (fun y => y.no = no) (fun y => y.after o) (fun _ => rfl) }
      else none
  | .commit no =>
    match s.txns.get no with
    | none => none
    | some x =>
      if x.work.finished then
        some
          { s with
            db := x.view s.db
            txns := s.closed no
            journal := x.work.events (x.view s.db) ++ s.journal }
      else none
  | .rollback no => some { s with txns := s.closed no }
  | .cancel id now =>
    if s.free none [.session id] then some { s with db := s.db.cancel id now } else none
  | .startDraft i sessionId =>
    match s.execs i with
    | .idle =>
      match s.db.sessions.get sessionId with
      | some r => if r.status = .drafting then some (s.exec i (.drafting sessionId)) else some s
      | none => some s
    | _ => none
  | .progress i entry now =>
    match s.execs i with
    | .drafting id =>
      if s.free none [.session id] then some { s with db := s.db.appendProgress id entry now }
      else none
    | _ => none
  | .analyzed i produced =>
    match s.execs i with
    | .drafting id => some (s.exec i (.writing id (produced.artifacts id) produced.stats))
    | _ => none
  | .put i =>
    match s.execs i with
    | .writing id ((key, payload) :: rest) stats =>
      if s.free none [.artifact key] then
        some { s.exec i (.writing id rest stats) with db := s.db.putArtifact key payload }
      else none
    | _ => none
  | .ready i now =>
    match s.execs i with
    | .writing id [] stats => setStatusStep s i id .draftReady none (some stats) now
    | _ => none
  | .giveUp i error now =>
    match (s.execs i).sessionId with
    | some id => setStatusStep s i id .failed (some error) none now
    | none => none
  | .crash i => some (s.exec i .idle)

/-! ## Invariants -/

/-- What a transaction has written so far, against the committed rows. -/
structure Txn.Sound (db : OnboardingDb) (x : Txn) : Prop where
  drift : ∀ r' ∈ x.sessions, ∃ r ∈ db.sessions.rows, r.id = r'.id ∧ x.work.drift r r'
  edits : ∀ p ∈ x.artifacts, x.work.edits p.1
  known : x.work.opened → x.work.sessionId ∈ db.sessions.keys
  stamped : x.work.finished → x.work.sessionId ∈ x.sessions.map SessionRow.id

structure OnboardingInv (s : OnboardingState) : Prop where
  sound : ∀ x ∈ s.txns.rows, x.Sound s.db
  /-- No row is written by two transactions under way. -/
  exclusive : ∀ x ∈ s.txns.rows, ∀ y ∈ s.txns.rows, x.no ≠ y.no →
    ∀ id ∈ x.sessions.map SessionRow.id, id ∉ y.sessions.map SessionRow.id

theorem onboardingInv_initial : OnboardingInv .initial where
  sound := nofun
  exclusive := nofun

section
variable {env : OnboardingEnv} {s t : OnboardingState} {a : OnboardingAct} {x : Txn}
  {db db' : OnboardingDb}

theorem Txn.Sound.of_db (h : x.Sound db)
    (hkept : ∀ r ∈ db.sessions.rows, r.id ∈ x.sessions.map SessionRow.id → r ∈ db'.sessions.rows)
    (hkeys : ∀ id ∈ db.sessions.keys, id ∈ db'.sessions.keys) : x.Sound db' where
  drift := by
    intro r' hr'
    obtain ⟨r, hr, hid, hdrift⟩ := h.drift r' hr'
    exact ⟨r, hkept r hr (hid ▸ List.mem_map_of_mem hr'), hid, hdrift⟩
  edits := h.edits
  known := fun hopened => hkeys _ (h.known hopened)
  stamped := h.stamped

theorem finished_opened {w : Work} (h : w.finished) : w.opened := by
  cases w with
  | edit q stage =>
    cases h
    exact nofun
  | approve id by_ stage =>
    cases h
    exact nofun
  | publish id stage =>
    cases h
    exact nofun

theorem Txn.Sound.after {o : Outcome Work} {now : Time} (h : x.Sound db)
    (ho : x.work.statement env (x.view db) now = .ok o) : (x.after o).Sound db := by
  have hspec := statement_spec ho
  obtain ⟨hsession, hdrift, hedits⟩ := hspec.continues
  have hkeys : (x.view db).sessions.keys = db.sessions.keys := Table.keys_overlay _ _
  have hopened : x.work.sessionId ∈ db.sessions.keys := by
    rcases hspec.known with hopened | hknown
    · exact h.known hopened
    · exact hkeys ▸ hknown
  constructor
  · intro r' hr'
    rcases List.mem_append.mp hr' with hr' | hr'
    · obtain ⟨v, hv, hid, hv'⟩ := hspec.rows r' hr'
      change ∃ r ∈ db.sessions.rows, r.id = r'.id ∧ o.next.drift r r'
      rw [hdrift]
      rcases Table.mem_overlay hv with ⟨hv, -⟩ | ⟨hv, -⟩
      · obtain ⟨r, hr, hrv, hold⟩ := h.drift v hv
        exact ⟨r, hr, hrv.trans hid, Work.drift_trans hid hold hv'⟩
      · exact ⟨v, hv, hid, hv'⟩
    · obtain ⟨r, hr, hid, hold⟩ := h.drift r' hr'
      refine ⟨r, hr, hid, ?_⟩
      change o.next.drift r r'
      rwa [hdrift]
  · intro p hp
    change o.next.edits p.1
    rw [hedits]
    rcases List.mem_append.mp hp with hp | hp
    · exact hspec.artifacts p hp
    · exact h.edits p hp
  · intro _
    change o.next.sessionId ∈ db.sessions.keys
    rwa [hsession]
  · intro hfinished
    change o.next.sessionId ∈ (o.sessions ++ x.sessions).map SessionRow.id
    rw [hsession, List.map_append, List.mem_append]
    rcases hspec.finished hfinished with hbefore | hnow | hmissing
    · exact Or.inr (h.stamped hbefore)
    · exact Or.inl hnow
    · exact absurd (hkeys ▸ hopened) hmissing

theorem not_opened_begin (q : Request) : ¬ q.work.opened := by
  cases q with
  | edit q => exact fun h => h rfl
  | approve sessionId by_ => exact fun h => h rfl
  | publish sessionId => exact fun h => h rfl

theorem sound_begin (db : OnboardingDb) (no : Nat) (q : Request) :
    (⟨no, q.work, [], []⟩ : Txn).Sound db where
  drift := by
    intro r' hr'
    cases hr'
  edits := by
    intro p hp
    cases hp
  known := fun hopened => absurd hopened (not_opened_begin q)
  stamped := fun hfinished => absurd (finished_opened hfinished) (not_opened_begin q)

/-- The database is as it was afterwards. -/
def OnboardingAct.quiet : OnboardingAct → Prop
  | .statement .. | .rollback _ | .startDraft .. | .analyzed .. | .crash _ => True
  | _ => False

/-- What a step may do. -/
inductive OnboardingMove (env : OnboardingEnv) (s : OnboardingState) :
    OnboardingAct → OnboardingState → Prop
  | create (id : Uuid) (domain collection : String) (runId : Option Uuid) (by_ : Uuid) (now : Time)
    (sessions : SessionTable) (hfresh : id ∉ s.db.sessions.keys)
    (hrows : sessions.rows =
      s.db.sessions.rows ++ [newSession id domain collection runId by_ now]) :
    OnboardingMove env s (.create id domain collection runId by_ now)
      { s with db := { s.db with sessions := sessions } }
  | begin (no : Nat) (q : Request) (txns : Table Txn Txn.no)
    (hrows : txns.rows = s.txns.rows ++ [⟨no, q.work, [], []⟩]) :
    OnboardingMove env s (.begin no q) { s with txns := txns }
  | write (no : Nat) (now : Time) (x : Txn) (o : Outcome Work) (hx : x ∈ s.txns.rows)
    (hno : x.no = no) (hfree : s.free (some no) (x.work.locks (x.view s.db)))
    (ho : x.work.statement env (x.view s.db) now = .ok o) :
    OnboardingMove env s (.statement no now)
    { s with txns := s.txns.updateWhere (fun y => y.no = no) (fun y => y.after o) (fun _ => rfl) }
  /-- An error, or the end of the connection. -/
  | drop (a : OnboardingAct) (no : Nat) (hquiet : a.quiet) :
    OnboardingMove env s a { s with txns := s.closed no }
  | commit (no : Nat) (x : Txn) (hx : x ∈ s.txns.rows) (hno : x.no = no)
    (hfinished : x.work.finished) : OnboardingMove env s (.commit no) { s with
        db := x.view s.db
        txns := s.closed no
        journal := x.work.events (x.view s.db) ++ s.journal }
  | cancel (id : Uuid) (now : Time) (hfree : s.free none [.session id]) :
    OnboardingMove env s (.cancel id now) { s with db := s.db.cancel id now }
  | progress (i : Nat) (id : Uuid) (entry : Json) (now : Time) (hfree : s.free none [.session id]) :
    OnboardingMove env s (.progress i entry now) { s with db := s.db.appendProgress id entry now }
  | put (i : Nat) (id : Uuid) (key : ArtifactKey) (payload : Json)
    (rest : List (ArtifactKey × Json)) (stats : Json)
    (hphase : s.execs i = .writing id ((key, payload) :: rest) stats) :
    OnboardingMove env s (.put i)
      { s.exec i (.writing id rest stats) with db := s.db.putArtifact key payload }
  | ready (i : Nat) (id : Uuid) (stats : Json) (now : Time)
    (hphase : s.execs i = .writing id [] stats) (hfree : s.free none [.session id]) :
    OnboardingMove env s (.ready i now)
      { s.exec i .idle with db := s.db.setStatus id .draftReady none (some stats) now }
  | giveUp (i : Nat) (id : Uuid) (error : String) (now : Time)
    (hphase : (s.execs i).sessionId = some id) (hfree : s.free none [.session id]) :
    OnboardingMove env s (.giveUp i error now)
      { s.exec i .idle with db := s.db.setStatus id .failed (some error) none now }
  | exec (a : OnboardingAct) (execs : Nat → DraftPhase) (hquiet : a.quiet) :
    OnboardingMove env s a { s with execs := execs }

theorem setStatusStep_eq_some {i : Nat} {id : Uuid} {status : SessionStatus} {error : Option String}
    {stats : Option Json} {now : Time} (h : setStatusStep s i id status error stats now = some t) :
    s.free none [.session id] ∧
      t = { s.exec i .idle with db := s.db.setStatus id status error stats now } := by
  unfold setStatusStep at h
  split at h
  · cases h
    exact ⟨‹_›, rfl⟩
  · cases h

theorem onboardingStep_move (h : onboardingStep env s a = some t) : OnboardingMove env s a t := by
  cases a with
  | create id domain collection runId by_ now =>
    obtain ⟨sessions, hinsert, rfl⟩ := Option.map_eq_some_iff.mp h
    obtain ⟨hfresh, hrows⟩ := Table.tryInsert_eq_some hinsert
    exact .create id domain collection runId by_ now sessions hfresh hrows
  | begin no q =>
    obtain ⟨txns, hinsert, rfl⟩ := Option.map_eq_some_iff.mp h
    exact .begin no q txns (Table.tryInsert_eq_some hinsert).2
  | statement no now =>
    simp only [onboardingStep] at h
    split at h
    · cases h
    · rename_i x hget
      obtain ⟨hx, hno⟩ := Table.get_eq_some.mp hget
      split at h
      · rename_i hfree
        split at h
        · cases h
          exact .drop _ no trivial
        · rename_i o ho
          cases h
          exact .write no now x o hx hno hfree ho
      · cases h
  | commit no =>
    simp only [onboardingStep] at h
    split at h
    · cases h
    · rename_i x hget
      obtain ⟨hx, hno⟩ := Table.get_eq_some.mp hget
      split at h
      · cases h
        exact .commit no x hx hno ‹_›
      · cases h
  | rollback no =>
    cases h
    exact .drop _ no trivial
  | cancel id now =>
    simp only [onboardingStep] at h
    split at h
    · cases h
      exact .cancel id now ‹_›
    · cases h
  | startDraft i sessionId =>
    simp only [onboardingStep] at h
    split at h
    · split at h
      · split at h
        · cases h
          exact .exec _ _ trivial
        · cases h
          exact .exec _ _ trivial
      · cases h
        exact .exec _ _ trivial
    · cases h
  | progress i entry now =>
    simp only [onboardingStep] at h
    split at h
    · rename_i id hphase
      split at h
      · cases h
        exact .progress i id entry now ‹_›
      · cases h
    · cases h
  | analyzed i produced =>
    simp only [onboardingStep] at h
    split at h
    · cases h
      exact .exec _ _ trivial
    · cases h
  | put i =>
    simp only [onboardingStep] at h
    split at h
    · rename_i id key payload rest stats hphase
      split at h
      · cases h
        exact .put i id key payload rest stats hphase
      · cases h
    · cases h
  | ready i now =>
    simp only [onboardingStep] at h
    split at h
    · rename_i id stats hphase
      obtain ⟨hfree, rfl⟩ := setStatusStep_eq_some h
      exact .ready i id stats now hphase hfree
    · cases h
  | giveUp i error now =>
    simp only [onboardingStep] at h
    split at h
    · rename_i id hphase
      obtain ⟨hfree, rfl⟩ := setStatusStep_eq_some h
      exact .giveUp i id error now hphase hfree
    · cases h
  | crash i =>
    cases h
    exact .exec _ _ trivial

/-- The rows a transaction has written are as they were committed. -/
theorem free_session {id : Uuid} (h : s.free none [.session id]) (hx : x ∈ s.txns.rows) :
    id ∉ x.sessions.map SessionRow.id :=
  h x hx nofun _ List.mem_cons_self

/-- An UPDATE of one session, by a transaction of its own. -/
theorem onboardingInv_update (hs : OnboardingInv s) {id : Uuid} {p : SessionRow → Prop}
    [DecidablePred p] {f : SessionRow → SessionRow} (hf : ∀ r, (f r).id = r.id)
    (hp : ∀ r, p r → r.id = id) (hfree : s.free none [.session id])
    (hsessions : db'.sessions = s.db.sessions.updateWhere p f hf) (htxns : t.txns = s.txns)
    (hdb : t.db = db') : OnboardingInv t where
  sound := by
    rw [htxns, hdb]
    intro x hx
    refine (hs.sound x hx).of_db ?_ ?_
    · intro r hr hmem
      rw [hsessions]
      refine Table.mem_update.mpr ⟨r, hr, if_neg ?_⟩
      intro hpr
      exact free_session hfree hx (hp r hpr ▸ hmem)
    · intro k hk
      rw [hsessions, Table.keys_updateWhere]
      exact hk
  exclusive := by
    rw [htxns]
    exact hs.exclusive

theorem onboardingInv_setStatus (hs : OnboardingInv s) {id : Uuid} {status : SessionStatus}
    {error : Option String} {stats : Option Json} {now : Time} (hfree : s.free none [.session id])
    (htxns : t.txns = s.txns) (hdb : t.db = s.db.setStatus id status error stats now) :
    OnboardingInv t :=
  onboardingInv_update (p := fun r => r.id = id) (f := withStatus status error stats now) hs
    (fun _ => rfl) (fun _ hp => hp) hfree rfl htxns hdb

theorem mem_closed {no : Nat} {x : Txn} : x ∈ (s.closed no).rows ↔ x ∈ s.txns.rows ∧ x.no ≠ no :=
  Table.mem_deleteWhere

theorem onboardingInv_commit (hs : OnboardingInv s) (hx : x ∈ s.txns.rows)
    (htxns : t.txns = s.closed x.no) (hdb : t.db = x.view s.db) : OnboardingInv t where
  sound := by
    rw [htxns, hdb]
    intro y hy
    obtain ⟨hy, hno⟩ := mem_closed.mp hy
    refine (hs.sound y hy).of_db ?_ ?_
    · intro r hr hmem
      exact Table.mem_overlay_of_not_mem hr (hs.exclusive y hy x hx hno r.id hmem)
    · intro k hk
      exact (congrArg (fun keys => k ∈ keys) (Table.keys_overlay s.db.sessions x.sessions)).mpr hk
  exclusive := by
    rw [htxns]
    intro y hy z hz
    exact hs.exclusive y (mem_closed.mp hy).1 z (mem_closed.mp hz).1

theorem onboardingInv_write (hs : OnboardingInv s) {now : Time} {o : Outcome Work}
    (hx : x ∈ s.txns.rows) (hfree : s.free (some x.no) (x.work.locks (x.view s.db)))
    (ho : x.work.statement env (x.view s.db) now = .ok o) (hdb : t.db = s.db)
    (htxns : ∀ y ∈ t.txns.rows, (y ∈ s.txns.rows ∧ y.no ≠ x.no) ∨ y = x.after o) :
    OnboardingInv t where
  sound := by
    rw [hdb]
    intro y hy
    rcases htxns y hy with ⟨hy, -⟩ | rfl
    · exact hs.sound y hy
    · exact (hs.sound x hx).after ho
  exclusive := by
    -- what the statement writes is locked by no one else
    have hnew : ∀ y ∈ s.txns.rows, y.no ≠ x.no → ∀ id ∈ (x.after o).sessions.map SessionRow.id,
        id ∉ y.sessions.map SessionRow.id := by
      intro y hy hno id hid
      rw [Txn.after, List.map_append, List.mem_append] at hid
      rcases hid with hid | hid
      · obtain ⟨r', hr', rfl⟩ := List.mem_map.mp hid
        exact hfree y hy (fun h => hno (Option.some.inj h)) _ ((statement_spec ho).locked r' hr')
      · exact hs.exclusive x hx y hy (Ne.symm hno) id hid
    intro y hy z hz hne id hid hid'
    rcases htxns y hy with ⟨hy, hyx⟩ | rfl
    · rcases htxns z hz with ⟨hz, hzx⟩ | rfl
      · exact hs.exclusive y hy z hz hne id hid hid'
      · exact hnew y hy hyx id hid' hid
    · rcases htxns z hz with ⟨hz, hzx⟩ | rfl
      · exact hnew z hz hzx id hid hid'
      · exact hne rfl

theorem mem_after {no : Nat} {o : Outcome Work} {y : Txn} (hx : x ∈ s.txns.rows) (hno : x.no = no)
    (hy : y ∈ (s.txns.updateWhere (fun y => y.no = no) (fun y => y.after o) (fun _ => rfl)).rows) :
    (y ∈ s.txns.rows ∧ y.no ≠ x.no) ∨ y = x.after o := by
  subst hno
  rcases Table.mem_updateWhere (f := fun y => Txn.after y o) (fun _ => rfl) hy with hy |
    ⟨z, hz, hno, rfl⟩
  · exact Or.inl hy
  · exact Or.inr (by rw [Table.eq_of_key hz hx hno])

theorem onboardingInv_step (h : onboardingStep env s a = some t) (hs : OnboardingInv s) :
    OnboardingInv t := by
  cases onboardingStep_move h with
  | create id domain collection runId by_ now sessions hfresh hrows =>
    refine ⟨?_, hs.exclusive⟩
    intro x hx
    refine (hs.sound x hx).of_db ?_ ?_
    · intro r hr _
      change r ∈ sessions.rows
      rw [hrows]
      exact List.mem_append_left _ hr
    · intro k hk
      obtain ⟨r, hr, rfl⟩ := Table.mem_keys.mp hk
      refine Table.key_mem_keys (t := sessions) ?_
      rw [hrows]
      exact List.mem_append_left _ hr
  | begin no q txns hrows =>
    have hcases : ∀ x ∈ txns.rows, x ∈ s.txns.rows ∨ x = ⟨no, q.work, [], []⟩ := by
      intro x hx
      rw [hrows] at hx
      exact (List.mem_append.mp hx).imp_right List.mem_singleton.mp
    constructor
    · intro x hx
      rcases hcases x hx with hx | rfl
      · exact hs.sound x hx
      · exact sound_begin s.db no q
    · intro x hx y hy hne id hid hid'
      rcases hcases x hx with hx | rfl
      · rcases hcases y hy with hy | rfl
        · exact hs.exclusive x hx y hy hne id hid hid'
        · cases hid'
      · cases hid
  | write no now x o hx hno hfree ho =>
    exact onboardingInv_write hs hx (hno ▸ hfree) ho rfl (fun y hy => mem_after hx hno hy)
  | drop a no hquiet =>
    constructor
    · intro x hx
      exact hs.sound x (mem_closed.mp hx).1
    · intro x hx y hy
      exact hs.exclusive x (mem_closed.mp hx).1 y (mem_closed.mp hy).1
  | commit no x hx hno hfinished =>
    subst hno
    exact onboardingInv_commit hs hx rfl rfl
  | cancel id now hfree =>
    exact onboardingInv_update (p := fun r => r.id = id ∧ cancellable r) (f := asCancelled now) hs
      (fun _ => rfl) (fun _ hp => hp.1) hfree rfl rfl rfl
  | progress i id entry now hfree =>
    exact onboardingInv_update (p := fun r => r.id = id) (f := withProgress entry now) hs
      (fun _ => rfl) (fun _ hp => hp) hfree rfl rfl rfl
  | put i id key payload rest stats hphase =>
    refine ⟨?_, hs.exclusive⟩
    intro x hx
    exact (hs.sound x hx).of_db (fun _ hr _ => hr) (fun _ hk => hk)
  | ready i id stats now hphase hfree => exact onboardingInv_setStatus hs hfree rfl rfl
  | giveUp i id error now hphase hfree => exact onboardingInv_setStatus hs hfree rfl rfl
  | exec a execs hquiet => exact ⟨hs.sound, hs.exclusive⟩

/-- A committed row is one that was there, or one the transaction rewrote. -/
theorem committed_row (hs : OnboardingInv s) (hx : x ∈ s.txns.rows) (hfinished : x.work.finished)
    {r₁ : SessionRow} (hr₁ : r₁ ∈ (x.view s.db).sessions.rows) :
    (r₁ ∈ s.db.sessions.rows ∧ r₁.id ≠ x.work.sessionId) ∨ ∃ r ∈ s.db.sessions.rows, r.id = r₁.id ∧
      x.work.drift r r₁ := by
  have hsound := hs.sound x hx
  rcases Table.mem_overlay hr₁ with ⟨hr₁, -⟩ | ⟨hr₁, hown⟩
  · exact Or.inr (hsound.drift r₁ hr₁)
  · refine Or.inl ⟨hr₁, ?_⟩
    intro hid
    exact hown (hid ▸ hsound.stamped hfinished)

end

/-! ## A drafted session -/

/-- No value but a string is ever asked for its text here. -/
def plainTexts : OnboardingEnv := ⟨fun _ => ""⟩

def schemaOnly (yaml : String) : Produced := ⟨yaml, none, none, [], none, .emptyObj⟩

/-- A session of principal 1, drafted. -/
def draftedSession : List OnboardingAct :=
  [.create 10 "plant" "manuals" none 1 0, .startDraft 0 10, .analyzed 0 (schemaOnly "drafted"),
    .put 0, .ready 0 1]

end AgenticPlatform.Onboarding
