import AgenticPlatform.Foundation.Text
import AgenticPlatform.Workloads.Echo

/-!
# What the attempts at a run return

The steps of an attempt are answered by the rows of `side_effect`, and the attempts of one
run share those rows. Two of the steps may be performed again and come to the same; the
third is performed under the reconciliation policy, and the key of a notification admits one
row a run. A notification that was appended and not recorded stays alone, and its run is
never answered.
-/
namespace AgenticPlatform.Workloads.Echo
open AgenticPlatform.Foundation AgenticPlatform.Identity AgenticPlatform.Db AgenticPlatform.Corpus
open AgenticPlatform.Correctness

/-! ## Attempts and calls -/

/-- The call an attempt is in, or was in last. -/
def AttemptPhase.call : AttemptPhase → Option Nat
  | .reserving c | .transforming _ c | .announcing _ _ c | .returned _ c => some c
  | .raised => none

theorem call_of_performing {p : AttemptPhase} {step : String} {c : Nat}
    (h : p.performing = some (step, c)) : p.call = some c := by
  cases p <;> cases h <;> rfl

def announceKey (runId : Uuid) : EffectKey := (runId, "announce")

/-- How the attempts and the calls go together. -/
structure Wired (s : EchoState) : Prop where
  sole : ∀ runId, SoleInv (announceKey runId) s.effects
  linked : ∀ k, ∀ a ∈ s.attempts k, ∀ step c, a.phase.performing = some (step, c) →
    ∃ called ∈ s.effects.calls c, called.req.key = (a.runId, step)
  present : ∀ k, ∀ a ∈ s.attempts k, ∀ c ∈ a.phase.call, s.effects.calls c ≠ none
  apart : ∀ k k', ∀ a ∈ s.attempts k, ∀ a' ∈ s.attempts k', ∀ c ∈ a.phase.call,
    c ∈ a'.phase.call → k = k'
  ended : ∀ k, ∀ a ∈ s.attempts k, ∀ result c, a.phase = .returned result c →
    ∃ o, Returned (announceKey a.runId) s.effects c o ∧
    itemOf o "notification_id" = some result.notificationId ∧
    (o.repeated = true → "announce" ∈ result.repeatedSteps)

theorem wired_initial (library : Library) : Wired (EchoState.initial library) := by
  refine ⟨fun runId => soleInv_initial _, ?_, ?_, ?_, ?_⟩
  · intro k a ha
    cases ha
  · intro k a ha
    cases ha
  · intro k k' a ha
    cases ha
  · intro k a ha
    cases ha

/-- The calls of a step that are begun here are made under its policy. -/
theorem stepRequest_asks (runId runId' : Uuid) (step claimant : String) (e : EffectState)
    (call : Nat) :
    asksReconciliation (announceKey runId) e (.begin call (stepRequest runId' step claimant)) := by
  intro hkey
  have hstep : step = "announce" := congrArg Prod.snd hkey
  simp only [stepRequest, hstep, if_true]

/-- Every step of the calls is one that the reconciliation policy allows. -/
theorem move_effects {env : EchoEnv} {s t : EchoState} {act : EchoAct} (h : EchoMove env s act t) :
    t.effects = s.effects ∨ ∃ e, effectStep s.effects e = some t.effects ∧
      ∀ runId, asksReconciliation (announceKey runId) s.effects e := by
  cases h with
  | start k runId by_ claimant call effects hnew hmessage h =>
    exact Or.inr ⟨_, h,
      fun runId' => stepRequest_asks runId' runId "reserve" claimant s.effects call⟩
  | call k a' a step c effects ha hp hret h => exact Or.inr ⟨_, h, fun _ => trivial⟩
  | perform k d a step c library log outcome effects ha hp hbody h =>
    exact Or.inr ⟨_, h, fun _ => trivial⟩
  | transform k call a c called o effects ha hp hc ho h =>
    exact Or.inr ⟨_, h,
      fun runId' => stepRequest_asks runId' a.runId "transform" a.claimant s.effects call⟩
  | announce k call a reserved c called o effects ha hp hc ho h =>
    exact Or.inr ⟨_, h,
      fun runId' => stepRequest_asks runId' a.runId "announce" a.claimant s.effects call⟩
  | reap runIds effects h => exact Or.inr ⟨_, h, fun _ => trivial⟩
  | requestCancel runId effects h => exact Or.inr ⟨_, h, fun _ => trivial⟩
  | _ => exact Or.inl rfl

/-- A call keeps its request, whatever the step. -/
theorem move_calls {env : EchoEnv} {s t : EchoState} {act : EchoAct} (h : EchoMove env s act t)
    {c : Nat} {called : EffectCall} (hc : s.effects.calls c = some called) :
    ∃ called', t.effects.calls c = some called' ∧ called'.req = called.req := by
  rcases move_effects h with heq | ⟨e, he, -⟩
  · exact ⟨called, by rw [heq, hc], rfl⟩
  · obtain ⟨p, hp⟩ := effectStep_calls he hc
    exact ⟨_, hp, rfl⟩

theorem move_returned {env : EchoEnv} {s t : EchoState} {act : EchoAct} (h : EchoMove env s act t)
    {x : EffectKey} {c : Nat} {o : EffectOutcome} (hc : Returned x s.effects c o) :
    Returned x t.effects c o := by
  rcases move_effects h with heq | ⟨e, he, -⟩
  · rw [heq]
    exact hc
  · exact returned_step he hc

theorem move_sole {env : EchoEnv} {s t : EchoState} {act : EchoAct} (h : EchoMove env s act t)
    (hsole : ∀ runId, SoleInv (announceKey runId) s.effects) (runId : Uuid) :
    SoleInv (announceKey runId) t.effects := by
  rcases move_effects h with heq | ⟨e, he, hpol⟩
  · rw [heq]
    exact hsole runId
  · exact soleInv_step (hsole runId) (restrict_eq_some.mpr ⟨hpol runId, he⟩)

theorem attempt_put {s : EchoState} {k j : Nat} {a a' : Attempt} {p : AttemptPhase}
    (h : a' ∈ (s.put k a p).attempts j) :
    (j = k ∧ a' = { a with phase := p }) ∨ (j ≠ k ∧ a' ∈ s.attempts j) := by
  rcases update_eq_some h with ⟨rfl, rfl⟩ | ⟨hne, h⟩
  · exact Or.inl ⟨rfl, rfl⟩
  · exact Or.inr ⟨hne, h⟩

section
variable {env : EchoEnv} {s t : EchoState} {act : EchoAct}

/-- A step that leaves the attempts where they are. -/
theorem wired_frame (hs : Wired s) (h : EchoMove env s act t)
    (hattempts : t.attempts = s.attempts) : Wired t := by
  refine ⟨move_sole h hs.sole, ?_, ?_, ?_, ?_⟩
  · rw [hattempts]
    intro k a ha step c hp
    obtain ⟨called, hc, hkey⟩ := hs.linked k a ha step c hp
    obtain ⟨called', hc', hreq⟩ := move_calls h hc
    exact ⟨called', hc', (congrArg EffectRequest.key hreq).trans hkey⟩
  · rw [hattempts]
    intro k a ha c hc
    obtain ⟨called, hcalled⟩ := Option.ne_none_iff_exists'.mp (hs.present k a ha c hc)
    obtain ⟨called', hc', -⟩ := move_calls h hcalled
    simp [hc']
  · rw [hattempts]
    exact hs.apart
  · rw [hattempts]
    intro k a ha result c hp
    obtain ⟨o, ho, hrest⟩ := hs.ended k a ha result c hp
    exact ⟨o, move_returned h ho, hrest⟩

/-- A step that takes one attempt to another phase. -/
theorem wired_put (hs : Wired s) {m : EchoState} {k : Nat} {a : Attempt} {p : AttemptPhase}
    (h : EchoMove env s act (m.put k a p)) (hattempts : m.attempts = s.attempts)
    (hlinked : ∀ step c, p.performing = some (step, c) →
      ∃ called ∈ m.effects.calls c, called.req.key = (a.runId, step))
    (hcall : ∀ c ∈ p.call, m.effects.calls c ≠ none ∧ ∀ j, j ≠ k →
      ∀ a' ∈ s.attempts j, c ∉ a'.phase.call)
    (hended : ∀ result c, p = .returned result c →
      ∃ o, Returned (announceKey a.runId) m.effects c o ∧
      itemOf o "notification_id" = some result.notificationId ∧
      (o.repeated = true → "announce" ∈ result.repeatedSteps)) : Wired (m.put k a p) := by
  refine ⟨move_sole h hs.sole, ?_, ?_, ?_, ?_⟩
  · intro j a' ha' step c hp
    rcases attempt_put ha' with ⟨rfl, rfl⟩ | ⟨-, ha'⟩
    · exact hlinked step c hp
    · obtain ⟨called, hc, hkey⟩ := hs.linked j a' (hattempts ▸ ha') step c hp
      obtain ⟨called', hc', hreq⟩ := move_calls h hc
      exact ⟨called', hc', (congrArg EffectRequest.key hreq).trans hkey⟩
  · intro j a' ha' c hc
    rcases attempt_put ha' with ⟨rfl, rfl⟩ | ⟨-, ha'⟩
    · exact (hcall c hc).1
    · obtain ⟨called, hcalled⟩ :=
        Option.ne_none_iff_exists'.mp (hs.present j a' (hattempts ▸ ha') c hc)
      obtain ⟨called', hc', -⟩ := move_calls h hcalled
      simp [hc']
  · intro j j' a₁ h₁ a₂ h₂ c hc hc'
    rcases attempt_put h₁ with ⟨rfl, rfl⟩ | ⟨hne, hold₁⟩
    · rcases attempt_put h₂ with ⟨rfl, -⟩ | ⟨hne, hold₂⟩
      · rfl
      · exact absurd hc' ((hcall c hc).2 j' hne a₂ (hattempts ▸ hold₂))
    · rcases attempt_put h₂ with ⟨rfl, rfl⟩ | ⟨-, hold₂⟩
      · exact absurd hc ((hcall c hc').2 j hne a₁ (hattempts ▸ hold₁))
      · exact hs.apart j j' a₁ (hattempts ▸ hold₁) a₂ (hattempts ▸ hold₂) c hc hc'
  · intro j a' ha' result c hp
    rcases attempt_put ha' with ⟨rfl, rfl⟩ | ⟨-, ha'⟩
    · exact hended result c hp
    · obtain ⟨o, ho, hrest⟩ := hs.ended j a' (hattempts ▸ ha') result c hp
      exact ⟨o, move_returned h ho, hrest⟩

/-- An attempt that enters a call of its own. -/
theorem wired_enter (hs : Wired s) {k call : Nat} {a : Attempt} {p : AttemptPhase} {step : String}
    {effects : EffectState} (h : EchoMove env s act ({ s with effects := effects }.put k a p))
    (hp : p.performing = some (step, call))
    (heff : effectStep s.effects (.begin call (stepRequest a.runId step a.claimant)) =
      some effects) : Wired ({ s with effects := effects }.put k a p) := by
  obtain ⟨hnone, q, -, rfl⟩ := effectStep_begin heff
  have hmine : p.call = some call := call_of_performing hp
  refine wired_put hs h rfl ?_ ?_ ?_
  · intro step' c hp'
    rw [hp] at hp'
    cases hp'
    exact ⟨_, Function.update_self .., rfl⟩
  · intro c hc
    rw [hmine] at hc
    cases hc
    refine ⟨by simp, ?_⟩
    intro j _ a' ha' hc'
    exact hs.present j a' ha' call hc' hnone
  · rintro result c rfl
    cases hp

theorem wired_move (hs : Wired s) (h : EchoMove env s act t) : Wired t := by
  have hmove := h
  cases h with
  | refuse k runId by_ claimant call hnew hempty => exact wired_put hs hmove rfl nofun nofun nofun
  | start k runId by_ claimant call effects hnew hmessage heff =>
    exact wired_enter hs hmove rfl heff
  | transform k call a c called o effects ha hp hc ho heff => exact wired_enter hs hmove rfl heff
  | announce k call a reserved c called o effects ha hp hc ho heff =>
    exact wired_enter hs hmove rfl heff
  | raise k call a ha => exact wired_put hs hmove rfl nofun nofun nofun
  | finish k call a reserved transformed c called o result ha hp hc ho hres =>
    have hmine : a.phase.call = some c := by rw [hp]; rfl
    obtain ⟨called', hc', hkey⟩ := hs.linked k a ha "announce" c (by rw [hp]; rfl)
    rw [Option.mem_def, hc] at hc'
    cases hc'
    refine wired_put hs hmove rfl nofun ?_ ?_
    · intro c' hc'
      cases hc'
      refine ⟨by simp [hc], ?_⟩
      intro j hne a' ha' hc'
      exact hne (hs.apart j k a' ha' a ha c hc' hmine)
    · intro result' c' hp'
      cases hp'
      refine ⟨o, ⟨called, hc, hkey, ho⟩, ?_⟩
      obtain ⟨output, -, hres⟩ := Option.bind_eq_some_iff.mp hres
      obtain ⟨documentId, -, hres⟩ := Option.bind_eq_some_iff.mp hres
      obtain ⟨notificationId, hid, hres⟩ := Option.bind_eq_some_iff.mp hres
      cases hres
      refine ⟨hid, ?_⟩
      intro hrep
      simp [repeatedSteps, hrep]
  | _ => exact wired_frame hs hmove rfl

end

/-! ## What the tables hold -/

/-- A notification, or the current document of an echo, may get lost: with an upload to the
collection of the echoes or a withdrawal from it, of whatever document, or with the purge of a
document that a notification names. -/
def disturbs (s : EchoState) : EchoAct → Prop
  | .upload _ q _ => q.collection = "echo"
  | .withdraw id _ => ∃ d ∈ s.library.documents.rows, d.id = id ∧ d.collection = "echo"
  | .purge id _ => ∃ n ∈ s.log.rows, n.documentId = id
  | _ => False

instance (s : EchoState) : (act : EchoAct) → Decidable (disturbs s act)
  | .upload _ q _ => inferInstanceAs (Decidable (q.collection = "echo"))
  | .withdraw _ _ => inferInstanceAs (Decidable (∃ d ∈ s.library.documents.rows, _))
  | .purge _ _ => inferInstanceAs (Decidable (∃ n ∈ s.log.rows, _))
  | .start .. | .call .. | .perform .. | .next .. | .reap _ | .requestCancel _ => isFalse id

/-- The document of a name, in the collection of the echoes. -/
def EchoDocument (lib : Library) (filename : String) (id : Uuid) : Prop :=
  ∃ d ∈ lib.documents.rows, d.current ∧ d.collection = "echo" ∧ d.filename = filename ∧ d.id = id

/-- Documents and notifications are there as they were, and more. -/
structure Keeps (s t : EchoState) : Prop where
  documents : ∀ filename id, EchoDocument s.library filename id → EchoDocument t.library filename id
  log : ∀ n ∈ s.log.rows, n ∈ t.log.rows
  refs : (∀ n ∈ s.log.rows, n.documentId ∈ s.library.documents.keys) →
    ∀ n ∈ t.log.rows, n.documentId ∈ t.library.documents.keys

theorem upsert_spec {lib lib' : Library} {row : DocumentRow} {id : Uuid}
    (h : upsert lib row = some (lib', id)) (hrow : row.current) :
    (∀ d ∈ lib.documents.rows, ∃ d' ∈ lib'.documents.rows, d'.supersededAt = d.supersededAt ∧
      d'.collection = d.collection ∧ d'.filename = d.filename ∧ d'.id = d.id) ∧
      ∃ d ∈ lib'.documents.rows, named row d ∧ d.id = id := by
  unfold upsert at h
  split at h
  · rename_i d hfound
    cases h
    have hnamed : named row d := by simpa using List.find?_some hfound
    have hkept : ∀ d ∈ lib.documents.rows,
        Table.rewrite (named row) (rehashed row) d ∈ (rehash lib row).documents.rows :=
      fun d hd => Table.rewrite_mem_updateWhere (f := rehashed row) (fun _ => rfl) hd
    constructor
    · intro d' hd'
      refine ⟨_, hkept d' hd', ?_⟩
      unfold Table.rewrite
      split <;> exact ⟨rfl, rfl, rfl, rfl⟩
    · have hmine := hkept d (List.mem_of_find?_eq_some hfound)
      rw [Table.rewrite, if_pos hnamed] at hmine
      exact ⟨_, hmine, hnamed, rfl⟩
  · rename_i hnone
    split at h
    · rename_i hfresh
      cases h
      constructor
      · intro d hd
        exact ⟨d, List.mem_append_left _ hd, rfl, rfl, rfl, rfl⟩
      · exact ⟨row, List.mem_append_right _ (List.mem_singleton_self row), ⟨rfl, rfl, hrow⟩, rfl⟩
    · cases h

theorem append_spec {lib : Library} {log log' : NotificationLog} {digest key output : String}
    {seen : Nat} {newId : Uuid → Uuid} {n : Notification}
    (h : append lib log digest key output seen newId = some (log', n)) :
    n.canonicalId = key ∧ n.text = clip 2000 output ∧ n.documentId ∈ lib.documents.keys ∧
      key ∉ log.keys ∧ log'.rows = log.rows ++ [n] := by
  unfold append at h
  dsimp only at h
  split at h
  · rename_i m hrows
    obtain ⟨log'', hins, hn⟩ := Option.map_eq_some_iff.mp h
    cases hn
    obtain ⟨hfresh, hrows'⟩ := Table.tryInsert_eq_some hins
    have hmem := List.mem_singleton_self n
    rw [← hrows] at hmem
    obtain ⟨d, hd, rfl⟩ := List.mem_map.mp hmem
    exact ⟨rfl, rfl, Table.key_mem_keys (List.mem_filter.mp hd).1, hfresh, hrows'⟩
  · cases h

section
variable {env : EchoEnv}

/-- The result of a step, as the tables bear it out. -/
structure Meets (env : EchoEnv) (s : EchoState) (x : EffectKey) (j : Json) : Prop where
  reserved : x.2 = "reserve" →
    ∃ id, EchoDocument s.library (filenameOf env (messageOf env x.1)) id ∧ j = reservedResult env id
  transformed : x.2 = "transform" → j = transformedResult env (messageOf env x.1)
  announced : x.2 = "announce" → ∃ n ∈ s.log.rows, n.canonicalId = notificationKey env x.1 ∧
    n.text = clip 2000 (env.upper (messageOf env x.1)) ∧ j = announcedResult env n.id

theorem Meets.keep {s t : EchoState} (h : Keeps s t) {x : EffectKey} {j : Json}
    (hj : Meets env s x j) : Meets env t x j where
  reserved := by
    intro hx
    obtain ⟨id, hd, hid⟩ := hj.reserved hx
    exact ⟨id, h.documents _ id hd, hid⟩
  transformed := hj.transformed
  announced := by
    intro hx
    obtain ⟨n, hn, hrest⟩ := hj.announced hx
    exact ⟨n, h.log n hn, hrest⟩

/-- The outcome of a step that an attempt has gone past. -/
def Given (env : EchoEnv) (s : EchoState) (x : EffectKey) (o : EffectOutcome) : Prop :=
  ∃ j, o.result = some j ∧ Meets env s x j

theorem Given.keep {s t : EchoState} (h : Keeps s t) {x : EffectKey} {o : EffectOutcome}
    (ho : Given env s x o) : Given env t x o := by
  obtain ⟨j, hj, hmeets⟩ := ho
  exact ⟨j, hj, hmeets.keep h⟩

theorem itemOf_output {s : EchoState} {runId : Uuid} {o : EffectOutcome}
    (h : Given env s (runId, "transform") o) :
    itemOf o "output" = some (.str (env.upper (messageOf env runId))) := by
  obtain ⟨j, hj, hmeets⟩ := h
  rw [itemOf, hj, hmeets.transformed rfl]
  rfl

theorem itemOf_document {s : EchoState} {runId : Uuid} {o : EffectOutcome}
    (h : Given env s (runId, "reserve") o) :
    ∃ id, EchoDocument s.library (filenameOf env (messageOf env runId)) id ∧
      itemOf o "document_id" = some (.str (env.files.uuidText id)) := by
  obtain ⟨j, hj, hmeets⟩ := h
  obtain ⟨id, hd, rfl⟩ := hmeets.reserved rfl
  refine ⟨id, hd, ?_⟩
  rw [itemOf, hj]
  rfl

theorem itemOf_notification {s : EchoState} {runId : Uuid} {o : EffectOutcome}
    (h : Given env s (announceKey runId) o) :
    ∃ n ∈ s.log.rows, n.canonicalId = notificationKey env runId ∧
      n.text = clip 2000 (env.upper (messageOf env runId)) ∧
      itemOf o "notification_id" = some (.str (env.files.uuidText n.id)) := by
  obtain ⟨j, hj, hmeets⟩ := h
  obtain ⟨n, hn, hkey, htext, rfl⟩ := hmeets.announced rfl
  refine ⟨n, hn, hkey, htext, ?_⟩
  rw [itemOf, hj]
  rfl

/-! ## The attempts and the tables -/

/-- What an attempt has behind it. -/
def Behind (env : EchoEnv) (s : EchoState) (runId : Uuid) : AttemptPhase → Prop
  | .reserving _ | .raised => True
  | .transforming reserved _ => Given env s (runId, "reserve") reserved
  | .announcing reserved transformed _ =>
    Given env s (runId, "reserve") reserved ∧ Given env s (runId, "transform") transformed
  | .returned result _ => result.output = .str (env.upper (messageOf env runId)) ∧
      result.digest = digestOf env (messageOf env runId) ∧
      ∃ id, EchoDocument s.library (filenameOf env (messageOf env runId)) id ∧
        result.documentId = .str (env.files.uuidText id)

theorem Behind.keep {s t : EchoState} (h : Keeps s t) {runId : Uuid} {p : AttemptPhase}
    (hp : Behind env s runId p) : Behind env t runId p := by
  cases p with
  | reserving c => exact trivial
  | raised => exact trivial
  | transforming reserved c => exact Given.keep h hp
  | announcing reserved transformed c => exact ⟨hp.1.keep h, hp.2.keep h⟩
  | returned result c =>
    obtain ⟨hout, hdigest, id, hd, hid⟩ := hp
    exact ⟨hout, hdigest, id, h.documents _ id hd, hid⟩

structure EchoInv (env : EchoEnv) (s : EchoState) : Prop where
  wired : Wired s
  refs : ∀ n ∈ s.log.rows, n.documentId ∈ s.library.documents.keys
  results : ResultsMeet (Meets env s) s.effects
  behind : ∀ k, ∀ a ∈ s.attempts k, Behind env s a.runId a.phase

theorem echoInv_initial (env : EchoEnv) (library : Library) :
    EchoInv env (EchoState.initial library) := by
  refine ⟨wired_initial library, ?_, resultsMeet_initial _, ?_⟩
  · intro n hn
    cases hn
  · intro k a ha
    cases ha

/-- A body adds to the tables, and returns what it added. -/
theorem body_spec {s : EchoState} {a : Attempt} {d : BodyDraw} {library : Library}
    {log : NotificationLog} {outcome : Except String Json} {step : String} {c : Nat}
    (h : body env s a d = some (library, log, outcome)) (hp : a.phase.performing = some (step, c))
    (hbehind : Behind env s a.runId a.phase) :
    Keeps s { s with library := library, log := log } ∧ ∀ j, outcome = .ok j →
      Meets env { s with library := library, log := log } (a.runId, step) j := by
  unfold body at h
  dsimp only at h
  split at h
  · rename_i hphase
    rw [hphase] at hp
    cases hp
    obtain ⟨⟨library', id⟩, hups, hres⟩ := Option.map_eq_some_iff.mp h
    cases hres
    obtain ⟨hkept, d', hd', ⟨hcollection, hfilename, hcurrent⟩, hid⟩ := upsert_spec hups rfl
    refine ⟨⟨?_, fun n hn => hn, ?_⟩, ?_⟩
    · rintro filename id' ⟨e, he, hec, hecollection, hefilename, heid⟩
      obtain ⟨e', he', hs, hc', hf', hi'⟩ := hkept e he
      exact ⟨e', he', hs.trans hec, hc'.trans hecollection, hf'.trans hefilename, hi'.trans heid⟩
    · intro hrefs n hn
      obtain ⟨e, he, hid⟩ := Table.mem_keys.mp (hrefs n hn)
      obtain ⟨e', he', -, -, -, hi'⟩ := hkept e he
      exact Table.mem_keys.mpr ⟨e', he', hi'.trans hid⟩
    · intro j hj
      cases hj
      exact ⟨fun _ => ⟨id, ⟨d', hd', hcurrent, hcollection, hfilename, hid⟩, rfl⟩,
        by simp, by simp⟩
  · rename_i hphase
    rw [hphase] at hp
    cases hp
    cases h
    refine ⟨⟨fun _ _ hd => hd, fun _ hn => hn, fun hrefs => hrefs⟩, ?_⟩
    intro j hj
    cases hj
    exact ⟨by simp, fun _ => rfl, by simp⟩
  · rename_i reserved transformed c' hphase
    rw [hphase] at hp hbehind
    cases hp
    have hsame : Keeps s { s with library := s.library, log := s.log } :=
      ⟨fun _ _ hd => hd, fun _ hn => hn, fun hrefs => hrefs⟩
    rw [itemOf_output hbehind.2] at h
    dsimp only at h
    split at h
    · rename_i log' n happ
      cases h
      obtain ⟨hkey, htext, href, -, hrows⟩ := append_spec happ
      have hmine : n ∈ log.rows := by simp [hrows]
      refine ⟨⟨fun _ _ hd => hd, ?_, ?_⟩, ?_⟩
      · intro m hm
        rw [hrows]
        exact List.mem_append_left _ hm
      · intro hrefs m hm
        rw [hrows, List.mem_append, List.mem_singleton] at hm
        rcases hm with hm | rfl
        · exact hrefs m hm
        · exact href
      · intro j hj
        cases hj
        exact ⟨by simp, by simp, fun _ => ⟨n, hmine, hkey, htext, rfl⟩⟩
    · cases h
      exact ⟨hsame, nofun⟩
  · cases h
  · cases h

theorem settled_ok {d : BodyDraw} {outcome : Except String Json} {j : Json}
    (h : settled d outcome = .ok j) : outcome = .ok j := by
  unfold settled at h
  split at h
  · cases h
  · exact h

/-- Uploads elsewhere, and purges of documents that no notification names. -/
theorem keeps_step {s t : EchoState} {act : EchoAct} (hs : EchoInv env s) (h : EchoMove env s act t)
    (hok : ¬ disturbs s act) : Keeps s t := by
  cases h with
  | perform k d a step c library log outcome effects ha hp hbody heff =>
    obtain ⟨hkeeps, -⟩ := body_spec hbody hp (hs.behind k a ha)
    exact ⟨hkeeps.documents, hkeeps.log, hkeeps.refs⟩
  | upload u q storeUp library res hlib =>
    rcases createDocument_cases hlib with ⟨rfl, -⟩ |
      ⟨suffix, content, -, -, ⟨hdocs, -⟩ | ⟨replaced, -, -, hrows⟩⟩
    · exact ⟨fun _ _ hd => hd, fun _ hn => hn, fun hrefs => hrefs⟩
    · refine ⟨?_, fun _ hn => hn, ?_⟩
      · rintro filename id ⟨d, hd, hrest⟩
        exact ⟨d, hdocs ▸ hd, hrest⟩
      · intro hrefs n hn
        exact hdocs ▸ hrefs n hn
    · refine ⟨?_, fun _ hn => hn, ?_⟩
      · rintro filename id ⟨d, hd, hcurrent, hcollection, hrest⟩
        refine ⟨d, ?_, hcurrent, hcollection, hrest⟩
        rw [hrows]
        refine List.mem_append_left _ (List.mem_map.mpr ⟨d, hd, if_neg ?_⟩)
        rintro ⟨hq, -⟩
        exact hok (hq.symm.trans hcollection)
      · intro hrefs n hn
        obtain ⟨d, hd, hid⟩ := Table.mem_keys.mp (hrefs n hn)
        refine Table.mem_keys.mpr
          ⟨afterUpload u.now (newDocument env.files u q suffix content) d, ?_,
            (afterUpload_same u.now _ d).1.trans hid⟩
        rw [hrows]
        exact List.mem_append_left _ (List.mem_map_of_mem hd)
  | withdraw id now library d hlib =>
    obtain ⟨-, -, hrows⟩ := deleteDocument_eq_some hlib
    refine ⟨?_, fun _ hn => hn, ?_⟩
    · rintro filename id' ⟨e, he, hcurrent, hcollection, hrest⟩
      refine ⟨e, ?_, hcurrent, hcollection, hrest⟩
      rw [hrows]
      refine List.mem_map.mpr ⟨e, he, if_neg ?_⟩
      rintro ⟨hid, -⟩
      exact hok ⟨e, he, hid, hcollection⟩
    · intro hrefs n hn
      obtain ⟨e, he, hid⟩ := Table.mem_keys.mp (hrefs n hn)
      refine Table.mem_keys.mpr ⟨afterDelete id now e, ?_, (afterDelete_same id now e).1.trans hid⟩
      rw [hrows]
      exact List.mem_map_of_mem he
  | purge id storeUp =>
    have hlog : ∀ lib' : Library, (∀ n ∈ s.log.rows, n.documentId ∈ lib'.documents.keys) →
        ∀ n ∈ s.log.rows, n ∈ (cascade lib' s.log).rows :=
      fun lib' hrefs n hn => Table.mem_deleteWhere.mpr ⟨hn, not_not.mpr (hrefs n hn)⟩
    have hrefs' : ∀ n ∈ s.log.rows,
        n.documentId ∈ (s.library.purgeDocument id storeUp).1.documents.keys := by
      intro n hn
      rcases purgeDocument_cases s.library id storeUp with ⟨hsame, -⟩ | ⟨d, -, -, -, -, hdocs⟩
      · rw [hsame]
        exact hs.refs n hn
      · obtain ⟨e, he, hid⟩ := Table.mem_keys.mp (hs.refs n hn)
        rw [hdocs]
        refine Table.mem_keys.mpr ⟨e, Table.mem_deleteWhere.mpr ⟨he, ?_⟩, hid⟩
        rintro ⟨heid, -⟩
        exact hok ⟨n, hn, hid.symm.trans heid⟩
    refine ⟨?_, hlog _ hrefs', fun _ n hn => hrefs' n (Table.mem_deleteWhere.mp hn).1⟩
    rintro filename id' ⟨e, he, hcurrent, hrest⟩
    rcases purgeDocument_cases s.library id storeUp with ⟨hsame, -⟩ | ⟨d, -, -, -, -, hdocs⟩
    · exact ⟨e, by rw [hsame]; exact he, hcurrent, hrest⟩
    · refine ⟨e, ?_, hcurrent, hrest⟩
      rw [hdocs]
      exact Table.mem_deleteWhere.mpr ⟨he, fun hgone => hgone.2 hcurrent⟩
  | _ => exact ⟨fun _ _ hd => hd, fun _ hn => hn, fun hrefs => hrefs⟩

/-- What a call of an attempt returned is the result of the attempt's step. -/
theorem given_of_called {s : EchoState} (hs : EchoInv env s) {k : Nat} {a : Attempt} {step : String}
    {c : Nat} {called : EffectCall} {o : EffectOutcome} (ha : s.attempts k = some a)
    (hp : a.phase.performing = some (step, c)) (hc : s.effects.calls c = some called)
    (ho : called.phase = .done (.returned o)) :
    Returned (a.runId, step) s.effects c o ∧ Given env s (a.runId, step) o := by
  obtain ⟨called', hc', hkey⟩ := hs.wired.linked k a ha step c hp
  rw [Option.mem_def, hc] at hc'
  cases hc'
  have hret : Returned (a.runId, step) s.effects c o := ⟨called, hc, hkey, ho⟩
  exact ⟨hret, hs.results.given c _ o hret⟩

/-- Only a body brings a result, and the tables bear it out. -/
theorem results_step {s t : EchoState} {act : EchoAct} (hs : EchoInv env s)
    (h : EchoMove env s act t) (hkeeps : Keeps s t) : ResultsMeet (Meets env t) t.effects := by
  have hold : ResultsMeet (Meets env t) s.effects := hs.results.imp (fun _ _ hj => hj.keep hkeeps)
  have hquiet : ∀ {e effects}, effectStep s.effects e = some effects → (∀ c b, e ≠ .call c b) →
      ResultsMeet (Meets env t) effects :=
    fun heff hno => resultsMeet_step hold (fun c j he => absurd he (hno c _)) heff
  cases h with
  | start k runId by_ claimant call effects hnew hmessage heff => exact hquiet heff nofun
  | transform k call a c called o effects ha hp hc ho heff => exact hquiet heff nofun
  | announce k call a reserved c called o effects ha hp hc ho heff => exact hquiet heff nofun
  | reap runIds effects heff => exact hquiet heff nofun
  | requestCancel runId effects heff => exact hquiet heff nofun
  | call k act a step c effects ha hp hret heff =>
    refine resultsMeet_step hold ?_ heff
    intro c' j hact
    cases hact
    cases hret
  | perform k d a step c library log outcome effects ha hp hbody heff =>
    refine resultsMeet_step hold ?_ heff
    intro c' j hact called hc
    obtain ⟨rfl, hset⟩ := EffectAct.call.inj hact
    obtain ⟨called', hc', hkey⟩ := hs.wired.linked k a ha step c hp
    rw [Option.mem_unique hc hc', show called'.req.key = (a.runId, step) from hkey]
    obtain ⟨-, hmeets⟩ := body_spec hbody hp (hs.behind k a ha)
    have hj := hmeets j (settled_ok (CallAct.settle.inj hset))
    exact ⟨hj.reserved, hj.transformed, hj.announced⟩
  | _ => exact hold

theorem behind_step {s t : EchoState} {act : EchoAct} (hs : EchoInv env s)
    (h : EchoMove env s act t) (hkeeps : Keeps s t) :
    ∀ k, ∀ a ∈ t.attempts k, Behind env t a.runId a.phase := by
  -- an attempt that is not touched keeps what it has behind it
  have hput : ∀ (m : EchoState) k a p, t = m.put k a p → m.attempts = s.attempts →
      Behind env t a.runId p → ∀ j, ∀ a' ∈ t.attempts j, Behind env t a'.runId a'.phase := by
    rintro m k a p rfl hattempts hnew j a' ha'
    rcases attempt_put ha' with ⟨rfl, rfl⟩ | ⟨-, ha'⟩
    · exact hnew
    · exact (hs.behind j a' (hattempts ▸ ha')).keep hkeeps
  have hsame : t.attempts = s.attempts → ∀ j, ∀ a ∈ t.attempts j, Behind env t a.runId a.phase := by
    intro hattempts j a ha
    exact (hs.behind j a (hattempts ▸ ha)).keep hkeeps
  cases h with
  | refuse k runId by_ claimant call hnew hempty => exact hput s k _ _ rfl rfl trivial
  | start k runId by_ claimant call effects hnew hmessage heff => exact hput _ k _ _ rfl rfl trivial
  | raise k call a ha => exact hput s k _ _ rfl rfl trivial
  | transform k call a c called o effects ha hp hc ho heff =>
    obtain ⟨-, hgiven⟩ := given_of_called hs ha (by rw [hp]; rfl) hc ho
    exact hput { s with effects := effects } k a _ rfl rfl (hgiven.keep hkeeps)
  | announce k call a reserved c called o effects ha hp hc ho heff =>
    obtain ⟨-, hgiven⟩ := given_of_called hs ha (by rw [hp]; rfl) hc ho
    have hreserved := hs.behind k a ha
    rw [hp] at hreserved
    exact hput { s with effects := effects } k a _ rfl rfl
      ⟨Given.keep hkeeps hreserved, hgiven.keep hkeeps⟩
  | finish k call a reserved transformed c called o result ha hp hc ho hres =>
    have hbehind := hs.behind k a ha
    rw [hp] at hbehind
    obtain ⟨id, hd, hid⟩ := itemOf_document hbehind.1
    obtain ⟨output, hout, hres⟩ := Option.bind_eq_some_iff.mp hres
    obtain ⟨documentId, hdoc, hres⟩ := Option.bind_eq_some_iff.mp hres
    obtain ⟨notificationId, -, hres⟩ := Option.bind_eq_some_iff.mp hres
    rw [itemOf_output hbehind.2] at hout
    rw [hid] at hdoc
    cases hres
    cases hout
    cases hdoc
    exact hput s k a _ rfl rfl ⟨rfl, rfl, id, hkeeps.documents _ id hd, rfl⟩
  | _ => exact hsame rfl

theorem echoInv_step {s t : EchoState} {act : EchoAct} (hs : EchoInv env s) (hok : ¬ disturbs s act)
    (h : echoStep env s act = some t) : EchoInv env t := by
  have hmove := echoStep_move h
  have hkeeps := keeps_step hs hmove hok
  exact ⟨wired_move hs.wired hmove, hkeeps.refs hs.refs, results_step hs hmove hkeeps,
    behind_step hs hmove hkeeps⟩

/-- The attempts at a run that return agree on what they return: the message in upper case, the
one current document of the message, and the run's one notification, which holds that text.
At most one of them did announce. This is so in every run in which no document of the echoes
is replaced or withdrawn and none that a notification names is purged, however the
attempts overlap, stall, raise, die and are made again. -/
theorem echo_answers_agree (env : EchoEnv) (library : Library) (acts : List EchoAct) (s : EchoState)
    (h : Reaches (restrict (fun s act => ¬ disturbs s act) (echoStep env))
      (EchoState.initial library) acts s)
    (k c : Nat) (a : Attempt) (result : EchoResult) (ha : s.attempts k = some a)
    (hphase : a.phase = .returned result c) :
    result.output = .str (env.upper (messageOf env a.runId)) ∧
      result.digest = digestOf env (messageOf env a.runId) ∧
      (∃ id, EchoDocument s.library (filenameOf env (messageOf env a.runId)) id ∧
        result.documentId = .str (env.files.uuidText id)) ∧
      (∃ n ∈ s.log.rows, n.canonicalId = notificationKey env a.runId ∧
        n.text = clip 2000 (env.upper (messageOf env a.runId)) ∧
        result.notificationId = .str (env.files.uuidText n.id)) ∧
      ∀ k' c' a' result', s.attempts k' = some a' → a'.phase = .returned result' c' →
      a'.runId = a.runId → { result' with repeatedSteps := result.repeatedSteps } = result ∧
      ("announce" ∉ result.repeatedSteps → "announce" ∉ result'.repeatedSteps → k' = k) := by
  have hinv : EchoInv env s := by
    refine h.invariant ?_ (echoInv_initial env library)
    intro s act t hs hstep
    obtain ⟨hok, hstep⟩ := restrict_eq_some.mp hstep
    exact echoInv_step hs hok hstep
  have hbehind : ∀ k c a result, s.attempts k = some a → a.phase = .returned result c →
      Behind env s a.runId (.returned result c) := fun k c a result ha hp => hp ▸ hinv.behind k a ha
  have hnotified : ∀ k c a result, s.attempts k = some a → a.phase = .returned result c →
      ∃ n ∈ s.log.rows, n.canonicalId = notificationKey env a.runId ∧
      n.text = clip 2000 (env.upper (messageOf env a.runId)) ∧
      result.notificationId = .str (env.files.uuidText n.id) := by
    intro k c a result ha hp
    obtain ⟨o, ho, hitem, -⟩ := hinv.wired.ended k a ha result c hp
    obtain ⟨n, hn, hkey, htext, hid⟩ := itemOf_notification (hinv.results.given c _ o ho)
    rw [hitem, Option.some.injEq] at hid
    exact ⟨n, hn, hkey, htext, hid⟩
  obtain ⟨hout, hdigest, hdoc⟩ := hbehind k c a result ha hphase
  refine ⟨hout, hdigest, hdoc, hnotified k c a result ha hphase, ?_⟩
  intro k' c' a' result' ha' hphase' hrun
  constructor
  · obtain ⟨hout', hdigest', id', ⟨d', hd', hcurrent', hcollection', hname', rfl⟩, hid'⟩ :=
      hbehind k' c' a' result' ha' hphase'
    obtain ⟨id, ⟨d, hd, hcurrent, hcollection, hname, rfl⟩, hid⟩ := hdoc
    obtain ⟨n, hn, hkey, -, hnid⟩ := hnotified k c a result ha hphase
    obtain ⟨n', hn', hkey', -, hnid'⟩ := hnotified k' c' a' result' ha' hphase'
    rw [hrun] at hout' hdigest' hname' hkey'
    have hsame : d' = d :=
      s.library.one_current d' hd' d hd hcurrent' hcurrent (hcollection'.trans hcollection.symm)
        (hname'.trans hname.symm)
    have hone : n' = n := Table.eq_of_key hn' hn (hkey'.trans hkey.symm)
    rw [hsame] at hid'
    rw [hone] at hnid'
    have houts : result'.output = result.output := hout'.trans hout.symm
    have hdigests : result'.digest = result.digest := hdigest'.trans hdigest.symm
    have hids : result'.documentId = result.documentId := hid'.trans hid.symm
    have hnids : result'.notificationId = result.notificationId := hnid'.trans hnid.symm
    rw [houts, hdigests, hids, hnids]
  · intro hfirst hfirst'
    obtain ⟨o, ho, -, hrep⟩ := hinv.wired.ended k a ha result c hphase
    obtain ⟨o', ho', -, hrep'⟩ := hinv.wired.ended k' a' ha' result' c' hphase'
    rw [hrun] at ho'
    have hcalls : c' = c :=
      (hinv.wired.sole a.runId).once c' c o' o ho' ho
        (eq_false_of_ne_true (fun hr => hfirst' (hrep' hr)))
        (eq_false_of_ne_true (fun hr => hfirst (hrep hr)))
    exact hinv.wired.apart k' k a' ha' a ha c (by rw [hphase', hcalls]; rfl) (by rw [hphase]; rfl)

/-! ## A notification that was not recorded -/

/-- A body announces only where the run has no notification. -/
theorem body_announces {s : EchoState} {a : Attempt} {d : BodyDraw} {library : Library}
    {log : NotificationLog} {j : Json} {c : Nat} (h : body env s a d = some (library, log, .ok j))
    (hp : a.phase.performing = some ("announce", c)) :
    notificationKey env a.runId ∉ s.log.keys := by
  unfold body at h
  dsimp only at h
  split at h
  · rename_i hphase
    rw [hphase] at hp
    simp [AttemptPhase.performing] at hp
  · rename_i hphase
    rw [hphase] at hp
    simp [AttemptPhase.performing] at hp
  · split at h
    · split at h
      · rename_i happ
        obtain ⟨-, -, -, hfresh, -⟩ := append_spec happ
        exact hfresh
      · cases h
    · cases h
  · cases h
  · cases h

/-- With its notification in the log, a run stays unanswered. -/
theorem unanswered_move {s t : EchoState} {act : EchoAct} {runId : Uuid} {n : Notification}
    (hs : EchoInv env s) (h : EchoMove env s act t) (hn : n ∈ s.log.rows)
    (hkey : n.canonicalId = notificationKey env runId)
    (hun : Unanswered (announceKey runId) s.effects) :
    Unanswered (announceKey runId) t.effects := by
  have hquiet : ∀ {e effects}, effectStep s.effects e = some effects → (∀ c b, e ≠ .call c b) →
      Unanswered (announceKey runId) effects :=
    fun heff hno => unanswered_step hun (fun c j he => absurd he (hno c _)) heff
  cases h with
  | start k runId by_ claimant call effects hnew hmessage heff => exact hquiet heff nofun
  | transform k call a c called o effects ha hp hc ho heff => exact hquiet heff nofun
  | announce k call a reserved c called o effects ha hp hc ho heff => exact hquiet heff nofun
  | reap runIds effects heff => exact hquiet heff nofun
  | requestCancel runId effects heff => exact hquiet heff nofun
  | call k act a step c effects ha hp hret heff =>
    refine unanswered_step hun ?_ heff
    intro c' j hact
    cases hact
    cases hret
  | perform k d a step c library log outcome effects ha hp hbody heff =>
    refine unanswered_step hun ?_ heff
    intro c' j hact called hc hx
    obtain ⟨rfl, hset⟩ := EffectAct.call.inj hact
    obtain ⟨called', hc', hkey'⟩ := hs.wired.linked k a ha step c hp
    rw [Option.mem_unique hc hc', show called'.req.key = (a.runId, step) from hkey', announceKey,
      Prod.mk.injEq] at hx
    obtain ⟨hrun, rfl⟩ := hx
    rw [settled_ok (CallAct.settle.inj hset)] at hbody
    refine body_announces hbody hp (Table.mem_keys.mpr ⟨n, hn, ?_⟩)
    rw [hkey, hrun]
  | _ => exact hun

/-- The claimant of the announcement dies, or records its exception, with the notification
in the log: the notification stays, and no attempt at the run ever returns. -/
theorem lost_announcement_final (env : EchoEnv) (library : Library) (acts : List EchoAct)
    (s : EchoState) (h : Reaches (restrict (fun s act => ¬ disturbs s act) (echoStep env))
      (EchoState.initial library) acts s)
    (k c : Nat) (a : Attempt) (reserved transformed : EffectOutcome) (called : EffectCall)
    (n : Notification) (b : CallAct) (ha : s.attempts k = some a)
    (hphase : a.phase = .announcing reserved transformed c) (hc : s.effects.calls c = some called)
    (hclaims : called.phase.claiming = true) (hn : n ∈ s.log.rows)
    (hkey : n.canonicalId = notificationKey env a.runId)
    (hb : b = .die ∨ ∃ now error, b = .finish now ∧ called.phase = .raised error)
    (later : List EchoAct) (t : EchoState)
    (hlater : Reaches (restrict (fun s act => ¬ disturbs s act) (echoStep env)) s
      (.call k b :: later) t) :
    n ∈ t.log.rows ∧ (∀ r ∈ t.effects.rows (announceKey a.runId), r.status ≠ .completed) ∧
      ∀ k' a' result c', t.attempts k' = some a' → a'.runId = a.runId →
      a'.phase ≠ .returned result c' := by
  have hstep : ∀ s act t, EchoInv env s →
      restrict (fun s act => ¬ disturbs s act) (echoStep env) s act = some t → EchoInv env t ∧
      EchoMove env s act t ∧ Keeps s t := by
    intro s act t hs hst
    obtain ⟨hok, hst⟩ := restrict_eq_some.mp hst
    exact ⟨echoInv_step hs hok hst, echoStep_move hst, keeps_step hs (echoStep_move hst) hok⟩
  have hinv : EchoInv env s :=
    h.invariant (fun s act t hs hst => (hstep s act t hs hst).1) (echoInv_initial env library)
  obtain ⟨m, hfirst, hrest⟩ := reaches_cons.mp hlater
  obtain ⟨hinvm, hmove, hkeeps⟩ := hstep s (.call k b) m hinv hfirst
  have hunanswered : Unanswered (announceKey a.runId) m.effects := by
    obtain ⟨called', hc', hx⟩ := hinv.wired.linked k a ha "announce" c (by rw [hphase]; rfl)
    rw [Option.mem_unique hc' hc] at hx
    cases hmove with
    | call _ _ a' step c' effects ha' hp hret heff =>
      rw [ha] at ha'
      cases ha'
      rw [hphase] at hp
      cases hp
      exact unanswered_released (hinv.wired.sole a.runId) (hinvm.wired.sole a.runId) hc hx
        hclaims hb heff
  obtain ⟨hinvt, hnt, hunt⟩ : EchoInv env t ∧ n ∈ t.log.rows ∧
      Unanswered (announceKey a.runId) t.effects := by
    refine hrest.invariant
      (P := fun t => EchoInv env t ∧ n ∈ t.log.rows ∧ Unanswered (announceKey a.runId) t.effects) ?_
      ⟨hinvm, hkeeps.log n hn, hunanswered⟩
    rintro s' act t' ⟨hs', hn', hun'⟩ hst
    obtain ⟨ht', hmove', hkeeps'⟩ := hstep s' act t' hs' hst
    exact ⟨ht', hkeeps'.log n hn', unanswered_move hs' hmove' hn' hkey hun'⟩
  refine ⟨hnt, hunt.row, ?_⟩
  intro k' a' result c' ha' hrun hret
  obtain ⟨o, ho, -⟩ := hinvt.wired.ended k' a' ha' result c' hret
  rw [hrun] at ho
  exact hunt.returned c' o ho

end

/-! Three attempts at a run. The first registers the document and dies with the text made;
the second is answered for the document, makes the text again and announces; the third is
answered for everything. -/

def hiEnv : EchoEnv where
  files :=
    { sha256 := fun _ => "8f434346648f6b96df89dda901c5176b10a6d83961dd3c1ac88b59b2dc327aa4"
      uuidText := fun id => "00000000-0000-0000-0000-0000000000" ++ toString id }
  upper := upper
  strText := fun _ => ""
  payload := fun _ => [("message", .str "hi")]

def drawAt (now : Time) : BodyDraw := ⟨now, 51, fun _ => 71, 0, "IntegrityError", none⟩

/-- A call that finds no row, up to its final UPDATE. -/
def performs (k : Nat) (now : Time) : List EchoAct :=
  [.call k (.claim now), .call k (.insert now), .call k .start, .perform k (drawAt now)]

def diedRun : List EchoAct :=
  .start 1 10 5 "a" 1 :: performs 1 0 ++ [.call 1 (.finish 1), .next 1 2] ++ performs 1 1 ++
    [.call 1 .die, .reap [10]]

def retriedRun : List EchoAct :=
  diedRun ++ [.start 2 10 5 "b" 3, .call 2 (.claim 60), .next 2 4, .call 2 (.claim 60),
    .call 2 .start, .perform 2 (drawAt 60), .call 2 (.finish 61), .next 2 5] ++
    performs 2 61

def returnedRun : List EchoAct :=
  retriedRun ++ [.call 2 (.finish 62), .next 2 0, .start 3 10 5 "c" 6, .call 3 (.claim 70),
    .next 3 7, .call 3 (.claim 70), .next 3 8, .call 3 (.claim 70), .next 3 0]

/-- The system in which nothing of the workload gets lost. -/
def hiStep : EchoState → EchoAct → Option EchoState :=
  restrict (fun s act => ¬ disturbs s act) (echoStep hiEnv)

theorem returnedRun_runs :
    (returnedRun.foldlM hiStep (EchoState.initial Library.empty)).isSome = true := by
  decide +kernel

def hiResult (repeatedSteps : List String) : EchoResult where
  output := .str "HI"
  digest := "8f434346648f6b96df89dda901c5176b10a6d83961dd3c1ac88b59b2dc327aa4"
  documentId := .str "00000000-0000-0000-0000-000000000051"
  notificationId := .str "00000000-0000-0000-0000-000000000071"
  repeatedSteps := repeatedSteps

/-- The second attempt returns, and what the third returns is the same. -/
theorem echo_answers_agree_returnedRun :
    ∃ s, Reaches hiStep (EchoState.initial Library.empty) returnedRun s ∧
      (∃ n ∈ s.log.rows, n.canonicalId = "c_00000000000000" ∧ n.text = "HI") ∧
      ∃ r, { r with repeatedSteps := ["reserve"] } = hiResult ["reserve"] ∧
        (s.attempts 3).map Attempt.phase = some (.returned r 8) := by
  obtain ⟨-, -, -, ⟨n, hn, hkey, htext, -⟩, hagree⟩ :=
    echo_answers_agree hiEnv Library.empty returnedRun _ (reaches_get returnedRun_runs) 2 5
      ⟨10, 5, "b", .returned (hiResult ["reserve"]) 5⟩ (hiResult ["reserve"])
      (by decide +kernel) rfl
  refine ⟨_, reaches_get returnedRun_runs,
    ⟨n, hn, hkey.trans (by decide +kernel), htext.trans (by decide +kernel)⟩, ?_⟩
  obtain ⟨hsame, -⟩ :=
    hagree 3 8 ⟨10, 5, "c", .returned (hiResult ["reserve", "transform", "announce"]) 8⟩
      (hiResult ["reserve", "transform", "announce"]) (by decide +kernel) rfl rfl
  exact ⟨_, hsame, by decide +kernel⟩

theorem retriedRun_runs :
    (retriedRun.foldlM hiStep (EchoState.initial Library.empty)).isSome = true := by
  decide +kernel

/-- The second attempt dies before it records the announcement, and a fourth one follows. -/
def lostRun : List EchoAct :=
  [.call 2 .die, .reap [10], .start 4 10 5 "d" 9, .call 4 (.claim 90), .next 4 11,
    .call 4 (.claim 90), .next 4 12, .call 4 (.claim 90), .next 4 0]

theorem lostRun_runs :
    (lostRun.foldlM hiStep
      ((retriedRun.foldlM hiStep (EchoState.initial Library.empty)).get retriedRun_runs)).isSome =
      true := by
  decide +kernel

def hiNotification : Notification := ⟨71, 51, "c_00000000000000", 0, "HI"⟩

/-- The notification is there, and the fourth attempt is told to reconcile. -/
theorem lost_announcement_final_lostRun :
    ∃ s t, Reaches hiStep (EchoState.initial Library.empty) retriedRun s ∧
      Reaches hiStep s lostRun t ∧ hiNotification ∈ t.log.rows ∧
      (t.attempts 4).map Attempt.phase = some .raised ∧ ∀ k' a' result c', t.attempts k' = some a' →
      a'.runId = 10 → a'.phase ≠ .returned result c' := by
  obtain ⟨hn, -, hnever⟩ :=
    lost_announcement_final hiEnv Library.empty retriedRun _ (reaches_get retriedRun_runs) 2 5
      ⟨10, 5, "b", .announcing ⟨some (reservedResult hiEnv 51), true, 1⟩
        ⟨some (transformedResult hiEnv "hi"), false, 2⟩ 5⟩
      ⟨some (reservedResult hiEnv 51), true, 1⟩ ⟨some (transformedResult hiEnv "hi"), false, 2⟩
      ⟨stepRequest 10 "announce" "b", .returned 1 (announcedResult hiEnv 71)⟩ hiNotification .die
      (by decide +kernel) rfl (by decide +kernel) rfl (by decide +kernel) (by decide +kernel)
      (Or.inl rfl) lostRun.tail _ (reaches_get lostRun_runs)
  exact ⟨_, _, reaches_get retriedRun_runs, reaches_get lostRun_runs, hn, by decide +kernel, hnever⟩

end AgenticPlatform.Workloads.Echo
