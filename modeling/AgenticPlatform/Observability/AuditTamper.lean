import AgenticPlatform.Observability.AuditRetention

/-!
# Tampering with the log

Someone changes a row, takes one away, puts one in between or exchanges two. The
digests after it give away everything but two things: a change to what no digest
covers, and a last event that is sealed anew.
-/
namespace AgenticPlatform.Observability
open AgenticPlatform.Foundation AgenticPlatform.Identity AgenticPlatform.Db

/-- A log in which every chain verifies. The hash of an anchor is one that arose along
a chain. -/
structure IntactLog (env : AuditEnv) (events : List AuditRow) (anchors : Uuid → Option Anchor) :
    Prop where
  ids : ∀ tenant, ((rowsOf events tenant).map AuditRow.id).Nodup
  intact : ∀ tenant, (verifyChain env (anchors tenant) (auditRows events tenant)).intact = true
  genuine : ∀ tenant, (links env).Genuine ((anchors tenant).map Anchor.throughHash)

inductive Tampering where
  | change (e e' : AuditRow)
  | delete (e : AuditRow)
  | insert (f : AuditRow)
  /-- Two events exchange their ids. -/
  | swap (a b : AuditRow)

def without (events : List AuditRow) (e : AuditRow) : List AuditRow :=
  events.filter (fun f => f ≠ e)

/-- Two rows with their ids exchanged. -/
def exchanged (a b f : AuditRow) : AuditRow :=
  if f = a then { a with id := b.id } else if f = b then { b with id := a.id } else f

def Tampering.apply (events : List AuditRow) : Tampering → List AuditRow
  | .change e e' => events.map (fun f => if f = e then e' else f)
  | .delete e => without events e
  | .insert f => events ++ [f]
  | .swap a b => events.map (exchanged a b)

/-- The event is the last of its tenant. -/
def IsLast (events : List AuditRow) (e : AuditRow) : Prop :=
  ∀ f ∈ events, f.tenantId = e.tenantId → f.id < e.id

/-- What counts as tampering: a row that differs, an event that is not the last, a new
one between two others, two events of one tenant. The id is the primary key. -/
def Tampering.Applies (events : List AuditRow) : Tampering → Prop
  | .change e e' => e ∈ events ∧ e' ≠ e ∧ ∀ f ∈ without events e, f.id ≠ e'.id
  | .delete e => e ∈ events ∧ ∃ f ∈ events, f.tenantId = e.tenantId ∧ e.id < f.id
  | .insert f => (∀ g ∈ events, g.id ≠ f.id) ∧
    (∃ a ∈ events, a.tenantId = f.tenantId ∧ a.id < f.id) ∧ ∃ b ∈ events, b.tenantId = f.tenantId ∧
    f.id < b.id
  | .swap a b => a ∈ events ∧ b ∈ events ∧ a.tenantId = b.tenantId ∧ a ≠ b

/-- The digested columns, the link and the hash stay, and the event keeps its place. -/
def SamePlace (events : List AuditRow) (e e' : AuditRow) : Prop :=
  e'.toPayload.canonical = e.toPayload.canonical ∧ e'.prevHash = e.prevHash ∧ e'.hash = e.hash ∧
    ∀ f ∈ without events e, f.tenantId = e.tenantId → (f.id < e'.id ↔ f.id < e.id)

/-- The last event of a tenant becomes another last event, with its own link and digest. -/
def SealedAnew (env : AuditEnv) (events : List AuditRow) (anchors : Uuid → Option Anchor)
    (e e' : AuditRow) : Prop :=
  IsLast (without events e) e ∧ IsLast (without events e) e' ∧
    e'.prevHash = lastHash (without events e) (anchors e'.tenantId) e'.tenantId ∧
    e'.hash = digest env e'.toPayload e'.prevHash

def Tampering.Unnoticed (env : AuditEnv) (events : List AuditRow) (anchors : Uuid → Option Anchor) :
    Tampering → Prop
  | .change e e' => (∀ a ∈ anchors e'.tenantId, a.throughEventId < e'.id) ∧
      (SamePlace events e e' ∨ SealedAnew env events anchors e e')
  | .delete _ | .insert _ | .swap _ _ => False

/-- Some chain does not verify any more. -/
def Detected (env : AuditEnv) (events : List AuditRow) (anchors : Uuid → Option Anchor) : Prop :=
  ∃ tenant, (verifyChain env (anchors tenant) (auditRows events tenant)).intact = false

/-! ## Rows in order -/

theorem mem_rowsOf {events : List AuditRow} {tenant : Uuid} {e : AuditRow} :
    e ∈ rowsOf events tenant ↔ e ∈ events ∧ e.tenantId = tenant := by
  rw [rowsOf, List.mem_filter, decide_eq_true_eq]

theorem mem_auditRows {events : List AuditRow} {tenant : Uuid} {e : AuditRow} :
    e ∈ auditRows events tenant ↔ e ∈ events ∧ e.tenantId = tenant := by
  rw [auditRows, List.mem_insertionSort]
  exact mem_rowsOf

theorem auditRows_perm (events : List AuditRow) (tenant : Uuid) :
    (auditRows events tenant).Perm (rowsOf events tenant) := List.perm_insertionSort _ _

theorem auditRows_sorted {events : List AuditRow} {tenant : Uuid}
    (h : ((rowsOf events tenant).map AuditRow.id).Nodup) :
    (auditRows events tenant).Pairwise (fun a b => a.id < b.id) := by
  have hle : (auditRows events tenant).Pairwise (fun a b => a.id ≤ b.id) := by
    have : Std.Total (fun a b : AuditRow => a.id ≤ b.id) := ⟨fun a b => Nat.le_total a.id b.id⟩
    have : IsTrans AuditRow (fun a b => a.id ≤ b.id) := ⟨fun a b c => Nat.le_trans⟩
    exact List.pairwise_insertionSort _ _
  have hne : (auditRows events tenant).Pairwise (fun a b => a.id ≠ b.id) :=
    List.pairwise_map.mp (((auditRows_perm events tenant).map AuditRow.id).nodup_iff.mpr h)
  exact (hle.and hne).imp (fun h => Nat.lt_of_le_of_ne h.1 h.2)

/-- Rows in strict order that are the rows of a tenant. -/
theorem auditRows_of_perm {events rows : List AuditRow} {tenant : Uuid}
    (hperm : rows.Perm (rowsOf events tenant)) (hsorted : rows.Pairwise (fun a b => a.id < b.id)) :
    auditRows events tenant = rows := by
  have hids : ((rowsOf events tenant).map AuditRow.id).Nodup :=
    ((hperm.map AuditRow.id).nodup_iff).mp
      ((List.pairwise_map.mpr hsorted).imp (fun hlt => Nat.ne_of_lt hlt))
  apply ((auditRows_perm events tenant).trans hperm.symm).eq_of_pairwise _
    (auditRows_sorted hids) hsorted
  intro a b _ _ hlt hlt'
  omega

/-- Where a row belongs. -/
theorem exists_place {rows : List AuditRow} (hsorted : rows.Pairwise (fun a b => a.id < b.id))
    {f : AuditRow} (hfresh : ∀ g ∈ rows, g.id ≠ f.id) :
    ∃ pre post, rows = pre ++ post ∧ (∀ g ∈ pre, g.id < f.id) ∧ (∀ g ∈ post, f.id < g.id) := by
  induction rows with
  | nil => exact ⟨[], [], rfl, fun g hg => (by cases hg), fun g hg => (by cases hg)⟩
  | cons g rows ih =>
    obtain ⟨hg, hrows⟩ := List.pairwise_cons.mp hsorted
    have hne := hfresh g List.mem_cons_self
    by_cases hlt : g.id < f.id
    · obtain ⟨pre, post, rfl, hpre, hpost⟩ :=
        ih hrows (fun g' hg' => hfresh g' (List.mem_cons_of_mem g hg'))
      refine ⟨g :: pre, post, rfl, ?_, hpost⟩
      intro g' hg'
      rcases List.mem_cons.mp hg' with rfl | hg'
      · exact hlt
      · exact hpre g' hg'
    · refine ⟨[], g :: rows, rfl, fun g' hg' => (by cases hg'), ?_⟩
      intro g' hg'
      rcases List.mem_cons.mp hg' with rfl | hg'
      · omega
      · have hlt' := hg g' hg'
        omega

theorem sorted_place {pre post : List AuditRow} {f : AuditRow}
    (hsorted : (pre ++ post).Pairwise (fun a b => a.id < b.id)) (hpre : ∀ g ∈ pre, g.id < f.id)
    (hpost : ∀ g ∈ post, f.id < g.id) : (pre ++ f :: post).Pairwise (fun a b => a.id < b.id) := by
  obtain ⟨hleft, hright, hcross⟩ := List.pairwise_append.mp hsorted
  refine List.pairwise_append.mpr ⟨hleft, List.pairwise_cons.mpr ⟨hpost, hright⟩, ?_⟩
  intro a ha b hb
  rcases List.mem_cons.mp hb with rfl | hb
  · exact hpre a ha
  · exact hcross a ha b hb

theorem auditRows_congr {events events' : List AuditRow} {tenant : Uuid}
    (hperm : events.Perm events') (hids : ((rowsOf events' tenant).map AuditRow.id).Nodup) :
    auditRows events tenant = auditRows events' tenant :=
  auditRows_of_perm ((auditRows_perm events' tenant).trans (hperm.symm.filter _))
    (auditRows_sorted hids)

/-! ## Rows without one and with one more -/

theorem nodup_of_ids {events : List AuditRow}
    (h : ∀ tenant, ((rowsOf events tenant).map AuditRow.id).Nodup) : events.Nodup := by
  rw [List.nodup_iff_sublist]
  intro e htwice
  have hrows : (rowsOf events e.tenantId).Nodup := List.Nodup.of_map _ (h e.tenantId)
  apply List.nodup_iff_sublist.mp hrows e
  have hfilter := htwice.filter (fun f => decide (f.tenantId = e.tenantId))
  simpa [rowsOf] using hfilter

theorem ids_without {events : List AuditRow} {e : AuditRow} {tenant : Uuid}
    (h : ((rowsOf events tenant).map AuditRow.id).Nodup) :
    ((rowsOf (without events e) tenant).map AuditRow.id).Nodup :=
  h.sublist ((List.filter_sublist.filter _).map _)

theorem auditRows_without_other {events : List AuditRow} {e : AuditRow} {tenant : Uuid}
    (hne : tenant ≠ e.tenantId) :
    auditRows (without events e) tenant = auditRows events tenant := by
  have hrows : rowsOf (without events e) tenant = rowsOf events tenant := by
    rw [rowsOf, without, List.filter_filter]
    apply List.filter_congr
    intro f _
    by_cases hf : f.tenantId = tenant
    · have hfe : f ≠ e := by
        rintro rfl
        exact hne hf.symm
      simp [hf, hfe]
    · simp [hf]
  rw [auditRows, auditRows]
  exact congrArg _ hrows

theorem auditRows_without {events pre post : List AuditRow} {e : AuditRow}
    (hids : ((rowsOf events e.tenantId).map AuditRow.id).Nodup)
    (hsplit : auditRows events e.tenantId = pre ++ e :: post) :
    auditRows (without events e) e.tenantId = pre ++ post := by
  have hsorted := auditRows_sorted hids
  have hne : ∀ f ∈ pre ++ post, f ≠ e := by
    rintro f hf rfl
    rw [hsplit] at hsorted
    obtain ⟨-, hpost, hpre⟩ := List.pairwise_append.mp hsorted
    rcases List.mem_append.mp hf with hf | hf
    · exact Nat.lt_irrefl _ (hpre f hf f List.mem_cons_self)
    · exact Nat.lt_irrefl _ ((List.pairwise_cons.mp hpost).1 f hf)
  have hfilter : (auditRows events e.tenantId).filter (fun f => decide (f ≠ e)) = pre ++ post := by
    have hself : (pre ++ post).filter (fun f => decide (f ≠ e)) = pre ++ post :=
      List.filter_eq_self.mpr (fun f hf => decide_eq_true (hne f hf))
    rw [List.filter_append] at hself
    rw [hsplit, List.filter_append, List.filter_cons_of_neg (by simp), hself]
  have hrows : rowsOf (without events e) e.tenantId =
      (rowsOf events e.tenantId).filter (fun f => decide (f ≠ e)) := by
    rw [rowsOf, rowsOf, without, List.filter_comm]
  apply auditRows_of_perm
  · rw [hrows, ← hfilter]
    exact (auditRows_perm events e.tenantId).filter _
  · rw [hsplit] at hsorted
    exact hsorted.sublist (List.Sublist.append_left (List.sublist_cons_self e post) pre)

theorem auditRows_append_other {events : List AuditRow} {f : AuditRow} {tenant : Uuid}
    (hne : tenant ≠ f.tenantId) : auditRows (events ++ [f]) tenant = auditRows events tenant := by
  have hrows : rowsOf (events ++ [f]) tenant = rowsOf events tenant := by
    have hnone : rowsOf [f] tenant = [] := by
      refine rowsOf_other (?_ : ∀ e ∈ [f], e.tenantId = f.tenantId) hne
      intro e he
      rw [List.mem_singleton.mp he]
    rw [rowsOf_append, hnone, List.append_nil]
  rw [auditRows, auditRows]
  exact congrArg _ hrows

theorem auditRows_append {events pre post : List AuditRow} {f : AuditRow}
    (hids : ((rowsOf events f.tenantId).map AuditRow.id).Nodup)
    (hsplit : auditRows events f.tenantId = pre ++ post) (hpre : ∀ g ∈ pre, g.id < f.id)
    (hpost : ∀ g ∈ post, f.id < g.id) :
    auditRows (events ++ [f]) f.tenantId = pre ++ f :: post := by
  have hsorted := auditRows_sorted hids
  have hown : rowsOf [f] f.tenantId = [f] := by
    apply rowsOf_own
    intro e he
    rw [List.mem_singleton.mp he]
  apply auditRows_of_perm
  · rw [rowsOf_append, hown]
    refine List.perm_middle.trans ?_
    rw [← hsplit]
    exact ((auditRows_perm events f.tenantId).cons f).trans (List.perm_append_singleton f _).symm
  · rw [hsplit] at hsorted
    exact sorted_place hsorted hpre hpost

/-- A changed row is another one in its stead. -/
theorem change_perm {events : List AuditRow} {e e' : AuditRow} (hnodup : events.Nodup)
    (he : e ∈ events) : ((Tampering.change e e').apply events).Perm (without events e ++ [e']) := by
  obtain ⟨pre, post, rfl⟩ := List.append_of_mem he
  have hne : ∀ f ∈ pre ++ post, f ≠ e := by
    rintro f hf rfl
    exact (List.nodup_cons.mp (List.perm_middle.nodup_iff.mp hnodup)).1 hf
  have hmap : ∀ fs : List AuditRow, (∀ f ∈ fs, f ≠ e) →
      fs.map (fun f => if f = e then e' else f) = fs := by
    intro fs hfs
    exact (List.map_congr_left (fun f hf => if_neg (hfs f hf))).trans (List.map_id' fs)
  have hwithout : without (pre ++ e :: post) e = pre ++ post := by
    have hself : (pre ++ post).filter (fun f => decide (f ≠ e)) = pre ++ post :=
      List.filter_eq_self.mpr (fun f hf => decide_eq_true (hne f hf))
    rw [List.filter_append] at hself
    rw [without, List.filter_append, List.filter_cons_of_neg (by simp), hself]
  show ((pre ++ e :: post).map (fun f => if f = e then e' else f)).Perm _
  rw [hwithout, List.map_append, List.map_cons, if_pos rfl,
    hmap pre (fun f hf => hne f (List.mem_append_left post hf)),
    hmap post (fun f hf => hne f (List.mem_append_right pre hf))]
  exact List.perm_middle.trans (List.perm_append_singleton e' _).symm

/-! ## What the chain gives away -/

section Detection

variable {env : AuditEnv} {events : List AuditRow} {anchors : Uuid → Option Anchor}

theorem IntactLog.chained (h : IntactLog env events anchors) (tenant : Uuid) :
    (links env).Chained ((anchors tenant).map Anchor.throughHash) (auditRows events tenant) :=
  (verifyChain_intact.mp (h.intact tenant)).2

theorem IntactLog.above (h : IntactLog env events anchors) (tenant : Uuid) :
    ∀ e ∈ auditRows events tenant, ∀ a ∈ anchors tenant, a.throughEventId < e.id :=
  (verifyChain_intact.mp (h.intact tenant)).1

/-- The place of an event in its chain. -/
theorem exists_split {e : AuditRow} (he : e ∈ events) :
    ∃ pre post, auditRows events e.tenantId = pre ++ e :: post :=
  List.append_of_mem (mem_auditRows.mpr ⟨he, rfl⟩)

theorem detected_of_not_chained (tenant : Uuid) {events' : List AuditRow}
    (h : ¬ (links env).Chained ((anchors tenant).map Anchor.throughHash)
      (auditRows events' tenant)) : Detected env events' anchors := by
  refine ⟨tenant, ?_⟩
  rw [Bool.eq_false_iff]
  exact fun hintact => h (verifyChain_intact.mp hintact).2

theorem detected_delete (henv : env.Faithful) (h : IntactLog env events anchors) {e : AuditRow}
    (hx : (Tampering.delete e).Applies events) :
    Detected env ((Tampering.delete e).apply events) anchors := by
  obtain ⟨he, f, hf, htenant, hlt⟩ := hx
  obtain ⟨pre, post, hsplit⟩ := exists_split he
  have hchained := h.chained e.tenantId
  have hsorted := auditRows_sorted (h.ids e.tenantId)
  have hrow : f ∈ auditRows events e.tenantId := mem_auditRows.mpr ⟨hf, htenant⟩
  rw [hsplit] at hchained hsorted hrow
  have hpost : post ≠ [] := by
    rintro rfl
    have hle := upto_last hsorted List.getLast?_concat f hrow
    omega
  apply detected_of_not_chained e.tenantId
  show ¬ (links env).Chained _ (auditRows (without events e) e.tenantId)
  rw [auditRows_without (h.ids e.tenantId) hsplit]
  rw [List.append_cons] at hchained
  exact Links.not_chained_remove (links_traceable henv) (h.genuine e.tenantId) hchained
    (List.cons_ne_nil e []) hpost

theorem detected_insert (henv : env.Faithful) (h : IntactLog env events anchors) {f : AuditRow}
    (hx : (Tampering.insert f).Applies events) :
    Detected env ((Tampering.insert f).apply events) anchors := by
  obtain ⟨hfresh, -, b, hb, htenant, hlt⟩ := hx
  have hids := h.ids f.tenantId
  obtain ⟨pre, post, hsplit, hpre, hpost⟩ := exists_place (auditRows_sorted hids)
    (fun g hg => hfresh g (mem_auditRows.mp hg).1)
  have hchained := h.chained f.tenantId
  have hrow : b ∈ auditRows events f.tenantId := mem_auditRows.mpr ⟨hb, htenant⟩
  rw [hsplit] at hchained hrow
  have hne : post ≠ [] := by
    rintro rfl
    rw [List.append_nil] at hrow
    have hgt := hpre b hrow
    omega
  apply detected_of_not_chained f.tenantId
  show ¬ (links env).Chained _ (auditRows (events ++ [f]) f.tenantId)
  rw [auditRows_append hids hsplit hpre hpost, List.append_cons]
  exact Links.not_chained_insert (links_traceable henv) (h.genuine f.tenantId) hchained
    (List.cons_ne_nil f []) hne

/-- Two events in order, as they stand in their chain. -/
theorem exists_split_two {rows : List AuditRow} (hsorted : rows.Pairwise (fun a b => a.id < b.id))
    {a b : AuditRow} (ha : a ∈ rows) (hb : b ∈ rows) (hlt : a.id < b.id) :
    ∃ pre mid post, rows = pre ++ a :: (mid ++ b :: post) := by
  obtain ⟨pre, rest, rfl⟩ := List.append_of_mem ha
  have hrest : b ∈ rest := by
    rcases List.mem_append.mp hb with hb | hb
    · have hgt := (List.pairwise_append.mp hsorted).2.2 b hb a List.mem_cons_self
      omega
    · rcases List.mem_cons.mp hb with rfl | hb
      · omega
      · exact hb
  obtain ⟨mid, post, rfl⟩ := List.append_of_mem hrest
  exact ⟨pre, mid, post, rfl⟩

theorem exchanged_tenant {a b : AuditRow} (f : AuditRow) :
    (exchanged a b f).tenantId = f.tenantId := by
  unfold exchanged
  split
  · rename_i hf
    rw [hf]
  · split
    · rename_i hf
      rw [hf]
    · rfl

theorem exchanged_comm {a b : AuditRow} (hne : a ≠ b) : exchanged a b = exchanged b a := by
  funext f
  unfold exchanged
  by_cases ha : f = a
  · subst ha
    rw [if_pos rfl, if_neg hne, if_pos rfl]
  · rw [if_neg ha, if_neg ha]

theorem auditRows_swap {a b : AuditRow} {pre mid post : List AuditRow} {tenant : Uuid}
    (hids : ((rowsOf events tenant).map AuditRow.id).Nodup)
    (hsplit : auditRows events tenant = pre ++ a :: (mid ++ b :: post)) :
    auditRows (events.map (exchanged a b)) tenant =
      pre ++ { b with id := a.id } :: (mid ++ { a with id := b.id } :: post) := by
  have hsorted := auditRows_sorted hids
  rw [hsplit] at hsorted
  have hnodup : (pre ++ a :: (mid ++ b :: post)).Nodup :=
    hsorted.imp (fun hlt hsame => Nat.ne_of_lt hlt (congrArg AuditRow.id hsame))
  have hkept : ∀ fs : List AuditRow, (∀ f ∈ fs, f ≠ a ∧ f ≠ b) → fs.map (exchanged a b) = fs := by
    intro fs hfs
    refine (List.map_congr_left ?_).trans (List.map_id' fs)
    intro f hf
    rw [exchanged, if_neg (hfs f hf).1, if_neg (hfs f hf).2]
  have hmap : (auditRows events tenant).map (exchanged a b) =
      pre ++ { a with id := b.id } :: (mid ++ { b with id := a.id } :: post) := by
    simp only [List.nodup_append, List.nodup_cons, List.mem_append, List.mem_cons] at hnodup
    have hab : b ≠ a := by
      rintro rfl
      exact hnodup.2.1.1 (Or.inr (Or.inl rfl))
    rw [hsplit, List.map_append, List.map_cons, List.map_append, List.map_cons, hkept pre,
      hkept mid, hkept post]
    · simp [exchanged, hab]
    · grind
    · grind
    · grind
  have hrows : rowsOf (events.map (exchanged a b)) tenant =
      (rowsOf events tenant).map (exchanged a b) := by
    rw [rowsOf, List.filter_map, rowsOf]
    congr 1
    apply List.filter_congr
    intro f _
    show decide ((exchanged a b f).tenantId = tenant) = _
    rw [exchanged_tenant]
  apply auditRows_of_perm
  · rw [hrows]
    refine List.Perm.trans ?_ ((auditRows_perm events tenant).map (exchanged a b))
    rw [hmap]
    apply List.Perm.append_left
    refine (List.perm_middle.cons _).trans
      ((List.Perm.swap _ _ _).trans (List.perm_middle.symm.cons _))
  · have hsame : (pre ++ { b with id := a.id } :: (mid ++ { a with id := b.id } :: post)).map
        AuditRow.id =
        (pre ++ a :: (mid ++ b :: post)).map AuditRow.id := by
      simp
    rw [← List.pairwise_map (f := AuditRow.id) (R := fun i j => i < j)] at hsorted ⊢
    rw [hsame]
    exact hsorted

theorem detected_swap (henv : env.Faithful) (h : IntactLog env events anchors) {a b : AuditRow}
    (hx : (Tampering.swap a b).Applies events) :
    Detected env ((Tampering.swap a b).apply events) anchors := by
  obtain ⟨ha, hb, htenant, hne⟩ := hx
  have hsorted := auditRows_sorted (h.ids a.tenantId)
  have ha : a ∈ auditRows events a.tenantId := mem_auditRows.mpr ⟨ha, rfl⟩
  have hb : b ∈ auditRows events a.tenantId := mem_auditRows.mpr ⟨hb, htenant.symm⟩
  have hid : a.id ≠ b.id := fun hsame => hne (eq_of_id hsorted ha hb hsame)
  -- the one that comes first now names what the other one names
  have hordered : ∀ c d : AuditRow, c ∈ auditRows events a.tenantId →
      d ∈ auditRows events a.tenantId → c.id < d.id →
      Detected env (events.map (exchanged c d)) anchors := by
    intro c d hc hd hlt
    obtain ⟨pre, mid, post, hsplit⟩ := exists_split_two hsorted hc hd hlt
    have hchained := h.chained a.tenantId
    rw [hsplit] at hchained
    apply detected_of_not_chained a.tenantId
    rw [auditRows_swap (h.ids a.tenantId) hsplit]
    have hchained : (links env).Chained ((anchors a.tenantId).map Anchor.throughHash)
        (pre ++ (c :: mid) ++ d :: post) := by
      rw [List.append_assoc]
      exact hchained
    exact Links.not_chained_before (links_traceable henv) (h.genuine a.tenantId) hchained
      (List.cons_ne_nil c mid) rfl
  show Detected env (events.map (exchanged a b)) anchors
  rcases Nat.lt_or_gt_of_ne hid with hlt | hgt
  · exact hordered a b ha hb hlt
  · rw [exchanged_comm hne]
    exact hordered b a hb ha hgt

/-! ### A row that changes -/

section Change

variable {e e' : AuditRow}

theorem ids_change (h : IntactLog env events anchors)
    (hfresh : ∀ f ∈ without events e, f.id ≠ e'.id) (tenant : Uuid) :
    ((rowsOf (without events e ++ [e']) tenant).map AuditRow.id).Nodup := by
  have hids := ids_without (e := e) (h.ids tenant)
  rw [rowsOf_append, List.map_append]
  refine List.nodup_append.mpr ⟨hids, ?_, ?_⟩
  · exact (List.nodup_singleton e'.id).sublist (List.filter_sublist.map AuditRow.id)
  · intro i hi j hj hsame
    obtain ⟨f, hf, rfl⟩ := List.mem_map.mp hi
    obtain ⟨g, hg, rfl⟩ := List.mem_map.mp hj
    have hge : g = e' := List.mem_singleton.mp (mem_rowsOf.mp hg).1
    exact hfresh f (mem_rowsOf.mp hf).1 (hge ▸ hsame)

/-- A change is seen as the other row in the stead of the first. -/
theorem auditRows_change (h : IntactLog env events anchors)
    (hx : (Tampering.change e e').Applies events) (tenant : Uuid) :
    auditRows ((Tampering.change e e').apply events) tenant =
      auditRows (without events e ++ [e']) tenant := by
  obtain ⟨he, -, hfresh⟩ := hx
  exact auditRows_congr (change_perm (nodup_of_ids h.ids) he) (ids_change h hfresh tenant)

/-- The chain goes on after its last event. -/
theorem isLast_iff {pre post : List AuditRow} (hsplit : auditRows events e.tenantId = pre ++ post)
    (hpre : ∀ g ∈ pre, g.id < e.id) (hpost : ∀ g ∈ post, e.id < g.id) :
    IsLast events e ↔ post = [] := by
  constructor
  · intro hlast
    by_contra hne
    obtain ⟨g, rest, rfl⟩ := List.exists_cons_of_ne_nil hne
    have hg : g ∈ auditRows events e.tenantId :=
      hsplit ▸ List.mem_append_right pre List.mem_cons_self
    obtain ⟨hmem, htenant⟩ := mem_auditRows.mp hg
    have hlt := hlast g hmem htenant
    have hgt := hpost g List.mem_cons_self
    omega
  · rintro rfl
    intro f hf htenant
    apply hpre f
    rw [← List.append_nil pre, ← hsplit]
    exact mem_auditRows.mpr ⟨hf, htenant⟩

/-- Before and after an event in its chain. -/
theorem sides_of_split {pre post : List AuditRow}
    (hids : ((rowsOf events e.tenantId).map AuditRow.id).Nodup)
    (hsplit : auditRows events e.tenantId = pre ++ e :: post) :
    (∀ g ∈ pre, g.id < e.id) ∧ ∀ g ∈ post, e.id < g.id := by
  have hsorted := auditRows_sorted hids
  rw [hsplit] at hsorted
  obtain ⟨-, hpost, hcross⟩ := List.pairwise_append.mp hsorted
  exact ⟨fun g hg => hcross g hg e List.mem_cons_self, (List.pairwise_cons.mp hpost).1⟩

/-- The chain around an event, and the chain without it. -/
theorem exists_sides (h : IntactLog env events anchors) (he : e ∈ events) :
    ∃ pre post, auditRows events e.tenantId = pre ++ e :: post ∧ (∀ g ∈ pre, g.id < e.id) ∧
      (∀ g ∈ post, e.id < g.id) ∧ auditRows (without events e) e.tenantId = pre ++ post := by
  obtain ⟨pre, post, hsplit⟩ := exists_split he
  obtain ⟨hpre, hpost⟩ := sides_of_split (h.ids e.tenantId) hsplit
  exact ⟨pre, post, hsplit, hpre, hpost, auditRows_without (h.ids e.tenantId) hsplit⟩

/-- The chain after a change in which nothing follows either row. -/
theorem sealedAnew_of_chained {pre' : List AuditRow} (hlast : IsLast (without events e) e)
    (hlast' : IsLast (without events e) e')
    (hrows : auditRows (without events e) e'.tenantId = pre')
    (hchained : (links env).Chained ((anchors e'.tenantId).map Anchor.throughHash) (pre' ++ [e'])) :
    SealedAnew env events anchors e e' := by
  have hprev : e'.prevHash = (links env).tip ((anchors e'.tenantId).map Anchor.throughHash) pre' :=
    Links.prev_of_chained hchained
  obtain ⟨-, -, hhash, -⟩ := Links.chained_append.mp hchained
  refine ⟨hlast, hlast', ?_, ?_⟩
  · rw [hprev, ← hrows]
    rfl
  · rw [hprev]
    exact hhash

theorem unnoticed_of_intact (henv : env.Faithful) (h : IntactLog env events anchors)
    (hx : (Tampering.change e e').Applies events)
    (hall : ∀ tenant, (verifyChain env (anchors tenant)
      (auditRows (without events e ++ [e']) tenant)).intact = true) :
    (Tampering.change e e').Unnoticed env events anchors := by
  obtain ⟨he, -, hfresh⟩ := hx
  obtain ⟨pre, post, hsplit, hpre, hpost, hrest⟩ := exists_sides h he
  have hids' := ids_without (e := e) (h.ids e'.tenantId)
  obtain ⟨pre', post', hsplit', hpre', hpost'⟩ := exists_place (auditRows_sorted hids')
    (fun g hg => hfresh g (mem_auditRows.mp hg).1)
  obtain ⟨habove, hchained'⟩ := verifyChain_intact.mp (hall e'.tenantId)
  have hchained := h.chained e.tenantId
  rw [hsplit] at hchained
  rw [auditRows_append hids' hsplit' hpre' hpost'] at hchained' habove
  refine ⟨habove e' (List.mem_append_right pre' List.mem_cons_self), ?_⟩
  by_cases htenant : e'.tenantId = e.tenantId
  · -- among the same others the row has kept its place
    rw [htenant, hrest] at hsplit'
    rw [htenant] at hchained'
    obtain ⟨rfl, rfl⟩ :=
      Links.place_unique (links_traceable henv) (h.genuine e.tenantId) hchained hchained' hsplit'
    obtain ⟨hprev, hhash, hnext⟩ := (Links.chained_replace hchained).mp hchained'
    rcases hnext with rfl | hnext
    · right
      have hlast : IsLast (without events e) e := (isLast_iff hrest hpre hpost).mpr rfl
      have hlast' : IsLast (without events e) e' :=
        (isLast_iff (htenant.symm ▸ hrest) hpre' hpost').mpr rfl
      rw [← htenant] at hchained'
      rw [← htenant, List.append_nil] at hrest
      exact sealedAnew_of_chained hlast hlast' hrest hchained'
    · left
      have hdigest : digest env e'.toPayload e'.prevHash = digest env e.toPayload e.prevHash := by
        obtain ⟨-, -, hown, -⟩ := Links.chained_append.mp hchained
        rw [← Links.prev_of_chained hchained] at hown
        exact (hhash.symm.trans hnext).trans hown
      refine ⟨((digest_eq_iff henv).mp hdigest).1, hprev, hnext, ?_⟩
      intro f hf hsame
      have hrow : f ∈ pre ++ post := hrest ▸ mem_auditRows.mpr ⟨hf, hsame⟩
      rcases List.mem_append.mp hrow with hf | hf
      · exact ⟨fun _ => hpre f hf, fun _ => hpre' f hf⟩
      · have hgt := hpost f hf
        have hgt' := hpost' f hf
        omega
  · right
    have hother : auditRows (without events e) e'.tenantId = auditRows events e'.tenantId :=
      auditRows_without_other htenant
    have hnone' : post' = [] := by
      by_contra hne
      have hbefore := h.chained e'.tenantId
      rw [← hother, hsplit'] at hbefore
      rw [List.append_cons] at hchained'
      exact Links.not_chained_insert (links_traceable henv) (h.genuine e'.tenantId) hbefore
        (List.cons_ne_nil e' []) hne hchained'
    have hnone : post = [] := by
      by_contra hne
      obtain ⟨-, hafter⟩ := verifyChain_intact.mp (hall e.tenantId)
      rw [auditRows_append_other (fun hsame => htenant hsame.symm), hrest] at hafter
      rw [List.append_cons] at hchained
      exact Links.not_chained_remove (links_traceable henv) (h.genuine e.tenantId) hchained
        (List.cons_ne_nil e []) hne hafter
    subst hnone hnone'
    rw [List.append_nil] at hsplit'
    exact sealedAnew_of_chained ((isLast_iff hrest hpre hpost).mpr rfl)
      ((isLast_iff (hsplit'.trans (List.append_nil pre').symm) hpre' hpost').mpr rfl)
      hsplit' hchained'

theorem intact_of_samePlace (henv : env.Faithful) (h : IntactLog env events anchors)
    (hx : (Tampering.change e e').Applies events)
    (habove : ∀ a ∈ anchors e'.tenantId, a.throughEventId < e'.id) (hsame : SamePlace events e e')
    (tenant : Uuid) :
    (verifyChain env (anchors tenant) (auditRows (without events e ++ [e']) tenant)).intact =
      true := by
  obtain ⟨he, -, hfresh⟩ := hx
  obtain ⟨hpayload, hprev, hhash, hplace⟩ := hsame
  have htenant : e'.toPayload.canonical.tenantId = e.toPayload.canonical.tenantId := by
    rw [hpayload]
  have htenant : e'.tenantId = e.tenantId := htenant
  by_cases hown : tenant = e'.tenantId
  · subst hown
    obtain ⟨pre, post, hsplit, hpre, hpost, hrest⟩ := exists_sides h he
    have hside : ∀ g ∈ pre ++ post, (g.id < e'.id ↔ g.id < e.id) ∧ g.id ≠ e'.id := by
      intro g hg
      rw [← hrest] at hg
      obtain ⟨hmem, hg⟩ := mem_auditRows.mp hg
      exact ⟨hplace g hmem hg, hfresh g hmem⟩
    have hpre' : ∀ g ∈ pre, g.id < e'.id :=
      fun g hg => (hside g (List.mem_append_left post hg)).1.mpr (hpre g hg)
    have hpost' : ∀ g ∈ post, e'.id < g.id := by
      intro g hg
      obtain ⟨hiff, hne⟩ := hside g (List.mem_append_right pre hg)
      have hgt := hpost g hg
      omega
    have hchained := h.chained e.tenantId
    have hold := h.above e.tenantId
    rw [hsplit] at hchained hold
    rw [auditRows_append (ids_without (h.ids e'.tenantId)) (htenant.symm ▸ hrest) hpre' hpost']
    refine verifyChain_intact.mpr ⟨?_, ?_⟩
    · intro f hf
      rcases List.mem_append.mp hf with hf | hf
      · exact htenant.symm ▸ hold f (List.mem_append_left _ hf)
      · rcases List.mem_cons.mp hf with rfl | hf
        · exact habove
        · exact htenant.symm ▸ hold f (List.mem_append_right pre (List.mem_cons_of_mem e hf))
    · rw [htenant]
      refine (Links.chained_replace hchained).mpr ⟨hprev, ?_, Or.inr hhash⟩
      obtain ⟨-, -, hown, -⟩ := Links.chained_append.mp hchained
      rw [← Links.prev_of_chained hchained] at hown
      show e'.hash = digest env e'.toPayload e'.prevHash
      rw [(digest_eq_iff henv).mpr ⟨hpayload, hprev⟩, hhash]
      exact hown
  · rw [auditRows_append_other hown, auditRows_without_other (htenant ▸ hown)]
    exact h.intact tenant

/-- A log without the last event of a tenant. -/
theorem intact_without_last (h : IntactLog env events anchors) (he : e ∈ events)
    (hlast : IsLast (without events e) e) (tenant : Uuid) :
    (verifyChain env (anchors tenant) (auditRows (without events e) tenant)).intact = true := by
  by_cases hown : tenant = e.tenantId
  · subst hown
    obtain ⟨pre, post, hsplit, hpre, hpost, hrest⟩ := exists_sides h he
    have hnone := (isLast_iff hrest hpre hpost).mp hlast
    have hchained := h.chained e.tenantId
    have hold := h.above e.tenantId
    rw [hsplit] at hchained hold
    rw [hrest, hnone, List.append_nil]
    exact verifyChain_intact.mpr
      ⟨fun f hf => hold f (List.mem_append_left _ hf), (Links.chained_append.mp hchained).1⟩
  · rw [auditRows_without_other hown]
    exact h.intact tenant

theorem intact_of_sealedAnew (h : IntactLog env events anchors) (he : e ∈ events)
    (habove : ∀ a ∈ anchors e'.tenantId, a.throughEventId < e'.id)
    (hsealed : SealedAnew env events anchors e e') (tenant : Uuid) :
    (verifyChain env (anchors tenant) (auditRows (without events e ++ [e']) tenant)).intact =
      true := by
  obtain ⟨hlast, hlast', hprev, hhash⟩ := hsealed
  have hbefore := intact_without_last h he hlast
  by_cases hown : tenant = e'.tenantId
  · subst hown
    have hupto : ∀ g ∈ auditRows (without events e) e'.tenantId, g.id < e'.id := by
      intro g hg
      obtain ⟨hmem, hg⟩ := mem_auditRows.mp hg
      exact hlast' g hmem hg
    obtain ⟨hold, hchained⟩ := verifyChain_intact.mp (hbefore e'.tenantId)
    rw [auditRows_append (ids_without (h.ids e'.tenantId)) (List.append_nil _).symm hupto
      (fun g hg => (by cases hg))]
    refine verifyChain_intact.mpr ⟨?_, ?_⟩
    · intro f hf
      rcases List.mem_append.mp hf with hf | hf
      · exact hold f hf
      · rw [List.mem_singleton.mp hf]
        exact habove
    · rw [hprev] at hhash
      exact Links.chained_append.mpr ⟨hchained, hprev, hhash, trivial⟩
  · rw [auditRows_append_other hown]
    exact hbefore tenant

theorem detected_change_iff (henv : env.Faithful) (h : IntactLog env events anchors)
    (hx : (Tampering.change e e').Applies events) :
    Detected env ((Tampering.change e e').apply events) anchors ↔
      ¬ (Tampering.change e e').Unnoticed env events anchors := by
  have hrows := auditRows_change h hx
  constructor
  · rintro ⟨tenant, hbroken⟩ ⟨habove, hkind⟩
    rw [hrows] at hbroken
    rcases hkind with hsame | hsealed
    · rw [intact_of_samePlace henv h hx habove hsame tenant] at hbroken
      cases hbroken
    · rw [intact_of_sealedAnew h hx.1 habove hsealed tenant] at hbroken
      cases hbroken
  · intro hnoticed
    by_contra hquiet
    apply hnoticed
    apply unnoticed_of_intact henv h hx
    intro tenant
    by_contra hbroken
    rw [← hrows] at hbroken
    exact hquiet ⟨tenant, Bool.eq_false_iff.mpr hbroken⟩

end Change

end Detection

/-! ## The logs that runs lead to -/

theorem genuine_step {env : AuditEnv} {s t : AuditState} {a : AuditAct} (hinv : AuditInv env s)
    (h : ∀ tenant, (links env).Genuine ((s.anchors tenant).map Anchor.throughHash))
    (hstep : auditStep env s a = some t) (tenant : Uuid) :
    (links env).Genuine ((t.anchors tenant).map Anchor.throughHash) := by
  cases auditStep_move hstep with
  | commitPass p done removed hp ht =>
    have hpass := hinv.passes p
    rw [hp] at hpass
    rw [ht]
    show (links env).Genuine
      (((done.foldl AuditState.applyBoundary s).anchors tenant).map Anchor.throughHash)
    rcases applyBoundaries_tenant hpass.2 s tenant with ⟨hanchor, -⟩ | ⟨d, hd, htenant, hanchor, -⟩
    · rw [hanchor]
      exact h tenant
    · -- the anchor is the hash of an event that the chain leads to
      obtain ⟨-, pre, e, post, hsplit, -, hhash, -⟩ := hpass.1 d hd
      have hchained := (hinv.chains d.1.tenantId).chained
      rw [hsplit, List.append_cons] at hchained
      have hgenuine := Links.genuine_tip (h d.1.tenantId) (Links.chained_append.mp hchained).1
      rw [Links.tip_append] at hgenuine
      rw [hanchor]
      show (links env).Genuine (some d.1.hash)
      rw [← hhash]
      exact hgenuine
  | _ =>
    subst_vars
    exact h tenant

theorem intactLog_of_inv {env : AuditEnv} {s : AuditState} (hinv : AuditInv env s)
    (h : ∀ tenant, (links env).Genuine ((s.anchors tenant).map Anchor.throughHash)) :
    IntactLog env s.events s.anchors where
  ids := fun tenant =>
    (List.pairwise_map.mpr (hinv.chains tenant).sorted).imp (fun hlt => Nat.ne_of_lt hlt)
  intact := hinv.intact
  genuine := h

/-- Every run of appends and retention leads to such a log. -/
theorem intactLog_reaches {env : AuditEnv} {acts : List AuditAct} {s : AuditState}
    (h : Reaches (restrict onePassAtATime (auditStep env)) .initial acts s) :
    IntactLog env s.events s.anchors := by
  have hinv : (AuditInv env s ∧ PassAlone s) ∧
      ∀ tenant, (links env).Genuine ((s.anchors tenant).map Anchor.throughHash) := by
    apply Reaches.invariant (P := fun m => (AuditInv env m ∧ PassAlone m) ∧
      ∀ tenant, (links env).Genuine ((m.anchors tenant).map Anchor.throughHash)) _ h
      ⟨⟨auditInv_initial env, passAlone_initial⟩, fun _ => .none⟩
    intro m a t hm hstep
    obtain ⟨⟨hm, halone⟩, hgenuine⟩ := hm
    obtain ⟨ha, hstep⟩ := restrict_eq_some.mp hstep
    exact ⟨⟨auditInv_step hm (anchorsPresent_of_alone halone a) hstep,
      passAlone_step halone ha hstep⟩,
      genuine_step hm hgenuine hstep⟩
  exact intactLog_of_inv hinv.1.1 hinv.2

def threeLogins : List AuditRow := [firstLogin, secondLogin, thirdLogin]

theorem threeLogins_run : ((appendOnce 0 1 1 ++ appendOnce 1 1 15 ++ appendOnce 2 1 30).foldlM
    (restrict onePassAtATime (auditStep plainDigests)) .initial).isSome = true := by
  decide +kernel

theorem threeLogins_intact : IntactLog plainDigests threeLogins (fun _ => none) :=
  intactLog_reaches (reaches_get threeLogins_run)

/-- A new second row under the old id. -/
theorem change_second_applies {e' : AuditRow} (hid : e'.id = 2) (hne : e' ≠ secondLogin) :
    (Tampering.change secondLogin e').Applies threeLogins := by
  refine ⟨List.mem_cons_of_mem _ List.mem_cons_self, hne, ?_⟩
  intro f hf
  obtain ⟨hmem, hother⟩ := List.mem_filter.mp hf
  rw [hid]
  rcases List.mem_cons.mp hmem with rfl | hmem
  · decide
  · rcases List.mem_cons.mp hmem with rfl | hmem
    · exact absurd rfl (of_decide_eq_true hother)
    · rw [List.mem_singleton.mp hmem]
      decide

def forgedSubject : AuditRow := { secondLogin with actorSubject := "mallory" }

/-- Who did it, in which request and run, and under which release. -/
def forgedOrigin : AuditRow :=
  { secondLogin with principalId := some 99, requestId := none, runId := some 3, release := none }

end AgenticPlatform.Observability
