import AgenticPlatform.Foundation.Text
import AgenticPlatform.Scaling.Cache

/-!
# Dropping the entries of a tenant

Invalidation deletes the keys that start with a prefix of the tenant. Keys that the cache
makes itself start with it. The chain stores under keys of its own, which are digests and
start with no prefix.
-/
namespace AgenticPlatform.Scaling
open AgenticPlatform.Foundation AgenticPlatform.Identity AgenticPlatform.Ports
  AgenticPlatform.Observability

variable {env : CacheEnv} {s t : CacheState} {c : RedisSemanticCache} {ctx ctx' : RequestContext}
  {request : Ports.ChatRequest}

/-- A scan that Redis completes. -/
theorem mem_scanned {key : String} :
    key ∈ c.scanned env ctx none ↔ key ∈ c.entries.map Prod.fst ∧
      matchesTenant env ctx key = true :=
  List.mem_filter

/-- What matches is gone; what does not is read as before. -/
theorem lookup_invalidateTenant (c : RedisSemanticCache) (ctx : RequestContext) (key : String) :
    (c.invalidateTenant env ctx none).1.entries.lookup key =
      if matchesTenant env ctx key then none else c.entries.lookup key := by
  unfold RedisSemanticCache.invalidateTenant
  rw [lookup_delete]
  by_cases hmatch : matchesTenant env ctx key = true
  · rw [if_pos hmatch]
    split
    · rfl
    · rename_i hnot
      exact Dict.lookup_eq_none.mpr (fun hmem => hnot (mem_scanned.mpr ⟨hmem, hmatch⟩))
  · rw [if_neg hmatch, if_neg (fun hmem => hmatch (mem_scanned.mp hmem).2)]

/-! ## The keys of the cache -/

theorem toList_tenantPrefix (env : CacheEnv) (ctx : RequestContext) :
    (tenantPrefix env ctx).toList =
      "platform:cache:".toList ++ ((env.keys.uuidText ctx.tenant.id).toList ++ [':']) := by
  have hmark : (tenantPrefix env ctx).toList =
      ("platform:cache:" ++ env.keys.uuidText ctx.tenant.id).toList ++ [':'] :=
    String.toList_append
  rw [hmark, String.toList_append, List.append_assoc]

/-- `RedisSemanticCache.key`. -/
def RedisSemanticCache.key (env : CacheEnv) (ctx : RequestContext) (payload : Json) : String :=
  tenantPrefix env ctx ++ env.keys.sha256 (env.keys.dumpsCompact payload)

/-- The text of an identifier ends at the colon, so the prefix is of one tenant only. -/
theorem matchesTenant_key (hinjective : Function.Injective env.keys.uuidText)
    (hcolon : ∀ id, ':' ∉ (env.keys.uuidText id).toList) (payload : Json) :
    matchesTenant env ctx (RedisSemanticCache.key env ctx' payload) = true ↔
      ctx'.tenant.id = ctx.tenant.id := by
  have hkey : (RedisSemanticCache.key env ctx' payload).toList = (tenantPrefix env ctx').toList ++
      (env.keys.sha256 (env.keys.dumpsCompact payload)).toList := String.toList_append
  rw [matchesTenant, List.isPrefixOf_iff_prefix, hkey]
  constructor
  · intro h
    rw [toList_tenantPrefix, toList_tenantPrefix, List.append_assoc, List.prefix_append_right_inj,
      List.append_assoc] at h
    have htext := eq_of_prefix_mark (hcolon _) (hcolon _) h
    exact (hinjective (String.toList_injective htext)).symm
  · intro h
    rw [toList_tenantPrefix, toList_tenantPrefix, h]
    exact List.prefix_append _ _

/-- Under the keys of the cache, an invalidation would be complete and exact. -/
theorem key_invalidated (hinjective : Function.Injective env.keys.uuidText)
    (hcolon : ∀ id, ':' ∉ (env.keys.uuidText id).toList) (c : RedisSemanticCache) (payload : Json) :
    (c.invalidateTenant env ctx none).1.entries.lookup (RedisSemanticCache.key env ctx' payload) =
      if ctx'.tenant.id = ctx.tenant.id then none
      else c.entries.lookup (RedisSemanticCache.key env ctx' payload) := by
  rw [lookup_invalidateTenant]
  simp only [matchesTenant_key hinjective hcolon]

/-! ## The keys of the chain -/

/-- What `hexdigest` is made of. -/
def hexDigits : List Char := "0123456789abcdef".toList

def CacheEnv.Hex (env : CacheEnv) : Prop :=
  ∀ text, ∀ c ∈ (env.keys.sha256 text).toList, c ∈ hexDigits

/-- No pattern matches a digest. -/
theorem matchesTenant_cacheKey (hhex : env.Hex) :
    matchesTenant env ctx (cacheKey env.keys ctx' request) = false := by
  rw [Bool.eq_false_iff]
  intro hmatch
  have hstart := List.isPrefixOf_iff_prefix.mp hmatch
  have hfirst : 'p' ∈ (tenantPrefix env ctx).toList := by
    rw [toList_tenantPrefix]
    exact List.mem_append_left _ (by decide)
  have hdigit := hhex _ 'p' (hstart.subset hfirst)
  exact absurd hdigit (by decide)

/-- No answer of a tenant can be found any more, and the others are there as before. -/
structure InvalidatedFor (env : CacheEnv) (s t : CacheState) (ctx : RequestContext) : Prop where
  complete : ∀ ctx' request, ctx'.tenant.id = ctx.tenant.id → t.found env ctx' request true = .miss
  exact : ∀ ctx' request, ctx'.tenant.id ≠ ctx.tenant.id →
    t.cache.entries.lookup (cacheKey env.keys ctx' request) =
    s.cache.entries.lookup (cacheKey env.keys ctx' request)

/-- An invalidation leaves all that the chain has stored. -/
theorem lookup_invalidated (hhex : env.Hex) (h : cacheStep env s (.invalidate ctx none) = some t)
    (ctx' : RequestContext) (request : Ports.ChatRequest) :
    t.cache.entries.lookup (cacheKey env.keys ctx' request) =
      s.cache.entries.lookup (cacheKey env.keys ctx' request) := by
  cases h
  refine (lookup_invalidateTenant s.cache ctx _).trans ?_
  rw [matchesTenant_cacheKey hhex, if_neg Bool.false_ne_true]

theorem mem_of_origin {log : List CacheEvent} {key : String} {response : Ports.ChatResponse}
    (h : origin env log key = some response) :
    ∃ ctx request, .stored ctx request response ∈ log ∧ cacheKey env.keys ctx request = key := by
  obtain ⟨e, he, hunder⟩ := List.exists_of_findSome?_eq_some h
  cases e with
  | stored ctx request response' =>
    rw [CacheEvent.storedUnder] at hunder
    split at hunder
    · cases hunder
      exact ⟨ctx, request, he, ‹_›⟩
    · cases hunder
  | hit ctx request response' => cases hunder

/-- The tenant finds an entry exactly where one that a call of the tenant stored is left. -/
theorem found_miss_iff (hkeys : env.keys.Faithful) (hs : Stored env s) :
    (∀ ctx' request, ctx'.tenant.id = ctx.tenant.id → s.found env ctx' request true = .miss) ↔
      ∀ ctx' request response, .stored ctx' request response ∈ s.log →
      ctx'.tenant.id = ctx.tenant.id →
      s.cache.entries.lookup (cacheKey env.keys ctx' request) = none := by
  constructor
  · intro hmiss ctx' request response _ htenant
    by_contra hentry
    -- The key is the same for the request made cacheable.
    have hhits : s.Hits env ctx' { request with cacheable := true } true :=
      ⟨rfl, rfl, Option.isSome_iff_ne_none.mpr hentry⟩
    obtain ⟨original, -, hfound⟩ := found_of_hits hs hhits
    rw [hmiss ctx' _ htenant] at hfound
    cases hfound
  · intro hgone ctx' request htenant
    refine found_of_not_hits ?_
    rintro ⟨-, -, hentry⟩
    obtain ⟨text, htext⟩ := Option.isSome_iff_exists.mp hentry
    obtain ⟨response, horigin, -⟩ := hs _ text htext
    obtain ⟨ctx'', request', hmem, hkey⟩ := mem_of_origin horigin
    have hsame := (sameKeyed_of_cacheKey hkeys hkey).1
    have hnone := hgone ctx'' request' response hmem (hsame.trans htenant)
    rw [hkey, htext] at hnone
    cases hnone

/-- An invalidation that Redis carries out is complete and exact exactly where no entry is left
that a call of the tenant has stored. -/
theorem invalidated_iff (hkeys : env.keys.Faithful) (hhex : env.Hex) {acts : List CacheAct}
    (hrun : Reaches (cacheStep env) .initial acts s)
    (h : cacheStep env s (.invalidate ctx none) = some t) :
    InvalidatedFor env s t ctx ↔ ∀ ctx' request response, .stored ctx' request response ∈ s.log →
      ctx'.tenant.id = ctx.tenant.id →
      s.cache.entries.lookup (cacheKey env.keys ctx' request) = none := by
  have hs : Stored env s := hrun.invariant (fun _ _ _ => stored_step) stored_initial
  have hlog : t.log = s.log := by
    cases h
    rfl
  have hentries := lookup_invalidated hhex h
  have hmiss : (∀ ctx' request, ctx'.tenant.id = ctx.tenant.id →
      t.found env ctx' request true = .miss) ↔ _ :=
    found_miss_iff hkeys (stored_step hs h)
  rw [hlog] at hmiss
  simp only [hentries] at hmiss
  exact ⟨fun hinvalidated => hmiss.mp hinvalidated.complete,
    fun hgone => ⟨hmiss.mpr hgone, fun ctx' request _ => hentries ctx' request⟩⟩

/-! One answer, under a key of digits. -/

def bits (c : Char) : List Char :=
  (List.range 21).map (fun i => if c.toNat.testBit i then '1' else '0')

theorem bits_injective : Function.Injective bits := by
  intro c d h
  have hbound : ∀ e : Char, e.toNat < 2 ^ 21 := by
    intro e
    have hvalid : e.toNat < 0xd800 ∨ 0xdfff < e.toNat ∧ e.toNat < 0x110000 := e.valid
    omega
  have hnat : c.toNat = d.toNat := by
    refine Nat.eq_of_testBit_eq (fun i => ?_)
    by_cases hi : i < 21
    · have hdigit := List.map_inj_left.mp h i (List.mem_range.mpr hi)
      cases hc : c.toNat.testBit i <;> cases hd : d.toNat.testBit i <;> simp [hc, hd] at hdigit ⊢
    · have hlarge : 2 ^ 21 ≤ 2 ^ i := Nat.pow_le_pow_right (by decide) (by omega)
      rw [Nat.testBit_lt_two_pow (lt_of_lt_of_le (hbound c) hlarge),
        Nat.testBit_lt_two_pow (lt_of_lt_of_le (hbound d) hlarge)]
  exact Char.toNat_inj.mp hnat

def digest (text : String) : String := String.ofList (text.toList.flatMap bits)

def digestKeys : KeyEnv := { plainKeys with sha256 := digest }

theorem digestKeys_faithful : digestKeys.Faithful where
  sha256 := by
    intro a b h
    have hlength : ∀ c, (bits c).length = 21 := by
      intro c
      rw [bits, List.length_map, List.length_range]
    have hlist := flatMap_injective (by decide) hlength bits_injective (String.ofList_injective h)
    exact String.toList_injective hlist
  dumps := plainKeys_faithful.dumps
  dumpsCompact := plainKeys_faithful.dumpsCompact
  uuidText := plainKeys_faithful.uuidText

def digestCache : CacheEnv := { smallCache with keys := digestKeys }

theorem digestCache_hex : digestCache.Hex := by
  intro text c hc
  have hlist : c ∈ text.toList.flatMap bits := by
    rw [← String.toList_ofList (l := text.toList.flatMap bits)]
    exact hc
  obtain ⟨d, -, hbit⟩ := List.mem_flatMap.mp hlist
  obtain ⟨i, -, rfl⟩ := List.mem_map.mp hbit
  split <;> decide

/-- The key of the question. -/
def torqueKey : String := cacheKey digestKeys aliceContext (torqueRequest none)

/-- The answer has expired. -/
def torqueExpired : CacheState :=
  { torqueCached digestCache "stop" [] with
    cache := (torqueCached digestCache "stop" []).cache.delete [torqueKey] }

theorem invalidated_torque :
    ∃ t, cacheStep digestCache torqueExpired (.invalidate aliceContext none) = some t ∧
      InvalidatedFor digestCache torqueExpired t aliceContext := by
  have hrun : Reaches (cacheStep digestCache) .initial (storeActs "stop" [] ++ [.expire torqueKey])
      torqueExpired :=
    reaches_snoc.mpr ⟨_, torqueCached_reached digestCache "stop" [], rfl⟩
  refine ⟨_, rfl, (invalidated_iff digestKeys_faithful digestCache_hex hrun rfl).mpr ?_⟩
  intro ctx' request response hmem _
  cases List.mem_singleton.mp hmem
  exact (lookup_delete _ [torqueKey] torqueKey).trans (if_pos (List.mem_singleton_self torqueKey))

/-- The answer is found after the entries of its tenant are dropped. -/
theorem invalidation_leaves_answer :
    ∃ s t, Reaches (cacheStep digestCache) .initial (storeActs "stop" []) s ∧
      cacheStep digestCache s (.invalidate aliceContext none) = some t ∧
      ¬ InvalidatedFor digestCache s t aliceContext := by
  have hrun := torqueCached_reached digestCache "stop" []
  have hstep : cacheStep digestCache (torqueCached digestCache "stop" [])
      (.invalidate aliceContext none) = some _ := rfl
  refine ⟨_, _, hrun, hstep, ?_⟩
  intro hinvalidated
  have hstored :=
    (hrun.invariant (P := Stored digestCache) (fun _ _ _ hs h => stored_step hs h) stored_initial)
  have hentry : (torqueCached digestCache "stop" []).cache.entries.lookup torqueKey = some _ :=
    (Dict.lookup_setItem [] torqueKey torqueKey _).trans (if_pos rfl)
  have hleft :=
    (lookup_invalidated digestCache_hex hstep aliceContext (torqueRequest none)).trans hentry
  have hhits :=
    found_of_hits (stored_step hstored hstep) ⟨rfl, rfl, Option.isSome_iff_exists.mpr ⟨_, hleft⟩⟩
  obtain ⟨original, -, hfound⟩ := hhits
  rw [hinvalidated.complete aliceContext (torqueRequest none) rfl] at hfound
  cases hfound

end AgenticPlatform.Scaling
