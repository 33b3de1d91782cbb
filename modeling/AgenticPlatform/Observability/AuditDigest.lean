import AgenticPlatform.Observability.AuditChain
import Mathlib

/-!
# What a digest determines

The digest covers the payload and the link but neither `principal_id`, `request_id`,
`run_id` and `release` nor the id. Where SHA-256 and the texts it is given tell
different things apart, two events of one digest agree in all that is covered.
-/
namespace AgenticPlatform.Observability
open AgenticPlatform.Foundation AgenticPlatform.Identity AgenticPlatform.Db

/-- Digests and texts are told apart by what they are made of. -/
structure AuditEnv.Faithful (env : AuditEnv) : Prop where
  sha256 : Function.Injective env.sha256
  isoformat : Function.Injective env.isoformat
  uuidText : Function.Injective env.uuidText

/-- The payload as `jsonb` keeps it: a document without an order of keys. -/
def Payload.canonical (p : Payload) : Payload := { p with detail := p.detail.sortKeys }

theorem jsonOfOption_injective {a b : Option String}
    (h : (jsonOfOption a).sortKeys = (jsonOfOption b).sortKeys) : a = b := by
  cases a <;> cases b <;> simp_all [jsonOfOption, Json.sortKeys]

theorem text_injective {a b : String} (h : (Json.str a).sortKeys = (Json.str b).sortKeys) :
    a = b := by
  simpa [Json.sortKeys] using h

theorem Outcome.text_injective : Function.Injective Outcome.text := by
  intro a b h
  cases a <;> cases b <;> first | rfl | exact absurd h (by decide)

/-- Everything but the detail is read back as it was, the detail up to the order of its keys. -/
theorem canonical_of_sortKeys {env : AuditEnv} (henv : env.Faithful) {p p' : Payload}
    {q q' : Option String} (h : (payloadJson env p q).sortKeys = (payloadJson env p' q').sortKeys) :
    p.canonical = p'.canonical ∧ q = q' := by
  have hkeys : ["tenant_id", "actor_subject", "action", "resource_type", "resource_id", "outcome",
      "detail", "at", "prev_hash"].Nodup := by
    decide
  have htenant := henv.uuidText (text_injective (Json.value_of_sortKeys h hkeys 0 rfl rfl))
  have hactor := text_injective (Json.value_of_sortKeys h hkeys 1 rfl rfl)
  have haction := text_injective (Json.value_of_sortKeys h hkeys 2 rfl rfl)
  have htype := jsonOfOption_injective (Json.value_of_sortKeys h hkeys 3 rfl rfl)
  have hid := jsonOfOption_injective (Json.value_of_sortKeys h hkeys 4 rfl rfl)
  have houtcome :=
    Outcome.text_injective (text_injective (Json.value_of_sortKeys h hkeys 5 rfl rfl))
  have hdetail := Json.value_of_sortKeys h hkeys 6 rfl rfl
  have htime := henv.isoformat (text_injective (Json.value_of_sortKeys h hkeys 7 rfl rfl))
  have hprev := jsonOfOption_injective (Json.value_of_sortKeys h hkeys 8 rfl rfl)
  refine ⟨?_, hprev⟩
  simp only [Payload.canonical, htenant, hactor, haction, htype, hid, houtcome, hdetail, htime]

theorem sortKeys_of_canonical {env : AuditEnv} {p p' : Payload} {q : Option String}
    (h : p.canonical = p'.canonical) :
    (payloadJson env p q).sortKeys = (payloadJson env p' q).sortKeys := by
  simp only [Payload.canonical, Payload.mk.injEq] at h
  obtain ⟨htenant, hactor, haction, htype, hid, houtcome, hdetail, htime⟩ := h
  simp only [payloadJson, Json.sortKeys, Json.sortFields, htenant, hactor, haction, htype, hid,
    houtcome, hdetail, htime]

theorem digest_eq_iff {env : AuditEnv} (henv : env.Faithful) {p p' : Payload}
    {q q' : Option String} :
    digest env p q = digest env p' q' ↔ p.canonical = p'.canonical ∧ q = q' := by
  constructor
  · intro h
    exact canonical_of_sortKeys henv (Json.dumpsAscii_injective (henv.sha256 h))
  · rintro ⟨hcanonical, rfl⟩
    rw [digest, digest, Json.dumpsAscii, Json.dumpsAscii, sortKeys_of_canonical hcanonical]

theorem links_traceable {env : AuditEnv} (henv : env.Faithful) : (links env).Traceable :=
  fun _ _ _ _ h => ((digest_eq_iff henv).mp h).2

/-- The texts themselves in place of their SHA-256, and an instant as a fraction. -/
def plainDigests : AuditEnv where
  sha256 := fun text => text
  isoformat := fun time => (Json.arr [.str time.num.repr, .str time.den.repr]).dumpsAscii
  uuidText := Nat.repr
  release := "r1"

theorem plainDigests_faithful : plainDigests.Faithful where
  sha256 := fun _ _ h => h
  isoformat := by
    intro a b h
    have hitems := Json.dumpsAscii_injective h
    simp only [Json.sortKeys, Json.sortItems, Json.arr.injEq, List.cons.injEq, Json.str.injEq,
      and_true] at hitems
    exact Rat.ext (Int.repr_injective hitems.1) (Nat.repr_injective hitems.2)
  uuidText := fun _ _ h => Nat.repr_injective h

end AgenticPlatform.Observability
