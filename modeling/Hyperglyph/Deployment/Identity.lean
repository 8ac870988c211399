import Hyperglyph.Deployment.Agreement

/-! The cache identity across a deployment: nobody is attached to a cache that stands for
another identity, and no request carries part of a key. -/
namespace Hyperglyph

open Octets

/-- A text that does not fit is refused. -/
theorem Environment.createCacheKey_refuses {e : Environment} {size : UInt64} {digest : Text}
    (hdigest : e.configurationDigest = some digest)
    (hlong : brokerCacheKeySize ≤ (e.identityText digest size).length)
    (built : List UInt8 × List UInt8) : e.createCacheKey size ≠ .ok built := by
  intro hok
  obtain ⟨path, key⟩ := built
  obtain ⟨digest', hdigest', hkey, hlen⟩ := createCacheKey_ok hok
  rw [hdigest] at hdigest'
  cases hdigest'
  rw [hkey] at hlen
  exact absurd hlong (Nat.not_le.mpr hlen)

namespace Deployment

variable {config : ConnId → Config} {s : Deployment}

structure CacheIdentity (config : ConnId → Config) (s : Deployment) : Prop where
  /-- The broker's comparison of two keys is equality of the identities. -/
  injective : ∀ (e e' : Environment) (size size' : UInt64) (path path' key key' : List UInt8),
    e.Plain → e'.Plain → e.createCacheKey size = .ok (path, key) →
    e'.createCacheKey size' = .ok (path', key') →
    (strcmpEq (KeyBuffer.ofBytes key).bytes (KeyBuffer.ofBytes key').bytes = true ↔
      Environment.SameIdentity e size e' size')
  attached : ∀ a m p q c, Given s.log a m p q → m.type = MessageType.attach.code →
    Created s.log c p q →
    Environment.SameIdentity (config a).environment (config a).requestedSize
      (config c).environment (config c).requestedSize
  refused : ∀ (e : Environment) (size : UInt64) (digest : Text), e.configurationDigest = some digest →
    brokerCacheKeySize ≤ (e.identityText digest size).length →
    ∀ built, e.createCacheKey size ≠ .ok built
  /-- Whatever `ACQUIRE` was sent holds the whole text. -/
  whole : ∀ c m, .sent c m ∈ s.history → m.type = MessageType.acquire.code →
    ∃ digest, (config c).environment.configurationDigest = some digest ∧
      cString m.cacheKey.bytes =
        (config c).environment.identityText digest (config c).requestedSize

theorem Reachable.same_identity (h : Reachable config s)
    (hplain : ∀ c, (config c).environment.Plain) {a c : ConnId} {m : MessageV1} {p q : Nat}
    (hgiven : Given s.log a m p q) (htype : m.type = MessageType.attach.code)
    (hcreated : Created s.log c p q) :
    Environment.SameIdentity (config a).environment (config a).requestedSize
      (config c).environment (config c).requestedSize := by
  obtain ⟨c', acquire, ready, request, hacquire, hatype, hready, -, hrequest, hqtype, -, -, -, -, -,
    hkey⟩ := h.records.attached_after a m p q hgiven htype
  obtain rfl := h.records.creator_unique c c' p q hcreated hready.created
  obtain ⟨pathC, keyC, hkeyC, rfl⟩ := (h.provenance.requested hacquire).of_acquire hatype
  obtain ⟨pathA, keyA, hkeyA, rfl⟩ := (h.provenance.requested hrequest).of_acquire hqtype
  exact (Environment.key_strcmpEq_iff (hplain a) (hplain c) hkeyA hkeyC).mp hkey

/-- The cache identity is injective: equal keys, and with them an `ATTACH` reply, mean equal
identities. -/
theorem cache_identity (h : Reachable config s) (hplain : ∀ c, (config c).environment.Plain) :
    CacheIdentity config s where
  injective := fun _ _ _ _ _ _ _ _ he he' hkey hkey' =>
    Environment.key_strcmpEq_iff he he' hkey hkey'
  attached := fun _ _ _ _ _ hgiven htype hcreated => h.same_identity hplain hgiven htype hcreated
  refused := fun _ _ _ hdigest hlong => Environment.createCacheKey_refuses hdigest hlong
  whole := by
    intro c m hsent htype
    obtain ⟨path, key, hkey, rfl⟩ := (h.provenance.sent c m hsent).of_acquire htype
    obtain ⟨digest, hdigest, rfl, -⟩ := Environment.createCacheKey_ok hkey
    exact ⟨digest, hdigest, Environment.cString_key hkey⟩

theorem pageEnvironment_plain : pageEnvironment.Plain where
  sapi := by decide
  system := by decide
  digest := by
    intro t ht
    cases ht
    decide

theorem cache_identity_of_two : ∃ s, (start 0 3).run pageConfig sharing = some s ∧
    CacheIdentity pageConfig s := by
  obtain ⟨s, hrun, -⟩ := Option.map_eq_some_iff.mp sharing_history
  exact ⟨s, hrun, cache_identity ((reachable_start 0 3).run hrun) fun _ => pageEnvironment_plain⟩

end Deployment

end Hyperglyph
