import Hyperglyph.Library.Delimited
import Hyperglyph.Protocol

/-! The cache identity: the part of `ahe_create_segments` that comes before the broker is
asked, and what its key tells apart. -/
namespace Hyperglyph

open Octets Delimited

/-- A C string. -/
structure Text where
  bytes : List UInt8
  nul_free : (0 : UInt8) ∉ bytes
  deriving DecidableEq

def bar : UInt8 := 124
def sizeofSystemId : Nat := 32

/-- What `ahe_create_segments` reads from its process. -/
structure Environment where
  providerEnabled : Bool
  brokerSocket : Option Text
  cacheNamespace : Option Text
  forceRestartTimeout : Int
  configurationDigest : Option Text
  effectiveUid : Nat
  sapiName : Option Text
  systemId : List UInt8
  executeEx : UInt64
  snprintfFails : Bool

namespace Environment

/-- An unset or empty variable counts as `default`. -/
def effectiveNamespace (e : Environment) : List UInt8 :=
  match e.cacheNamespace with
  | some t => if t.bytes = [] then ascii "default" else t.bytes
  | none => ascii "default"

def effectiveSapi (e : Environment) : List UInt8 :=
  match e.sapiName with
  | some t => t.bytes
  | none => ascii "unknown"

/-- `%.*s` with the size of the array: up to its first NUL, or all of it. -/
def systemText (e : Environment) : List UInt8 := cString (e.systemId.take sizeofSystemId)

/-- The text `snprintf` forms from the format of the source. -/
def identityText (e : Environment) (digest : Text) (requestedSize : UInt64) : List UInt8 :=
  ascii "abi=2|uid=" ++ numeral 10 e.effectiveUid ++ ascii "|namespace=" ++ e.effectiveNamespace ++
    ascii "|sapi=" ++ e.effectiveSapi ++ ascii "|system=" ++ e.systemText ++
    ascii "|opcache=" ++ digest.bytes ++ ascii "|execute=" ++ numeral 16 e.executeEx.toNat ++
    ascii "|size=" ++ numeral 10 requestedSize.toNat

/-- The socket path and the cache key, or the value `*error_in` has on failure. -/
def createCacheKey (e : Environment) (requestedSize : UInt64) :
    Except (Option String) (List UInt8 × List UInt8) :=
  if !e.providerEnabled then .error none
  else
    match e.brokerSocket with
    | none => .error none
    | some socketPath =>
        if socketPath.bytes = [] then .error none
        else if e.forceRestartTimeout ≠ 0 then
          .error (some "AHE requires opcache.force_restart_timeout=0 to avoid killing attached CLI processes")
        else
          match e.configurationDigest with
          | none => .error (some "AHE could not fingerprint the OPcache configuration")
          | some digest =>
              let cacheKey := e.identityText digest requestedSize
              if e.snprintfFails ∨ cacheKey.length ≥ brokerCacheKeySize then
                .error (some "AHE cache identity is too long")
              else .ok (socketPath.bytes, cacheKey)

/-- What PHP guarantees of its own names: no `|` in them. -/
structure Plain (e : Environment) : Prop where
  sapi : bar ∉ e.effectiveSapi
  system : bar ∉ e.systemId
  digest : ∀ t, e.configurationDigest = some t → bar ∉ t.bytes

/-- The seven things a cache belongs to. -/
structure SameIdentity (e : Environment) (size : UInt64) (e' : Environment) (size' : UInt64) :
    Prop where
  uid : e.effectiveUid = e'.effectiveUid
  cacheNamespace : e.effectiveNamespace = e'.effectiveNamespace
  sapi : e.effectiveSapi = e'.effectiveSapi
  system : e.systemText = e'.systemText
  digest : e.configurationDigest = e'.configurationDigest
  execute : e.executeEx = e'.executeEx
  size : size = size'

/-- A key that is built is the whole text, with room for its terminator. -/
theorem createCacheKey_ok {e : Environment} {size : UInt64} {path key : List UInt8}
    (h : e.createCacheKey size = .ok (path, key)) :
    ∃ digest, e.configurationDigest = some digest ∧ key = e.identityText digest size ∧
      key.length < brokerCacheKeySize := by
  unfold createCacheKey at h
  split at h
  · cases h
  split at h
  · cases h
  split at h
  · cases h
  split at h
  · cases h
  split at h
  · cases h
  next digest hdigest =>
    dsimp only at h
    split at h
    · cases h
    · next hfits =>
        cases h
        exact ⟨digest, hdigest, rfl, Nat.lt_of_not_le fun hle => hfits (.inr hle)⟩

theorem bar_not_mem_ascii_fields : bar ∉ ascii "sapi=" ∧ bar ∉ ascii "system=" ∧
    bar ∉ ascii "opcache=" ∧ bar ∉ ascii "execute=" ∧ bar ∉ ascii "size=" := by decide

theorem bar_not_mem_numeral {base n : Nat} (hbase : 1 < base) (hle : base ≤ 16) :
    bar ∉ numeral base n := fun h => (mem_numeral hbase hle h).2 rfl

theorem mem_systemText {e : Environment} {c : UInt8} (h : c ∈ e.systemText) :
    c ∈ e.systemId ∧ c ≠ 0 := by
  have hall : ∀ b ∈ e.systemText, b ≠ 0 := by
    intro b hb
    simpa using List.mem_takeWhile_imp hb
  exact ⟨List.mem_of_mem_take ((List.takeWhile_sublist _).subset h), hall c h⟩

/-- No field can end the key early. -/
theorem identityText_nul_free (e : Environment) (digest : Text) (size : UInt64) :
    (0 : UInt8) ∉ e.identityText digest size := by
  have hnamespace : (0 : UInt8) ∉ e.effectiveNamespace := by
    unfold effectiveNamespace
    split
    · next t _ =>
        split
        · decide
        · exact t.nul_free
    · decide
  have hsapi : (0 : UInt8) ∉ e.effectiveSapi := by
    unfold effectiveSapi
    split
    · next t _ => exact t.nul_free
    · decide
  have hsystem : (0 : UInt8) ∉ e.systemText := fun h => (mem_systemText h).2 rfl
  have hdecimal : ∀ n, (0 : UInt8) ∉ numeral 10 n :=
    fun n h => (mem_numeral (by decide) (by decide) h).1 rfl
  have hhex : ∀ n, (0 : UInt8) ∉ numeral 16 n :=
    fun n h => (mem_numeral (by decide) (by decide) h).1 rfl
  have hliterals : (0 : UInt8) ∉ ascii "abi=2|uid=" ∧ (0 : UInt8) ∉ ascii "|namespace=" ∧
      (0 : UInt8) ∉ ascii "|sapi=" ∧ (0 : UInt8) ∉ ascii "|system=" ∧
      (0 : UInt8) ∉ ascii "|opcache=" ∧ (0 : UInt8) ∉ ascii "|execute=" ∧
      (0 : UInt8) ∉ ascii "|size=" := by decide
  obtain ⟨h₁, h₂, h₃, h₄, h₅, h₆, h₇⟩ := hliterals
  simp only [identityText, List.mem_append, not_or]
  exact ⟨⟨⟨⟨⟨⟨⟨⟨⟨⟨⟨⟨⟨h₁, hdecimal _⟩, h₂⟩, hnamespace⟩, h₃⟩, hsapi⟩, h₄⟩, hsystem⟩, h₅⟩,
    digest.nul_free⟩, h₆⟩, hhex _⟩, h₇⟩, hdecimal _⟩

/-- The text with its separators in sight. -/
theorem identityText_eq (e : Environment) (digest : Text) (size : UInt64) :
    e.identityText digest size = (((((ascii "abi=2|uid=" ++
      (numeral 10 e.effectiveUid ++ bar :: (ascii "namespace=" ++ e.effectiveNamespace))) ++
      bar :: (ascii "sapi=" ++ e.effectiveSapi)) ++ bar :: (ascii "system=" ++ e.systemText)) ++
      bar :: (ascii "opcache=" ++ digest.bytes)) ++
      bar :: (ascii "execute=" ++ numeral 16 e.executeEx.toNat)) ++
      bar :: (ascii "size=" ++ numeral 10 size.toNat) := by
  have h₁ : ascii "|namespace=" = bar :: ascii "namespace=" := by decide
  have h₂ : ascii "|sapi=" = bar :: ascii "sapi=" := by decide
  have h₃ : ascii "|system=" = bar :: ascii "system=" := by decide
  have h₄ : ascii "|opcache=" = bar :: ascii "opcache=" := by decide
  have h₅ : ascii "|execute=" = bar :: ascii "execute=" := by decide
  have h₆ : ascii "|size=" = bar :: ascii "size=" := by decide
  simp only [identityText, h₁, h₂, h₃, h₄, h₅, h₆, List.append_assoc, List.cons_append]

theorem bar_not_mem_field {name value : List UInt8} (hname : bar ∉ name) (hvalue : bar ∉ value) :
    bar ∉ name ++ value := by
  rw [List.mem_append]
  rintro (h | h)
  · exact hname h
  · exact hvalue h

/-- Equal texts have equal fields. The namespace may hold anything: the fields behind it are
read from the end of the text, the uid from its start. -/
theorem fields_of_identityText_eq {e e' : Environment} {digest digest' : Text} {size size' : UInt64}
    (he : e.Plain) (he' : e'.Plain) (hd : e.configurationDigest = some digest)
    (hd' : e'.configurationDigest = some digest')
    (h : e.identityText digest size = e'.identityText digest' size') : SameIdentity e size e' size' := by
  have hten : ∀ n, bar ∉ numeral 10 n := fun n => bar_not_mem_numeral (by decide) (by decide)
  have hsixteen : ∀ n, bar ∉ numeral 16 n := fun n => bar_not_mem_numeral (by decide) (by decide)
  have hsystem : ∀ {e : Environment}, e.Plain → bar ∉ e.systemText :=
    fun he hmem => he.system (mem_systemText hmem).1
  obtain ⟨hsapi, hsys, hop, hexec, hsize⟩ := bar_not_mem_ascii_fields
  rw [identityText_eq, identityText_eq] at h
  obtain ⟨h, hsize⟩ := (split_last (bar_not_mem_field hsize (hten _))
    (bar_not_mem_field hsize (hten _))).mp h
  obtain ⟨h, hexecute⟩ := (split_last (bar_not_mem_field hexec (hsixteen _))
    (bar_not_mem_field hexec (hsixteen _))).mp h
  obtain ⟨h, hopcache⟩ := (split_last (bar_not_mem_field hop (he.digest _ hd))
    (bar_not_mem_field hop (he'.digest _ hd'))).mp h
  obtain ⟨h, hsystemText⟩ := (split_last (bar_not_mem_field hsys (hsystem he))
    (bar_not_mem_field hsys (hsystem he'))).mp h
  obtain ⟨h, hsapiText⟩ := (split_last (bar_not_mem_field hsapi he.sapi)
    (bar_not_mem_field hsapi he'.sapi)).mp h
  obtain ⟨huid, hnamespace⟩ := (split_first (hten _) (hten _)).mp (List.append_cancel_left h)
  have hdigest : digest = digest' := by
    cases digest
    cases digest'
    cases List.append_cancel_left hopcache
    rfl
  refine ⟨?_, ?_, ?_, ?_, ?_, ?_, ?_⟩
  · exact numeral_injective (by decide) (by decide) huid
  · exact List.append_cancel_left hnamespace
  · exact List.append_cancel_left hsapiText
  · exact List.append_cancel_left hsystemText
  · rw [hd, hd', hdigest]
  · exact UInt64.toNat_inj.mp
      (numeral_injective (by decide) (by decide) (List.append_cancel_left hexecute))
  · exact UInt64.toNat_inj.mp
      (numeral_injective (by decide) (by decide) (List.append_cancel_left hsize))

theorem SameIdentity.identityText_eq {e e' : Environment} {digest digest' : Text} {size size' : UInt64}
    (h : SameIdentity e size e' size') (hd : e.configurationDigest = some digest)
    (hd' : e'.configurationDigest = some digest') :
    e.identityText digest size = e'.identityText digest' size' := by
  have hdigest : digest = digest' := Option.some_inj.mp (hd.symm.trans (h.digest.trans hd'))
  simp only [identityText, h.uid, h.cacheNamespace, h.sapi, h.system, h.execute, h.size, hdigest]

/-- The key as a C string in the buffer of a message. -/
theorem cString_key {e : Environment} {size : UInt64} {path key : List UInt8}
    (h : e.createCacheKey size = .ok (path, key)) : cString (KeyBuffer.ofBytes key).bytes = key := by
  obtain ⟨digest, -, rfl, hlen⟩ := createCacheKey_ok h
  exact KeyBuffer.cString_ofBytes hlen (identityText_nul_free e digest size)

/-- Two keys compare equal exactly when they stand for the same identity. -/
theorem key_strcmpEq_iff {e e' : Environment} {size size' : UInt64} {path path' key key' : List UInt8}
    (he : e.Plain) (he' : e'.Plain) (h : e.createCacheKey size = .ok (path, key))
    (h' : e'.createCacheKey size' = .ok (path', key')) :
    strcmpEq (KeyBuffer.ofBytes key).bytes (KeyBuffer.ofBytes key').bytes = true ↔
      SameIdentity e size e' size' := by
  rw [strcmpEq_iff, cString_key h, cString_key h']
  obtain ⟨digest, hd, rfl, -⟩ := createCacheKey_ok h
  obtain ⟨digest', hd', rfl, -⟩ := createCacheKey_ok h'
  constructor
  · exact fields_of_identityText_eq he he' hd hd'
  · exact fun hsame => hsame.identityText_eq hd hd'

/-- A built key is one the broker takes: terminated and not empty. -/
theorem key_valid {e : Environment} {size : UInt64} {path key : List UInt8}
    (h : e.createCacheKey size = .ok (path, key)) :
    terminated (KeyBuffer.ofBytes key).bytes = true ∧ (KeyBuffer.ofBytes key).bytes.headD 0 ≠ 0 := by
  obtain ⟨digest, -, rfl, hlen⟩ := createCacheKey_ok h
  refine ⟨KeyBuffer.terminated_ofBytes hlen, ?_⟩
  have hstart : ∃ rest, e.identityText digest size = 97 :: rest := by
    simp only [identityText, List.append_assoc]
    exact ⟨_, rfl⟩
  obtain ⟨rest, hrest⟩ := hstart
  rw [hrest, KeyBuffer.head_ofBytes]
  decide

end Environment

end Hyperglyph
