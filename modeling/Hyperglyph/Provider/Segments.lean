import Hyperglyph.Client.BrokerClient

/-! What the patched OPcache takes from its shared-memory provider:
`zend_shared_alloc_provider_create_segments` and the two checks it makes. -/
namespace Hyperglyph

/-- The allocation states of `zend_shared_alloc.h`. -/
def allocFailure : Int := 0
def allocSuccess : Int := 1
def failedReattached : Int := 2
def successfullyReattached : Int := 4

/-- `(void *) -1`. -/
def mapFailed : UInt64 := 0xFFFFFFFFFFFFFFFF

/-- The provider's array of pointers, which has as many entries as the provider says; a null
entry is `none`. -/
structure SegmentArray where
  entries : List (Option ShmSegment)
  count : Int
  count_eq : entries.length = count.toNat

/-- What the provider's `create_segments` leaves behind. -/
structure ProviderResult where
  status : Int
  sharedSegments : Option SegmentArray
  reattachedSharedGlobals : UInt64
  errorIn : Option String

/-- The test on one entry; `none` is the null pointer. -/
def segmentIsValid : Option ShmSegment → Bool
  | none => false
  | some segment => segment.p != 0 && segment.p != mapFailed && segment.size != 0

/-- `zend_shared_alloc_provider_segments_are_valid`. -/
def providerSegmentsAreValid : Option SegmentArray → Bool
  | none => false
  | some shared => !decide (shared.count ≤ 0) && shared.entries.all segmentIsValid

/-- `zend_shared_alloc_provider_segment_contains`. -/
def providerSegmentContains (segment : ShmSegment) (address size : UInt64) : Bool :=
  decide (address ≥ segment.p) && decide (address - segment.p ≤ segment.size) &&
    decide (size ≤ segment.size - (address - segment.p))

/-- The loop over the segments, with `sizeof(zend_smm_shared_globals)`. -/
def someSegmentContains (sizeofSharedGlobals : UInt64) (shared : SegmentArray)
    (address : UInt64) : Bool :=
  shared.entries.any fun entry =>
    entry.elim false fun segment => providerSegmentContains segment address sizeofSharedGlobals

/-- `zend_shared_alloc_provider_create_segments` once the provider has answered: the status
and `*error_in`. `lockFile` is what its `get_lock_file` returns. -/
def providerCreateSegments (sizeofSharedGlobals : UInt64) (r : ProviderResult) (lockFile : Int) :
    Int × Option String :=
  if r.status = allocFailure ∨ r.status = failedReattached then (r.status, r.errorIn)
  else if r.status = allocSuccess then
    if providerSegmentsAreValid r.sharedSegments && decide (lockFile ≥ 0) then (r.status, r.errorIn)
    else (allocFailure, some "external provider returned invalid segments or lock file")
  else if r.status = successfullyReattached then
    match r.sharedSegments with
    | some shared =>
        if providerSegmentsAreValid (some shared) && r.reattachedSharedGlobals != 0 &&
            decide (lockFile ≥ 0) &&
            someSegmentContains sizeofSharedGlobals shared r.reattachedSharedGlobals then
          (r.status, r.errorIn)
        else (allocFailure, some "external provider returned invalid reattached shared globals")
    | none => (allocFailure, some "external provider returned invalid reattached shared globals")
  else (allocFailure, some "external provider returned an unsupported allocation status")

/-! ### The containment test -/

/-- A subtraction that does not wrap around. -/
def checkedSub (a b : UInt64) : Option UInt64 := if b ≤ a then some (a - b) else none

/-- The containment test with every subtraction checked, in the order of evaluation. -/
def providerSegmentContainsChecked (segment : ShmSegment) (address size : UInt64) : Option Bool :=
  if address ≥ segment.p then do
    let offset ← checkedSub address segment.p
    if offset ≤ segment.size then do
      let again ← checkedSub address segment.p
      let rest ← checkedSub segment.size again
      return decide (size ≤ rest)
    else return false
  else some false

section Contains

variable {segment : ShmSegment} {address size : UInt64}

theorem checkedSub_of_le {a b : UInt64} (h : b ≤ a) : checkedSub a b = some (a - b) := if_pos h

/-- No subtraction of the test wraps around. -/
theorem containsChecked_eq (segment : ShmSegment) (address size : UInt64) :
    providerSegmentContainsChecked segment address size =
      some (providerSegmentContains segment address size) := by
  unfold providerSegmentContainsChecked providerSegmentContains
  by_cases hstart : address ≥ segment.p
  · rw [if_pos hstart, checkedSub_of_le hstart]
    by_cases hoffset : address - segment.p ≤ segment.size
    · simp [hstart, hoffset, checkedSub_of_le hoffset]
    · simp [hoffset]
  · simp [hstart]

/-- The block of `size` octets at `address` lies in the segment. -/
def Inside (segment : ShmSegment) (address size : UInt64) : Prop :=
  segment.p.toNat ≤ address.toNat ∧
    address.toNat + size.toNat ≤ segment.p.toNat + segment.size.toNat

/-- The test is about the interval of natural numbers. -/
theorem contains_iff :
    providerSegmentContains segment address size = true ↔ Inside segment address size := by
  simp only [providerSegmentContains, Bool.and_eq_true, decide_eq_true_eq, ge_iff_le, and_assoc]
  constructor
  · rintro ⟨hstart, hoffset, hsize⟩
    have hsub := UInt64.toNat_sub_of_le _ _ hstart
    have hrest := UInt64.toNat_sub_of_le _ _ hoffset
    rw [UInt64.le_iff_toNat_le] at hstart hoffset hsize
    unfold Inside
    omega
  · rintro ⟨hstart, hend⟩
    have hstart' : segment.p ≤ address := UInt64.le_iff_toNat_le.mpr hstart
    have hsub := UInt64.toNat_sub_of_le _ _ hstart'
    have hoffset : address - segment.p ≤ segment.size := by
      rw [UInt64.le_iff_toNat_le]
      omega
    have hrest := UInt64.toNat_sub_of_le _ _ hoffset
    refine ⟨hstart', hoffset, ?_⟩
    rw [UInt64.le_iff_toNat_le]
    omega

end Contains

/-! ### What is accepted -/

section Accepted

variable {sizeofSharedGlobals : UInt64} {r : ProviderResult} {lockFile : Int}
  {shared : SegmentArray}

theorem segmentIsValid_iff {entry : Option ShmSegment} : segmentIsValid entry = true ↔
    ∃ segment, entry = some segment ∧ segment.p ≠ 0 ∧ segment.p ≠ mapFailed ∧ segment.size ≠ 0 := by
  cases entry <;> simp [segmentIsValid, and_assoc]

theorem segmentsAreValid_iff : providerSegmentsAreValid (some shared) = true ↔
    shared.entries ≠ [] ∧ ∀ entry ∈ shared.entries, ∃ segment, entry = some segment ∧
      segment.p ≠ 0 ∧ segment.p ≠ mapFailed ∧ segment.size ≠ 0 := by
  have hcount : 0 < shared.count ↔ shared.entries ≠ [] := by
    rw [← List.length_pos_iff, shared.count_eq]
    omega
  simp only [providerSegmentsAreValid, Bool.and_eq_true, Bool.not_eq_true', decide_eq_false_iff_not,
    Int.not_le, hcount, List.all_eq_true, segmentIsValid_iff]

theorem someSegmentContains_iff {address : UInt64} :
    someSegmentContains sizeofSharedGlobals shared address = true ↔
      ∃ segment, some segment ∈ shared.entries ∧ Inside segment address sizeofSharedGlobals := by
  simp only [someSegmentContains, List.any_eq_true]
  constructor
  · rintro ⟨entry, hmem, hcontains⟩
    cases entry with
    | none => cases hcontains
    | some segment => exact ⟨segment, hmem, contains_iff.mp hcontains⟩
  · rintro ⟨segment, hmem, hinside⟩
    exact ⟨some segment, hmem, contains_iff.mpr hinside⟩

/-- A reattachment OPcache can work with. -/
structure Reattachable (sizeofSharedGlobals : UInt64) (r : ProviderResult) (lockFile : Int)
    (shared : SegmentArray) : Prop where
  segments : r.sharedSegments = some shared
  nonempty : shared.entries ≠ []
  valid : ∀ entry ∈ shared.entries, ∃ segment, entry = some segment ∧
    segment.p ≠ 0 ∧ segment.p ≠ mapFailed ∧ segment.size ≠ 0
  globals : r.reattachedSharedGlobals ≠ 0
  lock : 0 ≤ lockFile
  inside : ∃ segment, some segment ∈ shared.entries ∧
    Inside segment r.reattachedSharedGlobals sizeofSharedGlobals

theorem reattachable_iff : Reattachable sizeofSharedGlobals r lockFile shared ↔
    r.sharedSegments = some shared ∧ (providerSegmentsAreValid (some shared) &&
      r.reattachedSharedGlobals != 0 && decide (lockFile ≥ 0) &&
        someSegmentContains sizeofSharedGlobals shared r.reattachedSharedGlobals) = true := by
  simp only [Bool.and_eq_true, segmentsAreValid_iff, bne_iff_ne, decide_eq_true_eq,
    someSegmentContains_iff]
  constructor
  · rintro ⟨hsegments, hnonempty, hvalid, hglobals, hlock, hinside⟩
    exact ⟨hsegments, ⟨⟨⟨hnonempty, hvalid⟩, hglobals⟩, hlock⟩, hinside⟩
  · rintro ⟨hsegments, ⟨⟨⟨hnonempty, hvalid⟩, hglobals⟩, hlock⟩, hinside⟩
    exact ⟨hsegments, hnonempty, hvalid, hglobals, hlock, hinside⟩

/-- The wrapper hands on the provider's status or turns it into a failure. -/
theorem createSegments_status :
    (providerCreateSegments sizeofSharedGlobals r lockFile).1 = r.status ∨
      (providerCreateSegments sizeofSharedGlobals r lockFile).1 = allocFailure := by
  unfold providerCreateSegments
  split
  · exact .inl rfl
  · split
    · split
      · exact .inl rfl
      · exact .inr rfl
    · split
      · split
        · split
          · exact .inl rfl
          · exact .inr rfl
        · exact .inr rfl
      · exact .inr rfl

theorem createSegments_of_reattached (hstatus : r.status = successfullyReattached) :
    (providerCreateSegments sizeofSharedGlobals r lockFile).1 = successfullyReattached ↔
      ∃ shared, Reattachable sizeofSharedGlobals r lockFile shared := by
  have hfailure : allocFailure ≠ successfullyReattached := by decide
  have hfailed : ¬ (successfullyReattached = allocFailure ∨
      successfullyReattached = failedReattached) := by decide
  have hsuccess : successfullyReattached ≠ allocSuccess := by decide
  simp only [providerCreateSegments, hstatus, if_neg hfailed, if_neg hsuccess, if_true,
    reattachable_iff]
  cases hsegments : r.sharedSegments with
  | none => simp [hfailure]
  | some shared =>
      dsimp only
      split
      · next haccepted =>
          simp only [true_iff]
          exact ⟨shared, rfl, haccepted⟩
      · next hrefused =>
          simp only [hfailure, false_iff, not_exists, not_and]
          rintro other hother
          cases hother
          exact hrefused

/-- Reattached globals are accepted exactly when they fit. -/
theorem reattached_iff_fits (sizeofSharedGlobals : UInt64) (r : ProviderResult) (lockFile : Int) :
    ((providerCreateSegments sizeofSharedGlobals r lockFile).1 = successfullyReattached ↔
        r.status = successfullyReattached ∧
          ∃ shared, Reattachable sizeofSharedGlobals r lockFile shared) ∧
      ∀ segment address size, providerSegmentContainsChecked segment address size =
        some (providerSegmentContains segment address size) := by
  refine ⟨?_, containsChecked_eq⟩
  by_cases hstatus : r.status = successfullyReattached
  · rw [createSegments_of_reattached hstatus]
    exact ⟨fun h => ⟨hstatus, h⟩, And.right⟩
  · constructor
    · intro h
      have hcases : (providerCreateSegments sizeofSharedGlobals r lockFile).1 = r.status ∨
          (providerCreateSegments sizeofSharedGlobals r lockFile).1 = allocFailure :=
        createSegments_status
      rcases hcases with hsame | hfailure
      · exact absurd (hsame.symm.trans h) hstatus
      · rw [hfailure] at h
        exact absurd h (by decide)
    · exact fun h => absurd h.1 hstatus

/-- A block that ends where the address space does. -/
example : Inside ⟨4096, 4096, 0, 0xFFFFFFFFFFFFF000⟩ 0xFFFFFFFFFFFFFFB0 80 ∧
    providerSegmentContains ⟨4096, 4096, 0, 0xFFFFFFFFFFFFF000⟩ 0xFFFFFFFFFFFFFFB0 80 = true ∧
    providerSegmentContains ⟨4096, 4096, 0, 0xFFFFFFFFFFFFF000⟩ 0xFFFFFFFFFFFFFFB1 80 = false := by
  refine ⟨?_, by decide, by decide⟩
  unfold Inside
  decide

end Accepted

end Hyperglyph
