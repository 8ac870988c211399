import Hyperglyph.Client.CacheKey
import Hyperglyph.Library.Framing
import Hyperglyph.Library.Sorting

/-! The fingerprint of the OPcache configuration, and what it tells apart before it is hashed. -/
namespace Hyperglyph

open Octets Delimited Framing

/-- A `zend_string`: any octets, with a NUL behind them. -/
structure ZendString where
  bytes : List UInt8
  fits : bytes.length < 2 ^ 64
  deriving DecidableEq

namespace ZendString

/-- `ZSTR_VAL`. -/
def val (s : ZendString) : List UInt8 := s.bytes ++ [0]

@[ext] theorem ext {s t : ZendString} (h : s.bytes = t.bytes) : s = t := by
  cases s
  cases t
  cases h
  rfl

end ZendString

structure IniEntry where
  name : Option ZendString
  value : Option ZendString
  deriving DecidableEq

structure IniFingerprintEntry where
  name : ZendString
  value : Option ZendString
  deriving DecidableEq

def opcachePrefix : List UInt8 := ascii "opcache."

/-- The test both passes make, and the pair the second one stores. -/
def IniEntry.fingerprintEntry (iniEntry : IniEntry) : Option IniFingerprintEntry :=
  match iniEntry.name with
  | none => none
  | some name =>
      if name.bytes.length > opcachePrefix.length ∧
          name.bytes.take opcachePrefix.length = opcachePrefix then
        some { name := name, value := iniEntry.value }
      else none

def compareIniFingerprintEntries (left right : IniFingerprintEntry) : Ordering :=
  strcmp left.name.val right.name.val

instance : Std.TransCmp compareIniFingerprintEntries :=
  inferInstanceAs (Std.TransCmp (compareOn fun entry : IniFingerprintEntry => cString entry.name.val))

/-- The context is the text it was fed. -/
def md5UpdateField (context value : List UInt8) : List UInt8 :=
  let context := context ++ ofNat 8 value.length
  if value.length ≠ 0 then context ++ value else context

/-! ### The two passes -/

def countEntries (directives : List IniEntry) : Nat :=
  directives.foldl (fun entryCount iniEntry =>
    if iniEntry.fingerprintEntry.isSome then entryCount + 1 else entryCount) 0

/-- The array of the second pass and the index it ends at, unless it writes outside the array. -/
def fillEntries (entries : List (Option IniFingerprintEntry)) (entryIndex : Nat) :
    List IniEntry → Option (List (Option IniFingerprintEntry) × Nat)
  | [] => some (entries, entryIndex)
  | iniEntry :: rest =>
      match iniEntry.fingerprintEntry with
      | none => fillEntries entries entryIndex rest
      | some entry =>
          if entryIndex < entries.length then
            fillEntries (entries.set entryIndex (some entry)) (entryIndex + 1) rest
          else none

/-- The array without what `malloc` left in it, if nothing of that is left. -/
def initialised : List (Option IniFingerprintEntry) → Option (List IniFingerprintEntry)
  | [] => some []
  | none :: _ => none
  | some entry :: entries => (initialised entries).map (entry :: ·)

def fingerprintStream (entries : List IniFingerprintEntry) : List UInt8 :=
  entries.foldl (fun context entry =>
    let context := md5UpdateField context entry.name.bytes
    match entry.value with
    | some value => md5UpdateField context value.bytes
    | none => md5UpdateField context []) []

/-- `digest_hex`, up to its terminator. -/
def digestHex (digest : Fin 16 → UInt8) : List UInt8 :=
  (List.ofFn digest).flatMap fun octet : UInt8 =>
    [digit (octet >>> 4).toNat, digit (octet &&& 0x0f).toNat]

theorem mem_digestHex {digest : Fin 16 → UInt8} {c : UInt8} (h : c ∈ digestHex digest) :
    c ≠ 0 ∧ c ≠ bar := by
  obtain ⟨octet, -, hc⟩ := List.mem_flatMap.mp h
  have hhigh : (octet >>> 4).toNat < 16 := by
    rw [UInt8.toNat_shiftRight]
    have hlt := octet.toNat_lt
    rw [show (4 : UInt8).toNat % 8 = 4 from rfl, Nat.shiftRight_eq_div_pow]
    omega
  have hlow : (octet &&& 0x0f).toNat < 16 := by
    rw [UInt8.toNat_and]
    exact Nat.lt_of_le_of_lt Nat.and_le_right (by decide)
  rw [List.mem_cons, List.mem_singleton] at hc
  rcases hc with rfl | rfl
  · exact digit_ne hhigh
  · exact digit_ne hlow

/-- What a call leaves: `FAILURE`, an access the language leaves undefined, or the text that was
hashed with its digest. -/
inductive Fingerprint
  | failure
  | undefined
  | success (stream : List UInt8) (digestHex : Text)
  deriving DecidableEq

/-- What the caller has of it. -/
def Fingerprint.digest : Fingerprint → Option Text
  | .success _ digestHex => some digestHex
  | _ => none

variable (q q' : Qsort IniFingerprintEntry) (md5 : List UInt8 → Fin 16 → UInt8)

def opcacheConfigurationDigest (iniDirectives : Option (List IniEntry)) (allocated : Bool) :
    Fingerprint :=
  match iniDirectives with
  | none => .failure
  | some directives =>
      let entryCount := countEntries directives
      if entryCount = 0 then .failure
      else if !allocated then .failure
      else
        match fillEntries (List.replicate entryCount none) 0 directives with
        | none => .undefined
        | some (entries, _) =>
            match initialised entries with
            | none => .undefined
            | some entries =>
                let stream := fingerprintStream (q.sort compareIniFingerprintEntries entries)
                .success stream ⟨digestHex (md5 stream), fun h => (mem_digestHex h).1 rfl⟩

/-! ### What the passes do -/

variable {q q' md5}

/-- The entries the fingerprint is made of, in the order of the table. -/
def fingerprinted (directives : List IniEntry) : List IniFingerprintEntry :=
  directives.filterMap IniEntry.fingerprintEntry

theorem fingerprinted_skip {iniEntry : IniEntry} (rest : List IniEntry)
    (h : iniEntry.fingerprintEntry = none) : fingerprinted (iniEntry :: rest) = fingerprinted rest :=
  List.filterMap_cons_none h

theorem fingerprinted_take {iniEntry : IniEntry} {entry : IniFingerprintEntry} (rest : List IniEntry)
    (h : iniEntry.fingerprintEntry = some entry) :
    fingerprinted (iniEntry :: rest) = entry :: fingerprinted rest :=
  List.filterMap_cons_some h

theorem countEntries_eq (directives : List IniEntry) :
    countEntries directives = (fingerprinted directives).length := by
  have hfold : ∀ n, directives.foldl (fun entryCount iniEntry =>
      if iniEntry.fingerprintEntry.isSome then entryCount + 1 else entryCount) n =
        n + (fingerprinted directives).length := by
    induction directives with
    | nil => exact fun n => rfl
    | cons iniEntry rest ih =>
        intro n
        rw [List.foldl_cons, ih]
        cases hentry : iniEntry.fingerprintEntry with
        | none =>
            rw [fingerprinted_skip rest hentry]
            rfl
        | some entry =>
            rw [fingerprinted_take rest hentry, List.length_cons, Option.isSome_some, if_pos rfl]
            omega
  rw [countEntries, hfold, Nat.zero_add]

/-- One more slot is written. -/
theorem set_slot (done : List IniFingerprintEntry) (entry : IniFingerprintEntry) (n : Nat) :
    (done.map some ++ List.replicate (n + 1) none).set done.length (some entry) =
      (done ++ [entry]).map some ++ List.replicate n none := by
  rw [List.set_append_right _ _ (by simp), List.length_map, Nat.sub_self, List.replicate_succ,
    List.set_cons_zero, List.map_append, List.append_assoc]
  rfl

/-- The slots before the index are written, and those behind it are as many as the entries still
to come. -/
theorem fillEntries_eq (directives : List IniEntry) (done : List IniFingerprintEntry) :
    fillEntries (done.map some ++ List.replicate (fingerprinted directives).length none) done.length
        directives =
      some ((done ++ fingerprinted directives).map some,
        (done ++ fingerprinted directives).length) := by
  induction directives generalizing done with
  | nil => simp [fillEntries, fingerprinted]
  | cons iniEntry rest ih =>
      unfold fillEntries
      cases hentry : iniEntry.fingerprintEntry with
      | none =>
          rw [fingerprinted_skip rest hentry]
          exact ih done
      | some entry =>
          rw [fingerprinted_take rest hentry, List.length_cons]
          have hroom : done.length <
              (done.map some ++ List.replicate ((fingerprinted rest).length + 1) none).length := by
            rw [List.length_append, List.length_map, List.length_replicate]
            omega
          have hnext := ih (done ++ [entry])
          rw [← set_slot, List.length_append, List.append_assoc] at hnext
          dsimp only
          rw [if_pos hroom]
          exact hnext

theorem fillEntries_count (directives : List IniEntry) :
    fillEntries (List.replicate (countEntries directives) none) 0 directives =
      some ((fingerprinted directives).map some, countEntries directives) := by
  rw [countEntries_eq]
  exact fillEntries_eq directives []

theorem initialised_map_some (entries : List IniFingerprintEntry) :
    initialised (entries.map some) = some entries := by
  induction entries with
  | nil => rfl
  | cons entry entries ih =>
      rw [List.map_cons, initialised, ih]
      rfl

/-! ### The stream -/

/-- What an entry says. -/
def IniFingerprintEntry.setting (entry : IniFingerprintEntry) : List UInt8 × List UInt8 :=
  (entry.name.bytes, entry.value.elim [] ZendString.bytes)

theorem md5UpdateField_eq (context value : List UInt8) :
    md5UpdateField context value = context ++ frame 8 value := by
  unfold md5UpdateField frame
  cases value with
  | nil => simp
  | cons octet value => simp [List.append_assoc]

/-- Names and values by turns. -/
def settingFields (settings : List (List UInt8 × List UInt8)) : List (List UInt8) :=
  settings.flatMap fun setting => [setting.1, setting.2]

theorem settingFields_injective {settings settings' : List (List UInt8 × List UInt8)}
    (h : settingFields settings = settingFields settings') : settings = settings' := by
  induction settings generalizing settings' with
  | nil =>
      cases settings' with
      | nil => rfl
      | cons setting' settings' => cases h
  | cons setting settings ih =>
      cases settings' with
      | nil => cases h
      | cons setting' settings' =>
          obtain ⟨hname, htail⟩ := List.cons.inj h
          obtain ⟨hvalue, hrest⟩ := List.cons.inj htail
          rw [Prod.ext hname hvalue, ih hrest]

theorem fingerprintStream_eq (entries : List IniFingerprintEntry) :
    fingerprintStream entries =
      frames 8 (settingFields (entries.map IniFingerprintEntry.setting)) := by
  have hstep : ∀ (context : List UInt8) (entry : IniFingerprintEntry),
      (match entry.value with
        | some value => md5UpdateField (md5UpdateField context entry.name.bytes) value.bytes
        | none => md5UpdateField (md5UpdateField context entry.name.bytes) []) =
        context ++ frames 8 [entry.setting.1, entry.setting.2] := by
    intro context entry
    cases hvalue : entry.value with
    | none => simp [md5UpdateField_eq, IniFingerprintEntry.setting, hvalue]
    | some value => simp [md5UpdateField_eq, IniFingerprintEntry.setting, hvalue]
  have hfold : ∀ context : List UInt8, entries.foldl (fun context entry =>
      match entry.value with
      | some value => md5UpdateField (md5UpdateField context entry.name.bytes) value.bytes
      | none => md5UpdateField (md5UpdateField context entry.name.bytes) []) context =
        context ++ frames 8 (settingFields (entries.map IniFingerprintEntry.setting)) := by
    induction entries with
    | nil => exact fun context => (List.append_nil context).symm
    | cons entry entries ih =>
        intro context
        rw [List.foldl_cons, hstep, ih, List.append_assoc, List.map_cons]
        congr 1
        simp [settingFields]
  exact hfold []

theorem setting_fits (entry : IniFingerprintEntry) :
    entry.setting.1.length < 256 ^ 8 ∧ entry.setting.2.length < 256 ^ 8 := by
  refine ⟨entry.name.fits, ?_⟩
  unfold IniFingerprintEntry.setting
  cases entry.value with
  | none => exact Nat.pow_pos (by decide)
  | some value => exact value.fits

/-- The framing tells where every name and value ends, whatever octets they are made of. -/
theorem fingerprintStream_inj {entries entries' : List IniFingerprintEntry} :
    fingerprintStream entries = fingerprintStream entries' ↔
      entries.map IniFingerprintEntry.setting = entries'.map IniFingerprintEntry.setting := by
  have hfits : ∀ entries : List IniFingerprintEntry,
      ∀ octets ∈ settingFields (entries.map IniFingerprintEntry.setting),
        octets.length < 256 ^ 8 := by
    intro entries octets hmem
    obtain ⟨setting, hsetting, hoctets⟩ := List.mem_flatMap.mp hmem
    obtain ⟨entry, -, rfl⟩ := List.mem_map.mp hsetting
    rw [List.mem_cons, List.mem_singleton] at hoctets
    rcases hoctets with rfl | rfl
    · exact (setting_fits entry).1
    · exact (setting_fits entry).2
  rw [fingerprintStream_eq, fingerprintStream_eq]
  constructor
  · intro h
    exact settingFields_injective (frames_injective (by decide) (hfits _) (hfits _) h)
  · intro h
    rw [h]

/-! ### Tables -/

/-- A table of directives: no name stands twice in it, and none has a NUL in it. -/
structure IniTable where
  directives : List IniEntry
  distinct : (directives.filterMap IniEntry.name).Nodup
  nul_free : ∀ name ∈ directives.filterMap IniEntry.name, (0 : UInt8) ∉ name.bytes

/-- The names and values of the OPcache directives of a table, in no order. -/
def IniTable.settings (t : IniTable) : Set (List UInt8 × List UInt8) :=
  {setting | opcachePrefix <+: setting.1 ∧ opcachePrefix.length < setting.1.length ∧
    ∃ iniEntry ∈ t.directives, iniEntry.name.map ZendString.bytes = some setting.1 ∧
      iniEntry.value.elim [] ZendString.bytes = setting.2}

theorem fingerprintEntry_eq_some {iniEntry : IniEntry} {entry : IniFingerprintEntry} :
    iniEntry.fingerprintEntry = some entry ↔
      opcachePrefix <+: entry.name.bytes ∧ opcachePrefix.length < entry.name.bytes.length ∧
        iniEntry.name = some entry.name ∧ iniEntry.value = entry.value := by
  obtain ⟨name, value⟩ := iniEntry
  obtain ⟨name', value'⟩ := entry
  unfold IniEntry.fingerprintEntry
  cases name with
  | none => simp
  | some name =>
      dsimp only
      rw [List.prefix_iff_eq_take]
      constructor
      · intro h
        split at h
        · next htest =>
            cases h
            exact ⟨htest.2.symm, htest.1, rfl, rfl⟩
        · cases h
      · rintro ⟨hstart, hlonger, hname, rfl⟩
        cases hname
        rw [if_pos ⟨hlonger, hstart.symm⟩]

namespace IniTable

variable {t t' : IniTable}

theorem mem_settings {setting : List UInt8 × List UInt8} :
    setting ∈ t.settings ↔ setting ∈ (fingerprinted t.directives).map IniFingerprintEntry.setting := by
  rw [List.mem_map]
  constructor
  · rintro ⟨hstart, hlonger, iniEntry, hmem, hname, hvalue⟩
    obtain ⟨name, hname, hbytes⟩ := Option.map_eq_some_iff.mp hname
    refine ⟨⟨name, iniEntry.value⟩, ?_, Prod.ext hbytes hvalue⟩
    rw [← hbytes] at hstart hlonger
    exact List.mem_filterMap.mpr ⟨iniEntry, hmem,
      fingerprintEntry_eq_some.mpr ⟨hstart, hlonger, hname, rfl⟩⟩
  · rintro ⟨entry, hentry, rfl⟩
    obtain ⟨iniEntry, hmem, hsome⟩ := List.mem_filterMap.mp hentry
    obtain ⟨hstart, hlonger, hname, hvalue⟩ := fingerprintEntry_eq_some.mp hsome
    refine ⟨hstart, hlonger, iniEntry, hmem, ?_, ?_⟩
    · rw [hname]
      rfl
    · rw [hvalue]
      rfl

/-- An OPcache directive keeps the name it has in the table. -/
theorem names_sublist (directives : List IniEntry) :
    ((fingerprinted directives).map IniFingerprintEntry.name).Sublist
      (directives.filterMap IniEntry.name) := by
  induction directives with
  | nil => exact .slnil
  | cons iniEntry rest ih =>
      cases hentry : iniEntry.fingerprintEntry with
      | none =>
          rw [fingerprinted_skip rest hentry, List.filterMap_cons]
          cases iniEntry.name with
          | none => exact ih
          | some name => exact ih.cons name
      | some entry =>
          obtain ⟨-, -, hname, -⟩ := fingerprintEntry_eq_some.mp hentry
          rw [fingerprinted_take rest hentry, List.filterMap_cons_some hname, List.map_cons]
          exact ih.cons_cons entry.name

theorem name_nul_free {entry : IniFingerprintEntry} (h : entry ∈ fingerprinted t.directives) :
    (0 : UInt8) ∉ entry.setting.1 :=
  t.nul_free entry.name ((names_sublist t.directives).subset (List.mem_map_of_mem h))

/-- No two settings of a table have the same name. -/
theorem settings_names_nodup (t : IniTable) :
    (((fingerprinted t.directives).map IniFingerprintEntry.setting).map Prod.fst).Nodup := by
  have hnames := t.distinct.sublist (names_sublist t.directives)
  have hbytes : Function.Injective ZendString.bytes := fun _ _ => ZendString.ext
  have hmap := hnames.map hbytes
  rw [List.map_map] at hmap
  rw [List.map_map]
  exact hmap

/-- The comparison of the source reads nothing of an entry but its setting. -/
def compareSettings (left right : List UInt8 × List UInt8) : Ordering :=
  strcmp (left.1 ++ [0]) (right.1 ++ [0])

instance : Std.TransCmp compareSettings :=
  inferInstanceAs (Std.TransCmp (compareOn fun s : List UInt8 × List UInt8 => cString (s.1 ++ [0])))

/-- The settings in the order they are hashed in. -/
def sortedSettings (q : Qsort IniFingerprintEntry) (t : IniTable) : List (List UInt8 × List UInt8) :=
  (q.sort compareIniFingerprintEntries (fingerprinted t.directives)).map IniFingerprintEntry.setting

theorem sortedSettings_perm (q : Qsort IniFingerprintEntry) (t : IniTable) :
    (sortedSettings q t).Perm ((fingerprinted t.directives).map IniFingerprintEntry.setting) :=
  (q.perm compareIniFingerprintEntries _).map _

theorem sortedSettings_sorted (q : Qsort IniFingerprintEntry) (t : IniTable) :
    (sortedSettings q t).Pairwise fun a b => compareSettings a b ≠ .gt :=
  List.pairwise_map.mpr (q.sorted compareIniFingerprintEntries _)

theorem mem_sortedSettings (q : Qsort IniFingerprintEntry) {setting : List UInt8 × List UInt8} :
    setting ∈ sortedSettings q t ↔ setting ∈ t.settings := by
  rw [mem_settings]
  exact (sortedSettings_perm q t).mem_iff

theorem setting_nul_free {setting : List UInt8 × List UInt8} (h : setting ∈ t.settings) :
    (0 : UInt8) ∉ setting.1 := by
  obtain ⟨entry, hentry, rfl⟩ := List.mem_map.mp (mem_settings.mp h)
  exact name_nul_free hentry

/-- The order of the settings does not depend on the order of the table, nor on the `qsort`: names
are compared to their end, and no two of them are equal. -/
theorem sortedSettings_congr (q q' : Qsort IniFingerprintEntry) (h : t.settings = t'.settings) :
    sortedSettings q t = sortedSettings q' t' := by
  have hnodup : ∀ (q : Qsort IniFingerprintEntry) (t : IniTable),
      ((sortedSettings q t).map Prod.fst).Nodup := by
    intro q t
    exact (((sortedSettings_perm q t).map Prod.fst).nodup_iff).mpr (settings_names_nodup t)
  have hmem : ∀ setting, setting ∈ sortedSettings q t ↔ setting ∈ sortedSettings q' t' := by
    intro setting
    rw [mem_sortedSettings, mem_sortedSettings, h]
  have hperm : (sortedSettings q t).Perm (sortedSettings q' t') := by
    rw [List.perm_ext_iff_of_nodup ((hnodup q t).of_map _) ((hnodup q' t').of_map _)]
    exact hmem
  refine Qsort.eq_of_sorted ?_ (sortedSettings_sorted q t) (sortedSettings_sorted q' t') hperm
  intro a ha b hb heq
  have hname : a.1 = b.1 := by
    have hstrcmp := strcmpEq_iff.mp (strcmp_eq_iff.mp heq)
    rwa [cString_append_zero (setting_nul_free ((mem_sortedSettings q).mp ha)),
      cString_append_zero (setting_nul_free ((mem_sortedSettings q').mp hb))] at hstrcmp
  exact List.inj_on_of_nodup_map (hnodup q t) ha ((hmem b).mpr hb) hname

/-- The stream determines the settings and is determined by them. -/
theorem stream_eq_iff (q q' : Qsort IniFingerprintEntry) :
    fingerprintStream (q.sort compareIniFingerprintEntries (fingerprinted t.directives)) =
        fingerprintStream (q'.sort compareIniFingerprintEntries (fingerprinted t'.directives)) ↔
      t.settings = t'.settings := by
  rw [fingerprintStream_inj]
  constructor
  · intro h
    ext setting
    rw [← mem_sortedSettings q, ← mem_sortedSettings q', sortedSettings, h]
    rfl
  · exact sortedSettings_congr q q'

example : fingerprintStream ((Qsort.insertion _).sort compareIniFingerprintEntries
    [⟨⟨ascii "opcache.jit", by decide⟩, none⟩, ⟨⟨ascii "opcache.enable", by decide⟩,
      some ⟨ascii "1", by decide⟩⟩]) =
    frames 8 [ascii "opcache.enable", ascii "1", ascii "opcache.jit", []] := by decide +kernel

theorem settings_eq_empty : t.settings = ∅ ↔ fingerprinted t.directives = [] := by
  rw [Set.eq_empty_iff_forall_notMem]
  constructor
  · intro h
    refine List.eq_nil_iff_forall_not_mem.mpr fun entry hentry => ?_
    exact h entry.setting (mem_settings.mpr (List.mem_map_of_mem hentry))
  · intro h setting hmem
    rw [mem_settings, h] at hmem
    cases hmem

theorem settings_of_perm (h : t.directives.Perm t'.directives) : t.settings = t'.settings := by
  ext setting
  rw [mem_settings, mem_settings]
  exact ((h.filterMap _).map _).mem_iff

end IniTable

/-! ### The call -/

/-- The passes agree on the number of entries: no call overruns the array, and none reads what it
has not written. -/
theorem opcacheConfigurationDigest_eq (directives : List IniEntry) (allocated : Bool) :
    opcacheConfigurationDigest q md5 (some directives) allocated =
      if fingerprinted directives = [] ∨ allocated = false then .failure
      else
        let stream := fingerprintStream (q.sort compareIniFingerprintEntries (fingerprinted directives))
        .success stream ⟨digestHex (md5 stream), fun h => (mem_digestHex h).1 rfl⟩ := by
  have hcount : countEntries directives = 0 ↔ fingerprinted directives = [] := by
    rw [countEntries_eq, List.length_eq_zero_iff]
  unfold opcacheConfigurationDigest
  dsimp only
  rw [fillEntries_count]
  dsimp only
  rw [initialised_map_some]
  by_cases hempty : fingerprinted directives = []
  · rw [if_pos (hcount.mpr hempty), if_pos (.inl hempty)]
  · rw [if_neg fun h => hempty (hcount.mp h)]
    cases allocated with
    | false => exact (if_pos (.inr rfl)).symm
    | true =>
        have hgoes : ¬(fingerprinted directives = [] ∨ true = false) := by
          rintro (h | h)
          · exact hempty h
          · cases h
        rw [if_neg hgoes]
        rfl

theorem opcacheConfigurationDigest_failure {table : Option IniTable} {allocated : Bool} :
    opcacheConfigurationDigest q md5 (table.map IniTable.directives) allocated = .failure ↔
      table = none ∨ (∃ t, table = some t ∧ t.settings = ∅) ∨ allocated = false := by
  cases table with
  | none => exact ⟨fun _ => .inl rfl, fun _ => rfl⟩
  | some t =>
      rw [Option.map_some, opcacheConfigurationDigest_eq]
      constructor
      · intro h
        right
        split at h
        · next hor => exact hor.imp_left fun hempty => ⟨t, rfl, IniTable.settings_eq_empty.mpr hempty⟩
        · cases h
      · rintro (hnone | ⟨t', ht', hempty⟩ | hmalloc)
        · cases hnone
        · cases ht'
          exact if_pos (.inl (IniTable.settings_eq_empty.mp hempty))
        · exact if_pos (.inr hmalloc)

theorem opcacheConfigurationDigest_defined (iniDirectives : Option (List IniEntry))
    (allocated : Bool) : opcacheConfigurationDigest q md5 iniDirectives allocated ≠ .undefined := by
  intro h
  cases iniDirectives with
  | none => cases h
  | some directives =>
      rw [opcacheConfigurationDigest_eq] at h
      split at h
      · cases h
      · cases h

/-- Tables with the same settings have the same outcome. -/
theorem opcacheConfigurationDigest_congr {t t' : IniTable} (allocated : Bool)
    (h : t.settings = t'.settings) :
    opcacheConfigurationDigest q md5 (some t.directives) allocated =
      opcacheConfigurationDigest q' md5 (some t'.directives) allocated := by
  have hempty : fingerprinted t.directives = [] ↔ fingerprinted t'.directives = [] := by
    rw [← IniTable.settings_eq_empty, ← IniTable.settings_eq_empty, h]
  rw [opcacheConfigurationDigest_eq, opcacheConfigurationDigest_eq]
  simp only [hempty, (IniTable.stream_eq_iff q q').mpr h]

theorem stream_of_success {directives : List IniEntry} {allocated : Bool} {stream : List UInt8}
    {digest : Text}
    (h : opcacheConfigurationDigest q md5 (some directives) allocated = .success stream digest) :
    stream =
      fingerprintStream (q.sort compareIniFingerprintEntries (fingerprinted directives)) := by
  rw [opcacheConfigurationDigest_eq] at h
  split at h
  · cases h
  · cases h
    rfl

/-- What the fingerprint promises of any digest function. -/
structure FingerprintCanonical (md5 : List UInt8 → Fin 16 → UInt8) : Prop where
  /-- The second pass writes as many entries as the first one counted, one into each slot. -/
  filled : ∀ directives : List IniEntry,
    fillEntries (List.replicate (countEntries directives) none) 0 directives =
      some ((fingerprinted directives).map some, countEntries directives)
  defined : ∀ q iniDirectives allocated,
    opcacheConfigurationDigest q md5 iniDirectives allocated ≠ .undefined
  /-- A call fails without a table, without OPcache directives and without memory. -/
  failure : ∀ q (table : Option IniTable) allocated,
    opcacheConfigurationDigest q md5 (table.map IniTable.directives) allocated = .failure ↔
      table = none ∨ (∃ t, table = some t ∧ t.settings = ∅) ∨ allocated = false
  /-- Neither the order of the table nor the `qsort` matters. -/
  canonical : ∀ q q' (t t' : IniTable) allocated, t.directives.Perm t'.directives →
    opcacheConfigurationDigest q md5 (some t.directives) allocated =
      opcacheConfigurationDigest q' md5 (some t'.directives) allocated
  /-- The text that is hashed stands for the settings of the table. -/
  injective : ∀ q q' (t t' : IniTable) stream stream' digest digest',
    opcacheConfigurationDigest q md5 (some t.directives) true = .success stream digest →
      opcacheConfigurationDigest q' md5 (some t'.directives) true = .success stream' digest' →
        (stream = stream' ↔ t.settings = t'.settings)

theorem configuration_fingerprint_canonical (md5 : List UInt8 → Fin 16 → UInt8) :
    FingerprintCanonical md5 where
  filled := fillEntries_count
  defined _ := opcacheConfigurationDigest_defined
  failure _ _ _ := opcacheConfigurationDigest_failure
  canonical _ _ _ _ allocated h :=
    opcacheConfigurationDigest_congr allocated (IniTable.settings_of_perm h)
  injective q q' t t' stream stream' digest digest' h h' := by
    rw [stream_of_success h, stream_of_success h']
    exact IniTable.stream_eq_iff q q'

end Hyperglyph
