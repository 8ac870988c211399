import Hyperglyph.Library.PathResolution
import Hyperglyph.Listener.Startup

/-! `ahe_broker_prepare_parent_directory`: the directory that is to hold the socket, however many
slashes stand before the socket's name. -/
namespace Hyperglyph

open Octets PathResolution

inductive PrepareFailure
  | invalid | nameTooLong | mkdirFailed | notPermitted
  deriving DecidableEq

/-- The string in `parent_path`, without its terminator. -/
def parentPath (socketPath : List UInt8) : Except PrepareFailure (List UInt8) :=
  match strrchr slash socketPath with
  | none => .ok dot
  | some lastSlash =>
      if lastSlash + 1 = socketPath.length then .error .invalid
      else if lastSlash = 0 then .ok [slash]
      else if lastSlash ≥ sizeofSunPath then .error .nameTooLong
      else .ok (socketPath.take lastSlash)

/-- The test on what `lstat` found: a directory of the user's that only the user writes to. -/
def trusted (effectiveUid : Nat) (status : Inode) : Bool :=
  (match status.kind with
    | .directory _ _ _ => true
    | _ => false) && status.uid == effectiveUid && status.mode &&& 0o022 == 0

/-- `mkdir` and `lstat`. The mode is `0700`, which the umask leaves. -/
def checkParent (effectiveUid : Nat) (fs : FileSystem) (parent : List UInt8) (made : Option Ino) :
    FileSystem × Except PrepareFailure Unit :=
  match fs.mkdir parent effectiveUid 0o700 made with
  | (fs, .failed) => (fs, .error .mkdirFailed)
  | (fs, _) =>
      (fs, if (fs.lstat parent).any (trusted effectiveUid) then .ok () else .error .notPermitted)

/-- `ahe_broker_prepare_parent_directory`. -/
def brokerPrepareParentDirectory (effectiveUid : Nat) (fs : FileSystem) (socketPath : List UInt8)
    (made : Option Ino) : FileSystem × Except PrepareFailure Unit :=
  match parentPath socketPath with
  | .error e => (fs, .error e)
  | .ok parent => checkParent effectiveUid fs parent made

/-- The path of the directory entry that holds the socket: without the last name and the slashes
before it. -/
def parentEntry (socketPath : List UInt8) : List UInt8 :=
  match strrchr slash socketPath with
  | none => dot
  | some lastSlash =>
      let before := (socketPath.take lastSlash).rdropWhile (· == slash)
      if before = [] then [slash] else before

/-- The entry itself, not what it may link to, is a directory that passes the test. -/
def EntryTrusted (effectiveUid : Nat) (fs : FileSystem) (path : List UInt8) : Prop :=
  ∃ i status, fs.entry path = some i ∧ fs.inodes i = some status ∧ trusted effectiveUid status = true

/-- The entry is a link, and what it leads to is a directory that passes the test. -/
def LeadsToTrusted (effectiveUid : Nat) (fs : FileSystem) (path : List UInt8) : Prop :=
  ∃ i j status, fs.entry path = some i ∧ (fs.target? i).isSome = true ∧ fs.follow path = some j ∧
    fs.inodes j = some status ∧ trusted effectiveUid status = true

section Check

variable {effectiveUid : Nat} {fs : FileSystem} {parent base : List UInt8} {made : Option Ino}
  {status : Inode}

theorem trusted_directory {i : Ino} (hi : fs.inodes i = some status)
    (h : trusted effectiveUid status = true) : fs.isDirectory i = true := by
  obtain ⟨uid, mode, kind⟩ := status
  unfold FileSystem.isDirectory
  rw [hi]
  cases kind with
  | directory => rfl
  | symlink | other => cases h

@[simp] theorem checkParent_fst : (checkParent effectiveUid fs parent made).1 =
    (fs.mkdir parent effectiveUid 0o700 made).1 := by
  unfold checkParent
  split
  · next hmkdir => rw [hmkdir]
  · next hmkdir => rw [hmkdir]

theorem checkParent_ok : (checkParent effectiveUid fs parent made).2 = .ok () ↔
    (fs.mkdir parent effectiveUid 0o700 made).2 ≠ .failed ∧
      ((fs.mkdir parent effectiveUid 0o700 made).1.lstat parent).any (trusted effectiveUid) = true := by
  unfold checkParent
  split
  · next hmkdir => simp [hmkdir]
  · next fs' result hother hmkdir =>
      have hdone : result ≠ .failed := hother
      rw [hmkdir]
      simp [hdone]

theorem entryTrusted_iff {path : List UInt8} : EntryTrusted effectiveUid fs path ↔
    ((fs.entry path).bind fs.inodes).any (trusted effectiveUid) = true := by
  simp only [EntryTrusted, Option.any_eq_true, Option.bind_eq_some_iff]
  constructor
  · rintro ⟨i, status, hentry, hinode, htrusted⟩
    exact ⟨status, ⟨i, hentry, hinode⟩, htrusted⟩
  · rintro ⟨status, ⟨i, hentry, hinode⟩, htrusted⟩
    exact ⟨i, status, hentry, hinode, htrusted⟩

/-- Nothing is trusted where no entry is. -/
theorem not_entryTrusted (hnone : fs.entry base = none) : ¬ EntryTrusted effectiveUid fs base := by
  rintro ⟨i, status, hentry, -⟩
  rw [hnone] at hentry
  cases hentry

theorem not_leadsToTrusted (hnone : fs.entry base = none) :
    ¬ LeadsToTrusted effectiveUid fs base := by
  rintro ⟨i, j, status, hentry, -⟩
  rw [hnone] at hentry
  cases hentry

/-- A path without a slash at its end is checked as it is. -/
theorem checkParent_plain (hlast : parent.getLast? ≠ some slash) :
    (checkParent effectiveUid fs parent made).2 = .ok () ↔
      EntryTrusted effectiveUid (checkParent effectiveUid fs parent made).1 parent := by
  rw [checkParent_ok, checkParent_fst, FileSystem.lstat_of_entry hlast, entryTrusted_iff]
  refine and_iff_right_of_imp ?_
  intro htrusted hfailed
  generalize hmkdir : fs.mkdir parent effectiveUid 0o700 made = r at htrusted hfailed
  have hspec := fs.mkdir_spec parent effectiveUid 0o700 made
  rw [hmkdir] at hspec
  cases hspec with
  | «exists» | made => cases hfailed
  | failed hnone =>
      rw [hnone] at htrusted
      cases htrusted

/-- What `lstat` finds of a directory behind slashes. -/
theorem followed_iff (hbase : base ≠ []) (hlast : base.getLast? ≠ some slash) :
    (((fs.follow base).filter fs.isDirectory).bind fs.inodes).any (trusted effectiveUid) = true ↔
      EntryTrusted effectiveUid fs base ∨ LeadsToTrusted effectiveUid fs base := by
  simp only [Option.any_eq_true, Option.bind_eq_some_iff, Option.filter_eq_some_iff]
  constructor
  · rintro ⟨status, ⟨j, ⟨hfollow, -⟩, hinode⟩, htrusted⟩
    obtain ⟨i, hentry, hsame⟩ := FileSystem.entry_of_follow (names_ne_nil hbase hlast) hfollow
    cases hlink : fs.target? i with
    | none =>
        obtain rfl := hsame hlink
        exact .inl ⟨i, status, hentry, hinode, htrusted⟩
    | some target =>
        exact .inr ⟨i, j, status, hentry, by rw [hlink]; rfl, hfollow, hinode, htrusted⟩
  · rintro (⟨i, status, hentry, hinode, htrusted⟩ | ⟨i, j, status, -, -, hfollow, hinode, htrusted⟩)
    · have hdirectory := trusted_directory hinode htrusted
      have hfollow := FileSystem.follow_of_entry hbase hentry (FileSystem.isDirectory_target hdirectory)
      exact ⟨status, ⟨i, ⟨hfollow, hdirectory⟩, hinode⟩, htrusted⟩
    · exact ⟨status, ⟨j, ⟨hfollow, trusted_directory hinode htrusted⟩, hinode⟩, htrusted⟩

/-- With slashes behind it, a link in the place of the directory is followed. -/
theorem checkParent_slashed (hbase : base ≠ []) (hlast : base.getLast? ≠ some slash) (count : Nat) :
    (checkParent effectiveUid fs (base ++ List.replicate (count + 1) slash) made).2 = .ok () ↔
      EntryTrusted effectiveUid (checkParent effectiveUid fs base made).1 base ∨
        LeadsToTrusted effectiveUid fs base := by
  rw [checkParent_ok, checkParent_fst, FileSystem.mkdir_append_slashes hbase,
    FileSystem.lstat_append_slashes hbase, followed_iff hbase hlast]
  generalize hmkdir : fs.mkdir base effectiveUid 0o700 made = r
  have hspec := fs.mkdir_spec base effectiveUid 0o700 made
  rw [hmkdir] at hspec
  cases hspec with
  | «exists» => simp
  | failed hnone =>
      simp [not_entryTrusted hnone, not_leadsToTrusted hnone]
  | @made fs' i parent hnone hentry hinode =>
      have htrusted : EntryTrusted effectiveUid fs' base :=
        ⟨i, _, hentry, hinode, by simp [trusted]⟩
      simp [htrusted]

/-- The root is the root, however many slashes there are. -/
theorem checkParent_root (count : Nat) :
    (checkParent effectiveUid fs (List.replicate (count + 1) slash) made).1 = fs ∧
      ((checkParent effectiveUid fs (List.replicate (count + 1) slash) made).2 = .ok () ↔
        EntryTrusted effectiveUid fs [slash]) := by
  have hnames := names_slashes (count + 1)
  have habsolute : absolute (List.replicate (count + 1) slash) = true := rfl
  have hholder : fs.holder (List.replicate (count + 1) slash) = none := by
    rw [FileSystem.holder, hnames]
    rfl
  have hmkdir : fs.mkdir (List.replicate (count + 1) slash) effectiveUid 0o700 made =
      (fs, .exists) := by
    rw [FileSystem.mkdir, hholder, hnames, habsolute]
    rfl
  have hlast : (List.replicate (count + 1) slash).getLast? = some slash := by
    rw [List.replicate_succ', List.getLast?_concat]
  have hfollow : fs.follow (List.replicate (count + 1) slash) = some fs.root := by
    rw [FileSystem.follow, if_neg (by simp), hnames, FileSystem.origin, if_pos habsolute]
    cases fs.maxLinks <;> rfl
  have hentry : fs.entry [slash] = some fs.root := rfl
  refine ⟨by rw [checkParent_fst, hmkdir], ?_⟩
  rw [checkParent_ok, hmkdir, FileSystem.lstat, if_pos hlast, hfollow, entryTrusted_iff, hentry]
  simp only [ne_eq, reduceCtorEq, not_false_eq_true, true_and, Option.bind_some]
  cases hdirectory : fs.isDirectory fs.root with
  | true => simp [Option.filter, hdirectory]
  | false =>
      have hnone : ¬ (fs.inodes fs.root).any (trusted effectiveUid) = true := by
        intro htrusted
        obtain ⟨status, hinode, htrue⟩ := (Option.any_eq_true _ _).mp htrusted
        rw [trusted_directory hinode htrue] at hdirectory
        cases hdirectory
      simp [Option.filter, hdirectory, hnone]

end Check

/-! ### Spellings of one path -/

/-- `socketPath` is `last` behind `base`, with `count` slashes more than one between them. -/
structure Spelling (socketPath base : List UInt8) (count : Nat) (last : List UInt8) : Prop where
  path_eq : socketPath = base ++ (List.replicate (count + 1) slash ++ last)
  base_end : base.getLast? ≠ some slash
  last_ne : last ≠ []
  last_plain : slash ∉ last

section Spellings

variable {effectiveUid count more : Nat} {fs : FileSystem} {made : Option Ino}
  {socketPath base last : List UInt8}

theorem exists_spelling (hslash : slash ∈ socketPath) (hlast : socketPath.getLast? ≠ some slash) :
    ∃ base count last, Spelling socketPath base count last := by
  obtain ⟨first, last, rfl, hplain⟩ := exists_last_slash hslash
  have htail : first.rtakeWhile (· == slash) =
      List.replicate (first.rtakeWhile (· == slash)).length slash := by
    apply List.eq_replicate_of_mem
    intro b hb
    have hslashes : (b == slash) = true := List.mem_rtakeWhile_imp (p := (· == slash)) hb
    exact beq_iff_eq.mp hslashes
  refine ⟨first.rdropWhile (· == slash), (first.rtakeWhile (· == slash)).length, last, ?_, ?_, ?_,
    hplain⟩
  · rw [List.replicate_succ', ← htail]
    simp only [← List.append_assoc, List.rdropWhile_append_rtakeWhile]
    rw [List.append_assoc, List.singleton_append]
  · intro hend
    have hne : first.rdropWhile (· == slash) ≠ [] := by
      intro hnil
      rw [hnil] at hend
      cases hend
    have hnot := List.rdropWhile_last_not (· == slash) first hne
    rw [List.getLast?_eq_some_getLast hne] at hend
    exact hnot (beq_iff_eq.mpr (Option.some_inj.mp hend))
  · rintro rfl
    rw [List.getLast?_append] at hlast
    exact hlast rfl

namespace Spelling

/-- With more slashes before the last name. -/
theorem respell (h : Spelling socketPath base count last) (more : Nat) :
    Spelling (base ++ (List.replicate (count + more + 1) slash ++ last)) base (count + more) last :=
  ⟨rfl, h.base_end, h.last_ne, h.last_plain⟩

theorem lastSlash (h : Spelling socketPath base count last) :
    strrchr slash socketPath = some (base ++ List.replicate count slash).length := by
  have hsplit : socketPath = (base ++ List.replicate count slash) ++ slash :: last := by
    rw [h.path_eq, List.replicate_succ']
    simp
  rw [hsplit]
  exact strrchr_append _ h.last_plain

theorem take_eq (h : Spelling socketPath base count last) :
    socketPath.take (base ++ List.replicate count slash).length =
      base ++ List.replicate count slash := by
  rw [h.path_eq, List.replicate_succ', List.append_assoc, ← List.append_assoc base]
  exact List.take_left

theorem parentPath (h : Spelling socketPath base count last)
    (hlength : socketPath.length < sizeofSunPath) :
    (base = [] ∧ ∃ n, parentPath socketPath = .ok (List.replicate (n + 1) slash)) ∨
      (base ≠ [] ∧ parentPath socketPath = .ok (base ++ List.replicate count slash)) := by
  have hlast := List.length_pos_iff.mpr h.last_ne
  have hsize : socketPath.length = (base ++ List.replicate count slash).length + 1 + last.length := by
    rw [h.path_eq]
    simp only [List.length_append, List.length_replicate]
    omega
  unfold Hyperglyph.parentPath
  rw [h.lastSlash]
  dsimp only
  rw [if_neg (by omega), h.take_eq]
  by_cases hbase : base = []
  · left
    refine ⟨hbase, ?_⟩
    rw [hbase, List.nil_append, List.length_replicate]
    cases count with
    | zero => exact ⟨0, rfl⟩
    | succ count =>
        refine ⟨count, ?_⟩
        rw [if_neg (Nat.succ_ne_zero count), if_neg]
        rw [hbase] at hsize
        simp only [List.nil_append, List.length_replicate] at hsize
        omega
  · right
    have hpos := List.length_pos_iff.mpr hbase
    refine ⟨hbase, ?_⟩
    rw [if_neg, if_neg]
    · omega
    · rw [List.length_append]
      omega

theorem parentEntry (h : Spelling socketPath base count last) :
    parentEntry socketPath = if base = [] then [slash] else base := by
  have hdrop : ∀ n, (base ++ List.replicate n slash).rdropWhile (· == slash) = base := by
    intro n
    induction n with
    | zero =>
        rw [List.replicate_zero, List.append_nil, List.rdropWhile_eq_self_iff]
        intro hne hend
        apply h.base_end
        rw [List.getLast?_eq_some_getLast hne, beq_iff_eq.mp hend]
    | succ n ih =>
        have hslash : (slash == slash) = true := beq_self_eq_true slash
        rw [List.replicate_succ', ← List.append_assoc,
          List.rdropWhile_concat_pos (· == slash) _ _ hslash, ih]
  unfold Hyperglyph.parentEntry
  rw [h.lastSlash]
  dsimp only
  rw [h.take_eq, hdrop]

/-- The decision: the entry is trusted, or slashes let a link through. -/
theorem prepared (effectiveUid : Nat) (fs : FileSystem) (made : Option Ino)
    (h : Spelling socketPath base count last)
    (hlength : socketPath.length < sizeofSunPath) (hbase : base ≠ []) :
    (brokerPrepareParentDirectory effectiveUid fs socketPath made).1 =
        (checkParent effectiveUid fs base made).1 ∧
      ((brokerPrepareParentDirectory effectiveUid fs socketPath made).2 = .ok () ↔
        EntryTrusted effectiveUid (checkParent effectiveUid fs base made).1 base ∨
          count ≠ 0 ∧ LeadsToTrusted effectiveUid fs base) := by
  obtain ⟨-, hparent⟩ := (h.parentPath hlength).resolve_left fun hroot => hbase hroot.1
  unfold brokerPrepareParentDirectory
  rw [hparent]
  dsimp only
  cases count with
  | zero =>
      rw [List.replicate_zero, List.append_nil]
      refine ⟨rfl, ?_⟩
      rw [checkParent_plain h.base_end]
      simp
  | succ count =>
      refine ⟨?_, ?_⟩
      · rw [checkParent_fst, checkParent_fst, FileSystem.mkdir_append_slashes hbase]
      · rw [checkParent_slashed hbase h.base_end]
        simp

theorem prepared_root (effectiveUid : Nat) (fs : FileSystem) (made : Option Ino)
    (h : Spelling socketPath [] count last)
    (hlength : socketPath.length < sizeofSunPath) :
    (brokerPrepareParentDirectory effectiveUid fs socketPath made).1 = fs ∧
      ((brokerPrepareParentDirectory effectiveUid fs socketPath made).2 = .ok () ↔
        EntryTrusted effectiveUid fs [slash]) := by
  obtain ⟨-, n, hparent⟩ := (h.parentPath hlength).resolve_right fun hother => hother.1 rfl
  unfold brokerPrepareParentDirectory
  rw [hparent]
  exact checkParent_root n

end Spelling

end Spellings

/-- What is asked of the check: the entry that holds the socket decides, slashes before the socket's
name do not matter, and the string fits its buffer. -/
structure ParentChecked (effectiveUid : Nat) (fs : FileSystem) (made : Option Ino)
    (socketPath : List UInt8) : Prop where
  decides : (brokerPrepareParentDirectory effectiveUid fs socketPath made).2 = .ok () ↔
    EntryTrusted effectiveUid (brokerPrepareParentDirectory effectiveUid fs socketPath made).1
      (parentEntry socketPath)
  respelled : ∀ {base count last}, Spelling socketPath base count last → ∀ more,
    (base ++ (List.replicate (count + more + 1) slash ++ last)).length < sizeofSunPath →
      ((brokerPrepareParentDirectory effectiveUid fs
          (base ++ (List.replicate (count + more + 1) slash ++ last)) made).2 = .ok () ↔
        (brokerPrepareParentDirectory effectiveUid fs socketPath made).2 = .ok ())
  fits : ∀ parent, parentPath socketPath = .ok parent → parent.length + 1 ≤ sizeofSunPath

/-- In the place of the directory stands a link to one that passes the test, and two slashes stand
before the socket's name or have room there. -/
def LinkFollowed (effectiveUid : Nat) (fs : FileSystem) (socketPath : List UInt8) : Prop :=
  ∃ base count last, Spelling socketPath base count last ∧ base ≠ [] ∧
    LeadsToTrusted effectiveUid fs base ∧
      (count ≠ 0 ∨ socketPath.length + 1 < sizeofSunPath)

section Decision

variable {effectiveUid : Nat} {fs : FileSystem} {made : Option Ino} {socketPath base : List UInt8}

theorem parentPath_fits {parent : List UInt8} (h : parentPath socketPath = .ok parent) :
    parent.length + 1 ≤ sizeofSunPath := by
  unfold parentPath at h
  split at h
  · cases h
    decide
  · split at h
    · cases h
    · split at h
      · cases h
        decide
      · split at h
        · cases h
        · next lastSlash _ _ _ hfits =>
            cases h
            have hlength := List.length_take_le lastSlash socketPath
            omega

/-- A link is not itself a directory. -/
theorem LeadsToTrusted.not_entryTrusted (made : Option Ino)
    (h : LeadsToTrusted effectiveUid fs base) :
    ¬ EntryTrusted effectiveUid (checkParent effectiveUid fs base made).1 base := by
  obtain ⟨i, j, status, hentry, hlink, -⟩ := h
  rw [checkParent_fst, FileSystem.mkdir_of_entry hentry]
  rintro ⟨i', status', hentry', hinode, htrusted⟩
  rw [hentry] at hentry'
  cases hentry'
  rw [FileSystem.isDirectory_target (trusted_directory hinode htrusted)] at hlink
  cases hlink

theorem not_parentChecked_of_linkFollowed (hlength : socketPath.length < sizeofSunPath)
    (h : LinkFollowed effectiveUid fs socketPath) :
    ¬ ParentChecked effectiveUid fs made socketPath := by
  obtain ⟨base, count, last, hspelling, hbase, hleads, hroom⟩ := h
  intro hchecked
  obtain ⟨hfst, hok⟩ := hspelling.prepared effectiveUid fs made hlength hbase
  have hrefused := hleads.not_entryTrusted made
  by_cases hcount : count = 0
  · have hsize : (base ++ (List.replicate (count + 1 + 1) slash ++ last)).length < sizeofSunPath := by
      have hroom' := hroom.resolve_left fun hne => hne hcount
      rw [hspelling.path_eq] at hroom'
      simp only [List.length_append, List.length_replicate] at hroom' ⊢
      omega
    obtain ⟨-, hok'⟩ := (hspelling.respell 1).prepared effectiveUid fs made hsize hbase
    have hlet := (hchecked.respelled hspelling 1 hsize).mp
      (hok'.mpr (.inr ⟨Nat.succ_ne_zero count, hleads⟩))
    rcases hok.mp hlet with htrusted | ⟨hne, -⟩
    · exact hrefused htrusted
    · exact hne hcount
  · have htrusted := hchecked.decides.mp (hok.mpr (.inr ⟨hcount, hleads⟩))
    rw [hfst, hspelling.parentEntry, if_neg hbase] at htrusted
    exact hrefused htrusted

theorem parentChecked_of_not_linkFollowed (hlength : socketPath.length < sizeofSunPath)
    (hlast : socketPath.getLast? ≠ some slash)
    (hnot : ¬ LinkFollowed effectiveUid fs socketPath) :
    ParentChecked effectiveUid fs made socketPath := by
  refine ⟨?_, ?_, fun parent => parentPath_fits⟩
  · by_cases hslash : slash ∈ socketPath
    · obtain ⟨base, count, last, hspelling⟩ := exists_spelling hslash hlast
      rw [hspelling.parentEntry]
      by_cases hbase : base = []
      · subst hbase
        obtain ⟨hfst, hok⟩ := hspelling.prepared_root effectiveUid fs made hlength
        rw [hfst, hok, if_pos rfl]
      · obtain ⟨hfst, hok⟩ := hspelling.prepared effectiveUid fs made hlength hbase
        rw [hfst, hok, if_neg hbase]
        refine or_iff_left ?_
        rintro ⟨hcount, hleads⟩
        exact hnot ⟨base, count, last, hspelling, hbase, hleads, .inl hcount⟩
    · have hparent : parentPath socketPath = .ok dot := by
        rw [parentPath, strrchr_eq_none.mpr hslash]
      have hentry : parentEntry socketPath = dot := by
        rw [parentEntry, strrchr_eq_none.mpr hslash]
      unfold brokerPrepareParentDirectory
      rw [hparent, hentry]
      exact checkParent_plain (by decide)
  · intro base count last hspelling more hsize
    by_cases hbase : base = []
    · subst hbase
      rw [(hspelling.prepared_root effectiveUid fs made hlength).2,
        ((hspelling.respell more).prepared_root effectiveUid fs made hsize).2]
    · rw [(hspelling.prepared effectiveUid fs made hlength hbase).2,
        ((hspelling.respell more).prepared effectiveUid fs made hsize hbase).2]
      refine or_congr_right (and_congr_left ?_)
      intro hleads
      -- a link there leaves no second slash and no room for one
      have hplain : ¬ (count ≠ 0 ∨ socketPath.length + 1 < sizeofSunPath) :=
        fun hroom => hnot ⟨base, count, last, hspelling, hbase, hleads, hroom⟩
      have hgrown : more = 0 := by
        rw [hspelling.path_eq] at hplain
        simp only [List.length_append, List.length_replicate] at hplain hsize
        omega
      rw [hgrown, Nat.add_zero]

/-- The check is what is asked of it, unless a link is followed. -/
theorem parent_checked_iff (hlength : socketPath.length < sizeofSunPath)
    (hlast : socketPath.getLast? ≠ some slash) :
    ParentChecked effectiveUid fs made socketPath ↔ ¬ LinkFollowed effectiveUid fs socketPath := by
  constructor
  · exact fun hchecked hfollowed => not_parentChecked_of_linkFollowed hlength hfollowed hchecked
  · exact parentChecked_of_not_linkFollowed hlength hlast

end Decision

/-! ### A link to a private directory -/

/-- The root holds the private directory `d` of user 1000 and a link `l` to it. -/
def linkedFiles : FileSystem where
  inodes
    | 0 => some ⟨0, 0o755, .directory true 0 fun name =>
        if name = ascii "d" then some 1 else if name = ascii "l" then some 2 else none⟩
    | 1 => some ⟨1000, 0o700, .directory true 0 fun _ => none⟩
    | 2 => some ⟨1000, 0o777, .symlink (ascii "/d")⟩
    | _ => none
  root := 0
  cwd := 0
  maxLinks := 40

theorem parent_checked_linked : ParentChecked 1000 linkedFiles none (ascii "/d/s") := by
  refine (parent_checked_iff (by decide) (by decide)).mpr ?_
  rintro ⟨base, count, last, hspelling, hbase, ⟨i, j, status, hentry, hlink, -⟩, -⟩
  have hdirectory : base = ascii "/d" := by
    have hparent := hspelling.parentEntry
    rw [if_neg hbase] at hparent
    rw [← hparent]
    decide
  subst hdirectory
  have hplain : linkedFiles.entry (ascii "/d") = some 1 := by decide
  rw [hplain] at hentry
  cases hentry
  cases hlink

theorem doubled_slash_follows_link :
    (brokerPrepareParentDirectory 1000 linkedFiles (ascii "/l/s") none).2 = .error .notPermitted ∧
      (brokerPrepareParentDirectory 1000 linkedFiles (ascii "/l//s") none).2 = .ok () ∧
        ¬ ParentChecked 1000 linkedFiles none (ascii "/l//s") := by
  have hspelling : Spelling (ascii "/l//s") (ascii "/l") 1 (ascii "s") :=
    ⟨by decide, by decide, by decide, by decide⟩
  have hleads : LeadsToTrusted 1000 linkedFiles (ascii "/l") :=
    ⟨2, 1, _, by decide, by decide, by decide, rfl, by decide⟩
  refine ⟨by decide, by decide, ?_⟩
  exact not_parentChecked_of_linkFollowed (by decide)
    ⟨_, _, _, hspelling, by decide, hleads, .inl (by decide)⟩

/-! ### The listener -/

section Listener

variable {effectiveUid : Nat} {fs : FileSystem} {made : Option Ino} {socketPath : List UInt8}
  {s : Startup} {a : ListenerAnswers}

theorem createListener_prepared (h : 0 ≤ (brokerCreateListener effectiveUid socketPath s a).2) :
    socketPath.length < sizeofSunPath ∧ a.parentPrepared = true := by
  have hfails : ∀ {s' : Startup}, ¬ 0 ≤ (s', (-1 : Fd)).2 := by
    intro s'
    show ¬ (0 : Int) ≤ -1
    decide
  unfold brokerCreateListener at h
  split at h
  · exact absurd h hfails
  · next hsize =>
      refine ⟨Nat.lt_of_not_le fun hlarge => hsize (.inr hlarge), ?_⟩
      dsimp only at h
      split at h
      · exact absurd h hfails
      · split at h
        · exact absurd h hfails
        · next hprepared => simpa using hprepared

/-- A broker listens in a directory that passed the test, or behind a link to one. -/
theorem listener_parent_trusted
    (hprepared : a.parentPrepared = true →
      (brokerPrepareParentDirectory effectiveUid fs socketPath made).2 = .ok ())
    (hlistens : 0 ≤ (brokerCreateListener effectiveUid socketPath s a).2) :
    EntryTrusted effectiveUid (brokerPrepareParentDirectory effectiveUid fs socketPath made).1
        (parentEntry socketPath) ∨
      LinkFollowed effectiveUid fs socketPath := by
  obtain ⟨hlength, htrue⟩ := createListener_prepared hlistens
  have hok := hprepared htrue
  have hlast : socketPath.getLast? ≠ some slash := by
    intro hend
    obtain ⟨first, rfl⟩ := List.getLast?_eq_some_iff.mp hend
    have hinvalid : parentPath (first ++ [slash]) = .error .invalid := by
      rw [parentPath, strrchr_append first (List.not_mem_nil), List.length_append]
      exact if_pos rfl
    rw [brokerPrepareParentDirectory, hinvalid] at hok
    cases hok
  by_cases hfollowed : LinkFollowed effectiveUid fs socketPath
  · exact .inr hfollowed
  · exact .inl ((parentChecked_of_not_linkFollowed hlength hlast hfollowed).decides.mp hok)

end Listener

end Hyperglyph
