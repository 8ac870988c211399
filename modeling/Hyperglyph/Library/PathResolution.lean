import Mathlib.Data.List.DropRight
import Mathlib.Logic.Function.Basic

/-! Path names and what they lead to in a file system with symbolic links, as POSIX has it: how
many slashes stand between two names does not matter, and a slash behind the last name makes a link
there be followed. -/
namespace PathResolution

abbrev Name := List UInt8
abbrev Ino := Nat

def slash : UInt8 := 47
def dot : Name := [46]
def dotDot : Name := [46, 46]

/-- What a file is. The target of a symbolic link is never empty. -/
inductive Kind
  | directory (searchable : Bool) (parent : Ino) (entries : Name → Option Ino)
  | symlink (target : List UInt8)
  | other

structure Inode where
  uid : Nat
  /-- The permission bits. -/
  mode : Nat
  kind : Kind

/-- The files as one process finds them. -/
structure FileSystem where
  inodes : Ino → Option Inode
  root : Ino
  cwd : Ino
  /-- How many links are followed for one path. -/
  maxLinks : Nat

def names (path : List UInt8) : List Name := (path.splitOn slash).filter fun name => !name.isEmpty

def absolute (path : List UInt8) : Bool := path.head? == some slash

/-- How far a directory can be walked from without following a link. -/
inductive Walk
  | arrived (i : Ino)
  | missing
  | link (dir : Ino) (target : List UInt8) (rest : List Name)

namespace FileSystem

/-- Where a path begins that is met in the directory `dir`. -/
def origin (fs : FileSystem) (dir : Ino) (path : List UInt8) : Ino :=
  if absolute path then fs.root else dir

def isDirectory (fs : FileSystem) (i : Ino) : Bool :=
  match fs.inodes i with
  | some ⟨_, _, .directory _ _ _⟩ => true
  | _ => false

def target? (fs : FileSystem) (i : Ino) : Option (List UInt8) :=
  match fs.inodes i with
  | some ⟨_, _, .symlink target⟩ => some target
  | _ => none

def lookup (fs : FileSystem) (dir : Ino) (name : Name) : Option Ino :=
  match fs.inodes dir with
  | some ⟨_, _, .directory true parent entries⟩ =>
      (if name = dot then some dir else if name = dotDot then some parent else entries name).filter
        fun i => (fs.inodes i).isSome
  | _ => none

def advance (fs : FileSystem) : Ino → List Name → Walk
  | dir, [] => .arrived dir
  | dir, name :: rest =>
      match fs.lookup dir name with
      | none => .missing
      | some i =>
          match fs.target? i with
          | some target => .link dir target rest
          | none => fs.advance i rest

/-- The file some names lead to, when `links` more links may be followed. -/
def resolve (fs : FileSystem) : Nat → Ino → List Name → Option Ino
  | 0, dir, path =>
      match fs.advance dir path with
      | .arrived i => some i
      | _ => none
  | links + 1, dir, path =>
      match fs.advance dir path with
      | .arrived i => some i
      | .missing => none
      | .link dir target rest => fs.resolve links (fs.origin dir target) (names target ++ rest)

/-- The directory that holds the last name of a path, with that name. -/
def holder (fs : FileSystem) (path : List UInt8) : Option (Ino × Name) :=
  (names path).getLast?.bind fun last =>
    (fs.resolve fs.maxLinks (fs.origin fs.cwd path) (names path).dropLast).map fun dir => (dir, last)

/-- The file at a path, not followed when it is a link. -/
def entry (fs : FileSystem) (path : List UInt8) : Option Ino :=
  match fs.holder path with
  | some (dir, last) => fs.lookup dir last
  | none => if names path = [] ∧ absolute path then some fs.root else none

/-- The file at a path, followed when it is a link. -/
def follow (fs : FileSystem) (path : List UInt8) : Option Ino :=
  if path = [] then none else fs.resolve fs.maxLinks (fs.origin fs.cwd path) (names path)

/-- `lstat`. -/
def lstat (fs : FileSystem) (path : List UInt8) : Option Inode :=
  (if path.getLast? = some slash then (fs.follow path).filter fs.isDirectory else fs.entry path).bind
    fs.inodes

inductive MkdirResult
  | made | exists | failed
  deriving DecidableEq

/-- A new empty directory `i` with the name `last` in the directory `dir`. -/
def withDirectory (fs : FileSystem) (dir : Ino) (last : Name) (i : Ino) (uid mode : Nat) : FileSystem :=
  match fs.inodes dir with
  | some ⟨dirUid, dirMode, .directory searchable parent entries⟩ =>
      let dirInode : Inode :=
        ⟨dirUid, dirMode, .directory searchable parent (Function.update entries last (some i))⟩
      let inode : Inode := ⟨uid, mode, .directory true dir fun _ => none⟩
      { fs with inodes := Function.update (Function.update fs.inodes dir (some dirInode)) i (some inode) }
  | _ => fs

/-- `mkdir`. An existing entry is reported as such, also when it is a link; where there is none, it
depends on the kernel. -/
def mkdir (fs : FileSystem) (path : List UInt8) (uid mode : Nat) (made : Option Ino) :
    FileSystem × MkdirResult :=
  match fs.holder path with
  | some (dir, last) =>
      match fs.inodes dir with
      | some ⟨_, _, .directory true _ _⟩ =>
          if last = dot ∨ last = dotDot ∨ (fs.lookup dir last).isSome then (fs, .exists)
          else
            match made with
            | some i =>
                if (fs.inodes i).isNone then (fs.withDirectory dir last i uid mode, .made)
                else (fs, .failed)
            | none => (fs, .failed)
      | _ => (fs, .failed)
  | none => (fs, if names path = [] ∧ absolute path then .exists else .failed)

end FileSystem

/-! ### Slashes -/

section Slashes

variable {path first last : List UInt8} {count : Nat}

theorem names_append (first last : List UInt8) :
    names (first ++ slash :: last) = names first ++ names last := by
  unfold names
  rw [List.splitOn_append_cons_self, List.filter_append]

theorem names_slashes (count : Nat) : names (List.replicate count slash) = [] := by
  induction count with
  | zero => decide
  | succ count ih =>
      rw [List.replicate_succ, ← List.nil_append (slash :: _), names_append, ih]
      decide

theorem names_append_slashes (path : List UInt8) (count : Nat) :
    names (path ++ List.replicate count slash) = names path := by
  cases count with
  | zero => rw [List.replicate_zero, List.append_nil]
  | succ count =>
      rw [List.replicate_succ, names_append, names_slashes, List.append_nil]

theorem absolute_append (hpath : path ≠ []) (more : List UInt8) :
    absolute (path ++ more) = absolute path := by
  obtain ⟨b, rest, rfl⟩ := List.exists_cons_of_ne_nil hpath
  rfl

theorem names_of_not_mem (hpath : path ≠ []) (hslash : slash ∉ path) : names path = [path] := by
  unfold names
  rw [List.splitOn_eq_singleton hslash]
  simp [hpath]

/-- The text around the last slash. -/
theorem exists_last_slash (h : slash ∈ path) :
    ∃ first last, path = first ++ slash :: last ∧ slash ∉ last := by
  obtain ⟨before, after, hsplit, hnone⟩ := List.eq_append_cons_of_mem (List.mem_reverse.mpr h)
  refine ⟨after.reverse, before.reverse, ?_, by rwa [List.mem_reverse]⟩
  rw [← List.reverse_reverse path, hsplit]
  simp

theorem names_ne_nil (hpath : path ≠ []) (hlast : path.getLast? ≠ some slash) : names path ≠ [] := by
  by_cases hslash : slash ∈ path
  · obtain ⟨first, last, rfl, hnone⟩ := exists_last_slash hslash
    have hne : last ≠ [] := by
      rintro rfl
      rw [List.getLast?_append] at hlast
      exact hlast rfl
    rw [names_append, names_of_not_mem hne hnone]
    simp
  · rw [names_of_not_mem hpath hslash]
    exact List.cons_ne_nil _ _

end Slashes

/-! ### Resolution -/

namespace FileSystem

variable {fs fs' : FileSystem} {dir i j : Ino} {path more : List Name} {name : Name} {links : Nat}

theorem advance_append (fs : FileSystem) (dir : Ino) (path more : List Name) :
    fs.advance dir (path ++ more) =
      match fs.advance dir path with
      | .arrived i => fs.advance i more
      | .missing => .missing
      | .link dir target rest => .link dir target (rest ++ more) := by
  induction path generalizing dir with
  | nil => rfl
  | cons name path ih =>
      simp only [List.cons_append, advance]
      cases fs.lookup dir name with
      | none => rfl
      | some i =>
          dsimp only
          cases fs.target? i with
          | none => exact ih i
          | some target => rfl

/-- How some names lead to the file `i`: without meeting a link, or by following the first one. -/
inductive Resolves (fs : FileSystem) (i : Ino) : Nat → Ino → List Name → Prop
  | arrived {links : Nat} {dir : Ino} {path : List Name} :
      fs.advance dir path = .arrived i → Resolves fs i links dir path
  | link {links : Nat} {dir dir' : Ino} {path rest : List Name} {target : List UInt8} :
      fs.advance dir path = .link dir' target rest →
      Resolves fs i links (fs.origin dir' target) (names target ++ rest) →
      Resolves fs i (links + 1) dir path

theorem resolve_eq_some : fs.resolve links dir path = some i ↔ Resolves fs i links dir path := by
  constructor
  · intro h
    induction links generalizing dir path with
    | zero =>
        simp only [resolve] at h
        split at h
        · next hwalk =>
            cases h
            exact .arrived hwalk
        · cases h
    | succ links ih =>
        simp only [resolve] at h
        split at h
        · next hwalk =>
            cases h
            exact .arrived hwalk
        · cases h
        · next hwalk => exact .link hwalk (ih h)
  · intro h
    induction h with
    | @arrived links _ _ hwalk => cases links <;> simp only [resolve, hwalk]
    | link hwalk _ ih =>
        simp only [resolve, hwalk]
        exact ih

/-- One more name, which is not that of a link. -/
theorem resolve_concat (h : fs.resolve links dir path = some i) (hname : fs.lookup i name = some j)
    (hlink : fs.target? j = none) : fs.resolve links dir (path ++ [name]) = some j := by
  rw [resolve_eq_some] at h ⊢
  induction h with
  | arrived hwalk =>
      apply Resolves.arrived
      rw [advance_append, hwalk]
      simp only [advance, hname, hlink]
  | @link links dir dir' path rest target hwalk _ ih =>
      have hwalk' : fs.advance dir (path ++ [name]) = .link dir' target (rest ++ [name]) := by
        rw [advance_append, hwalk]
      apply Resolves.link hwalk'
      rw [← List.append_assoc]
      exact ih

theorem lookup_of_advance {w : Walk} (h : fs.advance dir [name] = w) (hfound : w ≠ .missing) :
    ∃ i, fs.lookup dir name = some i ∧ (fs.target? i = none → w = .arrived i) := by
  simp only [advance] at h
  cases hname : fs.lookup dir name with
  | none =>
      rw [hname] at h
      exact absurd h.symm hfound
  | some i =>
      refine ⟨i, rfl, ?_⟩
      intro hlink
      rw [hname] at h
      simp only [hlink] at h
      exact h.symm

/-- What a path leads to is found under its last name, or through the link that is there. -/
theorem lookup_of_resolve_concat (h : fs.resolve links dir (path ++ [name]) = some j) :
    ∃ k i, fs.resolve links dir path = some k ∧ fs.lookup k name = some i ∧
      (fs.target? i = none → i = j) := by
  simp only [resolve_eq_some] at h ⊢
  generalize hpath : path ++ [name] = full at h
  induction h generalizing path with
  | @arrived links dir _ hwalk =>
      rw [← hpath, advance_append] at hwalk
      cases hbefore : fs.advance dir path with
      | arrived k =>
          rw [hbefore] at hwalk
          obtain ⟨i, hname, harrived⟩ := lookup_of_advance hwalk Walk.noConfusion
          refine ⟨k, i, .arrived hbefore, hname, ?_⟩
          intro hlink
          exact (Walk.arrived.inj (harrived hlink)).symm
      | missing | link dir target rest =>
          rw [hbefore] at hwalk
          cases hwalk
  | @link links dir dir' _ rest target hwalk _ ih =>
      rw [← hpath, advance_append] at hwalk
      cases hbefore : fs.advance dir path with
      | arrived k =>
          rw [hbefore] at hwalk
          obtain ⟨i, hname, harrived⟩ := lookup_of_advance hwalk Walk.noConfusion
          refine ⟨k, i, .arrived hbefore, hname, ?_⟩
          intro hlink
          cases harrived hlink
      | missing =>
          rw [hbefore] at hwalk
          cases hwalk
      | link dir₁ target₁ before =>
          rw [hbefore] at hwalk
          cases hwalk
          obtain ⟨k, i, hresolves, hname, hsame⟩ := ih (List.append_assoc _ _ _)
          exact ⟨k, i, .link hbefore hresolves, hname, hsame⟩

section Paths

variable {path path' base : List UInt8} {last : Name} {count : Nat}

theorem holder_eq_some (h : names path ≠ []) : fs.holder path =
    (fs.resolve fs.maxLinks (fs.origin fs.cwd path) (names path).dropLast).map
      fun dir => (dir, (names path).getLast h) := by
  rw [holder, List.getLast?_eq_some_getLast h, Option.bind_some]

/-- What is not a link is not followed. -/
theorem follow_of_entry (hpath : path ≠ []) (h : fs.entry path = some i)
    (hlink : fs.target? i = none) : fs.follow path = some i := by
  rw [follow, if_neg hpath]
  by_cases hnames : names path = []
  · have hroot : fs.holder path = none := by rw [holder, hnames]; rfl
    rw [entry, hroot] at h
    dsimp only at h
    split at h
    · next habsolute =>
        cases h
        rw [hnames, origin, if_pos habsolute.2]
        cases fs.maxLinks <;> rfl
    · cases h
  · rw [entry, holder_eq_some hnames] at h
    cases hdir : fs.resolve fs.maxLinks (fs.origin fs.cwd path) (names path).dropLast with
    | none =>
        rw [hdir, Option.map_none] at h
        simp [hnames] at h
    | some dir =>
        rw [hdir, Option.map_some] at h
        have hconcat := resolve_concat hdir h hlink
        rwa [List.dropLast_append_getLast hnames] at hconcat

/-- A path that leads somewhere has an entry; it leads elsewhere only through a link. -/
theorem entry_of_follow (hnames : names path ≠ []) (h : fs.follow path = some j) :
    ∃ i, fs.entry path = some i ∧ (fs.target? i = none → i = j) := by
  have hpath : path ≠ [] := by
    rintro rfl
    exact hnames (by decide)
  rw [follow, if_neg hpath, ← List.dropLast_append_getLast hnames] at h
  obtain ⟨dir, i, hdir, hname, hsame⟩ := lookup_of_resolve_concat h
  refine ⟨i, ?_, hsame⟩
  rw [entry, holder_eq_some hnames, hdir, Option.map_some]
  exact hname

theorem follow_append_slashes (hpath : path ≠ []) (count : Nat) :
    fs.follow (path ++ List.replicate count slash) = fs.follow path := by
  have hne : path ++ List.replicate count slash ≠ [] := List.append_ne_nil_of_left_ne_nil hpath _
  simp only [follow, if_neg hpath, if_neg hne, origin, names_append_slashes, absolute_append hpath]

theorem mkdir_append_slashes (hpath : path ≠ []) (count uid mode : Nat) (made : Option Ino) :
    fs.mkdir (path ++ List.replicate count slash) uid mode made = fs.mkdir path uid mode made := by
  simp only [mkdir, holder, origin, names_append_slashes, absolute_append hpath]

theorem isDirectory_target (h : fs.isDirectory i = true) : fs.target? i = none := by
  unfold isDirectory at h
  unfold target?
  split at h
  · next hinode => rw [hinode]
  · cases h

/-- Without a slash behind it, a path is looked at as it is. -/
theorem lstat_of_entry (hlast : path.getLast? ≠ some slash) :
    fs.lstat path = (fs.entry path).bind fs.inodes := by
  rw [lstat, if_neg hlast]

/-- With slashes behind it, a link is followed, and nothing but a directory is found. -/
theorem lstat_append_slashes (hpath : path ≠ []) (count : Nat) :
    fs.lstat (path ++ List.replicate (count + 1) slash) =
      ((fs.follow path).filter fs.isDirectory).bind fs.inodes := by
  have hlast : (path ++ List.replicate (count + 1) slash).getLast? = some slash := by
    rw [List.replicate_succ', ← List.append_assoc, List.getLast?_concat]
  rw [lstat, if_pos hlast, follow_append_slashes hpath]

end Paths

/-! ### `mkdir` -/

/-- Everything found in `fs` is found in `fs'`, and is the same kind of link or none. -/
structure Grown (fs fs' : FileSystem) : Prop where
  root : fs'.root = fs.root
  cwd : fs'.cwd = fs.cwd
  maxLinks : fs'.maxLinks = fs.maxLinks
  lookup : ∀ {dir name i}, fs.lookup dir name = some i →
    fs'.lookup dir name = some i ∧ fs'.target? i = fs.target? i

theorem Grown.origin (h : Grown fs fs') (dir : Ino) (path : List UInt8) :
    fs'.origin dir path = fs.origin dir path := by
  rw [FileSystem.origin, FileSystem.origin, h.root]

theorem Grown.advance {w : Walk} (h : Grown fs fs') (hwalk : fs.advance dir path = w)
    (hfound : w ≠ .missing) : fs'.advance dir path = w := by
  induction path generalizing dir with
  | nil => exact hwalk
  | cons name path ih =>
      simp only [FileSystem.advance] at hwalk ⊢
      cases hname : fs.lookup dir name with
      | none =>
          rw [hname] at hwalk
          exact absurd hwalk.symm hfound
      | some i =>
          obtain ⟨hname', htarget⟩ := h.lookup hname
          rw [hname] at hwalk
          rw [hname']
          dsimp only at hwalk ⊢
          rw [htarget]
          cases hlink : fs.target? i with
          | some target =>
              rw [hlink] at hwalk
              exact hwalk
          | none =>
              rw [hlink] at hwalk
              exact ih hwalk

theorem Grown.resolve (h : Grown fs fs') (hfound : fs.resolve links dir path = some i) :
    fs'.resolve links dir path = some i := by
  rw [resolve_eq_some] at hfound ⊢
  induction hfound with
  | arrived hwalk => exact .arrived (h.advance hwalk Walk.noConfusion)
  | link hwalk _ ih =>
      rw [← h.origin] at ih
      exact .link (h.advance hwalk Walk.noConfusion) ih

theorem lookup_eq_some : fs.lookup dir name = some i ↔ ∃ uid mode parent entries,
    fs.inodes dir = some ⟨uid, mode, .directory true parent entries⟩ ∧
      (if name = dot then some dir else if name = dotDot then some parent else entries name) = some i ∧
        (fs.inodes i).isSome = true := by
  constructor
  · intro h
    unfold lookup at h
    split at h
    · next uid mode parent entries hdir =>
        obtain ⟨hname, hsome⟩ := Option.filter_eq_some_iff.mp h
        exact ⟨uid, mode, parent, entries, hdir, hname, hsome⟩
    · cases h
  · rintro ⟨uid, mode, parent, entries, hdir, hname, hsome⟩
    simp only [lookup, hdir]
    exact Option.filter_eq_some_iff.mpr ⟨hname, hsome⟩

section Mkdir

variable {uid mode dirUid dirMode : Nat} {parent : Ino} {entries : Name → Option Ino} {last : Name}
  (hdir : fs.inodes dir = some ⟨dirUid, dirMode, .directory true parent entries⟩)
  (hfree : fs.inodes i = none)

include hdir

variable (uid mode last) in
theorem inodes_withDirectory : (fs.withDirectory dir last i uid mode).inodes =
    Function.update (Function.update fs.inodes dir
      (some ⟨dirUid, dirMode, .directory true parent (Function.update entries last (some i))⟩)) i
      (some ⟨uid, mode, .directory true dir fun _ => none⟩) := by
  unfold withDirectory
  rw [hdir]

include hfree

theorem ne_of_free : dir ≠ i := by
  rintro rfl
  rw [hdir] at hfree
  cases hfree

variable (uid mode) in
/-- Making a directory takes nothing away. -/
theorem grown_withDirectory (hnone : fs.lookup dir last = none) :
    Grown fs (fs.withDirectory dir last i uid mode) := by
  have hne := ne_of_free hdir hfree
  have hinodes := inodes_withDirectory (i := i) uid mode last hdir
  have hsame : ∀ {j}, j ≠ i → j ≠ dir →
      (fs.withDirectory dir last i uid mode).inodes j = fs.inodes j := by
    intro j hi hd
    rw [hinodes, Function.update_of_ne hi, Function.update_of_ne hd]
  have hat : (fs.withDirectory dir last i uid mode).inodes dir =
      some ⟨dirUid, dirMode, .directory true parent (Function.update entries last (some i))⟩ := by
    rw [hinodes, Function.update_of_ne hne, Function.update_self]
  refine ⟨?_, ?_, ?_, ?_⟩
  · simp only [withDirectory, hdir]
  · simp only [withDirectory, hdir]
  · simp only [withDirectory, hdir]
  · intro d name j hfound
    obtain ⟨uid', mode', parent', entries', hd, hname, hsome⟩ := lookup_eq_some.mp hfound
    have hdi := ne_of_free hd hfree
    have hji : j ≠ i := by
      rintro rfl
      rw [hfree] at hsome
      cases hsome
    have hsome' : ((fs.withDirectory dir last i uid mode).inodes j).isSome = true := by
      by_cases hjd : j = dir
      · rw [hjd, hat]
        rfl
      · rw [hsame hji hjd]
        exact hsome
    refine ⟨lookup_eq_some.mpr ?_, ?_⟩
    · by_cases heq : d = dir
      · subst heq
        rw [hdir] at hd
        cases hd
        refine ⟨_, _, _, _, hat, ?_, hsome'⟩
        have hother : name ≠ last := by
          rintro rfl
          rw [hfound] at hnone
          cases hnone
        rw [Function.update_of_ne hother]
        exact hname
      · refine ⟨uid', mode', parent', entries', ?_, hname, hsome'⟩
        rw [hsame hdi heq]
        exact hd
    · by_cases hjd : j = dir
      · unfold target?
        rw [hjd, hat, hdir]
      · unfold target?
        rw [hsame hji hjd]

theorem lookup_withDirectory (hdot : last ≠ dot) (hdots : last ≠ dotDot) :
    (fs.withDirectory dir last i uid mode).lookup dir last = some i := by
  have hne := ne_of_free hdir hfree
  have hinodes := inodes_withDirectory (i := i) uid mode last hdir
  apply lookup_eq_some.mpr
  refine ⟨dirUid, dirMode, parent, Function.update entries last (some i), ?_, ?_, ?_⟩
  · rw [hinodes, Function.update_of_ne hne, Function.update_self]
  · rw [if_neg hdot, if_neg hdots, Function.update_self]
  · rw [hinodes, Function.update_self]
    rfl

end Mkdir

/-- Everything `mkdir` can come to. -/
inductive Mkdir (fs : FileSystem) (path : List UInt8) (uid mode : Nat) :
    FileSystem × MkdirResult → Prop
  | exists : Mkdir fs path uid mode (fs, .exists)
  | failed : fs.entry path = none → Mkdir fs path uid mode (fs, .failed)
  | made {fs' : FileSystem} {i parent : Ino} : fs.entry path = none → fs'.entry path = some i →
      fs'.inodes i = some ⟨uid, mode, .directory true parent fun _ => none⟩ →
      Mkdir fs path uid mode (fs', .made)

theorem mkdir_spec (fs : FileSystem) (path : List UInt8) (uid mode : Nat) (made : Option Ino) :
    Mkdir fs path uid mode (fs.mkdir path uid mode made) := by
  unfold mkdir
  split
  · next dir last hholder =>
      have hentry : fs.entry path = fs.lookup dir last := by rw [entry, hholder]
      split
      · next dirUid dirMode parent entries hdir =>
          split
          · exact .exists
          · next hnew =>
              simp only [not_or, Option.not_isSome_iff_eq_none] at hnew
              obtain ⟨hdot, hdots, hnone⟩ := hnew
              split
              · next i =>
                  split
                  · next hfree =>
                      rw [Option.isNone_iff_eq_none] at hfree
                      have hgrown := grown_withDirectory uid mode hdir hfree hnone
                      refine @Mkdir.made fs path uid mode _ i dir (hentry.trans hnone) ?_ ?_
                      · have hholder' : (fs.withDirectory dir last i uid mode).holder path =
                            some (dir, last) := by
                          unfold holder at hholder ⊢
                          obtain ⟨name, hname, hrest⟩ := Option.bind_eq_some_iff.mp hholder
                          obtain ⟨d, hd, hpair⟩ := Option.map_eq_some_iff.mp hrest
                          rw [hname, Option.bind_some, hgrown.maxLinks, hgrown.origin, hgrown.cwd,
                            hgrown.resolve hd, Option.map_some, hpair]
                        rw [entry, hholder']
                        exact lookup_withDirectory hdir hfree hdot hdots
                      · rw [inodes_withDirectory _ _ _ hdir, Function.update_self]
                  · exact .failed (hentry.trans hnone)
              · exact .failed (hentry.trans hnone)
      · next hother =>
          refine .failed (hentry.trans ?_)
          cases hlookup : fs.lookup dir last with
          | none => rfl
          | some i =>
              obtain ⟨uid', mode', parent, entries, hdir, -⟩ := lookup_eq_some.mp hlookup
              exact absurd hdir (hother uid' mode' parent entries)
  · next hholder =>
      split
      · exact .exists
      · next hroot =>
          refine .failed ?_
          rw [entry, hholder]
          exact if_neg hroot

/-- An entry that exists is reported and left alone. -/
theorem mkdir_of_entry {path : List UInt8} {uid mode : Nat} {made : Option Ino}
    (h : fs.entry path = some i) : fs.mkdir path uid mode made = (fs, .exists) := by
  cases hmkdir : fs.mkdir path uid mode made with
  | mk fs' result =>
      have hspec := fs.mkdir_spec path uid mode made
      rw [hmkdir] at hspec
      cases hspec with
      | «exists» => rfl
      | failed hnone | made hnone =>
          rw [h] at hnone
          cases hnone

end FileSystem

end PathResolution
