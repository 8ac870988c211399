import Hyperglyph.Broker.MainLoop
import Hyperglyph.Library.Strtoul

/-! The command line of the broker: `ahe_broker_parse_max_clients` and the argument loop of `main`,
against the grammar its usage text gives. -/
namespace Hyperglyph

open Strtoul

/-- `ahe_broker_parse_max_clients`; `none` is the failing return. -/
def brokerParseMaxClients (value : List UInt8) : Option Nat :=
  let parsed := strtoul ulongMax value
  if parsed.outOfRange ∨ parsed.rest ≠ [] ∨ parsed.value = 0 then none else some parsed.value

/-- The argument loop, with `socket_path` and `max_clients` as they are at its head; `none` is the
return after the usage text. -/
def argumentLoop (argv : List (List UInt8)) (i : Nat) (socketPath : Option (List UInt8))
    (maxClients : Nat) : Option (Option (List UInt8) × Nat) :=
  if i < argv.length then
    if argv[i]? = some (ascii "--socket") ∧ i + 1 < argv.length then
      argumentLoop argv (i + 2) argv[i + 1]? maxClients
    else if argv[i]? = some (ascii "--max-clients") ∧ i + 1 < argv.length then
      match argv[i + 1]?.bind brokerParseMaxClients with
      | some parsed => argumentLoop argv (i + 2) socketPath parsed
      | none => none
    else none
  else some (socketPath, maxClients)
termination_by argv.length - i

/-- What `main` goes on to: the usage text and failure, or the listener. -/
inductive Invocation
  | usage
  | listen (socketPath : List UInt8) (maxClients : Nat)
  deriving DecidableEq

def mainArguments (argv : List (List UInt8)) : Invocation :=
  match argumentLoop argv 1 none 0 with
  | some (some socketPath, maxClients) => .listen socketPath maxClients
  | _ => .usage

/-! ### The grammar -/

/-- An option with its value. -/
inductive Setting
  | socket (path : List UInt8)
  | maxClients (count : List UInt8)
  deriving DecidableEq

namespace Setting

def words : Setting → List (List UInt8)
  | .socket path => [ascii "--socket", path]
  | .maxClients count => [ascii "--max-clients", count]

def path? : Setting → Option (List UInt8)
  | .socket path => some path
  | .maxClients _ => none

def count? : Setting → Option (List UInt8)
  | .socket _ => none
  | .maxClients count => some count

end Setting

def spell (settings : List Setting) : List (List UInt8) := settings.flatMap Setting.words
def paths (settings : List Setting) : List (List UInt8) := settings.filterMap Setting.path?
def counts (settings : List Setting) : List (List UInt8) := settings.filterMap Setting.count?

/-- A `COUNT`: digits whose value lies in `1, ..., ULONG_MAX`. -/
structure IsCount (count : List UInt8) : Prop where
  nonempty : count ≠ []
  digits : ∀ b ∈ count, isDigit b = true
  positive : 1 ≤ decimal count
  fits : decimal count ≤ ulongMax

/-- A command line of the usage text, with at least one `--socket`. -/
structure Usable (settings : List Setting) : Prop where
  socket : paths settings ≠ []
  count : ∀ count ∈ counts settings, IsCount count

/-! ### Counts -/

section Counts

variable {count blanks digits : List UInt8} {sign : Sign} {n : Nat}

theorem IsCount.spelled (h : IsCount count) : Spelled count [] .none count :=
  ⟨rfl, by simp, h.nonempty, h.digits⟩

/-- A count with white space or a sign before it is read as well. -/
theorem parse_of_spelled (h : Spelled count blanks sign digits) (hdigits : IsCount digits) :
    brokerParseMaxClients count = some (sign.apply ulongMax (decimal digits)) := by
  have hfits := hdigits.fits
  have hpositive := hdigits.positive
  have hne : sign.apply ulongMax (decimal digits) ≠ 0 := by
    cases sign with
    | none | plus => exact Nat.one_le_iff_ne_zero.mp hpositive
    | minus =>
        rw [Sign.apply, Nat.mod_eq_of_lt (by omega)]
        omega
  unfold brokerParseMaxClients
  rw [h.strtoul_eq, if_neg (Nat.not_lt.mpr hfits)]
  simp [hne]

theorem IsCount.parse (h : IsCount count) : brokerParseMaxClients count = some (decimal count) :=
  parse_of_spelled h.spelled h

/-- Nothing else is read. -/
theorem spelled_of_parse (h : brokerParseMaxClients count = some n) :
    ∃ blanks sign digits, Spelled count blanks sign digits ∧ IsCount digits := by
  unfold brokerParseMaxClients at h
  dsimp only at h
  split at h
  · cases h
  · next hgood =>
      simp only [not_or, not_not, Bool.not_eq_true] at hgood
      obtain ⟨hrange, hrest, hvalue⟩ := hgood
      obtain ⟨blanks, sign, digits, hspelled⟩ := exists_spelled hrest hvalue
      rw [hspelled.strtoul_eq] at hrange hvalue
      refine ⟨blanks, sign, digits, hspelled, hspelled.digits_ne, hspelled.digits_digit, ?_, ?_⟩
      · split at hvalue
        · next hlarge => exact Nat.one_le_of_lt hlarge
        · by_contra hzero
          apply hvalue
          have hnone : decimal digits = 0 := by omega
          rw [hnone]
          cases sign with
          | none | plus => rfl
          | minus => exact Nat.mod_self _
      · split at hrange
        · cases hrange
        · next hfits => exact Nat.not_lt.mp hfits

/-- White space or a sign stands first. -/
def decorated (count : List UInt8) : Bool :=
  count.head?.any fun b => isSpace b || b == 43 || b == 45

/-- What `strtoul` takes for a count. -/
def LooseCount (count : List UInt8) : Prop :=
  ∃ blanks sign digits, Spelled count blanks sign digits ∧ IsCount digits

theorem IsCount.loose (h : IsCount count) : LooseCount count := ⟨[], .none, count, h.spelled, h⟩

theorem IsCount.not_decorated (h : IsCount count) : decorated count = false := by
  obtain ⟨b, rest, rfl⟩ := List.exists_cons_of_ne_nil h.nonempty
  obtain ⟨hminus, hplus, hspace⟩ := isDigit_not_sign (h.digits b List.mem_cons_self)
  simp [decorated, hminus, hplus, hspace]

theorem LooseCount.isCount (h : LooseCount count) (hplain : decorated count = false) :
    IsCount count := by
  obtain ⟨blanks, sign, digits, hspelled, hdigits⟩ := h
  have htext := hspelled.text_eq
  cases blanks with
  | cons b blanks =>
      rw [htext] at hplain
      simp [decorated, hspelled.blanks_space b List.mem_cons_self] at hplain
  | nil =>
      cases sign with
      | none =>
          rw [List.nil_append, Sign.text, List.nil_append] at htext
          rw [htext]
          exact hdigits
      | plus | minus =>
          rw [htext] at hplain
          simp [decorated, Sign.text] at hplain

end Counts

/-! ### The argument loop -/

/-- The settings that words can be read as, whatever the counts are. -/
def readSettings : List (List UInt8) → Option (List Setting)
  | [] => some []
  | [_] => none
  | word :: value :: rest =>
      if word = ascii "--socket" then (readSettings rest).map (.socket value :: ·)
      else if word = ascii "--max-clients" then (readSettings rest).map (.maxClients value :: ·)
      else none

/-- The variables of the loop after the settings, the later ones over the earlier. -/
def settle : List Setting → Option (List UInt8) × Nat → Option (Option (List UInt8) × Nat)
  | [], vars => some vars
  | .socket path :: rest, vars => settle rest (some path, vars.2)
  | .maxClients count :: rest, vars =>
      (brokerParseMaxClients count).bind fun parsed => settle rest (vars.1, parsed)

section Loop

variable {argv words : List (List UInt8)} {settings : List Setting} {socketPath : Option (List UInt8)}
  {maxClients i : Nat}

theorem socket_ne_maxClients : ascii "--max-clients" ≠ ascii "--socket" := by decide

theorem readSettings_eq_some : readSettings words = some settings ↔ words = spell settings := by
  constructor
  · intro h
    fun_induction readSettings words generalizing settings with
    | case1 =>
        cases h
        rfl
    | case2 => cases h
    | case3 value rest ih =>
        obtain ⟨more, hmore, rfl⟩ := Option.map_eq_some_iff.mp h
        rw [ih hmore]
        rfl
    | case4 value rest _ ih =>
        obtain ⟨more, hmore, rfl⟩ := Option.map_eq_some_iff.mp h
        rw [ih hmore]
        rfl
    | case5 => cases h
  · rintro rfl
    induction settings with
    | nil => rfl
    | cons setting settings ih =>
        cases setting with
        | socket path =>
            show readSettings (ascii "--socket" :: path :: spell settings) = _
            rw [readSettings, if_pos rfl, ih]
            rfl
        | maxClients count =>
            show readSettings (ascii "--max-clients" :: count :: spell settings) = _
            rw [readSettings, if_neg socket_ne_maxClients, if_pos rfl, ih]
            rfl

/-- The loop reads the words from `i` on as settings and takes them in turn. -/
theorem argumentLoop_eq (argv : List (List UInt8)) (i : Nat) (socketPath : Option (List UInt8))
    (maxClients : Nat) : argumentLoop argv i socketPath maxClients =
      (readSettings (argv.drop i)).bind fun settings => settle settings (socketPath, maxClients) := by
  have hword : ∀ {i : Nat} (hi : i < argv.length) (word : List UInt8),
      argv[i]? = some word ↔ argv[i] = word := by
    intro i hi word
    rw [List.getElem?_eq_getElem hi, Option.some_inj]
  fun_induction argumentLoop argv i socketPath maxClients with
  | case1 i socketPath maxClients hi hnext ih =>
      rw [ih, List.drop_eq_getElem_cons hi, List.drop_eq_getElem_cons hnext.2, readSettings,
        if_pos ((hword hi _).mp hnext.1), List.getElem?_eq_getElem hnext.2]
      cases readSettings (argv.drop (i + 2)) <;> rfl
  | case2 i socketPath maxClients hi hother hnext parsed hparsed ih =>
      have hclients := (hword hi _).mp hnext.1
      have hne : argv[i] ≠ ascii "--socket" := by
        rw [hclients]
        exact socket_ne_maxClients
      rw [List.getElem?_eq_getElem hnext.2, Option.bind_some] at hparsed
      rw [ih, List.drop_eq_getElem_cons hi, List.drop_eq_getElem_cons hnext.2, readSettings,
        if_neg hne, if_pos hclients]
      cases readSettings (argv.drop (i + 2)) with
      | none => rfl
      | some settings =>
          simp only [Option.map_some, Option.bind_some, settle, hparsed]
  | case3 i socketPath maxClients hi hother hnext hparsed =>
      have hclients := (hword hi _).mp hnext.1
      have hne : argv[i] ≠ ascii "--socket" := by
        rw [hclients]
        exact socket_ne_maxClients
      rw [List.getElem?_eq_getElem hnext.2, Option.bind_some] at hparsed
      rw [List.drop_eq_getElem_cons hi, List.drop_eq_getElem_cons hnext.2, readSettings,
        if_neg hne, if_pos hclients]
      cases readSettings (argv.drop (i + 2)) with
      | none => rfl
      | some settings =>
          simp only [Option.map_some, Option.bind_some, settle, hparsed, Option.bind_none]
  | case4 i socketPath maxClients hi hsocket hclients =>
      rw [hword hi] at hsocket hclients
      rw [List.drop_eq_getElem_cons hi]
      by_cases hlast : i + 1 < argv.length
      · rw [List.drop_eq_getElem_cons hlast, readSettings, if_neg fun h => hsocket ⟨h, hlast⟩,
          if_neg fun h => hclients ⟨h, hlast⟩]
        rfl
      · rw [List.drop_of_length_le (Nat.le_of_not_lt hlast)]
        rfl
  | case5 i socketPath maxClients hi =>
      rw [List.drop_of_length_le (Nat.le_of_not_lt hi)]
      rfl

/-- The last `--socket` and the last `--max-clients` count. -/
theorem settle_of_loose (h : ∀ count ∈ counts settings, LooseCount count)
    (vars : Option (List UInt8) × Nat) :
    settle settings vars = some ((paths settings).getLast?.or vars.1,
      ((counts settings).getLast?.bind brokerParseMaxClients).getD vars.2) := by
  induction settings generalizing vars with
  | nil => rfl
  | cons setting settings ih =>
      cases setting with
      | socket path =>
          rw [settle, ih h]
          show _ = some ((path :: paths settings).getLast?.or vars.1, _)
          rw [List.getLast?_cons]
          cases (paths settings).getLast? <;> rfl
      | maxClients count =>
          have hcounts : counts (.maxClients count :: settings) = count :: counts settings := rfl
          rw [hcounts] at h ⊢
          obtain ⟨blanks, sign, digits, hspelled, hdigits⟩ := h count List.mem_cons_self
          have hrest : ∀ c ∈ counts settings, LooseCount c :=
            fun c hc => h c (List.mem_cons_of_mem _ hc)
          rw [settle, parse_of_spelled hspelled hdigits, Option.bind_some, ih hrest,
            List.getLast?_cons]
          cases hlast : (counts settings).getLast? with
          | none =>
              simp only [Option.getD_none, Option.bind_some, Option.bind_none, Option.getD_some,
                parse_of_spelled hspelled hdigits]
              rfl
          | some last =>
              obtain ⟨blanks', sign', digits', hspelled', hdigits'⟩ :=
                hrest last (List.mem_of_getLast? hlast)
              simp only [Option.getD_some, Option.bind_some, parse_of_spelled hspelled' hdigits']
              rfl

/-- One count that is not read ends it all. -/
theorem loose_of_settle {vars result : Option (List UInt8) × Nat}
    (h : settle settings vars = some result) : ∀ count ∈ counts settings, LooseCount count := by
  induction settings generalizing vars with
  | nil => simp [counts]
  | cons setting settings ih =>
      cases setting with
      | socket path => exact ih h
      | maxClients count =>
          obtain ⟨parsed, hparsed, hrest⟩ := Option.bind_eq_some_iff.mp h
          intro c hc
          rcases List.mem_cons.mp (show c ∈ count :: counts settings from hc) with rfl | hmem
          · exact spelled_of_parse hparsed
          · exact ih hrest c hmem

end Loop

/-- Settings that are read, whether or not their counts are plain. -/
structure Readable (settings : List Setting) : Prop where
  socket : paths settings ≠ []
  count : ∀ count ∈ counts settings, LooseCount count

theorem Usable.readable {settings : List Setting} (h : Usable settings) : Readable settings :=
  ⟨h.socket, fun count hc => (h.count count hc).loose⟩

/-- What `main` does with settings it can read. -/
theorem mainArguments_of_readable {argv : List (List UInt8)} {settings : List Setting}
    (h : Readable settings) (hargv : argv.drop 1 = spell settings) :
    ∃ path, (paths settings).getLast? = some path ∧ mainArguments argv =
      .listen path (((counts settings).getLast?.bind brokerParseMaxClients).getD 0) := by
  obtain ⟨path, hpath⟩ : ∃ path, (paths settings).getLast? = some path :=
    Option.ne_none_iff_exists'.mp fun hnone => h.socket (List.getLast?_eq_none_iff.mp hnone)
  refine ⟨path, hpath, ?_⟩
  unfold mainArguments
  rw [argumentLoop_eq, readSettings_eq_some.mpr hargv, Option.bind_some, settle_of_loose h.count,
    hpath]
  rfl

theorem readable_of_mainArguments {argv : List (List UInt8)} (h : mainArguments argv ≠ .usage) :
    ∃ settings, Readable settings ∧ argv.drop 1 = spell settings := by
  unfold mainArguments at h
  split at h
  · next path maxClients hloop =>
      rw [argumentLoop_eq] at hloop
      obtain ⟨settings, hread, hsettle⟩ := Option.bind_eq_some_iff.mp hloop
      have hloose := loose_of_settle hsettle
      refine ⟨settings, ⟨?_, hloose⟩, readSettings_eq_some.mp hread⟩
      intro hnone
      rw [settle_of_loose hloose, hnone] at hsettle
      cases hsettle
  · exact absurd rfl h

/-- The command line `argv` is read by its grammar: it leads to the listener when it is made of
settings, and the last of each kind is in force. -/
structure CommandLineExact (argv : List (List UInt8)) : Prop where
  accepts : mainArguments argv ≠ .usage ↔ ∃ settings, Usable settings ∧ argv.drop 1 = spell settings
  inForce : ∀ settings, Usable settings → argv.drop 1 = spell settings →
    ∃ path, (paths settings).getLast? = some path ∧
      mainArguments argv = .listen path (((counts settings).getLast?.map decimal).getD 0)

/-- Settings that are read although white space or a sign stands before one of the counts. -/
def Stray (argv : List (List UInt8)) : Prop :=
  ∃ settings, Readable settings ∧ (∃ count ∈ counts settings, decorated count = true) ∧
    argv.drop 1 = spell settings

theorem spell_injective {settings settings' : List Setting} (h : spell settings = spell settings') :
    settings = settings' := by
  have hread := readSettings_eq_some.mpr h
  rw [readSettings_eq_some.mpr rfl] at hread
  exact Option.some_inj.mp hread

theorem not_exact_of_stray {argv : List (List UInt8)} (h : Stray argv) :
    ¬ CommandLineExact argv := by
  obtain ⟨settings, hreadable, ⟨count, hmem, hdecorated⟩, hargv⟩ := h
  intro hexact
  obtain ⟨path, -, hlisten⟩ := mainArguments_of_readable hreadable hargv
  have haccepted : mainArguments argv ≠ .usage := by
    rw [hlisten]
    exact Invocation.noConfusion
  obtain ⟨settings', husable, hargv'⟩ := hexact.accepts.mp haccepted
  obtain rfl := spell_injective (hargv.symm.trans hargv')
  rw [(husable.count count hmem).not_decorated] at hdecorated
  cases hdecorated

/-- The limit in force is the value of the last count. -/
theorem Usable.limit {settings : List Setting} (h : Usable settings) :
    (counts settings).getLast?.bind brokerParseMaxClients =
      (counts settings).getLast?.map decimal := by
  cases hlast : (counts settings).getLast? with
  | none => rfl
  | some count => exact (h.count count (List.mem_of_getLast? hlast)).parse

/-- The command line is read by its grammar, but for counts with white space or a sign before
them, which `strtoul` takes as well. -/
theorem command_line_exact_iff (argv : List (List UInt8)) :
    CommandLineExact argv ↔ ¬ Stray argv := by
  constructor
  · exact fun hexact hstray => not_exact_of_stray hstray hexact
  · intro hplain
    refine ⟨⟨?_, ?_⟩, ?_⟩
    · intro haccepted
      obtain ⟨settings, hreadable, hargv⟩ := readable_of_mainArguments haccepted
      refine ⟨settings, ⟨hreadable.socket, ?_⟩, hargv⟩
      intro count hmem
      refine (hreadable.count count hmem).isCount ?_
      by_contra hdecorated
      exact hplain ⟨settings, hreadable, ⟨count, hmem, Bool.eq_true_of_not_eq_false hdecorated⟩, hargv⟩
    · rintro ⟨settings, husable, hargv⟩
      obtain ⟨path, -, hlisten⟩ := mainArguments_of_readable husable.readable hargv
      rw [hlisten]
      exact Invocation.noConfusion
    · intro settings husable hargv
      obtain ⟨path, hpath, hlisten⟩ := mainArguments_of_readable husable.readable hargv
      rw [husable.limit] at hlisten
      exact ⟨path, hpath, hlisten⟩

/-- `--max-clients -1`. -/
def negativeCount : List (List UInt8) :=
  [ascii "ahe-broker", ascii "--socket", ascii "s", ascii "--max-clients", ascii "-1"]

theorem negative_count_accepted : mainArguments negativeCount = .listen (ascii "s") ulongMax ∧
    ¬ CommandLineExact negativeCount := by
  have hdigits : IsCount (ascii "1") :=
    ⟨by decide, by decide +kernel, by decide +kernel, by decide +kernel⟩
  have hspelled : Spelled (ascii "-1") [] .minus (ascii "1") :=
    ⟨rfl, by decide +kernel, by decide +kernel, by decide +kernel⟩
  have hreadable : Readable [.socket (ascii "s"), .maxClients (ascii "-1")] := by
    refine ⟨by decide +kernel, ?_⟩
    intro count hmem
    obtain rfl := List.mem_singleton.mp hmem
    exact ⟨_, _, _, hspelled, hdigits⟩
  have hargv : negativeCount.drop 1 = spell [.socket (ascii "s"), .maxClients (ascii "-1")] := rfl
  refine ⟨?_, not_exact_of_stray ⟨_, hreadable, ⟨ascii "-1", by decide, by decide⟩, hargv⟩⟩
  obtain ⟨path, hpath, hlisten⟩ := mainArguments_of_readable hreadable hargv
  obtain rfl := Option.some_inj.mp hpath
  rw [hlisten]
  show Invocation.listen (ascii "s") ((brokerParseMaxClients (ascii "-1")).getD 0) = _
  rw [parse_of_spelled hspelled hdigits]
  decide +kernel

end Hyperglyph
