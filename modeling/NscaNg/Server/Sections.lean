/-
# The `authorize` sections

What `conf_parse()` of `src/server/conf.c` makes of the sections that libConfuse has read, and the table of
`src/server/hash.c`, where they are looked up by `check_psk()` and `is_authorized()` of `src/server/auth.c`. A section
gets the global default of each setting it leaves out, and it must have a password.

A client is granted what the patterns of one section say, its own or the default of the section, and this is the section
whose password it has been asked for (`NscaNg.Server.Authorizations`).
-/
import NscaNg.Server.Conf

namespace NscaNg

open Posix

/-! ### The table -/

/-- The table of `hsearch()`. -/
structure HashTable (α : Type) where
  capacity : ℕ
  entries : List (Bytes × α)
  nodup : (entries.map Prod.fst).Nodup
  fits : entries.length ≤ capacity

/-- The entry of the key gets this value. -/
def replaceValue {α : Type} (key : Bytes) (value : α) (entries : List (Bytes × α)) : List (Bytes × α) :=
  entries.map fun e => if e.1 = key then (key, value) else e

section

variable {α : Type} {key : Bytes} {value : α} {entries : List (Bytes × α)}

theorem map_fst_replaceValue (key : Bytes) (value : α) (entries : List (Bytes × α)) :
    (replaceValue key value entries).map Prod.fst = entries.map Prod.fst := by
  unfold replaceValue
  rw [List.map_map]
  refine List.map_congr_left fun e _ => ?_
  by_cases he : e.1 = key <;> simp [he]

theorem length_replaceValue (key : Bytes) (value : α) (entries : List (Bytes × α)) :
    (replaceValue key value entries).length = entries.length := List.length_map _

theorem lookup_cons_eq (k : Bytes) (e : Bytes × α) (entries : List (Bytes × α)) :
    (e :: entries).lookup k = if k = e.1 then some e.2 else entries.lookup k := by
  obtain ⟨a, v⟩ := e
  rw [List.lookup_cons]
  by_cases h : k = a
  · rw [if_pos h, beq_iff_eq.mpr h]
  · rw [if_neg h, beq_false_of_ne h]

theorem isSome_lookup_iff {k : Bytes} : (entries.lookup k).isSome = true ↔ k ∈ entries.map Prod.fst := by
  induction entries with
  | nil => simp
  | cons e entries ih =>
    rw [lookup_cons_eq, List.map_cons, List.mem_cons]
    by_cases hk : k = e.1
    · simp [hk]
    · rw [if_neg hk, ih]
      exact ⟨Or.inr, fun h => h.resolve_left hk⟩

theorem lookup_replaceValue_of_ne {other : Bytes} (h : other ≠ key) :
    (replaceValue key value entries).lookup other = entries.lookup other := by
  induction entries with
  | nil => rfl
  | cons e entries ih =>
    have hcons : replaceValue key value (e :: entries) =
        (if e.1 = key then (key, value) else e) :: replaceValue key value entries := rfl
    rw [hcons, lookup_cons_eq, lookup_cons_eq, ih]
    by_cases he : e.1 = key
    · rw [if_pos he, he, if_neg h, if_neg h]
    · rw [if_neg he]

theorem lookup_replaceValue_self (hkey : key ∈ entries.map Prod.fst) :
    (replaceValue key value entries).lookup key = some value := by
  induction entries with
  | nil => cases hkey
  | cons e entries ih =>
    have hcons : replaceValue key value (e :: entries) =
        (if e.1 = key then (key, value) else e) :: replaceValue key value entries := rfl
    rw [hcons, lookup_cons_eq]
    by_cases he : e.1 = key
    · rw [if_pos he, if_pos rfl]
    · have hne : key ≠ e.1 := fun h => he h.symm
      rw [if_neg he, if_neg hne]
      exact ih ((List.mem_cons.mp hkey).resolve_left hne)

theorem lookup_snoc (k : Bytes) (hkey : key ∉ entries.map Prod.fst) :
    (entries ++ [(key, value)]).lookup k = if k = key then some value else entries.lookup k := by
  induction entries with
  | nil => exact lookup_cons_eq k (key, value) []
  | cons e entries ih =>
    obtain ⟨hne, hmem⟩ : key ≠ e.1 ∧ key ∉ entries.map Prod.fst := by simpa using hkey
    rw [List.cons_append, lookup_cons_eq, lookup_cons_eq, ih hmem]
    by_cases hk : k = e.1
    · rw [if_pos hk, if_neg (fun h => hne (h.symm.trans hk)), if_pos hk]
    · rw [if_neg hk, if_neg hk]

end

namespace HashTable

variable {α : Type}

/-- `hash_new()`: a table for so many entries at least. -/
def hashNew (α : Type) (size : ℕ) : HashTable α := ⟨size, [], List.nodup_nil, Nat.zero_le size⟩

theorem nodup_replaceValue (key : Bytes) (value : α) (table : HashTable α) :
    ((replaceValue key value table.entries).map Prod.fst).Nodup :=
  (map_fst_replaceValue key value table.entries).symm ▸ table.nodup

theorem fits_replaceValue (key : Bytes) (value : α) (table : HashTable α) :
    (replaceValue key value table.entries).length ≤ table.capacity :=
  (length_replaceValue key value table.entries).trans_le table.fits

theorem nodup_snoc (key : Bytes) (value : α) (table : HashTable α) (hkey : ¬ (table.entries.lookup key).isSome = true) :
    ((table.entries ++ [(key, value)]).map Prod.fst).Nodup := by
  rw [isSome_lookup_iff] at hkey
  rw [List.map_append]
  exact List.nodup_append'.mpr ⟨table.nodup, List.nodup_singleton _, by simpa using hkey⟩

theorem fits_snoc (key : Bytes) (value : α) (table : HashTable α) (hroom : table.entries.length < table.capacity) :
    (table.entries ++ [(key, value)]).length ≤ table.capacity := by
  rw [List.length_append]
  exact hroom

/-- `hash_insert()`: the entry is searched and made if there is none, and its value is set. The table may be full. -/
def hashInsert (key : Bytes) (value : α) (table : HashTable α) : Option (HashTable α) :=
  if hkey : (table.entries.lookup key).isSome = true then
    some {
      capacity := table.capacity
      entries := replaceValue key value table.entries
      nodup := nodup_replaceValue key value table
      fits := fits_replaceValue key value table }
  else if hroom : table.entries.length < table.capacity then
    some {
      capacity := table.capacity
      entries := table.entries ++ [(key, value)]
      nodup := nodup_snoc key value table hkey
      fits := fits_snoc key value table hroom }
  else none

/-- `hash_lookup()`. -/
def hashLookup (table : HashTable α) (key : Bytes) : Option α := table.entries.lookup key

theorem hashLookup_hashInsert {key k : Bytes} {value : α} {table table' : HashTable α}
    (h : table.hashInsert key value = some table') :
    table'.hashLookup k = if k = key then some value else table.hashLookup k := by
  unfold hashInsert at h
  split at h
  · rename_i hkey
    cases h
    by_cases hk : k = key
    · rw [if_pos hk, hk]
      exact lookup_replaceValue_self (isSome_lookup_iff.mp hkey)
    · rw [if_neg hk]
      exact lookup_replaceValue_of_ne hk
  · rename_i hkey
    split at h
    · cases h
      exact lookup_snoc k (mt isSome_lookup_iff.mpr hkey)
    · cases h

/-- There is room for another entry. -/
theorem exists_hashInsert (key : Bytes) (value : α) {table : HashTable α} (h : table.entries.length < table.capacity) :
    ∃ table', table.hashInsert key value = some table' ∧ table'.capacity = table.capacity ∧
      table'.entries.length ≤ table.entries.length + 1 := by
  unfold hashInsert
  by_cases hkey : (table.entries.lookup key).isSome = true
  · rw [dif_pos hkey]
    exact ⟨_, rfl, rfl, (length_replaceValue key value table.entries).le.trans (Nat.le_succ _)⟩
  · rw [dif_neg hkey, dif_pos h]
    exact ⟨_, rfl, rfl, by simp⟩

end HashTable

namespace Server

/-! ### The sections -/

/-- An `authorize` section as it is written. -/
structure SectionText where
  title : Bytes
  password : Option Bytes
  hosts : List Bytes
  services : List Bytes
  commands : List Bytes
  deriving DecidableEq

/-- The settings of the top level that are the default of each section. -/
structure Defaults where
  hosts : Option Bytes
  services : Option Bytes
  commands : Option Bytes
  password : Option Bytes

/-- An `authorize` section as libConfuse keeps it. -/
structure AuthSection where
  title : Bytes
  password : Option Bytes
  auth : Auth Regex

/-- Why the server does not start. -/
inductive ConfError
  /-- libConfuse does not accept the file, and has said why. -/
  | parse
  /-- `No authorizations configured` -/
  | noAuthorizations
  /-- `Error in %s pattern %s` -/
  | pattern (e : PatternError)
  /-- `No password specified for %s` -/
  | noPassword (identity : Bytes)
  /-- `Cannot insert %s into hash table` -/
  | cannotInsert (key : Bytes)
  deriving DecidableEq

/-- The callback of the `commands` setting. -/
def parseCommands (value : Bytes) : Except PatternError Regex := parseCommandPatternCb (ascii "commands") value

/-- libConfuse calls the callback of a setting for each value. -/
def parsePatterns (parse : Bytes → Except PatternError Regex) : List Bytes → Option (List Regex)
  | [] => some []
  | value :: values =>
    match parse value with
    | .error _ => none
    | .ok re => (parsePatterns parse values).map (re :: ·)

def parseSection (t : SectionText) : Option AuthSection :=
  match parsePatterns parseHostPatternCb t.hosts, parsePatterns parseServicePatternCb t.services,
    parsePatterns parseCommands t.commands with
  | some hosts, some services, some commands => some ⟨t.title, t.password, hosts, services, commands⟩
  | _, _, _ => none

/-- The sections of a file, behind those with the titles `opened`: a second one with the same title is an error
(`CFGF_NO_TITLE_DUPES`). -/
def parseSections (opened : List Bytes) : List SectionText → Option (List AuthSection)
  | [] => some []
  | t :: ts =>
    if opened.any fun title => title = t.title then none
    else
      match parseSection t with
      | none => none
      | some s => (parseSections (t.title :: opened) ts).map (s :: ·)

/-- A setting of patterns: the callback is called for the default if the section has none of its own. -/
def fallback (parse : Bytes → Except PatternError Regex) (default : Option Bytes) (own : List Regex) :
    Except PatternError (List Regex) :=
  match default with
  | none => .ok own
  | some value =>
    if own.length = 0 then
      match parse value with
      | .error e => .error e
      | .ok re => .ok [re]
    else .ok own

def fallbackToDefaults (d : Defaults) (s : AuthSection) : Except PatternError AuthSection :=
  match fallback parseHostPatternCb d.hosts s.auth.hosts with
  | .error e => .error e
  | .ok hosts =>
    match fallback parseServicePatternCb d.services s.auth.services with
    | .error e => .error e
    | .ok services =>
      match fallback parseCommands d.commands s.auth.commands with
      | .error e => .error e
      | .ok commands => .ok ⟨s.title, s.password.or d.password, hosts, services, commands⟩

def validateAuthSection (s : AuthSection) : Except ConfError Unit :=
  if s.password = none then .error (.noPassword s.title) else .ok ()

/-- The loop of `process_auth_sections()`. -/
def processSections (d : Defaults) : List AuthSection → HashTable AuthSection → Except ConfError (HashTable AuthSection)
  | [], table => .ok table
  | s :: rest, table =>
    match fallbackToDefaults d s with
    | .error e => .error (.pattern e)
    | .ok s =>
      match validateAuthSection s with
      | .error e => .error e
      | .ok () =>
        match table.hashInsert s.title s with
        | none => .error (.cannotInsert s.title)
        | some table => processSections d rest table

/-- The table is made half as large again as it has to be. -/
def processAuthSections (d : Defaults) (sections : List AuthSection) : Except ConfError (HashTable AuthSection) :=
  if sections.length = 0 then .error .noAuthorizations
  else processSections d sections (.hashNew AuthSection (sections.length * 3 / 2))

/-- `conf_parse()`, for the settings that authorize clients. -/
def confParse (d : Defaults) (ts : List SectionText) : Except ConfError (HashTable AuthSection) :=
  match parseSections [] ts with
  | none => .error .parse
  | some sections => processAuthSections d sections

/-! ### Looking a client up -/

/-- What `is_authorized()` finds in the table. -/
def authTable (table : HashTable AuthSection) : AuthTable Regex := table.entries.map fun e => (e.1, e.2.auth)

/-- The entry of the identity, or that of `*`. -/
def authSection (table : HashTable AuthSection) (identity : Bytes) : Option AuthSection :=
  match table.hashLookup identity with
  | some s => some s
  | none => table.hashLookup (ascii "*")

/-- The key that `check_psk()` gives to OpenSSL, which takes an empty one for a refusal. `stored` says whether the
identity could be kept with the connection. -/
def checkPsk (table : HashTable AuthSection) (maxPasswordLen : ℕ) (stored : Bool) (identity : Bytes) : Bytes :=
  match authSection table identity with
  | none => []
  | some s => if stored then (s.password.getD []).take maxPasswordLen else []

theorem clientSection_authTable (table : HashTable AuthSection) (identity : Bytes) :
    clientSection (authTable table) identity = (authSection table identity).map AuthSection.auth := by
  have hlookup : ∀ key, hashLookup (authTable table) key = (table.hashLookup key).map AuthSection.auth := by
    intro key
    unfold hashLookup HashTable.hashLookup authTable
    induction table.entries with
    | nil => rfl
    | cons e entries ih =>
      rw [List.map_cons, lookup_cons_eq, lookup_cons_eq, ih]
      by_cases hkey : key = e.1
      · rw [if_pos hkey, if_pos hkey, Option.map_some]
      · rw [if_neg hkey, if_neg hkey]
  unfold clientSection authSection
  rw [hlookup, hlookup]
  cases table.hashLookup identity <;> rfl

end Server
end NscaNg
