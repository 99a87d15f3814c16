/-
# Who is authorized for what

The configuration read as what it says: for a client counts the section with its identity, or the section `*` if there
is none, and for each setting the values of this section, or the global default if there are none. This is what
`check_psk()` and `is_authorized()` go by (`authorized_as_configured`), whenever the configuration
is accepted (`confParse_ok_iff`).
-/
import NscaNg.Server.Sections

namespace NscaNg
namespace Server

open Posix

/-! ### What the configuration says -/

/-- The section with this title. The table would have the last of several, but a file with several is not accepted. -/
def sectionOf (ts : List SectionText) (identity : Bytes) : Option SectionText :=
  ts.reverse.find? fun t => t.title = identity

/-- The section that counts for the client. -/
def applicable (ts : List SectionText) (identity : Bytes) : Option SectionText :=
  (sectionOf ts identity).or (sectionOf ts (ascii "*"))

/-- The values of a setting that count. -/
def effective (default : Option Bytes) (own : List Bytes) : List Bytes := if own = [] then default.toList else own

/-- The password that counts. -/
def passwordOf (d : Defaults) (t : SectionText) : Option Bytes := t.password.or d.password

/-- The section has a pattern that matches the text. -/
def Grants (d : Defaults) (t : SectionText) (text : Bytes) : Prop :=
  ∃ pattern ∈ (effective d.hosts t.hosts).map hostToCommand ++ (effective d.services t.services).map serviceToCommand ++
    effective d.commands t.commands,
    ∃ re, regcomp (ascii "^" ++ pattern ++ ascii "\n?$") = some re ∧ Posix.regexec re text = true

/-- The value of a pattern setting compiles. -/
def Compiles (parse : Bytes → Except PatternError Regex) (value : Bytes) (re : Regex) : Prop := parse value = .ok re

/-- The section in the table is the one that is written, with the defaults. -/
structure Completed (d : Defaults) (t : SectionText) (s : AuthSection) : Prop where
  password : s.password = passwordOf d t
  hosts : List.Forall₂ (Compiles parseHostPatternCb) (effective d.hosts t.hosts) s.auth.hosts
  services : List.Forall₂ (Compiles parseServicePatternCb) (effective d.services t.services) s.auth.services
  commands : List.Forall₂ (Compiles parseCommands) (effective d.commands t.commands) s.auth.commands

/-! ### One setting, one section -/

theorem forall₂_parsePatterns {parse : Bytes → Except PatternError Regex} {values : List Bytes} {res : List Regex} :
    parsePatterns parse values = some res ↔ List.Forall₂ (Compiles parse) values res := by
  induction values generalizing res with
  | nil =>
    constructor
    · intro h
      cases h
      exact .nil
    · intro h
      cases h
      rfl
  | cons value values ih =>
    unfold parsePatterns
    constructor
    · intro h
      split at h
      · cases h
      · rename_i re hre
        obtain ⟨rest, hrest, rfl⟩ := Option.map_eq_some_iff.mp h
        exact .cons hre (ih.mp hrest)
    · intro h
      cases h with
      | @cons _ re _ rest hre hrest =>
        rw [show parse value = .ok re from hre, ih.mpr hrest]
        rfl

theorem fallback_ok {parse : Bytes → Except PatternError Regex} {default : Option Bytes} {values : List Bytes}
    {own res : List Regex} (hown : List.Forall₂ (Compiles parse) values own) :
    fallback parse default own = .ok res ↔ List.Forall₂ (Compiles parse) (effective default values) res := by
  have hsame : List.Forall₂ (Compiles parse) values res ↔ own = res := by
    constructor
    · intro hres
      exact Option.some.inj ((forall₂_parsePatterns.mpr hown).symm.trans (forall₂_parsePatterns.mpr hres))
    · rintro rfl
      exact hown
  unfold fallback effective
  cases default with
  | none =>
    have hvalues : (if values = [] then Option.toList none else values) = values := by
      split
      · rename_i hnil
        exact hnil.symm
      · rfl
    rw [hvalues, hsame, Except.ok.injEq]
  | some value =>
    by_cases hnil : values = []
    · subst hnil
      cases hown
      dsimp only
      rw [if_pos List.length_nil, if_pos rfl]
      constructor
      · intro h
        split at h
        · cases h
        · rename_i re hre
          cases h
          exact .cons hre .nil
      · intro h
        cases h with
        | @cons _ re _ _ hre hrest =>
          cases hrest
          rw [show parse value = .ok re from hre]
    · have hlength : own.length ≠ 0 := by
        rw [← hown.length_eq]
        exact fun h => hnil (List.length_eq_zero_iff.mp h)
      dsimp only
      rw [if_neg hlength, if_neg hnil, hsame, Except.ok.injEq]

/-- The section as it is written, with its patterns compiled. -/
structure Parsed (t : SectionText) (s : AuthSection) : Prop where
  title : s.title = t.title
  password : s.password = t.password
  hosts : List.Forall₂ (Compiles parseHostPatternCb) t.hosts s.auth.hosts
  services : List.Forall₂ (Compiles parseServicePatternCb) t.services s.auth.services
  commands : List.Forall₂ (Compiles parseCommands) t.commands s.auth.commands

theorem parsed_of_parseSection {t : SectionText} {s : AuthSection} (h : parseSection t = some s) : Parsed t s := by
  unfold parseSection at h
  split at h
  · rename_i hosts services commands hhosts hservices hcommands
    cases h
    exact ⟨rfl, rfl, forall₂_parsePatterns.mp hhosts, forall₂_parsePatterns.mp hservices, forall₂_parsePatterns.mp hcommands⟩
  · cases h

/-- No section has the title of another one, or one of those that are there already. -/
def Fresh (opened : List Bytes) (ts : List SectionText) : Prop :=
  (ts.map SectionText.title).Nodup ∧ ∀ t ∈ ts, t.title ∉ opened

theorem fresh_cons {opened : List Bytes} {t : SectionText} {ts : List SectionText} :
    Fresh opened (t :: ts) ↔ t.title ∉ opened ∧ Fresh (t.title :: opened) ts := by
  unfold Fresh
  rw [List.forall_mem_cons, List.map_cons, List.nodup_cons]
  simp only [List.mem_map, List.mem_cons, not_or, not_exists, not_and]
  constructor
  · rintro ⟨⟨hnew, hnodup⟩, hopened, hall⟩
    exact ⟨hopened, hnodup, fun u hu => ⟨hnew u hu, hall u hu⟩⟩
  · rintro ⟨hopened, hnodup, hall⟩
    exact ⟨⟨fun u hu => (hall u hu).1, hnodup⟩, hopened, fun u hu => (hall u hu).2⟩

theorem any_title {opened : List Bytes} {t : SectionText} :
    (opened.any fun title => title = t.title) = true ↔ t.title ∈ opened := by
  simp

theorem forall₂_parseSections {opened : List Bytes} {ts : List SectionText} {sections : List AuthSection}
    (h : parseSections opened ts = some sections) : List.Forall₂ Parsed ts sections ∧ Fresh opened ts := by
  induction ts generalizing opened sections with
  | nil =>
    cases h
    exact ⟨.nil, List.nodup_nil, fun t ht => absurd ht List.not_mem_nil⟩
  | cons t ts ih =>
    unfold parseSections at h
    split at h
    · cases h
    · rename_i hnew
      split at h
      · cases h
      · rename_i s hs
        obtain ⟨rest, hrest, rfl⟩ := Option.map_eq_some_iff.mp h
        obtain ⟨hparsed, hfresh⟩ := ih hrest
        exact ⟨.cons (parsed_of_parseSection hs) hparsed, fresh_cons.mpr ⟨mt any_title.mpr hnew, hfresh⟩⟩

/-- A section is completed if and only if each default that is needed compiles. -/
theorem fallbackToDefaults_ok {d : Defaults} {t : SectionText} {s s' : AuthSection} (h : Parsed t s)
    (hok : fallbackToDefaults d s = .ok s') : s'.title = t.title ∧ Completed d t s' := by
  unfold fallbackToDefaults at hok
  split at hok
  · cases hok
  · rename_i hosts hhosts
    split at hok
    · cases hok
    · rename_i services hservices
      split at hok
      · cases hok
      · rename_i commands hcommands
        cases hok
        refine ⟨h.title, ?_, (fallback_ok h.hosts).mp hhosts, (fallback_ok h.services).mp hservices,
          (fallback_ok h.commands).mp hcommands⟩
        show s.password.or d.password = passwordOf d t
        rw [h.password]
        rfl

/-! ### The loop over the sections -/

theorem sectionOf_cons (t : SectionText) (ts : List SectionText) (identity : Bytes) :
    sectionOf (t :: ts) identity = (sectionOf ts identity).or (if t.title = identity then some t else none) := by
  unfold sectionOf
  rw [List.reverse_cons, List.find?_append]
  by_cases ht : t.title = identity <;> simp [ht]

/-- What the table has for an identity: the last section that is written for it, complete and with a password. -/
theorem processSections_ok {d : Defaults} {ts : List SectionText} {sections : List AuthSection}
    {table table' : HashTable AuthSection} (hparsed : List.Forall₂ Parsed ts sections)
    (h : processSections d sections table = .ok table') (identity : Bytes) :
    (∃ t s, sectionOf ts identity = some t ∧ Completed d t s ∧ s.password ≠ none ∧ table'.hashLookup identity = some s) ∨
      (sectionOf ts identity = none ∧ table'.hashLookup identity = table.hashLookup identity) := by
  induction hparsed generalizing table with
  | nil =>
    cases h
    exact Or.inr ⟨rfl, rfl⟩
  | @cons t s ts sections hs _ ih =>
    unfold processSections at h
    split at h
    · cases h
    · rename_i s' hs'
      obtain ⟨htitle, hcompleted⟩ := fallbackToDefaults_ok hs hs'
      split at h
      · cases h
      · rename_i hvalid
        have hpassword : s'.password ≠ none := by
          intro hnone
          unfold validateAuthSection at hvalid
          rw [if_pos hnone] at hvalid
          cases hvalid
        split at h
        · cases h
        · rename_i inserted hinsert
          rw [sectionOf_cons]
          rcases ih h with ⟨u, v, hu, hv⟩ | ⟨hnone, hkept⟩
          · exact Or.inl ⟨u, v, by rw [hu, Option.some_or], hv⟩
          · rw [hnone, Option.none_or, hkept, HashTable.hashLookup_hashInsert hinsert, htitle]
            by_cases hidentity : t.title = identity
            · rw [if_pos hidentity, if_pos hidentity.symm]
              exact Or.inl ⟨t, s', rfl, hcompleted, hpassword, rfl⟩
            · rw [if_neg hidentity, if_neg fun h => hidentity h.symm]
              exact Or.inr ⟨rfl, rfl⟩

/-- What the table has for an identity is what is written for it. -/
theorem hashLookup_confParse {d : Defaults} {ts : List SectionText} {table : HashTable AuthSection}
    (h : confParse d ts = .ok table) (identity : Bytes) :
    (∃ t s, sectionOf ts identity = some t ∧ Completed d t s ∧ s.password ≠ none ∧ table.hashLookup identity = some s) ∨
      (sectionOf ts identity = none ∧ table.hashLookup identity = none) := by
  unfold confParse at h
  split at h
  · cases h
  · rename_i sections hsections
    unfold processAuthSections at h
    split at h
    · cases h
    · exact processSections_ok (forall₂_parseSections hsections).1 h identity

/-- The section that `check_psk()` and `is_authorized()` find. -/
theorem authSection_confParse {d : Defaults} {ts : List SectionText} {table : HashTable AuthSection}
    (h : confParse d ts = .ok table) (identity : Bytes) :
    (∃ t s, applicable ts identity = some t ∧ Completed d t s ∧ s.password ≠ none ∧ authSection table identity = some s) ∨
      (applicable ts identity = none ∧ authSection table identity = none) := by
  unfold applicable authSection
  rcases hashLookup_confParse h identity with ⟨t, s, ht, hcompleted, hpassword, hs⟩ | ⟨hnone, hmissing⟩
  · exact Or.inl ⟨t, s, by rw [ht, Option.some_or], hcompleted, hpassword, by rw [hs]⟩
  · rw [hnone, hmissing, Option.none_or]
    exact hashLookup_confParse h (ascii "*")

/-! ### What a section grants -/

theorem exists_compiled {parse : Bytes → Except PatternError Regex} {values : List Bytes} {res : List Regex}
    (h : List.Forall₂ (Compiles parse) values res) (P : Regex → Prop) :
    (∃ re ∈ res, P re) ↔ ∃ value ∈ values, ∃ re, Compiles parse value re ∧ P re := by
  induction h with
  | nil => simp
  | @cons value re values res hre _ ih =>
    have hhead : (∃ re', Compiles parse value re' ∧ P re') ↔ P re := by
      constructor
      · rintro ⟨re', hre', hp⟩
        obtain rfl : re = re' := Except.ok.inj ((show parse value = .ok re from hre).symm.trans hre')
        exact hp
      · exact fun hp => ⟨re, hre, hp⟩
    rw [List.exists_mem_cons_iff, List.exists_mem_cons_iff, hhead, ih]

theorem compiles_iff {setting value : Bytes} {re : Regex} :
    parseCommandPatternCb setting value = .ok re ↔ regcomp (ascii "^" ++ value ++ ascii "\n?$") = some re := by
  unfold parseCommandPatternCb
  cases regcomp (ascii "^" ++ value ++ ascii "\n?$") <;> simp

theorem posixRegexec_iff {re : Regex} {text : Bytes} : posixRegexec re text = .found ↔ Posix.regexec re text = true := by
  unfold posixRegexec
  split <;> simp_all

theorem Completed.grants {d : Defaults} {t : SectionText} {s : AuthSection} (h : Completed d t s) (text : Bytes) :
    (∃ setting ∈ s.auth.settings, ∃ pattern ∈ setting, posixRegexec pattern text = .found) ↔ Grants d t text := by
  have hhosts := exists_compiled h.hosts fun re => posixRegexec re text = .found
  have hservices := exists_compiled h.services fun re => posixRegexec re text = .found
  have hcommands := exists_compiled h.commands fun re => posixRegexec re text = .found
  unfold Compiles parseHostPatternCb at hhosts
  unfold Compiles parseServicePatternCb at hservices
  unfold Compiles parseCommands at hcommands
  simp only [compiles_iff, posixRegexec_iff] at hhosts hservices hcommands
  simp only [Auth.settings, List.exists_mem_cons_iff, List.not_mem_nil, false_and, exists_false, or_false, posixRegexec_iff,
    hhosts, hservices, hcommands, Grants, List.mem_append, List.mem_map, or_and_right, exists_or, or_assoc,
    exists_exists_and_eq_and]

section

variable {d : Defaults} {ts : List SectionText} {table : HashTable AuthSection} {identity : Bytes} {t : SectionText}

/-- The section that counts has a password, and this is the key. -/
theorem checkPsk_applicable (h : confParse d ts = .ok table) (ht : applicable ts identity = some t) :
    ∃ password, passwordOf d t = some password ∧ ∀ size, checkPsk table size true identity = password.take size := by
  rcases authSection_confParse h identity with ⟨u, s, hu, hcompleted, hpassword, hs⟩ | ⟨hnone, -⟩
  · obtain rfl : t = u := Option.some.inj (ht.symm.trans hu)
    obtain ⟨password, hword⟩ := Option.ne_none_iff_exists'.mp hpassword
    refine ⟨password, hcompleted.password.symm.trans hword, fun size => ?_⟩
    unfold checkPsk
    rw [hs]
    dsimp only
    rw [if_pos rfl, hword, Option.getD_some]
  · exact absurd (hnone.symm.trans ht) (by simp)

theorem isAuthorized_applicable (h : confParse d ts = .ok table) (ht : applicable ts identity = some t) (command : Bytes) :
    isAuthorized posixRegexec (authTable table) identity command = true ↔
      Terminated command ∧ ∃ text, matchedText command = some text ∧ Grants d t text := by
  rcases authSection_confParse h identity with ⟨u, s, hu, hcompleted, -, hs⟩ | ⟨hnone, -⟩
  · obtain rfl : t = u := Option.some.inj (ht.symm.trans hu)
    have hclient : clientSection (authTable table) identity = some s.auth := by
      rw [clientSection_authTable, hs, Option.map_some]
    rw [isAuthorized_iff, Acceptable]
    refine and_congr_right fun _ => exists_congr fun text => and_congr_right fun _ => ?_
    rw [← hcompleted.grants text, Permits, hclient]
    simp
  · exact absurd (hnone.symm.trans ht) (by simp)

theorem authSection_none (h : confParse d ts = .ok table) (ht : applicable ts identity = none) :
    authSection table identity = none := by
  rcases authSection_confParse h identity with ⟨u, -, hu, -⟩ | ⟨-, hmissing⟩
  · exact absurd (ht.symm.trans hu) (by simp)
  · exact hmissing

end

theorem exists_ok_of_any {ε α : Type} {x : Except ε α} {p : α → Bool} (h : x.toOption.any p = true) :
    ∃ a, x = .ok a ∧ p a = true := by
  cases x with
  | error e => cases h
  | ok a => exact ⟨a, rfl, h⟩

/-- Everyone may add comments, and `web` may submit the results of its own disks and of its own state. -/
def webSections : List SectionText :=
  [⟨ascii "*", none, [], [], [ascii "ADD_HOST_COMMENT;.*"]⟩, ⟨ascii "web", some (ascii "secret"), [], [ascii "disk.*@web"], []⟩]

def webDefaults : Defaults := ⟨some (ascii "web"), none, none, some (ascii "change-me")⟩

/-- The section is acceptable: a password counts for it, and each pattern that counts for it compiles. -/
structure Valid (d : Defaults) (t : SectionText) : Prop where
  password : passwordOf d t ≠ none
  hosts : ∀ value ∈ effective d.hosts t.hosts, ∃ re, Compiles parseHostPatternCb value re
  services : ∀ value ∈ effective d.services t.services, ∃ re, Compiles parseServicePatternCb value re
  commands : ∀ value ∈ effective d.commands t.commands, ∃ re, Compiles parseCommands value re

theorem exists_forall₂ {α β : Type} {R : α → β → Prop} {xs : List α} :
    (∃ ys, List.Forall₂ R xs ys) ↔ ∀ x ∈ xs, ∃ y, R x y := by
  induction xs with
  | nil => simp
  | cons x xs ih =>
    rw [List.forall_mem_cons, ← ih]
    constructor
    · rintro ⟨ys, h⟩
      cases h with
      | cons hhead htail => exact ⟨⟨_, hhead⟩, ⟨_, htail⟩⟩
    · rintro ⟨⟨y, hhead⟩, ⟨ys, htail⟩⟩
      exact ⟨y :: ys, .cons hhead htail⟩

/-- The values a section has itself count. -/
theorem own_effective {default : Option Bytes} {own : List Bytes} {P : Bytes → Prop}
    (h : ∀ value ∈ effective default own, P value) : ∀ value ∈ own, P value := by
  unfold effective at h
  split at h
  · rename_i hnil
    rw [hnil]
    exact fun value hmem => absurd hmem List.not_mem_nil
  · exact h

theorem valid_iff {d : Defaults} {t : SectionText} : Valid d t ↔ ∃ s, Completed d t s ∧ s.password ≠ none := by
  constructor
  · intro h
    obtain ⟨hosts, hhosts⟩ := exists_forall₂.mpr h.hosts
    obtain ⟨services, hservices⟩ := exists_forall₂.mpr h.services
    obtain ⟨commands, hcommands⟩ := exists_forall₂.mpr h.commands
    exact ⟨⟨t.title, passwordOf d t, hosts, services, commands⟩, ⟨rfl, hhosts, hservices, hcommands⟩, h.password⟩
  · rintro ⟨s, h, hpassword⟩
    exact ⟨h.password ▸ hpassword, exists_forall₂.mp ⟨_, h.hosts⟩, exists_forall₂.mp ⟨_, h.services⟩,
      exists_forall₂.mp ⟨_, h.commands⟩⟩

theorem exists_parseSection {d : Defaults} {t : SectionText} (h : Valid d t) : ∃ s, parseSection t = some s := by
  obtain ⟨hosts, hhosts⟩ := exists_forall₂.mpr (own_effective h.hosts)
  obtain ⟨services, hservices⟩ := exists_forall₂.mpr (own_effective h.services)
  obtain ⟨commands, hcommands⟩ := exists_forall₂.mpr (own_effective h.commands)
  unfold parseSection
  rw [forall₂_parsePatterns.mpr hhosts, forall₂_parsePatterns.mpr hservices, forall₂_parsePatterns.mpr hcommands]
  exact ⟨_, rfl⟩

theorem exists_parseSections {d : Defaults} {opened : List Bytes} {ts : List SectionText} (hfresh : Fresh opened ts)
    (h : ∀ t ∈ ts, Valid d t) : ∃ sections, parseSections opened ts = some sections := by
  induction ts generalizing opened with
  | nil => exact ⟨[], rfl⟩
  | cons t ts ih =>
    obtain ⟨hnew, hrest⟩ := fresh_cons.mp hfresh
    obtain ⟨hhead, htail⟩ := List.forall_mem_cons.mp h
    obtain ⟨s, hs⟩ := exists_parseSection hhead
    obtain ⟨sections, hsections⟩ := ih hrest htail
    unfold parseSections
    rw [if_neg (mt any_title.mp hnew), hs, hsections]
    exact ⟨s :: sections, rfl⟩

/-- A valid section is completed and passes the check. -/
theorem exists_fallbackToDefaults {d : Defaults} {t : SectionText} {s : AuthSection} (hs : Parsed t s) (h : Valid d t) :
    ∃ s', fallbackToDefaults d s = .ok s' ∧ validateAuthSection s' = .ok () := by
  obtain ⟨c, hc, hpassword⟩ := valid_iff.mp h
  have hword : s.password.or d.password = c.password := by
    rw [hc.password, hs.password]
    rfl
  unfold fallbackToDefaults
  rw [(fallback_ok hs.hosts).mpr hc.hosts, (fallback_ok hs.services).mpr hc.services, (fallback_ok hs.commands).mpr hc.commands]
  refine ⟨_, rfl, ?_⟩
  unfold validateAuthSection
  rw [if_neg (show s.password.or d.password ≠ none from hword ▸ hpassword)]

/-- The table has room for each section. -/
theorem exists_processSections {d : Defaults} {ts : List SectionText} {sections : List AuthSection}
    {table : HashTable AuthSection} (hparsed : List.Forall₂ Parsed ts sections) (h : ∀ t ∈ ts, Valid d t)
    (hroom : table.entries.length + sections.length ≤ table.capacity) :
    ∃ table', processSections d sections table = .ok table' := by
  induction hparsed generalizing table with
  | nil => exact ⟨table, rfl⟩
  | @cons t s ts sections hs _ ih =>
    obtain ⟨hhead, htail⟩ := List.forall_mem_cons.mp h
    rw [List.length_cons] at hroom
    obtain ⟨s', hs', hvalid⟩ := exists_fallbackToDefaults hs hhead
    have hfree : table.entries.length < table.capacity := by omega
    obtain ⟨inserted, hinsert, hcapacity, hlength⟩ := HashTable.exists_hashInsert s'.title s' hfree
    unfold processSections
    rw [hs']
    dsimp only
    rw [hvalid]
    dsimp only
    rw [hinsert]
    exact ih htail (by omega)

theorem valid_of_processSections {d : Defaults} {ts : List SectionText} {sections : List AuthSection}
    {table table' : HashTable AuthSection} (hparsed : List.Forall₂ Parsed ts sections)
    (h : processSections d sections table = .ok table') : ∀ t ∈ ts, Valid d t := by
  induction hparsed generalizing table with
  | nil => exact fun t hmem => absurd hmem List.not_mem_nil
  | @cons t s ts sections hs _ ih =>
    unfold processSections at h
    split at h
    · cases h
    · rename_i s' hs'
      split at h
      · cases h
      · rename_i hvalid
        split at h
        · cases h
        · refine List.forall_mem_cons.mpr ⟨valid_iff.mpr ⟨s', (fallbackToDefaults_ok hs hs').2, fun hnone => ?_⟩, ih h⟩
          unfold validateAuthSection at hvalid
          rw [if_pos hnone] at hvalid
          cases hvalid

/-- **What is accepted.** The server starts with a configuration if and only if there is a section, no two sections have
the same title, and for each section there is a password, its own or the default, and all patterns that count for it
compile. The table never fills up. -/
theorem confParse_ok_iff {d : Defaults} {ts : List SectionText} :
    (∃ table, confParse d ts = .ok table) ↔
      ts ≠ [] ∧ (ts.map SectionText.title).Nodup ∧ ∀ t ∈ ts, Valid d t := by
  constructor
  · rintro ⟨table, h⟩
    unfold confParse at h
    split at h
    · cases h
    · rename_i sections hsections
      obtain ⟨hparsed, hfresh⟩ := forall₂_parseSections hsections
      unfold processAuthSections at h
      split at h
      · cases h
      · rename_i hlength
        refine ⟨?_, hfresh.1, valid_of_processSections hparsed h⟩
        rintro rfl
        exact hlength hparsed.length_eq.symm
  · rintro ⟨hne, hnodup, hvalid⟩
    have hfresh : Fresh [] ts := ⟨hnodup, fun _ _ => List.not_mem_nil⟩
    obtain ⟨sections, hsections⟩ := exists_parseSections hfresh hvalid
    obtain ⟨hparsed, -⟩ := forall₂_parseSections hsections
    have hlength : sections.length ≠ 0 := by
      rw [← hparsed.length_eq]
      exact fun h => hne (List.length_eq_zero_iff.mp h)
    have hroom : (HashTable.hashNew AuthSection (sections.length * 3 / 2)).entries.length + sections.length ≤
        (HashTable.hashNew AuthSection (sections.length * 3 / 2)).capacity := by
      show 0 + sections.length ≤ sections.length * 3 / 2
      omega
    unfold confParse processAuthSections
    rw [hsections]
    dsimp only
    rw [if_neg hlength]
    exact exists_processSections hparsed hvalid hroom

end Server
end NscaNg
