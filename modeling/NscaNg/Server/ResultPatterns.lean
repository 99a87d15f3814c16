/-
# What `hosts` and `services` patterns accept

A `hosts` pattern is for the host field of `PROCESS_HOST_CHECK_RESULT` commands, a `services`
pattern for the service field of `PROCESS_SERVICE_CHECK_RESULT` commands and, behind its last
`@`, for their host field. They are put between the fields as text, so what they match need not
stay within a field. The answer is right on the commands on which it does (`HostFits`,
`ServiceFits`, `resultAuthorizes`); beside what can go wrong with any pattern
(`CommandPatterns`),

* a pattern that matches a `;` spreads over several fields;
* the `.+` for the last field accepts the newline of the command, hence an empty field;
* a `^` of the pattern cannot hold, and neither can a `$`.

Patterns with none of this fit the commands whose last field is not empty (`hostFits_of_plain`,
`serviceFits_of_plain`).
-/
import NscaNg.Server.CommandPatterns

namespace NscaNg

open Posix

/-- The separator of the fields. -/
abbrev semicolon : UInt8 := 59

/-- Whether a client with just this `hosts` pattern may submit the command. -/
def hostAuthorizes (pattern identity command : Bytes) : Bool :=
  match parseHostPatternCb pattern with
  | .ok re => isAuthorized posixRegexec [(identity, ⟨[re], [], []⟩)] identity command
  | .error _ => false

/-- Whether a client with just this `services` pattern may submit the command. -/
def serviceAuthorizes (pattern identity command : Bytes) : Bool :=
  match parseServicePatternCb pattern with
  | .ok re => isAuthorized posixRegexec [(identity, ⟨[], [re], []⟩)] identity command
  | .error _ => false

theorem isAuthorized_single {re : Regex} {auth : Auth Regex} (hauth : auth.settings.flatten = [re])
    {identity command text : Bytes} (hterm : Terminated command) (ht : matchedText command = some text) :
    isAuthorized posixRegexec [(identity, auth)] identity command = true ↔ re.Search text := by
  have hset : ∀ P : Regex → Prop, (∃ setting ∈ auth.settings, ∃ pattern ∈ setting, P pattern) ↔ P re := by
    intro P
    have hm : ∀ x, x ∈ auth.settings.flatten ↔ x = re := by simp [hauth]
    simp only [List.mem_flatten] at hm
    constructor
    · rintro ⟨setting, hs, pattern, hp, h⟩
      exact (hm pattern).mp ⟨setting, hs, hp⟩ ▸ h
    · intro h
      obtain ⟨setting, hs, hp⟩ := (hm re).mpr rfl
      exact ⟨setting, hs, re, hp, h⟩
  rw [isAuthorized_iff, ← matchPattern_posix, matchPattern_iff]
  simp [Acceptable, Permits, clientSection, hashLookup, hterm, ht, hset]

/-- A text ends with its newline wherever it is cut. -/
theorem cut_newline {s a m : Bytes} (h : s ++ [newline] = a ++ m) (hm : m ≠ []) :
    ∃ r, m = r ++ [newline] ∧ s = a ++ r := by
  obtain ⟨r, c, rfl⟩ := (List.eq_nil_or_concat m).resolve_left hm
  rw [List.concat_eq_append, ← List.append_assoc] at h
  obtain ⟨hs, hc⟩ := List.append_inj' h rfl
  exact ⟨r, by simpa [List.concat_eq_append] using hc.symm, hs⟩

/-! ### Hosts -/

/-- The text submits a check result for a host that the pattern matches in full. -/
def IsHostResult (re : Regex) (s : Bytes) : Prop :=
  ∃ host r, s = hostResult ++ host ++ semicolon :: r ∧ semicolon ∉ host ∧ r ≠ [] ∧ re.Full host

/-- What the `;.+` behind a `hosts` pattern asks of the rest of the text. -/
def FieldBehind (post : Bytes) : Prop := ∃ m, post = semicolon :: m ∧ m ≠ []

/-- The host field of a command, between its name and a field that is not empty. -/
def HostPlace (pre host rest : Bytes) : Prop :=
  pre = hostResult ∧ semicolon ∉ host ∧ ∃ r, rest = semicolon :: r ++ [newline] ∧ r ≠ []

/-- An alternative of the pattern matches something else than the host field: only the first one is
held to the command's name in front of it and only the last one to the fields behind it, and any of
them may match a `;` or stand in front of an empty field. What the match can spare is no matter. -/
def HostStray (re : Regex) (s : Bytes) : Prop :=
  re.Astray (· = hostResult) FieldBehind (fun _ => HostPlace) (s ++ [newline])

/-- The pattern keeps to the host field: nothing of it matches astray, and no alternative with a `^`
or `$` would match the field if these were left out. -/
structure HostFits (re : Regex) (s : Bytes) : Prop where
  noStray : ¬ HostStray re s
  ends : ∀ host rest, HostPlace hostResult host rest → s ++ [newline] = hostResult ++ host ++ rest →
    ∀ b ∈ re, (seq b).anchorFree = true ∨ ¬ (seq b).bare.Full host

theorem parseHostPatternCb_ok {pattern : Bytes} {re : Regex} (h : regcomp pattern = some re) :
    parseHostPatternCb pattern =
      .ok (glue [anchored hostResult] (glue re [field semicolon ++ optEnd newline])) := by
  have hfront : regcomp (ascii "^" ++ hostResult) = some [anchored hostResult] := by decide +kernel
  have hback : regcomp (ascii ";.+" ++ ascii "\n?$") = some [field semicolon ++ optEnd newline] := by
    decide
  have hre := regcomp_append hfront (regcomp_append h hback)
  simp only [← List.append_assoc] at hre
  simp only [parseHostPatternCb, parseCommandPatternCb, hostToCommand, ← List.append_assoc, hre]

theorem opens_anchored (text : Bytes) : (seq (anchored text)).Opens (· = text) := by
  intro pre rest
  simp only [matches_anchored]
  constructor
  · rintro ⟨_, _, rfl, rfl, rfl⟩
    rfl
  · rintro rfl
    exact ⟨[], pre, rfl, rfl, rfl⟩

theorem closes_field : (seq (field semicolon ++ optEnd newline)).Closes FieldBehind := by
  intro pre post
  simp only [matches_field_optEnd, FieldBehind]
  constructor
  · rintro ⟨_, _, rfl, rfl, m, rfl, hm⟩
    exact ⟨m, by simp, hm⟩
  · rintro ⟨m, rfl, hm⟩
    exact ⟨semicolon :: m, [], by simp, rfl, m, rfl, hm⟩

theorem hostAuthorizes_eq {pattern : Bytes} {re : Regex} (h : regcomp pattern = some re)
    {identity command s : Bytes} (hterm : Terminated command)
    (hs : matchedText command = some (s ++ [newline])) :
    hostAuthorizes pattern identity command = true ↔
      Regex.Search (glue [anchored hostResult] (glue re [field semicolon ++ optEnd newline])) (s ++ [newline]) := by
  rw [hostAuthorizes, parseHostPatternCb_ok h]
  exact isAuthorized_single rfl hterm hs

theorem hostPlace_iff {re : Regex} {s : Bytes} : IsHostResult re s ↔
    ∃ host rest, s ++ [newline] = hostResult ++ host ++ rest ∧ HostPlace hostResult host rest ∧ re.Full host := by
  constructor
  · rintro ⟨host, r, rfl, hh, hr, hf⟩
    exact ⟨host, semicolon :: r ++ [newline], by simp, ⟨rfl, hh, r, rfl, hr⟩, hf⟩
  · rintro ⟨host, _, he, ⟨-, hh, r, rfl, hr⟩, hf⟩
    rw [← List.append_assoc] at he
    exact ⟨host, r, List.append_cancel_right he, hh, hr, hf⟩

/-- A pattern accepts exactly the results for hosts that it matches in full, on the commands on
which it keeps to the host field. -/
theorem hostAuthorizes_iff {pattern : Bytes} {re : Regex} (h : regcomp pattern = some re)
    {identity command s : Bytes} (hterm : Terminated command)
    (hs : matchedText command = some (s ++ [newline])) (hfit : HostFits re s) :
    hostAuthorizes pattern identity command = true ↔ IsHostResult re s := by
  rw [hostAuthorizes_eq h hterm hs, hostPlace_iff]
  constructor
  · intro hacc
    obtain ⟨b, hb, pre, host, rest, he, hp, hm⟩ :=
      placed_of_search_glue (opens_anchored _) closes_field (regcomp_ne_nil h) hacc hfit.noStray
    obtain rfl := hp.1
    exact ⟨host, rest, he, hp, b, hb, hm.full⟩
  · rintro ⟨host, rest, he, hp, b, hb, hm⟩
    have hfree : (seq b).anchorFree = true := (hfit.ends host rest hp he b hb).resolve_right fun hn => hn hm.bare
    obtain ⟨-, -, r, rfl, hr⟩ := hp
    rw [he]
    exact search_glue_of_mem (opens_anchored _) closes_field hb (hm.move hfree _ _) rfl ⟨r ++ [newline], rfl, by simp⟩

/-- A pattern with one alternative that matches no `;` and has no anchors. -/
theorem hostFits_of_plain {b : List Ere} (hsemi : (seq b).avoids semicolon = true)
    (hfree : (seq b).anchorFree = true) {s : Bytes} (hend : ∀ t, s ≠ t ++ [semicolon]) : HostFits [b] s where
  ends := by
    rintro host rest - - c hc
    obtain rfl := List.mem_singleton.mp hc
    exact Or.inl hfree
  noStray := by
    rintro ⟨c, pre, mid, post, he, ht, hno⟩
    obtain ⟨rfl, hm, rfl, m, rfl, hne⟩ := ht.of_single
    obtain ⟨r, rfl, rfl⟩ := cut_newline (a := hostResult ++ mid ++ [semicolon]) (by simpa using he) hne
    refine hno ⟨mid, [], by simp, hm.spares, rfl, hm.notMem hsemi, r, rfl, ?_⟩
    rintro rfl
    exact hend (hostResult ++ mid) (by simp)

/-! ### Services -/

/-- The text submits a check result for a service that the pattern matches in full, on a host that
is allowed. -/
def IsServiceResult (allowed : Bytes → Prop) (re : Regex) (s : Bytes) : Prop :=
  ∃ host service x y, s = serviceResult ++ host ++ semicolon :: service ++ semicolon :: x ++ semicolon :: y ∧
    semicolon ∉ host ∧ semicolon ∉ service ∧ x ≠ [] ∧ y ≠ [] ∧ allowed host ∧ re.Full service

/-- The hosts a `services` pattern allows: those its host part matches in full, or any if there is
no `@`. -/
def HostAllowed (pattern : Bytes) (hosts : Regex) (host : Bytes) : Prop :=
  if ch '@' ∈ pattern then hosts.Full host else host ≠ []

/-- The fields behind the service field: two that are not empty, the last with the newline. -/
def serviceBack : List Ere := field semicolon ++ (field semicolon ++ optEnd newline)

/-- What they ask of the rest of the text. -/
def FieldsBehind (post : Bytes) : Prop := ∃ x y, post = semicolon :: x ++ semicolon :: y ∧ x ≠ [] ∧ y ≠ []

/-- The alternatives for the host and the service field: the last one of the hosts is joined to the
first one of the services. -/
def fieldAlternatives (hosts services : Regex) : Regex := glue hosts (glue [[.chr semicolon]] services)

/-- The host and the service field of a command, between its name and two fields that are not empty,
for an alternative of the hosts that is joined to one of the services. -/
def ServicePlace (hosts services : Regex) (d : List Ere) (pre fields rest : Bytes) : Prop :=
  pre = serviceResult ∧ (∃ b ∈ hosts, ∃ c ∈ services, d = b ++ .chr semicolon :: c) ∧
    (∃ host service, fields = host ++ semicolon :: service ∧ semicolon ∉ host ∧ semicolon ∉ service) ∧
    ∃ x y, rest = semicolon :: x ++ semicolon :: y ++ [newline] ∧ x ≠ [] ∧ y ≠ []

/-- Alternatives of the two patterns match something else than their fields: only the last one of the
hosts is joined to the first one of the services, only the first one of all is held to the
command's name and only the last one of all to the fields behind, and any of them may match a `;`
or stand in front of an empty field. What the match can spare is no matter. -/
def ServiceStray (hosts services : Regex) (s : Bytes) : Prop :=
  (fieldAlternatives hosts services).Astray (· = serviceResult) FieldsBehind (ServicePlace hosts services)
    (s ++ [newline])

/-- The patterns keep to their fields: nothing of them matches astray, and no alternatives with a `^`
or `$` would match the fields if these were left out. -/
structure ServiceFits (hosts services : Regex) (s : Bytes) : Prop where
  noStray : ¬ ServiceStray hosts services s
  ends : ∀ host service x y, s = serviceResult ++ host ++ semicolon :: service ++ semicolon :: x ++ semicolon :: y →
    semicolon ∉ host → semicolon ∉ service → x ≠ [] → y ≠ [] → ∀ b ∈ hosts, ∀ c ∈ services,
      ((seq b).anchorFree = true ∧ (seq c).anchorFree = true) ∨
        ¬ ((seq b).bare.Full host ∧ (seq c).bare.Full service)

theorem parseServicePatternCb_ok {pattern : Bytes} {hosts services : Regex}
    (hq : regcomp (hostPart pattern) = some hosts) (hd : regcomp (servicePart pattern) = some services) :
    parseServicePatternCb pattern =
      .ok (glue [anchored serviceResult] (glue (fieldAlternatives hosts services) [serviceBack])) := by
  have hfront : regcomp (ascii "^" ++ serviceResult) = some [anchored serviceResult] := by decide +kernel
  have hsep : regcomp (ascii ";") = some [[.chr semicolon]] := by decide
  have hback : regcomp (ascii ";.+;.+" ++ ascii "\n?$") = some [serviceBack] := by decide
  have hfields := regcomp_append hq (regcomp_append hsep hd)
  have hre := regcomp_append hfront (regcomp_append hfields hback)
  simp only [← List.append_assoc] at hre
  simp only [parseServicePatternCb, parseCommandPatternCb, serviceToCommand, ← List.append_assoc, hre,
    fieldAlternatives]

theorem matches_serviceBack {pre mid post : Bytes} :
    (seq serviceBack).Matches pre mid post ↔ post = [] ∧ FieldsBehind mid := by
  rw [serviceBack, matches_seq_append]
  simp only [matches_field, matches_field_optEnd]
  constructor
  · rintro ⟨_, _, rfl, ⟨x, rfl, hx⟩, rfl, y, rfl, hy⟩
    exact ⟨rfl, x, y, rfl, hx, hy⟩
  · rintro ⟨rfl, x, y, rfl, hx, hy⟩
    exact ⟨_, _, rfl, ⟨x, rfl, hx⟩, rfl, y, rfl, hy⟩

theorem closes_serviceBack : (seq serviceBack).Closes FieldsBehind := by
  intro pre post
  simp only [matches_serviceBack]
  constructor
  · rintro ⟨q, _, rfl, rfl, h⟩
    simpa using h
  · intro h
    exact ⟨post, [], by simp, rfl, h⟩

/-- The fields of a pair of alternatives. -/
theorem matches_pair {b c : List Ere} {pre fields post : Bytes} :
    (seq (b ++ .chr semicolon :: c)).Matches pre fields post ↔
      ∃ host service, fields = host ++ semicolon :: service ∧
        (seq b).Matches pre host (semicolon :: service ++ post) ∧
        (seq c).Matches (pre ++ host ++ [semicolon]) service post := by
  simp only [matches_seq_append, matches_seq_cons, Ere.Matches]
  constructor
  · rintro ⟨host, _, rfl, hb, _, service, rfl, rfl, hc⟩
    exact ⟨host, service, rfl, hb, hc⟩
  · rintro ⟨host, service, rfl, hb, hc⟩
    exact ⟨host, semicolon :: service, rfl, hb, [semicolon], service, rfl, rfl, hc⟩

theorem fieldAlternatives_concat (bs : Regex) (b c : List Ere) (cs : Regex) :
    fieldAlternatives (bs ++ [b]) (c :: cs) = bs ++ (b ++ .chr semicolon :: c) :: cs :=
  glue_concat bs b (.chr semicolon :: c) cs

theorem fieldAlternatives_ne_nil {hosts services : Regex} (hq : hosts ≠ []) (hd : services ≠ []) :
    fieldAlternatives hosts services ≠ [] := by
  obtain ⟨bs, b, rfl⟩ := (List.eq_nil_or_concat hosts).resolve_left hq
  obtain ⟨c, cs, rfl⟩ := List.exists_cons_of_ne_nil hd
  rw [List.concat_eq_append, fieldAlternatives_concat]
  simp

/-- Alternatives that match their fields in place are found, torn or not. -/
theorem search_of_fields {hosts services : Regex} {b c : List Ere} (hb : b ∈ hosts) (hc : c ∈ services)
    {host service post : Bytes} (hpost : FieldsBehind post)
    (hm : (seq b).Matches serviceResult host (semicolon :: service ++ post))
    (hm' : (seq c).Matches (serviceResult ++ host ++ [semicolon]) service post) :
    Regex.Search (glue [anchored serviceResult] (glue (fieldAlternatives hosts services) [serviceBack]))
      (serviceResult ++ host ++ semicolon :: service ++ post) := by
  obtain ⟨bs, b', rfl⟩ := (List.eq_nil_or_concat hosts).resolve_left (List.ne_nil_of_mem hb)
  obtain ⟨c', cs, rfl⟩ := List.exists_cons_of_ne_nil (List.ne_nil_of_mem hc)
  rw [List.concat_eq_append] at hb ⊢
  rw [fieldAlternatives_concat]
  rcases List.mem_append.mp hb with hb | hb
  · -- an alternative for the host alone
    have hrest : FieldsBehind (semicolon :: service ++ post) := by
      obtain ⟨x, y, rfl, -, hy⟩ := hpost
      exact ⟨service ++ semicolon :: x, y, by simp, by simp, hy⟩
    have hfound := search_glue_of_mem (opens_anchored _) closes_serviceBack
      (List.mem_append_left ((b' ++ .chr semicolon :: c') :: cs) hb) hm rfl hrest
    simpa using hfound
  · obtain rfl := List.mem_singleton.mp hb
    rcases List.mem_cons.mp hc with rfl | hc
    · have hpair := matches_pair.mpr ⟨host, service, rfl, hm, hm'⟩
      have hfound := search_glue_of_mem (opens_anchored _) closes_serviceBack
        (List.mem_append_right bs (List.mem_cons_self (l := cs))) hpair rfl hpost
      simpa using hfound
    · -- an alternative for the service alone
      obtain ⟨init, tail, rfl⟩ := List.append_of_mem hc
      refine (search_glue (opens_anchored _) closes_serviceBack (by simp)).mpr
        ⟨c, serviceResult ++ host ++ [semicolon], service, post, by simp,
          bs ++ (b ++ .chr semicolon :: c') :: init, tail, by simp, hm', fun h => absurd h (by simp), fun _ => hpost⟩

/-- The pattern for any host. -/
theorem anyHost : regcomp (ascii "[^;]+") = some [[(Ere.bracket true [(59, 59)]).rep 1 none]] := by
  decide

theorem matches_anyHost {pre mid post : Bytes} :
    (seq [(Ere.bracket true [(59, 59)]).rep 1 none]).Matches pre mid post ↔
      mid ≠ [] ∧ semicolon ∉ mid := by
  have hbyte : ∀ c, inBracket true [(59, 59)] c = true ↔ c ≠ semicolon := by
    intro c
    have hc : (59 ≤ c ∧ c ≤ 59) ↔ c = semicolon :=
      ⟨fun h => UInt8.le_antisymm h.2 h.1, by rintro rfl; decide⟩
    rw [ne_eq, ← hc]
    simp [inBracket, imp_iff_not_or]
  have hone : ((Ere.bracket true [(59, 59)]).rep 1 none).Matches pre mid post ↔
      mid ≠ [] ∧ ∀ c ∈ mid, c ≠ semicolon :=
    matches_plus_oneByte fun _ _ _ => by simp only [Ere.Matches, hbyte]
  rw [show semicolon ∉ mid ↔ ∀ c ∈ mid, c ≠ semicolon by grind, ← hone]
  simp only [matches_seq_cons, matches_seq_nil]
  constructor
  · rintro ⟨m, _, rfl, h, rfl⟩
    simpa using h
  · intro h
    exact ⟨mid, [], by simp, by simpa using h, rfl⟩

/-- The host field of a text is what stands up to its next `;`. -/
theorem hostField_unique {host host' r r' : Bytes} (hh : semicolon ∉ host) (hh' : semicolon ∉ host')
    (h : host ++ semicolon :: r = host' ++ semicolon :: r') : host = host' := by
  have hr : semicolon :: r = semicolon :: r' := by
    rw [← Option.some.injEq, ← strchr_append hh, ← strchr_append hh', h]
  exact List.append_cancel_right (hr ▸ h)

theorem hostAllowed_iff {pattern : Bytes} {hosts : Regex} (hq : regcomp (hostPart pattern) = some hosts)
    {host : Bytes} (hh : semicolon ∉ host) : HostAllowed pattern hosts host ↔ hosts.Full host := by
  unfold HostAllowed
  split
  · rfl
  · rename_i hat
    rw [(parts_of_notMem hat).2, anyHost, Option.some.injEq] at hq
    subst hq
    simp only [Regex.Full, Ere.Full, List.mem_singleton, exists_eq_left, matches_anyHost, hh, not_false_eq_true,
      and_true]

theorem serviceAuthorizes_eq {pattern : Bytes} {hosts services : Regex}
    (hq : regcomp (hostPart pattern) = some hosts) (hd : regcomp (servicePart pattern) = some services)
    {identity command s : Bytes} (hterm : Terminated command)
    (hs : matchedText command = some (s ++ [newline])) :
    serviceAuthorizes pattern identity command = true ↔
      Regex.Search (glue [anchored serviceResult] (glue (fieldAlternatives hosts services) [serviceBack]))
        (s ++ [newline]) := by
  rw [serviceAuthorizes, parseServicePatternCb_ok hq hd]
  exact isAuthorized_single rfl hterm hs

/-- The first `;` of two fields is where they meet. -/
theorem fields_unique {host service host' service' : Bytes} (hh : semicolon ∉ host) (hs : semicolon ∉ service)
    (h : host ++ semicolon :: service = host' ++ semicolon :: service') : host = host' ∧ service = service' := by
  have hh' : semicolon ∉ host' := by
    intro hm
    have hcount := congrArg (List.count semicolon) h
    have hpos : 0 < host'.count semicolon := List.count_pos_iff.mpr hm
    simp only [List.count_append, List.count_cons_self, List.count_eq_zero_of_not_mem hh,
      List.count_eq_zero_of_not_mem hs] at hcount
    omega
  obtain rfl := hostField_unique hh hh' h
  simpa using h

/-- A pattern accepts exactly the results for services that its service part matches in full, on
hosts that it allows, on the commands on which both parts keep to their fields. -/
theorem serviceAuthorizes_iff {pattern : Bytes} {hosts services : Regex}
    (hq : regcomp (hostPart pattern) = some hosts) (hd : regcomp (servicePart pattern) = some services)
    {identity command s : Bytes} (hterm : Terminated command)
    (hs : matchedText command = some (s ++ [newline])) (hfit : ServiceFits hosts services s) :
    serviceAuthorizes pattern identity command = true ↔
      IsServiceResult (HostAllowed pattern hosts) services s := by
  rw [serviceAuthorizes_eq hq hd hterm hs]
  constructor
  · intro hacc
    obtain ⟨_, -, _, _, _, he, ⟨rfl, ⟨b, hb, c, hc, rfl⟩, ⟨host, service, rfl, hh, hv⟩, x, y, rfl, hx, hy⟩, hm⟩ :=
      placed_of_search_glue (opens_anchored _) closes_serviceBack
        (fieldAlternatives_ne_nil (regcomp_ne_nil hq) (regcomp_ne_nil hd)) hacc hfit.noStray
    obtain ⟨host', service', hfields, hmb, hmc⟩ := matches_pair.mp hm
    obtain ⟨rfl, rfl⟩ := fields_unique hh hv hfields
    have hs' : s ++ [newline] =
        serviceResult ++ host ++ semicolon :: service ++ semicolon :: x ++ semicolon :: y ++ [newline] := by
      simpa using he
    exact ⟨host, service, x, y, List.append_cancel_right hs', hh, hv, hx, hy,
      (hostAllowed_iff hq hh).mpr ⟨b, hb, hmb.full⟩, c, hc, hmc.full⟩
  · rintro ⟨host, service, x, y, rfl, hh, hv, hx, hy, hallowed, c, hc, hmc⟩
    obtain ⟨b, hb, hmb⟩ := (hostAllowed_iff hq hh).mp hallowed
    obtain ⟨hfb, hfc⟩ := (hfit.ends host service x y rfl hh hv hx hy b hb c hc).resolve_right
      fun hn => hn ⟨hmb.bare, hmc.bare⟩
    have hpost : FieldsBehind (semicolon :: x ++ semicolon :: y ++ [newline]) :=
      ⟨x, y ++ [newline], by simp, hx, by simp⟩
    have hfound := search_of_fields hb hc hpost (hmb.move hfb _ _) (hmc.move hfc _ _)
    simpa using hfound

/-- Two patterns with one alternative each that match no `;` and have no anchors. -/
theorem serviceFits_of_plain {b c : List Ere} (hb : (seq b).avoids semicolon = true)
    (hc : (seq c).avoids semicolon = true) (hfb : (seq b).anchorFree = true) (hfc : (seq c).anchorFree = true)
    {s : Bytes} (hend : ∀ t, s ≠ t ++ [semicolon]) : ServiceFits [b] [c] s where
  ends := by
    intro host service x y _ _ _ _ _ b' hb' c' hc'
    obtain rfl := List.mem_singleton.mp hb'
    obtain rfl := List.mem_singleton.mp hc'
    exact Or.inl ⟨hfb, hfc⟩
  noStray := by
    rintro ⟨d, pre, mid, post, he, ht, hno⟩
    obtain ⟨rfl, hm, rfl, x, m, rfl, hx, hne⟩ := Regex.Torn.of_single (b := b ++ .chr semicolon :: c) ht
    obtain ⟨host, service, rfl, hmb, hmc⟩ := matches_pair.mp hm
    obtain ⟨y, rfl, rfl⟩ := cut_newline
      (a := serviceResult ++ host ++ semicolon :: service ++ semicolon :: x ++ [semicolon]) (by simpa using he) hne
    refine hno ⟨host ++ semicolon :: service, [], by simp, hm.spares, rfl, ⟨b, by simp, c, by simp, rfl⟩,
      ⟨host, service, rfl, hmb.notMem hb, hmc.notMem hc⟩, x, y, by simp, hx, ?_⟩
    rintro rfl
    exact hend (serviceResult ++ host ++ semicolon :: service ++ semicolon :: x) (by simp)

/-! ### Hosts and services -/

end NscaNg
