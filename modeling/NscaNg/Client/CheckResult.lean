/-
# The fields of a check result

A check result is written as its fields with the delimiter between them, and has to come out of
`parse_check_result()` as the command with these fields, each escaped. Escaping goes over the
whole text before it is split, so a delimiter that occurs in an escape sequence is a danger: `n`
is one, and a newline in a field that is split off then adds a delimiter (`encodes_iff`).
-/
import NscaNg.Client.Options
import NscaNg.Client.Parse

namespace NscaNg.Client

open Posix

/-- A check result by its fields. -/
inductive CheckResult
  | host (name code output : Bytes)
  | service (hostName name code output : Bytes)
  deriving DecidableEq

namespace CheckResult

/-- The fields with the delimiter between them. -/
def text (delimiter : UInt8) : CheckResult → Bytes
  | host name code output => name ++ delimiter :: (code ++ delimiter :: output)
  | service hostName name code output =>
    hostName ++ delimiter :: (name ++ delimiter :: (code ++ delimiter :: output))

/-- The fields that must not contain the delimiter. -/
def delimited : CheckResult → List Bytes
  | host name code output => [name, code, output]
  | service hostName name code _ => [hostName, name, code]

/-- The command with the fields escaped. -/
def command (now : ℕ) : CheckResult → Bytes
  | host name code output => hostCommand now (escape name) (escape code) (escape output)
  | service hostName name code output =>
    serviceCommand now (escape hostName) (escape name) (escape code) (escape output)

end CheckResult

/-! ### A delimiter in an escaped field -/

section

variable {delimiter : UInt8}

/-- Escaping puts no other delimiter into a field than the `n` of an escaped newline. -/
theorem mem_escape_iff (hd : delimiter ≠ newline ∧ delimiter ≠ 0 ∧ delimiter ≠ ch '\\') {field : Bytes}
    (hf : delimiter ∉ field) : delimiter ∈ escape field ↔ delimiter = ch 'n' ∧ newline ∈ field := by
  constructor
  · intro h
    obtain ⟨c, hc, hx⟩ := List.mem_flatMap.mp h
    rcases mem_escapeCharacter hx with ⟨rfl, -⟩ | hb | ⟨hn, rfl⟩
    · exact absurd hc hf
    · exact absurd hb hd.2.2
    · exact ⟨hn, hc⟩
  · rintro ⟨rfl, hn⟩
    exact List.mem_flatMap.mpr ⟨newline, hn, by decide⟩

theorem escape_delimiter (hd : delimiter ≠ newline ∧ delimiter ≠ 0 ∧ delimiter ≠ ch '\\') (x y : Bytes) :
    escape (x ++ delimiter :: y) = escape x ++ delimiter :: escape y := by
  have hc : escapeCharacter delimiter = [delimiter] := by
    rw [escapeCharacter, if_neg hd.2.2, if_neg hd.1]
  rw [escape_append]
  show escape x ++ (escapeCharacter delimiter ++ escape y) = _
  rw [hc]
  rfl

/-- There are as many fields as delimiters allow, and no more than there may be. -/
theorem length_splitFields (delimiter : UInt8) (n : ℕ) (field input : Bytes) :
    (splitFields delimiter n field input).length = min n (input.count delimiter) + 1 := by
  induction input generalizing n field with
  | nil => cases n <;> simp [splitFields]
  | cons c cs ih =>
    cases n with
    | zero => simp [splitFields]
    | succ n =>
      rw [splitFields]
      by_cases hc : c = delimiter
      · rw [if_pos hc, List.length_cons, ih, hc, List.count_cons_self]
        omega
      · rw [if_neg hc, ih, List.count_cons_of_ne hc]

/-- The fields that are split off have no delimiter, and the input is made of them. -/
theorem splitFields_four {input a b c e : Bytes} (h : splitFields delimiter 3 [] input = [a, b, c, e]) :
    input = a ++ delimiter :: (b ++ delimiter :: (c ++ delimiter :: e)) ∧
      delimiter ∉ a ∧ delimiter ∉ b ∧ delimiter ∉ c := by
  have hcount := length_splitFields delimiter 3 [] input
  rw [h] at hcount
  have hthree : 3 ≤ input.count delimiter := by
    show 3 ≤ _
    have hlen : [a, b, c, e].length = 4 := rfl
    omega
  obtain ⟨x, r, rfl, hx, hsx⟩ := splitFields_mem (List.count_pos_iff.mp (by omega : 0 < input.count delimiter)) 2
  rw [List.count_append, List.count_eq_zero.mpr hx, List.count_cons_self] at hthree
  obtain ⟨y, s, rfl, hy, hsy⟩ := splitFields_mem (List.count_pos_iff.mp (by omega : 0 < r.count delimiter)) 1
  rw [List.count_append, List.count_eq_zero.mpr hy, List.count_cons_self] at hthree
  obtain ⟨z, t, rfl, hz, hsz⟩ := splitFields_mem (List.count_pos_iff.mp (by omega : 0 < s.count delimiter)) 0
  rw [hsx, hsy, hsz, splitFields] at h
  cases h
  exact ⟨rfl, hx, hy, hz⟩

/-- Two ways to cut a text at a delimiter are the same if they are the same with another byte in
its place. -/
theorem cut_unique {d s : UInt8} (hds : d ≠ s) {a e r r' t t' : Bytes} (ha : d ∉ a)
    (hd : a ++ d :: r = e ++ d :: t) (hs : a ++ s :: r' = e ++ s :: t') : a = e ∧ r = t ∧ r' = t' := by
  induction a generalizing e with
  | nil =>
    cases e with
    | nil =>
      exact ⟨rfl, (List.cons.inj hd).2, (List.cons.inj hs).2⟩
    | cons y ys =>
      have h1 : d = y := (List.cons.inj hd).1
      have h2 : s = y := (List.cons.inj hs).1
      exact absurd (h1.trans h2.symm) hds
  | cons x xs ih =>
    rw [List.mem_cons, not_or] at ha
    cases e with
    | nil => exact absurd (List.cons.inj hd).1.symm ha.1
    | cons y ys =>
      obtain ⟨h1, h2, h3⟩ := ih ha.2 (List.cons.inj hd).2 (List.cons.inj hs).2
      exact ⟨by rw [(List.cons.inj hd).1, h1], h2, h3⟩

end

/-! ### The command -/

theorem serviceCommand_ne_hostCommand (now : ℕ) (a b c e x y z : Bytes) :
    serviceCommand now a b c e ≠ hostCommand now x y z := by
  intro h
  simp only [serviceCommand, hostCommand, List.append_assoc, List.append_cancel_left_eq] at h
  have hs : ∀ t, (ascii "PROCESS_SERVICE_CHECK_RESULT;" ++ t).take 9 = ascii "PROCESS_S" := fun t =>
    (List.take_append_of_le_length (by decide)).trans (by decide)
  have hh : ∀ t, (ascii "PROCESS_HOST_CHECK_RESULT;" ++ t).take 9 = ascii "PROCESS_H" := fun t =>
    (List.take_append_of_le_length (by decide)).trans (by decide)
  have hcut := congrArg (List.take 9) h
  rw [hs, hh] at hcut
  exact absurd hcut (by decide)

/-- The fields of a check result come out escaped, in their order. -/
def Encodes (progname : Bytes) (now : ℕ) (delimiter : UInt8) (result : CheckResult) : Prop :=
  parseCheckResult progname now (result.text delimiter) delimiter = .ok (result.command now)

section

variable {progname : Bytes} {now : ℕ} {delimiter : UInt8}

theorem encodes_host_iff (hd : delimiter ≠ newline ∧ delimiter ≠ 0 ∧ delimiter ≠ ch '\\')
    (name code output : Bytes) : Encodes progname now delimiter (.host name code output) ↔
      (∀ f ∈ (CheckResult.host name code output).delimited, delimiter ∉ escape f) ∧
        (CheckResult.command now (.host name code output)).length < 2 ^ 31 := by
  unfold Encodes
  rw [parseCheckResult_eq, CheckResult.text, escape_delimiter hd, escape_delimiter hd, CheckResult.command,
    CheckResult.delimited]
  constructor
  · intro h
    obtain ⟨hlen, ⟨a, b, c, hsplit, -⟩ | ⟨a, b, c, e, -, hservice⟩⟩ := commandOfFields_eq_ok h
    · -- three fields: the only delimiters are those between them
      have hcount := length_splitFields delimiter 3 []
        (escape name ++ delimiter :: (escape code ++ delimiter :: escape output))
      have hthree : [a, b, c].length = 3 := rfl
      rw [hsplit, hthree, List.count_append, List.count_cons_self, List.count_append, List.count_cons_self] at hcount
      refine ⟨fun f hf => ?_, hlen⟩
      rw [← List.count_eq_zero]
      simp only [List.mem_cons, List.not_mem_nil, or_false] at hf
      rcases hf with rfl | rfl | rfl <;> omega
    · exact absurd hservice.symm (serviceCommand_ne_hostCommand now a b c e _ _ _)
  · rintro ⟨hf, hlen⟩
    rw [splitFields_field (hf name (by simp)), splitFields_field (hf code (by simp)),
      splitFields_last (hf output (by simp))]
    exact xasprintf_eq_ok.mpr ⟨rfl, hlen⟩

theorem encodes_service_iff (hd : delimiter ≠ newline ∧ delimiter ≠ 0 ∧ delimiter ≠ ch '\\')
    (hostName name code output : Bytes) (hsemi : delimiter = ch 'n' ∨
      ∀ f ∈ (CheckResult.service hostName name code output).delimited, delimiter ∉ escape f) :
    Encodes progname now delimiter (.service hostName name code output) ↔
      (∀ f ∈ (CheckResult.service hostName name code output).delimited, delimiter ∉ escape f) ∧
        (CheckResult.command now (.service hostName name code output)).length < 2 ^ 31 := by
  unfold Encodes
  rw [parseCheckResult_eq, CheckResult.text, escape_delimiter hd, escape_delimiter hd, escape_delimiter hd,
    CheckResult.command, CheckResult.delimited] at *
  constructor
  · intro h
    obtain ⟨hlen, ⟨a, b, c, -, hhost⟩ | ⟨a, b, c, e, hsplit, hservice⟩⟩ := commandOfFields_eq_ok h
    · exact absurd hhost (serviceCommand_ne_hostCommand now _ _ _ _ a b c)
    · refine ⟨?_, hlen⟩
      rcases hsemi with rfl | hf
      · obtain ⟨hcut, ha, hb, hc⟩ := splitFields_four hsplit
        -- the fields are cut where the command has its semicolons
        simp only [serviceCommand, List.append_assoc, List.append_cancel_left_eq] at hservice
        have hsemi : ∀ t, ascii ";" ++ t = ch ';' :: t := fun _ => rfl
        rw [hsemi, hsemi, hsemi, hsemi, hsemi, hsemi] at hservice
        obtain ⟨rfl, hcut, hservice⟩ := cut_unique (by decide) ha hcut.symm hservice.symm
        obtain ⟨rfl, hcut, hservice⟩ := cut_unique (by decide) hb hcut hservice
        obtain ⟨rfl, -, -⟩ := cut_unique (by decide) hc hcut hservice
        intro f hf
        simp only [List.mem_cons, List.not_mem_nil, or_false] at hf
        rcases hf with rfl | rfl | rfl
        · exact ha
        · exact hb
        · exact hc
      · exact hf
  · rintro ⟨hf, hlen⟩
    rw [splitFields_field (hf hostName (by simp)), splitFields_field (hf name (by simp)),
      splitFields_field (hf code (by simp)), splitFields]
    exact xasprintf_eq_ok.mpr ⟨rfl, hlen⟩

/-- **Check results keep their fields.** With a delimiter that `-d` accepts, and fields that do not
contain it: `parse_check_result()` makes the command with exactly these fields, escaped, except
where the delimiter is `n` and a field that is split off has a newline, or where the command would
be too long for `xasprintf()`. -/
theorem encodes_iff {optarg : Bytes} (hopt : delimiterOption optarg = .ok delimiter) {result : CheckResult}
    (hresult : ∀ f ∈ result.delimited, delimiter ∉ f) :
    Encodes progname now delimiter result ↔
      ¬ (delimiter = ch 'n' ∧ ∃ f ∈ result.delimited, newline ∈ f) ∧ (result.command now).length < 2 ^ 31 := by
  have hd := delimiterOption_ok hopt
  have hescape : (∀ f ∈ result.delimited, delimiter ∉ escape f) ↔
      ¬ (delimiter = ch 'n' ∧ ∃ f ∈ result.delimited, newline ∈ f) := by
    constructor
    · rintro h ⟨hn, f, hf, hnl⟩
      exact h f hf ((mem_escape_iff hd (hresult f hf)).mpr ⟨hn, hnl⟩)
    · intro h f hf hm
      obtain ⟨hn, hnl⟩ := (mem_escape_iff hd (hresult f hf)).mp hm
      exact h ⟨hn, f, hf, hnl⟩
  rw [← hescape]
  cases result with
  | host name code output => exact encodes_host_iff hd name code output
  | service hostName name code output =>
    refine encodes_service_iff hd hostName name code output ?_
    by_cases hn : delimiter = ch 'n'
    · exact .inl hn
    · exact .inr (hescape.mpr fun h => hn h.1)

end

/-- A message with a newline in it, split at commas. -/
theorem encodes_multiline : Encodes (ascii "send_nsca") 1 (ch ',')
    (.service (ascii "web") (ascii "disk") (ascii "1") (ascii "full,\nnearly")) :=
  (encodes_iff (show delimiterOption (ascii ",") = .ok (ch ',') by decide) (by decide)).mpr ⟨by decide, by decide⟩

/-- With `n` for the delimiter, the newline in a host name becomes a field boundary. -/
theorem not_encodes_newline : ¬ ∀ (progname optarg : Bytes) (now : ℕ) (delimiter : UInt8) (result : CheckResult),
    delimiterOption optarg = .ok delimiter → 0 ∉ result.text delimiter →
      (∀ f ∈ result.delimited, delimiter ∉ f) → Encodes progname now delimiter result := by
  intro h
  have hfalse := h (ascii "send_nsca") (ascii "n") 1 (ch 'n')
    (.host (ascii "web\n") (ascii "0") (ascii "up")) (by decide) (by decide) (by decide)
  exact absurd hfalse (by unfold Encodes; decide)

end NscaNg.Client
