/-
# What a `commands` pattern accepts

The manual promises a pattern that matches the whole command text, with an implicit `^` at its
beginning and `$` at its end. `parse_command_pattern_cb()` writes them around the pattern as
text, with an optional newline before the `$`, and the command is matched with its newline.
The answer is the promised one for the patterns and texts with `AnchorsHold`
(`commandAuthorizes_full`): three things can go wrong.

* A pattern with alternatives loses the anchors: `^a|b\n?$` begins with `a` or ends with `b`.
* The pattern itself may need the newline of the command, as `.` can.
* A `$` of the pattern holds behind the newline only.

A pattern with none of the three is safe on every text (`anchorsHold_of_plain`), and so is one
that ends with `.*` (`anchorsHold_of_rest`).
-/
import NscaNg.Posix.Splice
import NscaNg.Server.Conf

namespace NscaNg

open Posix

/-- Whether a `commands` pattern accepts the command text `s`, which is matched with its newline. -/
def commandAuthorizes (pattern s : Bytes) : Bool :=
  match parseCommandPatternCb (ascii "commands") pattern with
  | .ok re => matchPattern posixRegexec re (s ++ [newline])
  | .error _ => false

/-- What the optional newline and the `$` leave behind a match. -/
def AtEnd (post : Bytes) : Prop := post = [] ∨ post = [newline]

/-- An alternative of the pattern matches something else than the text in front of its newline:
only the first one is held to the beginning of the text and only the last one to its end, and any of
them may match the newline too. What the match can spare is no matter. -/
def StrayMatch (re : Regex) (s : Bytes) : Prop :=
  re.Astray (· = []) AtEnd (fun _ pre mid _ => pre = [] ∧ mid = s) (s ++ [newline])

/-- The pattern fits between the anchors on this text: nothing of it matches astray, and no
alternative with a `$` would match the text if the `$` were left out. -/
structure AnchorsHold (re : Regex) (s : Bytes) : Prop where
  noStray : ¬ StrayMatch re s
  ends : ∀ b ∈ re, (seq b).eolFree = true ∨ ¬ (seq b).bare.Full s

theorem parseCommandPatternCb_ok {setting pattern : Bytes} {re : Regex} (h : regcomp pattern = some re) :
    parseCommandPatternCb setting pattern = .ok (glue [[.bol]] (glue re [optEnd newline])) := by
  have hbol : regcomp (ascii "^") = some [[.bol]] := by decide
  have hend : regcomp (ascii "\n?$") = some [optEnd newline] := by decide
  have hre := regcomp_append hbol (regcomp_append h hend)
  rw [← List.append_assoc] at hre
  simp only [parseCommandPatternCb, hre]

theorem matchPattern_posix {re : Regex} {text : Bytes} :
    matchPattern posixRegexec re text = true ↔ re.Search text := by
  rw [matchPattern_iff, posixRegexec, ← regexec_iff]
  split <;> simp_all

theorem commandAuthorizes_eq {pattern : Bytes} {re : Regex} (h : regcomp pattern = some re) (s : Bytes) :
    commandAuthorizes pattern s = true ↔
      Regex.Search (glue [[.bol]] (glue re [optEnd newline])) (s ++ [newline]) := by
  simp only [commandAuthorizes, parseCommandPatternCb_ok h, matchPattern_posix]

theorem matches_bol {pre mid post : Bytes} :
    (seq [.bol]).Matches pre mid post ↔ pre = [] ∧ mid = [] := by
  rw [← matches_anchored]
  rfl

theorem opens_bol : (seq [.bol]).Opens (· = []) := by
  intro pre rest
  simp only [matches_bol]
  constructor
  · rintro ⟨_, _, rfl, rfl, rfl⟩
    rfl
  · rintro rfl
    exact ⟨[], [], rfl, rfl, rfl⟩

theorem closes_optEnd : (seq (optEnd newline)).Closes AtEnd := by
  intro pre post
  simp only [matches_optEnd, AtEnd]
  constructor
  · rintro ⟨q, _, rfl, rfl, rfl | rfl⟩
    · exact Or.inr rfl
    · exact Or.inl rfl
  · rintro (rfl | rfl)
    · exact ⟨[], [], rfl, rfl, Or.inr rfl⟩
    · exact ⟨[newline], [], rfl, rfl, Or.inl rfl⟩

/-- A match astray is as good as any other. -/
theorem commandAuthorizes_of_stray {pattern : Bytes} {re : Regex} (h : regcomp pattern = some re) {s : Bytes}
    (hs : StrayMatch re s) : commandAuthorizes pattern s = true :=
  (commandAuthorizes_eq h s).mpr (search_glue_of_astray opens_bol closes_optEnd (regcomp_ne_nil h) hs)

/-- A pattern without alternatives at its top and without `$` fits if it needs no newline: what it
matches up to the end of the command can do without that. -/
theorem anchorsHold_of_single {b : List Ere} (heol : (seq b).eolFree = true) {s : Bytes}
    (hb : (seq b).Matches [] (s ++ [newline]) [] → (seq b).Spares [] s [newline] []) : AnchorsHold [b] s where
  ends := by
    intro c hc
    obtain rfl := List.mem_singleton.mp hc
    exact Or.inl heol
  noStray := by
    rintro ⟨c, pre, mid, post, he, ht, hno⟩
    obtain ⟨rfl, hm, rfl, rfl | rfl⟩ := ht.of_single
    · obtain rfl : s ++ [newline] = mid := by simpa using he
      exact hno ⟨s, [newline], rfl, hb hm, rfl, rfl⟩
    · obtain rfl : s = mid := by simpa using he
      exact hno ⟨s, [], by simp, hm.spares, rfl, rfl⟩

/-- A pattern that matches no newline. -/
theorem anchorsHold_of_plain {b : List Ere} (hnl : (seq b).avoids newline = true)
    (heol : (seq b).eolFree = true) (s : Bytes) : AnchorsHold [b] s :=
  anchorsHold_of_single heol fun h =>
    absurd (List.mem_append_right s (List.mem_singleton_self newline)) (h.notMem hnl)

/-- A pattern that ends with `.*` and matches no newline in front of that. -/
theorem anchorsHold_of_rest {b : List Ere} (hnl : (seq b).avoids newline = true)
    (heol : (seq b).eolFree = true) (s : Bytes) : AnchorsHold [b ++ [Ere.any.rep 0 none]] s := by
  refine anchorsHold_of_single ?_ fun h => ?_
  · clear hnl
    induction b with
    | nil => rfl
    | cons p ps ih =>
      obtain ⟨hp, hps⟩ := Bool.and_eq_true_iff.mp heol
      exact Bool.and_eq_true_iff.mpr ⟨hp, ih hps⟩
  · obtain ⟨m₁, m₂, he, h1, -⟩ := matches_seq_append.mp h
    rcases List.eq_nil_or_concat m₂ with rfl | ⟨m, c, rfl⟩
    · -- the newline would be in `m₁`
      have hmem : newline ∈ m₁ := by
        rw [List.append_nil] at he
        rw [← he]
        exact List.mem_append_right s (List.mem_singleton_self newline)
      exact absurd hmem (h1.notMem hnl)
    · rw [List.concat_eq_append, ← List.append_assoc] at he
      obtain ⟨rfl, hc⟩ := List.append_inj' he rfl
      obtain rfl := List.singleton_inj.mp hc
      exact spares_seq_append (by simpa using h1) spares_star_any

end NscaNg
