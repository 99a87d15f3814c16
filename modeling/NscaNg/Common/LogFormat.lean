/-
# The rewritten format

In the rewritten form of a format the text of the error stands for each `%m`, and one percent sign for each
`%%`. The loop of `vlog()` makes it in steps, of one byte or more; it takes no step from 510 bytes on. So a
form that fits into `out_fmt` is there as a whole unless it has 511 bytes and the last one is a step of its
own (`outFmt_eq`).
-/
import NscaNg.Common.Log

namespace NscaNg.Common

open Posix Memory
open Posix.Printf (Piece Conversion tokenize isModifier)

/-- What a token becomes. -/
def rewritePiece (err : Bytes) : Piece → Bytes
  | .literal c => [c]
  | .percent => [ch '%']
  | .errno => err
  | .conversion c => (Piece.conversion c).source

/-- The rewritten form of a format. -/
def rewritten (err : Bytes) (ts : List Piece) : Bytes := ts.flatMap (rewritePiece err)

/-- The steps of the loop for a token: the percent sign of a conversion is stored with the byte behind it. -/
def pieceSteps (err : Bytes) : Piece → List Bytes
  | .literal c => [[c]]
  | .percent => [[ch '%']]
  | .errno => [err]
  | .conversion c =>
    match c.mods ++ [c.letter] with
    | [] => []
    | b :: bs => [ch '%', b] :: bs.map fun b => [b]

/-- The steps that store something. -/
def steps (err : Bytes) (ts : List Piece) : List Bytes := (ts.flatMap (pieceSteps err)).filter (· ≠ [])

/-- The rewritten form fills `out_fmt` to its last byte, and that byte is a step of its own. -/
def LastByteAlone (err : Bytes) (ts : List Piece) : Prop :=
  (rewritten err ts).length = 511 ∧ (steps err ts).getLast?.map List.length = some 1

instance (err : Bytes) (ts : List Piece) : Decidable (LastByteAlone err ts) :=
  inferInstanceAs (Decidable (_ ∧ _))

/-- What stands in `out_fmt` behind these steps. -/
def fill : Bytes → List Bytes → Bytes
  | out, [] => out
  | out, s :: rest => if out.length < 510 then fill (out ++ s.take (511 - out.length)) rest else out

/-! ### The steps of the loop -/

theorem fill_of_full {out : Bytes} (h : 510 ≤ out.length) (rest : List Bytes) : fill out rest = out := by
  cases rest with
  | nil => rfl
  | cons s rest => rw [fill, if_neg (Nat.not_lt.mpr h)]

theorem fill_step {out s : Bytes} (h : out.length < 510) (hs : out.length + s.length ≤ 511) (rest : List Bytes) :
    fill out (s :: rest) = fill (out ++ s) rest := by
  rw [fill, if_pos h, List.take_of_length_le (by omega)]

theorem fill_append (out : Bytes) (s t : List Bytes) : fill out (s ++ t) = fill (fill out s) t := by
  induction s generalizing out with
  | nil => rfl
  | cons step s ih =>
    rw [List.cons_append, fill, fill]
    split
    · exact ih _
    · next h => exact (fill_of_full (Nat.not_lt.mp h) t).symm

theorem rewriteLoop_of_full {err : Bytes} {r : Rewriting} (h : 510 ≤ r.out.length) (inFmt : Bytes) :
    rewriteLoop err r inFmt = r := by
  cases inFmt with
  | nil => rfl
  | cons c rest =>
    rw [rewriteLoop]
    exact if_neg (Nat.not_lt.mpr h)

theorem rewriteLoop_append (err : Bytes) (r : Rewriting) (s t : Bytes) :
    rewriteLoop err r (s ++ t) = rewriteLoop err (rewriteLoop err r s) t := by
  induction s generalizing r with
  | nil => rfl
  | cons c s ih =>
    rw [List.cons_append, rewriteLoop, rewriteLoop]
    split
    · exact ih _
    · next h => exact (rewriteLoop_of_full (Nat.not_lt.mp h) t).symm

theorem rewriteLoop_cons {err : Bytes} {r : Rewriting} (h : r.out.length < 510) (c : UInt8) (rest : Bytes) :
    rewriteLoop err r (c :: rest) = rewriteLoop err (rewriteByte err r c) rest := by
  rw [rewriteLoop]
  exact if_pos h

theorem copyError_eq (err out : Bytes) : copyError err out = out ++ err.take (511 - out.length) := by
  induction err generalizing out with
  | nil => rw [copyError, List.take_nil, List.append_nil]
  | cons e err ih =>
    rw [copyError, outFmtSize]
    by_cases h : out.length < 511
    · rw [if_pos h, ih, show 511 - out.length = 511 - (out ++ [e]).length + 1 by simp; omega, List.take_succ_cons,
        List.append_assoc]
      rfl
    · rw [if_neg h, show 511 - out.length = 0 by omega, List.take_zero, List.append_nil]

/-- Bytes without a percent sign are copied. -/
theorem rewriteLoop_bytes {err text : Bytes} (h : ch '%' ∉ text) (out : Bytes) :
    rewriteLoop err ⟨.normal, out⟩ text = ⟨.normal, fill out (text.map fun b => [b])⟩ := by
  induction text generalizing out with
  | nil => rfl
  | cons c text ih =>
    rw [List.mem_cons, not_or] at h
    rcases lt_or_ge out.length 510 with hlt | hge
    · have hbyte : rewriteByte err ⟨.normal, out⟩ c = ⟨.normal, out ++ [c]⟩ := by
        rw [rewriteByte, if_neg (Ne.symm h.1), if_neg (fun h => nomatch h.2), if_neg (fun h => nomatch h)]
      rw [rewriteLoop_cons hlt, hbyte, ih h.2, List.map_cons, fill_step hlt (by rw [List.length_singleton]; omega)]
    · rw [rewriteLoop_of_full hge, fill_of_full hge]

theorem percent_notMem_mods (c : Conversion) : ch '%' ∉ c.mods ++ [c.letter] := by
  rw [List.mem_append, List.mem_singleton, not_or]
  exact ⟨fun h => Printf.ne_percent_of_isModifier (c.isModifier_mods _ h) rfl,
    (Printf.ne_percent_of_mem_letters _ c.letter_mem).symm⟩

/-- The loop over a token, from where it stores. -/
theorem rewriteLoop_token {err out : Bytes} (h : out.length < 510) {t : Piece} (ht : t.Proper) :
    rewriteLoop err ⟨.normal, out⟩ t.source = ⟨.normal, fill out (pieceSteps err t)⟩ := by
  have hpercent : rewriteByte err ⟨.normal, out⟩ (ch '%') = ⟨.percent, out⟩ := by
    rw [rewriteByte, if_pos rfl, if_neg (fun h => nomatch h)]
  cases t with
  | literal c => exact rewriteLoop_bytes (fun hmem => ht (List.mem_singleton.mp hmem).symm) out
  | percent =>
    have hbyte : rewriteByte err ⟨.percent, out⟩ (ch '%') = ⟨.normal, out ++ [ch '%']⟩ := by
      rw [rewriteByte, if_pos rfl, if_pos rfl]
    rw [pieceSteps, fill_step h (by rw [List.length_singleton]; omega),
      show Piece.percent.source = [ch '%', ch '%'] from rfl, rewriteLoop_cons h, hpercent, rewriteLoop_cons h, hbyte]
    rfl
  | errno =>
    have hbyte : rewriteByte err ⟨.percent, out⟩ (ch 'm') = ⟨.normal, copyError err out⟩ := by
      rw [rewriteByte, if_neg (by decide), if_pos ⟨rfl, rfl⟩]
    rw [pieceSteps, fill, if_pos h, show Piece.errno.source = [ch '%', ch 'm'] from rfl, rewriteLoop_cons h,
      hpercent, rewriteLoop_cons h, hbyte, copyError_eq]
    rfl
  | conversion c =>
    have hnot := percent_notMem_mods c
    rw [pieceSteps, Piece.source, rewriteLoop_cons h, hpercent]
    cases hbytes : c.mods ++ [c.letter] with
    | nil => exact absurd hbytes (by simp)
    | cons b bs =>
      rw [hbytes, List.mem_cons, not_or] at hnot
      have hm : b ≠ ch 'm' := by
        rintro rfl
        cases hmods : c.mods with
        | nil =>
          rw [hmods] at hbytes
          exact Printf.ne_m_of_mem_letters _ c.letter_mem (List.cons.inj hbytes).1
        | cons d mods =>
          rw [hmods] at hbytes
          have hd := c.isModifier_mods d (hmods ▸ List.mem_cons_self)
          rw [(List.cons.inj hbytes).1] at hd
          exact absurd hd (by decide)
      have hbyte : rewriteByte err ⟨.percent, out⟩ b = ⟨.normal, out ++ [ch '%', b]⟩ := by
        rw [rewriteByte, if_neg (Ne.symm hnot.1), if_neg fun h => hm h.1, if_pos rfl, List.append_assoc]
        rfl
      rw [rewriteLoop_cons h, hbyte, rewriteLoop_bytes hnot.2,
        fill_step h (by rw [List.length_cons, List.length_singleton]; omega)]

/-- The loop takes the steps of the tokens. -/
theorem rewriteLoop_tokens {err out : Bytes} {ts : List Piece} (h : ∀ t ∈ ts, t.Proper) :
    (rewriteLoop err ⟨.normal, out⟩ (ts.flatMap Piece.source)).out = fill out (ts.flatMap (pieceSteps err)) := by
  induction ts generalizing out with
  | nil => rfl
  | cons t ts ih =>
    obtain ⟨ht, hts⟩ := List.forall_mem_cons.mp h
    rw [List.flatMap_cons, List.flatMap_cons, fill_append]
    rcases lt_or_ge out.length 510 with hlt | hge
    · rw [rewriteLoop_append, rewriteLoop_token hlt ht, ih hts]
    · rw [rewriteLoop_of_full hge, fill_of_full hge, fill_of_full hge]

/-! ### Where they end -/

theorem flatten_pieceSteps (err : Bytes) (t : Piece) : (pieceSteps err t).flatten = rewritePiece err t := by
  cases t with
  | literal c => rfl
  | percent => rfl
  | errno => exact List.append_nil err
  | conversion c =>
    rw [pieceSteps, rewritePiece, Piece.source]
    cases hbytes : c.mods ++ [c.letter] with
    | nil => exact absurd hbytes (by simp)
    | cons b bs =>
      rw [List.flatten_cons, ← List.flatMap_def, List.flatMap_singleton']
      rfl

theorem flatten_steps (err : Bytes) (ts : List Piece) : (ts.flatMap (pieceSteps err)).flatten = rewritten err ts := by
  induction ts with
  | nil => rfl
  | cons t ts ih =>
    rw [List.flatMap_cons, List.flatten_append, ih, flatten_pieceSteps]
    rfl

/-- Steps that store one byte together: there is one of them. -/
theorem filter_of_flatten_singleton {cs : List Bytes} {b : UInt8} (h : cs.flatten = [b]) :
    cs.filter (· ≠ []) = [[b]] := by
  have hflat : (cs.filter (· ≠ [])).flatten = [b] := by rw [List.flatten_filter_ne_nil, h]
  have hne : ∀ s ∈ cs.filter (· ≠ []), s ≠ [] := fun s hs => by simpa using (List.mem_filter.mp hs).2
  cases hcs : cs.filter (· ≠ []) with
  | nil =>
    rw [hcs] at hflat
    cases hflat
  | cons s rest =>
    rw [hcs] at hflat hne
    obtain ⟨hs, hrest⟩ := List.forall_mem_cons.mp hne
    rw [List.flatten_cons] at hflat
    rcases List.append_eq_singleton_iff.mp hflat with ⟨hnil, -⟩ | ⟨hs', hnil⟩
    · exact absurd hnil hs
    · cases rest with
      | nil => rw [hs']
      | cons t rest => exact absurd (List.append_eq_nil_iff.mp hnil).1 (hrest t List.mem_cons_self)

/-- What the steps leave, if all of them fit: everything, or everything but the last byte. -/
theorem fill_eq (out : Bytes) (cs : List Bytes) (h : out.length + cs.flatten.length ≤ 511) :
    (¬ (out.length + cs.flatten.length = 511 ∧ (cs.filter (· ≠ [])).getLast?.map List.length = some 1) →
        fill out cs = out ++ cs.flatten) ∧
      (out.length + cs.flatten.length = 511 → (cs.filter (· ≠ [])).getLast?.map List.length = some 1 →
        ∃ b, fill out cs ++ [b] = out ++ cs.flatten) := by
  induction cs generalizing out with
  | nil => exact ⟨fun _ => (List.append_nil out).symm, fun _ hlast => nomatch hlast⟩
  | cons s rest ih =>
    rcases lt_or_ge out.length 510 with hlt | hge
    · rw [List.flatten_cons, List.length_append] at h
      have hrest := ih (out ++ s) (by rw [List.length_append]; omega)
      rw [fill_step hlt (by omega), List.flatten_cons, List.length_append, ← List.append_assoc, ← Nat.add_assoc,
        ← List.length_append]
      cases hf : rest.filter (· ≠ []) with
      | nil =>
        -- the step is the last one: it starts before the byte that would be lost
        have hnil : rest.flatten = [] := by rw [← List.flatten_filter_ne_nil, hf]; rfl
        rw [hf] at hrest
        refine ⟨fun _ => hrest.1 fun hlast => (nomatch hlast.2), fun hfull hlast => ?_⟩
        rw [hnil, List.length_nil, Nat.add_zero, List.length_append] at hfull
        rw [List.filter_cons, hf] at hlast
        split at hlast
        · have hs : s.length = 1 := Option.some.inj hlast
          omega
        · cases hlast
      | cons t ts =>
        have hlast : ((s :: rest).filter (· ≠ [])).getLast? = (rest.filter (· ≠ [])).getLast? := by
          rw [List.filter_cons]
          split
          · rw [hf, List.getLast?_cons_cons]
          · rfl
        rw [hlast]
        exact hrest
    · rw [fill_of_full hge]
      rcases Nat.eq_zero_or_pos (s :: rest).flatten.length with hzero | hpos
      · rw [List.length_eq_zero_iff] at hzero
        refine ⟨fun _ => by rw [hzero, List.append_nil], fun _ hlast => ?_⟩
        rw [hzero, List.length_nil] at h
        have hf : (s :: rest).filter (· ≠ []) = [] := by
          rw [List.filter_eq_nil_iff]
          exact fun t ht => by simpa using List.flatten_eq_nil_iff.mp hzero t ht
        rw [hf] at hlast
        cases hlast
      · obtain ⟨b, hb⟩ := List.length_eq_one_iff.mp (show (s :: rest).flatten.length = 1 by omega)
        rw [hb] at h ⊢
        refine ⟨fun hnot => absurd ⟨?_, ?_⟩ hnot, fun _ _ => ⟨b, rfl⟩⟩
        · rw [List.length_singleton] at h ⊢
          omega
        · rw [filter_of_flatten_singleton hb]
          rfl

/-- **What stands in `out_fmt`** for a format whose rewritten form fits. -/
theorem outFmt_eq {err inFmt : Bytes} {ts : List Piece} (hts : tokenize inFmt = some ts)
    (hfits : (rewritten err ts).length < 512) :
    (¬ LastByteAlone err ts → outFmt err inFmt = rewritten err ts) ∧
      (LastByteAlone err ts → ∃ b, outFmt err inFmt ++ [b] = rewritten err ts) := by
  have hloop : outFmt err inFmt = fill [] (ts.flatMap (pieceSteps err)) := by
    rw [← rewriteLoop_tokens (Printf.proper_tokenizeFrom hts), Printf.source_tokenize hts, outFmt]
  have hflat := flatten_steps err ts
  have h := fill_eq [] (ts.flatMap (pieceSteps err)) (by rw [hflat, List.length_nil]; omega)
  rw [hflat, List.length_nil, Nat.zero_add] at h
  rw [hloop]
  exact ⟨fun hnot => h.1 hnot, fun halone => h.2 halone.1 halone.2⟩

end NscaNg.Common
