/-
# Two connections and the channel between them

What one connection has written and the other has not taken: `way`. It changes only at its ends (`Flow.way_sent`,
`Flow.way_taken`), whatever is sent and received in the meantime, and a request is answered from its front.
-/
import NscaNg.Common.TlsLines
import NscaNg.Common.TlsStreams
import NscaNg.Machine.Channel

namespace NscaNg
namespace Tls

open Posix

variable {η θ : Type}

/-- What has been written to a connection and not been taken from the other one. -/
def way (s : State η) (t : State θ) : Bytes :=
  Machine.outstanding s.history.sent s.unsent t.history.received t.unread

/-- What has been received has been sent. -/
def Wired (s : State η) (t : State θ) : Prop := t.history.received <+: s.history.sent

/-- A request has been answered from the front of the bytes, if one is given. -/
def Taken (taken : Option (Request × Bytes)) (before after : Bytes) : Prop :=
  match taken with
  | none => after = before
  | some (r, data) => answer r before = some (data, after)

theorem Flow.wired {taken : Option (Request × Bytes)} {written : Bytes} {s s' : State η} {t : State θ}
    (h : Flow taken written s s') (hw : Wired s t) : Wired s' t := hw.trans h.sent

/-- What is written goes to the end. -/
theorem Flow.outstanding_sent {taken : Option (Request × Bytes)} {written : Bytes} {s s' : State η}
    (received unread : Bytes) (h : Flow taken written s s') (hw : received <+: s.history.sent) :
    Machine.outstanding s'.history.sent s'.unsent received unread =
      Machine.outstanding s.history.sent s.unsent received unread ++ written := by
  have hstream : s'.history.sent ++ s'.unsent = s.history.sent ++ (s.unsent ++ written) := by
    rw [h.stream, List.append_assoc]
  rw [Machine.outstanding_send unread hw h.sent hstream, Machine.outstanding_write]

/-- What is taken comes from the front. -/
theorem Flow.outstanding_taken {taken : Option (Request × Bytes)} {written : Bytes} {sent : Bytes} (unsent : Bytes)
    {t t' : State θ} (h : Flow taken written t t') (hw : t'.history.received <+: sent) :
    Taken taken (Machine.outstanding sent unsent t.history.received t.unread)
      (Machine.outstanding sent unsent t'.history.received t'.unread) := by
  obtain ⟨bytes, hreceived, htaken⟩ := h.received
  obtain ⟨more, hbefore, hafter⟩ := Machine.outstanding_receive unsent t.unread hw hreceived
  rw [hbefore, hafter]
  cases taken with
  | none => exact congrArg (· ++ more) htaken
  | some request => exact answer_append htaken more

theorem Flow.way_sent {taken : Option (Request × Bytes)} {written : Bytes} {s s' : State η} {t : State θ}
    (h : Flow taken written s s') (hw : Wired s t) : way s' t = way s t ++ written := h.outstanding_sent _ _ hw

theorem Flow.way_taken {taken : Option (Request × Bytes)} {written : Bytes} {s : State η} {t t' : State θ}
    (h : Flow taken written t t') (hw : Wired s t') : Taken taken (way s t) (way s t') := h.outstanding_taken _ hw

theorem way_nil {s : State η} {t : State θ} (h : way s t = []) : t.inputBuffer = [] ∧ s.unsent = [] := by
  obtain ⟨hunread, hunsent⟩ := Machine.outstanding_nil h
  exact ⟨(List.append_eq_nil_iff.mp hunread).2, hunsent⟩

theorem length_unsent_le_way (s : State η) (t : State θ) : s.unsent.length ≤ (way s t).length :=
  Machine.length_unsent_le _ _ _ _

/-! ### What is asked for -/

theorem answer_nil (n : ℕ) : answer (.ofSize n) [] = none := by
  unfold Request.ofSize
  by_cases hn : n = 0
  · rw [if_pos hn]
    exact bufferReadLine_eq_none.mpr List.not_mem_nil
  · rw [if_neg hn]
    exact if_neg (by rw [List.length_nil]; omega)

/-- A line that ends as lines end is read as it is. -/
theorem answer_line {line : Bytes} (hline : newline ∉ line) (hnul : 0 ∉ line) (rest : Bytes) :
    ∃ data, answer .line (line ++ lineTerminator ++ rest) = some (data, rest) ∧ cstr data = line := by
  have hreturn : newline ∉ line ++ [ch '\r'] ∧ 0 ∉ line ++ [ch '\r'] := by
    refine ⟨fun h => ?_, fun h => ?_⟩
    · rcases List.mem_append.mp h with h | h
      · exact hline h
      · exact absurd (List.mem_singleton.mp h) (by decide)
    · rcases List.mem_append.mp h with h | h
      · exact hnul h
      · exact absurd (List.mem_singleton.mp h) (by decide)
  have hsplit : line ++ lineTerminator ++ rest = (line ++ [ch '\r']) ++ newline :: rest := by
    rw [show lineTerminator = [ch '\r'] ++ [newline] from rfl]
    simp only [List.append_assoc, List.cons_append, List.nil_append]
  refine ⟨terminateLine (line ++ [ch '\r'] ++ [newline]), ?_, ?_⟩
  · rw [hsplit]
    exact bufferReadLine_line hreturn.1 rest
  · rw [cstr_terminateLine hreturn.2]
    unfold chomp
    rw [List.getLast?_concat, if_pos rfl, List.dropLast_concat]

/-- A line that ends with a newline alone is read as it is, if it has no CR at its end. -/
theorem answer_newline {line : Bytes} (hline : newline ∉ line) (hnul : 0 ∉ line) (hlast : line.getLast? ≠ some (ch '\r'))
    (rest : Bytes) : ∃ data, answer .line (line ++ newline :: rest) = some (data, rest) ∧ cstr data = line := by
  refine ⟨terminateLine (line ++ [newline]), bufferReadLine_line hline rest, ?_⟩
  rw [cstr_terminateLine hnul, chomp, if_neg hlast]

theorem answer_block {block : Bytes} (h : block ≠ []) (rest : Bytes) :
    answer (.ofSize block.length) (block ++ rest) = some (block ++ [0], rest) := by
  have hsize : Request.ofSize block.length = .bytes block.length :=
    if_neg fun hzero => h (List.length_eq_zero_iff.mp hzero)
  rw [hsize]
  show (if _ then _ else _) = _
  rw [if_pos (by rw [List.length_append]; omega), List.take_left, List.drop_left]

end Tls
end NscaNg
