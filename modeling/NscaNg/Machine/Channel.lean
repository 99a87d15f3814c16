/-
# Channels

One end of a channel sends a list of items, piece by piece; the other end receives them in order, also
piece by piece, and takes from the front of what it has received. What has been written and not been taken
(`outstanding`) is with the receiver, on its way, or with the sender: sending and receiving do not change
it, writing puts something at its end, and taking removes something from its front.

Where nothing is outstanding, neither end holds anything.
-/
import Mathlib.Data.List.Basic
import Mathlib.Data.List.Infix

namespace Machine

variable {α : Type}

/-- What the receiver has not taken: what it holds, what is on its way, and what the sender holds. -/
def outstanding (sent unsent received unread : List α) : List α :=
  unread ++ sent.drop received.length ++ unsent

/-- The sender passes on what it holds. -/
theorem outstanding_send {sent sent' unsent unsent' received : List α} (unread : List α)
    (hreceived : received <+: sent) (hsent : sent <+: sent') (h : sent' ++ unsent' = sent ++ unsent) :
    outstanding sent' unsent' received unread = outstanding sent unsent received unread := by
  obtain ⟨more, rfl⟩ := hsent
  have hmore : more ++ unsent' = unsent := by
    rw [List.append_assoc] at h
    exact List.append_cancel_left h
  unfold outstanding
  rw [List.drop_append_of_le_length hreceived.length_le, ← hmore]
  simp only [List.append_assoc]

/-- Something is written. -/
theorem outstanding_write {sent unsent data : List α} (received unread : List α) :
    outstanding sent (unsent ++ data) received unread = outstanding sent unsent received unread ++ data := by
  unfold outstanding
  rw [← List.append_assoc]

/-- The receiver gets some of what is on its way; what it takes of it, it takes from the front of what is
outstanding. -/
theorem outstanding_receive {sent received received' bytes : List α} (unsent unread : List α)
    (hreceived : received' <+: sent) (h : received' = received ++ bytes) :
    ∃ more, outstanding sent unsent received unread = unread ++ bytes ++ more ∧
      ∀ unread', outstanding sent unsent received' unread' = unread' ++ more := by
  obtain ⟨rest, rfl⟩ := hreceived
  have hdrop : (received' ++ rest).drop received.length = bytes ++ rest := by
    rw [h, List.append_assoc, List.drop_left]
  refine ⟨rest ++ unsent, ?_, fun unread' => ?_⟩
  · unfold outstanding
    rw [hdrop]
    simp only [List.append_assoc]
  · unfold outstanding
    rw [List.drop_left, List.append_assoc]

theorem length_unsent_le (sent unsent received unread : List α) :
    unsent.length ≤ (outstanding sent unsent received unread).length := by
  unfold outstanding
  rw [List.length_append]
  omega

/-- Where nothing is outstanding, neither end holds anything. -/
theorem outstanding_nil {sent unsent received unread : List α} (h : outstanding sent unsent received unread = []) :
    unread = [] ∧ unsent = [] := by
  unfold outstanding at h
  rw [List.append_eq_nil_iff, List.append_eq_nil_iff] at h
  exact ⟨h.1.1, h.2⟩

end Machine
