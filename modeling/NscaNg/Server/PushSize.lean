/-
# The size of a command

The size that a client announces with PUSH is read with `atoi()`, which takes what it can from the
beginning of the token, gives up at 63 bits and returns the low 32 of them. A token that is not a
numeral, or one that is too large, may so pass for another number (`pushAnswered_iff`).
-/
import NscaNg.Server.Handlers

namespace NscaNg
namespace Server

open Posix

/-- The line consists of two tokens, and the second is a decimal numeral of this value. -/
def AnnouncesSize (line : Bytes) (v : ℕ) : Prop :=
  ∃ keyword size, Words blanks line [keyword, size] ∧ (∀ c ∈ size, isDigit c = true) ∧ decimalValue size = v

/-- What is to be done with a PUSH request: OKAY stands for a size within the limit, and as many
bytes are read as command data. Otherwise there is a FAIL, and the next request is read. -/
structure PushAnswered (maxCommandSize : ℕ) (line : Bytes) : Prop where
  okay : responses (handleConnection maxCommandSize line) = [ascii "OKAY"] →
    ∃ v, AnnouncesSize line v ∧ 1 ≤ v ∧ (0 < maxCommandSize → v ≤ maxCommandSize) ∧
      requests (handleConnection maxCommandSize line) = [(.push, v)]
  fail : responses (handleConnection maxCommandSize line) ≠ [ascii "OKAY"] →
    (∃ reason, responses (handleConnection maxCommandSize line) = [ascii "FAIL " ++ reason]) ∧
      requests (handleConnection maxCommandSize line) = [(.connection, 0)]

/-- The token is read as a size within the limit. -/
def ReadAsSize (maxCommandSize : ℕ) (token : Bytes) : Prop :=
  0 < atoi token ∧ (0 < maxCommandSize → (atoi token).toNat ≤ maxCommandSize)

instance decidableReadAsSize (maxCommandSize : ℕ) (token : Bytes) : Decidable (ReadAsSize maxCommandSize token) :=
  inferInstanceAs (Decidable (_ ∧ _))

theorem not_noop_of_push {line : Bytes} (h : HasKeyword "PUSH" line) : ¬ HasKeyword "NOOP" line :=
  fun hnoop => absurd (h.unique hnoop (by decide) (by decide)) (by decide)

theorem parseLine_two {line keyword size : Bytes} (hw : Words blanks line [keyword, size]) :
    parseLine line 2 = some [keyword, size] := parseLine_eq_some_iff.mpr ⟨hw, rfl⟩

theorem size_unique {line keyword size keyword' size' : Bytes} (hw : Words blanks line [keyword, size])
    (hw' : Words blanks line [keyword', size']) : size' = size := by
  have hsame := (parseLine_two hw).symm.trans (parseLine_two hw')
  simp only [Option.some.injEq, List.cons.injEq] at hsame
  exact hsame.2.1.symm

/-- How a PUSH request is answered, by what it announces. -/
theorem handleConnection_push {line : Bytes} (h : HasKeyword "PUSH" line) (maxCommandSize : ℕ) :
    (∃ keyword size, Words blanks line [keyword, size] ∧ ReadAsSize maxCommandSize size ∧
      handleConnection maxCommandSize line = [.access, .sendResponse (ascii "OKAY"),
        .setInputLength (atoi size).toNat, .tlsRead .push (atoi size).toNat]) ∨
    ((∀ keyword size, Words blanks line [keyword, size] → ¬ ReadAsSize maxCommandSize size) ∧
      (∃ reason, responses (handleConnection maxCommandSize line) = [ascii "FAIL " ++ reason]) ∧
      requests (handleConnection maxCommandSize line) = [(.connection, 0)]) := by
  have hpush : handleConnection maxCommandSize line = _ :=
    (if_neg (not_noop_of_push h)).trans (if_pos h)
  cases hparse : parseLine line 2 with
  | none =>
    rw [hparse] at hpush
    dsimp only at hpush
    rw [hpush]
    refine Or.inr ⟨fun keyword size hw => ?_, ⟨ascii "Cannot parse PUSH request", rfl⟩, rfl⟩
    rw [parseLine_two hw] at hparse
    cases hparse
  | some args =>
    rw [hparse] at hpush
    dsimp only at hpush
    obtain ⟨hw, hlen⟩ := parseLine_eq_some_iff.mp hparse
    obtain ⟨keyword, size, rfl⟩ := List.length_eq_two.mp hlen
    have hargs : [keyword, size].getD 1 [] = size := rfl
    rw [hargs] at hpush
    by_cases hpos : atoi size ≤ 0
    · rw [if_pos hpos] at hpush
      rw [hpush]
      refine Or.inr ⟨fun keyword' size' hw' hread => ?_, ⟨ascii "Expected number of bytes", rfl⟩, rfl⟩
      rw [size_unique hw hw'] at hread
      have := hread.1
      omega
    · rw [if_neg hpos] at hpush
      by_cases hlimit : 0 < maxCommandSize ∧ maxCommandSize < (atoi size).toNat
      · rw [if_pos hlimit] at hpush
        rw [hpush]
        refine Or.inr ⟨fun keyword' size' hw' hread => ?_, ⟨ascii "PUSH data size too large", rfl⟩, rfl⟩
        rw [size_unique hw hw'] at hread
        have := hread.2 hlimit.1
        omega
      · rw [if_neg hlimit] at hpush
        refine Or.inl ⟨keyword, size, hw, ⟨by omega, fun hmax => ?_⟩, hpush⟩
        by_contra hc
        exact hlimit ⟨hmax, by omega⟩

/-- **Sizes.** A PUSH request is answered as it should be exactly if its size, where the server takes
it for one within the limit, is a decimal numeral that an `int` can hold. -/
theorem pushAnswered_iff {line : Bytes} (h : HasKeyword "PUSH" line) (maxCommandSize : ℕ) :
    PushAnswered maxCommandSize line ↔
      ∀ keyword size, Words blanks line [keyword, size] → ReadAsSize maxCommandSize size →
        (∀ c ∈ size, isDigit c = true) ∧ decimalValue size < 2 ^ 31 := by
  rcases handleConnection_push h maxCommandSize with ⟨keyword, size, hw, hread, hacts⟩ | ⟨hnone, hfail, hreq⟩
  · constructor
    · intro hans keyword' size' hw' _
      obtain rfl := size_unique hw hw'
      obtain ⟨v, ⟨keyword'', size'', hw'', hdigits, hval⟩, -, -, hreq⟩ := hans.okay (by rw [hacts]; rfl)
      obtain rfl := size_unique hw hw''
      have hv : (atoi size'').toNat = v := by
        rw [hacts] at hreq
        simpa [requests] using hreq
      have hpos := hread.1
      exact ⟨hdigits, (atoi_digits_iff hdigits).mp (by omega)⟩
    · intro hgood
      obtain ⟨hdigits, hlt⟩ := hgood keyword size hw hread
      have hval := (atoi_digits_iff hdigits).mpr hlt
      obtain ⟨hpos, hlimit⟩ := hread
      refine ⟨fun _ => ⟨(atoi size).toNat, ⟨keyword, size, hw, hdigits, by omega⟩, by omega, hlimit, ?_⟩,
        fun hne => ?_⟩
      · rw [hacts]
        rfl
      · rw [hacts] at hne
        exact absurd rfl hne
  · refine ⟨fun _ keyword size hw hread => absurd hread (hnone keyword size hw), fun _ => ⟨fun hok => ?_, fun _ => ⟨hfail, hreq⟩⟩⟩
    obtain ⟨reason, hreason⟩ := hfail
    rw [hreason] at hok
    have hhead := congrArg (fun r => (r.headD []).headD 0) hok
    exact absurd hhead (by simp [ascii])

theorem pushAnswered_iff_seven : HasKeyword "PUSH" (ascii "push 7") ∧
    (PushAnswered 16384 (ascii "push 7") ↔
      ∀ keyword size, Words blanks (ascii "push 7") [keyword, size] → ReadAsSize 16384 size →
        (∀ c ∈ size, isDigit c = true) ∧ decimalValue size < 2 ^ 31) :=
  ⟨by decide, pushAnswered_iff (by decide) 16384⟩

/-- A size beyond 32 bits gets round the limit. -/
theorem not_pushAnswered : ¬ ∀ (maxCommandSize : ℕ) (line : Bytes), HasKeyword "PUSH" line →
    PushAnswered maxCommandSize line := by
  intro h
  obtain ⟨v, ⟨keyword, size, hw, -, hval⟩, -, hlimit, -⟩ :=
    (h 16384 (ascii "PUSH 4294967301") (by decide)).okay (by decide)
  have hparse : parseLine (ascii "PUSH 4294967301") 2 = some [ascii "PUSH", ascii "4294967301"] := by decide
  have hsize := size_unique (parseLine_eq_some_iff.mp hparse).1 hw
  have hv : decimalValue (ascii "4294967301") = 4294967301 := by decide
  rw [hsize, hv] at hval
  have := hlimit (by decide)
  omega

end Server
end NscaNg
