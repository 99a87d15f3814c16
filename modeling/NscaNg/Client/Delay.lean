/-
# The delay at the start

`src/client/send_nsca.c`: the client may be told to wait a random time before it connects, with `-D` or
with the variable `delay`. `main()` compares the variable, a `long`, with 0 and hands it on as an
`unsigned int`, of which `random_number()` makes the modulus. What is 0 only after the conversion, and what
is negative before it, is not caught by the comparison (`startUp_bounded_iff`). Where there is `nanosleep()` (`nanosleep`), the modulus is the delay itself, and otherwise one more.
-/
import NscaNg.Client.Conf

namespace NscaNg.Client

open Posix

/-- What the start-up does about the delay: it goes on, asks to sleep for so many nanoseconds, or computes
a remainder modulo 0. -/
inductive Pause where
  | awake
  | asks (nanoseconds : ℕ)
  | modulusZero
  deriving DecidableEq

/-- `random_number()`, with what `RAND_bytes()` leaves in its variable; `none` for a modulus of 0. -/
def randomNumber (value : UInt64) (range : ℕ) : Option ℕ := if range = 0 then none else some (value.toNat % range)

/-- `delay_execution()`, with the values of its calls of `random_number()`; an `unsigned int` has 32 bits. -/
def delayExecution (nanosleep : Bool) (maxDelay : ℕ) (value value' : UInt64) : Pause :=
  if nanosleep then
    match randomNumber value maxDelay, randomNumber value' 1000000000 with
    | some seconds, some nanoseconds => .asks (seconds * 10 ^ 9 + nanoseconds)
    | _, _ => .modulusZero
  else
    match randomNumber value ((maxDelay + 1) % 2 ^ 32) with
    | some seconds => .asks (seconds * 10 ^ 9)
    | none => .modulusZero

/-- The comparison in `main()`, and the call of `delay_execution()`. -/
def pauseFor (nanosleep : Bool) (delay : ℤ) (value value' : UInt64) : Pause :=
  if delay ≠ 0 then delayExecution nanosleep (delay % 2 ^ 32).toNat value value' else .awake

/-! ### Where the delay comes from -/

/-- The argument of `-D`. -/
def delayOption (optarg : Bytes) : Except Bytes ℤ :=
  if atoi optarg < 0 then .error (ascii "-D argument must be a positive integer") else .ok (atoi optarg)

/-- `get_options()` on the arguments of its `-D` options, of which the last one counts. -/
def delayOptions (optargs : List Bytes) : Except Bytes ℤ := optargs.foldlM (fun _ optarg => delayOption optarg) (-1)

/-- `conf_getint()` on a variable, `none` where it has no number to return. -/
def confGetInt (cfg : List Conf) (key : Bytes) : Option ℤ :=
  match lookupConf cfg key with
  | .ok ⟨_, .integer i⟩ => some i
  | _ => none

/-- `conf_setint(cfg, "delay", ...)` in `main()`, if there was a `-D` option. -/
def overrideDelay (delay : ℤ) (cfg : List Conf) : Except Bytes (List Conf) :=
  if delay ≠ -1 then confSetInt cfg (ascii "delay") delay else .ok cfg

/-- The value of `delay` that `main()` finds, from the arguments of the `-D` options and the file. -/
def acceptedDelay (path content : Bytes) (optargs : List Bytes) : Except Stop (Option ℤ) := do
  let delay ← (delayOptions optargs).mapError Stop.died
  let cfg ← parseConfFile path content confDefaults
  let cfg ← (overrideDelay delay cfg).mapError Stop.died
  return confGetInt cfg (ascii "delay")

/-- `main()` up to the connection, as far as it is about the delay. -/
def startUp (nanosleep : Bool) (path content : Bytes) (optargs : List Bytes) (value value' : UInt64) :
    Except Stop (Option Pause) :=
  (acceptedDelay path content optargs).map fun delay => delay.map fun d => pauseFor nanosleep d value value'

/-! ### What may be asked -/

/-- The sleep is at most the delay, and there is none for a delay of 0 or less. -/
def Bounded (delay : ℤ) : Pause → Prop
  | .awake => True
  | .asks nanoseconds => 0 < delay ∧ (nanoseconds : ℤ) ≤ delay * 10 ^ 9
  | .modulusZero => False

instance (delay : ℤ) : ∀ p : Pause, Decidable (Bounded delay p)
  | .awake => inferInstanceAs (Decidable True)
  | .asks nanoseconds => inferInstanceAs (Decidable (0 < delay ∧ (nanoseconds : ℤ) ≤ delay * 10 ^ 9))
  | .modulusZero => inferInstanceAs (Decidable False)

/-- The delays the start-up is right about: 0, and the positive ones whose modulus is not lost. -/
def Kept (nanosleep : Bool) (delay : ℤ) : Prop :=
  delay = 0 ∨ 0 < delay ∧ ¬ (2 ^ 32 : ℤ) ∣ if nanosleep then delay else delay + 1

instance (nanosleep : Bool) (delay : ℤ) : Decidable (Kept nanosleep delay) :=
  inferInstanceAs (Decidable (_ ∨ _ ∧ ¬ _))

theorem randomNumber_zero (value : UInt64) : randomNumber value 0 = none := if_pos rfl

theorem randomNumber_pos {range : ℕ} (h : 0 < range) (value : UInt64) :
    randomNumber value range = some (value.toNat % range) := if_neg (Nat.pos_iff_ne_zero.mp h)

/-- A delay that is not positive has no sleep that is right. -/
theorem not_bounded_delayExecution {delay : ℤ} (h : delay ≤ 0) (nanosleep : Bool) (maxDelay : ℕ)
    (value value' : UInt64) : ¬ Bounded delay (delayExecution nanosleep maxDelay value value') := by
  intro hb
  cases hp : delayExecution nanosleep maxDelay value value' with
  | awake =>
    unfold delayExecution at hp
    split at hp
    · split at hp <;> cases hp
    · split at hp <;> cases hp
  | asks nanoseconds =>
    rw [hp] at hb
    exact absurd hb.1 (by omega)
  | modulusZero =>
    rw [hp] at hb
    exact hb

/-- With `nanosleep()`, a positive modulus is enough, and needed. -/
theorem bounded_nanosleep {delay : ℤ} {maxDelay : ℕ} (hdelay : 0 < delay) (hmax : (maxDelay : ℤ) ≤ delay)
    (value value' : UInt64) : Bounded delay (delayExecution true maxDelay value value') ↔ maxDelay ≠ 0 := by
  by_cases h0 : maxDelay = 0
  · rw [h0, delayExecution, if_pos rfl, randomNumber_zero]
    exact ⟨fun hb => hb.elim, fun hne => absurd rfl hne⟩
  · refine ⟨fun _ => h0, fun _ => ?_⟩
    have hpos : 0 < maxDelay := Nat.pos_iff_ne_zero.mpr h0
    rw [delayExecution, if_pos rfl, randomNumber_pos hpos, randomNumber_pos (by decide)]
    have hsec : value.toNat % maxDelay < maxDelay := Nat.mod_lt _ hpos
    have hnsec : value'.toNat % 1000000000 < 1000000000 := Nat.mod_lt _ (by decide)
    refine ⟨hdelay, ?_⟩
    push_cast
    omega

/-- Without it, the modulus is one more, and must not be lost by that. -/
theorem bounded_sleep {delay : ℤ} {maxDelay : ℕ} (hdelay : 0 < delay) (hmax : (maxDelay : ℤ) ≤ delay)
    (hlt : maxDelay < 2 ^ 32) (value value' : UInt64) :
    Bounded delay (delayExecution false maxDelay value value') ↔ maxDelay + 1 ≠ 2 ^ 32 := by
  rw [delayExecution, if_neg Bool.false_ne_true]
  by_cases h : maxDelay + 1 = 2 ^ 32
  · rw [h, Nat.mod_self, randomNumber_zero]
    exact ⟨fun hb => hb.elim, fun hne => absurd rfl hne⟩
  · refine ⟨fun _ => h, fun _ => ?_⟩
    rw [Nat.mod_eq_of_lt (by omega), randomNumber_pos (Nat.succ_pos maxDelay)]
    have hsec : value.toNat % (maxDelay + 1) < maxDelay + 1 := Nat.mod_lt _ (Nat.succ_pos maxDelay)
    generalize value.toNat % (maxDelay + 1) = seconds at hsec ⊢
    refine ⟨hdelay, ?_⟩
    push_cast
    omega

theorem bounded_pauseFor_iff (nanosleep : Bool) (delay : ℤ) (value value' : UInt64) :
    Bounded delay (pauseFor nanosleep delay value value') ↔ Kept nanosleep delay := by
  unfold pauseFor Kept
  rcases lt_trichotomy delay 0 with hneg | rfl | hpos
  · rw [if_pos (by omega)]
    refine ⟨fun hb => absurd hb (not_bounded_delayExecution (by omega) _ _ _ _), fun hk => ?_⟩
    rcases hk with h0 | ⟨h1, -⟩ <;> omega
  · rw [if_neg (by simp)]
    exact ⟨fun _ => .inl rfl, fun _ => trivial⟩
  · rw [if_pos (by omega)]
    have hmax : (((delay % 2 ^ 32).toNat : ℕ) : ℤ) ≤ delay := by omega
    cases nanosleep with
    | true =>
      rw [bounded_nanosleep hpos hmax, if_pos rfl]
      omega
    | false =>
      rw [bounded_sleep hpos hmax (by omega), if_neg Bool.false_ne_true]
      omega

/-- **The delay.** Whatever the options and the file say, and whatever the random values are, the start-up
computes no remainder modulo 0 and sleeps at most for the delay, and not at all for one of 0 or less,
exactly if the delay is 0, or positive with a modulus that does not become 0 in 32 bits. -/
theorem startUp_bounded_iff (nanosleep : Bool) {path content : Bytes} {optargs : List Bytes} {delay : ℤ}
    (hdelay : acceptedDelay path content optargs = .ok (some delay)) (value value' : UInt64) :
    ∃ p, startUp nanosleep path content optargs value value' = .ok (some p) ∧
      (Bounded delay p ↔ Kept nanosleep delay) := by
  refine ⟨pauseFor nanosleep delay value value', ?_, bounded_pauseFor_iff nanosleep delay value value'⟩
  rw [startUp, hdelay]
  rfl

/-- A delay of five seconds from the file. -/
theorem startUp_five :
    acceptedDelay (ascii "f") (ascii "delay=5") [] = .ok (some 5) ∧
      ∃ p, startUp true (ascii "f") (ascii "delay=5") [] 7 8 = .ok (some p) ∧ (Bounded 5 p ↔ Kept true 5) :=
  ⟨by decide, startUp_bounded_iff true (by decide) 7 8⟩

/-- A delay of 2^32 seconds from the file is a modulus of 0, and one of -1 is a sleep of up to 136 years. -/
theorem not_startUp_bounded :
    (acceptedDelay (ascii "f") (ascii "delay=4294967296") [] = .ok (some 4294967296) ∧
        startUp true (ascii "f") (ascii "delay=4294967296") [] 7 8 = .ok (some .modulusZero)) ∧
      acceptedDelay (ascii "f") (ascii "delay=-1") [] = .ok (some (-1)) ∧
      (∃ p, startUp true (ascii "f") (ascii "delay=-1") [] 7 8 = .ok (some p) ∧ ¬ Bounded (-1) p) ∧
      ¬ Bounded 4294967296 .modulusZero :=
  ⟨⟨by decide, by decide⟩, by decide, ⟨.asks 7000000008, by decide, by decide⟩, by decide⟩

end NscaNg.Client
