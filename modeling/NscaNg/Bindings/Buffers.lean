/-
# The command buffers of the Perl and the Python module

Each function leaves a part of its buffer of 1024 bytes to a function that knows the size, and adds the
newline without looking at it again. The Python module puts it behind the length the text would have had
(`python_safe_iff`); the Perl module looks for the end of the string, which may be the last byte of the
buffer where it has copied a command that came with a timestamp (`sendCommand_safe_iff`).
-/
import NscaNg.Bindings.Timestamp

namespace NscaNg.Bindings

open Posix Memory Client

/-- Every store is to the buffer, the length announced is the number of bytes that are sent, and all of
these have been stored. -/
structure Outcome.Safe (o : Outcome) (terminator : Bytes) : Prop where
  read : o.overread = false
  inside : Inside 1024 o.stores
  announced : ∀ len ∈ o.sent, 0 ≤ len ∧ o.announced = some (ascii "PUSH " ++ decimalInt len ++ terminator)
  stored : ∀ len ∈ o.sent, o.transmitted.isSome

/-! ### What follows the command -/

section

variable (x : Exchange) (cmd : Bytes) (stores : Stores) (len : ℤ)

theorem stores_transmit : (transmit x cmd stores len).stores = stores := by
  unfold transmit
  split_ifs <;> rfl

theorem overread_transmit : (transmit x cmd stores len).overread = false := by
  unfold transmit
  split_ifs <;> rfl

theorem announced_transmit : (transmit x cmd stores len).announced = some cmd := by
  unfold transmit
  split_ifs <;> rfl

theorem sent_transmit_cases : (transmit x cmd stores len).sent = none ∨ (transmit x cmd stores len).sent = some len := by
  unfold transmit
  split_ifs <;> first | exact .inl rfl | exact .inr rfl

theorem sent_transmit {n : ℤ} (h : n ∈ (transmit x cmd stores len).sent) : n = len := by
  rcases sent_transmit_cases x cmd stores len with hs | hs
  · rw [hs] at h
    cases h
  · rw [hs] at h
    exact (Option.some.inj h).symm

/-- A submission that succeeds has sent the command. -/
theorem transmitted_transmit (h : (transmit x cmd stores len).result = true) :
    (transmit x cmd stores len).transmitted = load stores 0 len.toNat := by
  unfold transmit at h ⊢
  split_ifs at h ⊢
  rfl

end

/-- A request with a length of at most four digits is not cut off. -/
theorem pushLine_eq {size n : ℕ} {terminator : Bytes} (hsize : 32 ≤ size) (hterm : terminator.length ≤ 2)
    (hn : n ≤ 1024) : pushLine size terminator n = ascii "PUSH " ++ decimalInt n ++ terminator := by
  have hdigits : (decimal n).length ≤ 4 := length_decimal_le (k := 3) (by omega)
  have hpush : (ascii "PUSH ").length = 5 := rfl
  rw [pushLine, decimalInt_natCast, List.take_of_length_le]
  simp only [List.length_append, hpush]
  omega

theorem safe_transmit (x : Exchange) {size n : ℕ} {terminator : Bytes} {stores : Stores} {bytes : Bytes}
    (hsize : 32 ≤ size) (hterm : terminator.length ≤ 2) (hn : n ≤ 1024) (hinside : Inside 1024 stores)
    (hload : load stores 0 n = some bytes) :
    (transmit x (pushLine size terminator n) stores n).Safe terminator where
  read := overread_transmit _ _ _ _
  inside := (stores_transmit _ _ _ _).symm ▸ hinside
  announced len hlen := by
    rw [announced_transmit, sent_transmit _ _ _ _ hlen, pushLine_eq hsize hterm hn]
    exact ⟨Int.natCast_nonneg n, rfl⟩
  stored len hlen := by
    have hsent : (transmit x (pushLine size terminator n) stores n).sent = some (n : ℤ) :=
      (sent_transmit _ _ _ _ hlen) ▸ hlen
    rw [Outcome.transmitted, hsent, stores_transmit, Option.bind_some, Int.toNat_natCast, hload]
    rfl

/-! ### The Python module -/

section

variable {text : Bytes}

/-- What the Python module stores. -/
def Python.commandStores (text : Bytes) : Stores := snprintf 1023 text ++ [(snprintfResult text, newline)]

theorem Python.inside_commandStores_iff : Inside 1024 (Python.commandStores text) ↔ text.length ≤ 1023 := by
  unfold Python.commandStores snprintfResult
  rw [inside_append, inside_cons]
  have hfirst : Inside 1024 (snprintf 1023 text) := (inside_snprintf (by decide) text).mono (by decide)
  constructor
  · rintro ⟨-, ⟨h1, h2⟩, -⟩
    dsimp only at h1 h2
    split at h2 <;> omega
  · intro h
    rw [if_pos (by omega)]
    exact ⟨hfirst, ⟨Int.natCast_nonneg _, by dsimp only; omega⟩, inside_nil 1024⟩

/-- A text that fits is in the buffer with its newline. -/
theorem Python.load_commandStores (h : text.length ≤ 1022) :
    load (Python.commandStores text) 0 (text.length + 1) = some (text ++ [newline]) := by
  have hstores : Python.commandStores text = storeAll 0 (text ++ [0]) ++ storeAll (0 + text.length) [newline] := by
    rw [Python.commandStores, snprintf, snprintfResult, if_pos (by omega), List.take_of_length_le (by omega),
      Int.zero_add]
    rfl
  rw [hstores]
  exact load_overwrite 0 text [0] [newline]

/-- A text that is a byte too long is followed by a NUL and the newline. -/
theorem Python.load_commandStores_cut (h : text.length = 1023) :
    load (Python.commandStores text) 0 (text.length + 1) = some (text.take 1022 ++ [0, newline]) := by
  have hlen : (text.take 1022 ++ [0]).length = 1023 := by
    rw [List.length_append, List.length_take, List.length_singleton]
    omega
  have hstores : Python.commandStores text = [] ++ storeAll 0 (text.take 1022 ++ [0] ++ [newline]) := by
    rw [storeAll_append 0 (text.take 1022 ++ [0]), hlen, Python.commandStores, snprintf, snprintfResult,
      if_pos (by omega), h]
    rfl
  have hall : (text.take 1022 ++ [0] ++ [newline]).length = text.length + 1 := by
    rw [List.length_append, hlen, List.length_singleton, h]
  rw [hstores, ← hall, load_storeAll, List.append_assoc]
  rfl

theorem Python.load_commandStores_some (h : text.length ≤ 1023) :
    ∃ bytes, load (Python.commandStores text) 0 (text.length + 1) = some bytes := by
  rcases Nat.lt_or_ge text.length 1023 with hlt | hge
  · exact ⟨_, Python.load_commandStores (by omega)⟩
  · exact ⟨_, Python.load_commandStores_cut (by omega)⟩

end

/-- The text that the Python module formats. -/
def Python.commandText (now : ℕ) (host : Bytes) (service : Option Bytes) (status : ℤ) (message : Bytes) : Bytes :=
  stampUnsigned now ++ checkResultText host service status message

section

variable (now : ℕ) (x : Exchange) (host : Bytes) (service : Option Bytes) (status : ℤ) (message : Bytes)

theorem Python.sendPush_eq (hmoin : x.moin = true) :
    Python.sendPush now x host service status message =
      transmit x (pushLine 64 (ascii "\n") (snprintfResult (Python.commandText now host service status message) + 1))
        (Python.commandStores (Python.commandText now host service status message))
        (snprintfResult (Python.commandText now host service status message) + 1) := by
  rw [Python.sendPush, if_neg (by simp [hmoin])]
  rfl

/-- The Python module is safe exactly for a text of at most 1023 bytes, or if it gets no greeting. -/
theorem Python.sendPush_safe_iff : (Python.sendPush now x host service status message).Safe (ascii "\n") ↔
    x.moin = false ∨ (Python.commandText now host service status message).length ≤ 1023 := by
  cases hmoin : x.moin with
  | false =>
    rw [Python.sendPush, if_pos (by simp [hmoin])]
    exact ⟨fun _ => .inl rfl, fun _ => ⟨rfl, inside_nil 1024, fun _ h => (by cases h), fun _ h => (by cases h)⟩⟩
  | true =>
    rw [Python.sendPush_eq now x host service status message hmoin]
    constructor
    · intro h
      have hinside := h.inside
      rw [stores_transmit] at hinside
      exact .inr (Python.inside_commandStores_iff.mp hinside)
    · intro h
      have hlen := h.resolve_left (by decide)
      obtain ⟨bytes, hbytes⟩ := Python.load_commandStores_some hlen
      have hresult : snprintfResult (Python.commandText now host service status message) + 1 =
          (((Python.commandText now host service status message).length + 1 : ℕ) : ℤ) := by
        rw [snprintfResult, if_pos (by omega)]
        rfl
      rw [hresult]
      exact safe_transmit x (by decide) (by decide) (by omega) (Python.inside_commandStores_iff.mpr hlen) hbytes

end

/-! ### The Perl module -/

section

variable {x : Exchange} {body rest : Bytes}

/-- The buffer with the newline behind its string. -/
def Perl.lengthened (body rest : Bytes) : Stores :=
  storeAll 0 (body ++ 0 :: rest) ++ storeAll body.length [newline, 0]

theorem content_last (hne : body ≠ []) : content (storeAll 0 (body ++ 0 :: rest)) (body.length - 1) =
    some (body.getLast hne) := by
  have hpos : 0 < body.length := List.length_pos_iff.mpr hne
  have hindex : ((body.length : ℤ) - 1) = 0 + (body.length - 1 : ℕ) := by omega
  rw [hindex, content_storeAll, List.getElem?_append_left (by omega), List.getLast_eq_getElem,
    List.getElem?_eq_getElem]

/-- What is done with a string in the buffer. -/
theorem Perl.terminate_eq (h0 : 0 ∉ body) (hne : body ≠ []) (hlen : body.length < 1024) :
    Perl.terminate x (storeAll 0 (body ++ 0 :: rest)) =
      if body.getLast hne ≠ newline then Perl.deliver x (Perl.lengthened body rest) (body.length + 1)
      else Perl.deliver x (storeAll 0 (body ++ 0 :: rest)) body.length := by
  have hload : load (storeAll 0 (body ++ 0 :: rest)) 0 (body.length + 1) = some (body ++ [0]) := by
    have hall := load_storeAll [] 0 (body ++ 0 :: rest)
    have hle : body.length + 1 ≤ (body ++ 0 :: rest).length := by simp
    have htake : (body ++ 0 :: rest).take (body.length + 1) = body ++ [0] := by
      rw [List.take_append, List.take_of_length_le (Nat.le_succ _), Nat.add_sub_cancel_left]
      rfl
    rw [← htake]
    exact load_take hall hle
  rw [Perl.terminate, strlen_of_load h0 hload hlen]
  simp only [content_last hne]
  rfl

/-- Either way a line has been stored: the string, with a newline at its end. -/
theorem Perl.load_lengthened : load (Perl.lengthened body rest) 0 (body.length + 1) = some (body ++ [newline]) := by
  have hall := load_overwrite 0 body (0 :: rest) [newline, 0]
  rw [Int.zero_add] at hall
  have htake := load_take hall (show body.length + 1 ≤ body.length + [newline, 0].length by simp)
  rw [List.take_append, List.take_of_length_le (Nat.le_succ _), Nat.add_sub_cancel_left] at htake
  exact htake

theorem Perl.load_body : load (storeAll 0 (body ++ 0 :: rest)) 0 body.length = some body := by
  have hall := load_storeAll [] 0 (body ++ 0 :: rest)
  have htake := load_take hall (show body.length ≤ (body ++ 0 :: rest).length by simp)
  rw [List.take_left' rfl] at htake
  exact htake

theorem Perl.inside_lengthened_iff (hall : (body ++ 0 :: rest).length ≤ 1024) :
    Inside 1024 (Perl.lengthened body rest) ↔ body.length + 1 < 1024 := by
  rw [Perl.lengthened, inside_append]
  constructor
  · intro h
    have hlast := h.2 ((body.length : ℤ) + 1, 0) (by simp [storeAll])
    dsimp only at hlast
    omega
  · intro h
    refine ⟨inside_storeAll (le_refl 0) (by omega), inside_storeAll (Int.natCast_nonneg _) ?_⟩
    rw [List.length_cons, List.length_singleton]
    omega

theorem stores_deliver (x : Exchange) (stores : Stores) (len : ℤ) : (Perl.deliver x stores len).stores = stores := by
  unfold Perl.deliver
  split
  · rfl
  · exact stores_transmit _ _ _ _

theorem safe_deliver {n : ℕ} {stores : Stores} {bytes : Bytes} (hn : n ≤ 1024) (hinside : Inside 1024 stores)
    (hload : load stores 0 n = some bytes) : (Perl.deliver x stores n).Safe (ascii "\r\n") := by
  unfold Perl.deliver
  split
  · exact ⟨rfl, hinside, fun _ h => (by cases h), fun _ h => (by cases h)⟩
  · exact safe_transmit x (by decide) (by decide) hn hinside hload

/-- A string in the buffer is handled safely exactly if the newline it lacks and the NUL have room. -/
theorem Perl.terminate_safe_iff (h0 : 0 ∉ body) (hne : body ≠ []) (hall : (body ++ 0 :: rest).length ≤ 1024) :
    (Perl.terminate x (storeAll 0 (body ++ 0 :: rest))).Safe (ascii "\r\n") ↔
      (body.getLast hne ≠ newline → body.length + 1 < 1024) := by
  have hlen : body.length < 1024 := by
    rw [List.length_append, List.length_cons] at hall
    omega
  rw [Perl.terminate_eq h0 hne hlen]
  by_cases hlast : body.getLast hne = newline
  · rw [if_neg (not_not.mpr hlast)]
    refine ⟨fun _ h => absurd hlast h, fun _ => safe_deliver (by omega) ?_ Perl.load_body⟩
    exact inside_storeAll (le_refl 0) (by omega)
  · rw [if_pos hlast]
    constructor
    · intro h _
      have hinside := h.inside
      rw [stores_deliver] at hinside
      exact (Perl.inside_lengthened_iff hall).mp hinside
    · intro h
      have hinside := (Perl.inside_lengthened_iff hall).mpr (h hlast)
      exact safe_deliver (show body.length + 1 ≤ 1024 by omega) hinside Perl.load_lengthened

end

/-- A command that comes with a timestamp and fills the buffer, without a newline where the buffer's last
byte but one is. -/
def Overfills (errno : ℤ) (command : Bytes) : Prop :=
  hasTimestampPrefix errno command = 1 ∧ 1023 ≤ command.length ∧ command[1022]? ≠ some newline

instance (errno : ℤ) (command : Bytes) : Decidable (Overfills errno command) :=
  inferInstanceAs (Decidable (_ ∧ _ ∧ _))

theorem nul_notMem_stamp (now : ℕ) : 0 ∉ stamp now := by
  rw [stamp, List.mem_append, not_or]
  refine ⟨fun h => ?_, by decide⟩
  rcases List.mem_cons.mp h with h | h
  · exact absurd h (by decide)
  · exact absurd (isDigit_decimal now 0 h) (by decide)

section

variable (errno : ℤ) (now : ℕ) (x : Exchange) {command : Bytes}

/-- A command without a timestamp: the text in the buffer is never empty, and leaves room for a newline. -/
theorem Perl.sendCommand_stamped (hanswer : hasTimestampPrefix errno command = 0) :
    Perl.sendCommand errno now x command =
      Perl.terminate x (storeAll 0 ((stampUnsigned now ++ command).take 1022 ++ 0 :: [])) := by
  rw [Perl.sendCommand, if_pos hanswer]
  rfl

theorem stamped_ne_nil : (stampUnsigned now ++ command).take 1022 ≠ [] := by
  rw [stampUnsigned, stamp]
  exact List.cons_ne_nil _ _

theorem stamped_safe (h0 : 0 ∉ command) (hanswer : hasTimestampPrefix errno command = 0) :
    (Perl.sendCommand errno now x command).Safe (ascii "\r\n") := by
  rw [Perl.sendCommand_stamped errno now x hanswer]
  have hlen : ((stampUnsigned now ++ command).take 1022).length ≤ 1022 := List.length_take_le _ _
  have hnul : 0 ∉ (stampUnsigned now ++ command).take 1022 := fun h =>
    (List.mem_append.mp (List.mem_of_mem_take h)).elim (nul_notMem_stamp _) h0
  have hall : ((stampUnsigned now ++ command).take 1022 ++ 0 :: []).length ≤ 1024 := by
    rw [List.length_append, List.length_singleton]
    omega
  exact (Perl.terminate_safe_iff hnul (stamped_ne_nil now) hall).mpr fun _ => by omega

/-- A command with a timestamp is in the buffer as far as there is room, with NULs behind it. -/
theorem Perl.sendCommand_copied (hanswer : hasTimestampPrefix errno command = 1) :
    ∃ rest, (command.take 1023 ++ 0 :: rest).length = 1024 ∧
      Perl.sendCommand errno now x command = Perl.terminate x (storeAll 0 (command.take 1023 ++ 0 :: rest)) := by
  have hcopy : strncpy command 1023 ++ [(1023, 0)] =
      storeAll 0 ((command ++ List.replicate 1023 0).take 1023 ++ [0]) := by
    rw [storeAll_append, length_strncpy_text]
    rfl
  rw [Perl.sendCommand, if_neg (by rw [hanswer]; decide), if_pos hanswer, hcopy]
  refine ⟨List.replicate (1023 - command.length) 0, ?_, ?_⟩
  · rw [List.length_append, List.length_take, List.length_cons, List.length_replicate]
    omega
  · rw [List.take_append, List.take_replicate, Nat.min_eq_left (Nat.sub_le _ _), List.append_assoc,
      ← List.replicate_succ', List.replicate_succ]

/-- `nscang_client_send_command()` is safe exactly for a command that does not overfill the buffer. -/
theorem Perl.sendCommand_safe_iff (h0 : 0 ∉ command) :
    (Perl.sendCommand errno now x command).Safe (ascii "\r\n") ↔ ¬ Overfills errno command := by
  rcases hasTimestampPrefix_cases errno command with hanswer | hanswer | hanswer
  · refine ⟨fun _ h => ?_, fun _ => stamped_safe errno now x h0 hanswer⟩
    rw [Overfills, hanswer] at h
    exact absurd h.1 (by decide)
  · obtain ⟨rest, hall, heq⟩ := Perl.sendCommand_copied errno now x hanswer
    have hcommand : command ≠ [] := by
      intro hnil
      have hzero : hasTimestampPrefix errno [] = 0 := rfl
      rw [hnil, hzero] at hanswer
      exact absurd hanswer (by decide)
    have hne : command.take 1023 ≠ [] := fun h => by
      rw [List.take_eq_nil_iff] at h
      exact h.elim (by decide) hcommand
    have hnul : 0 ∉ command.take 1023 := fun h => h0 (List.mem_of_mem_take h)
    rw [heq, Perl.terminate_safe_iff hnul hne hall.le]
    have hlen : (command.take 1023).length = min 1023 command.length := List.length_take
    rcases Nat.lt_or_ge command.length 1023 with hlt | hge
    · refine ⟨fun _ h => absurd h.2.1 (by omega), fun _ _ => by omega⟩
    · have hlast : (command.take 1023).getLast hne = command[1022] := by
        rw [List.getLast_eq_getElem, List.getElem_take]
        congr 1
        omega
      rw [hlast, Overfills, List.getElem?_eq_getElem (by omega)]
      constructor
      · rintro h ⟨-, -, hnewline⟩
        have hroom := h fun he => hnewline (congrArg some he)
        omega
      · intro h hnewline
        exact absurd ⟨hanswer, hge, fun he => hnewline (Option.some.inj he)⟩ h
  · have href : Perl.sendCommand errno now x command =
        { error := some .fail
          errstr := some ((ascii "invalid time stamp format in command `" ++ command ++ ascii "'").take 1023) } := by
      rw [Perl.sendCommand, if_neg (by rw [hanswer]; decide), if_neg (by rw [hanswer]; decide)]
    rw [href]
    refine ⟨fun _ h => ?_, fun _ => ⟨rfl, inside_nil 1024, fun _ h => (by cases h), fun _ h => (by cases h)⟩⟩
    rw [Overfills, hanswer] at h
    exact absurd h.1 (by decide)

end

theorem isDigit_ne_nul {c : UInt8} (h : isDigit c = true) : c ≠ 0 := fun h0 => by
  rw [h0] at h
  exact absurd h (by decide)

theorem nul_notMem_decimalInt (v : ℤ) : 0 ∉ decimalInt v := by
  have hdecimal : 0 ∉ decimal v.natAbs := fun h => isDigit_ne_nul (isDigit_decimal _ 0 h) rfl
  unfold decimalInt
  split
  · intro h
    rcases List.mem_cons.mp h with h | h
    · exact absurd h (by decide)
    · exact hdecimal h
  · exact hdecimal

section

variable {host message : Bytes} {service : Option Bytes}

theorem nul_notMem_checkResultText (hhost : 0 ∉ host) (hservice : ∀ name ∈ service, 0 ∉ name) (status : ℤ)
    (hmessage : 0 ∉ message) : 0 ∉ checkResultText host service status message := by
  have hhostWord : (0 : UInt8) ∉ ascii "PROCESS_HOST_CHECK_RESULT;" := by decide
  have hserviceWord : (0 : UInt8) ∉ ascii "PROCESS_SERVICE_CHECK_RESULT;" := by decide
  have hsemicolon : (0 : UInt8) ∉ ascii ";" := by decide
  cases service with
  | none =>
    simp only [checkResultText, List.mem_append, not_or]
    exact ⟨⟨⟨⟨⟨hhostWord, hhost⟩, hsemicolon⟩, nul_notMem_decimalInt status⟩, hsemicolon⟩, hmessage⟩
  | some name =>
    simp only [checkResultText, List.mem_append, not_or]
    exact ⟨⟨⟨⟨⟨⟨⟨hserviceWord, hhost⟩, hsemicolon⟩, hservice name rfl⟩, hsemicolon⟩, nul_notMem_decimalInt status⟩,
      hsemicolon⟩, hmessage⟩

/-- A check result does not come with a timestamp. -/
theorem hasTimestampPrefix_checkResultText (errno : ℤ) (host : Bytes) (service : Option Bytes) (status : ℤ)
    (message : Bytes) : hasTimestampPrefix errno ((checkResultText host service status message).take 1022) = 0 := by
  have hhead : ((checkResultText host service status message).take 1022).head? = some (ch 'P') := by
    cases service <;> rfl
  refine if_pos ?_
  rw [hhead]
  decide

/-- **The command buffers.** For all strings: the Python module stores inside its buffer, and sends what it
has announced and stored, exactly if the text it formats has at most 1023 bytes, or if it gets no greeting;
`nscang_client_send_command()` of the Perl module does so exactly if the command does not fill the buffer
behind a timestamp; and its `nscang_client_send_push()` always does. -/
theorem commandBuffers_safe_iff (errno : ℤ) (now : ℕ) (x : Exchange) {command : Bytes} (hcommand : 0 ∉ command)
    (hhost : 0 ∉ host) (hservice : ∀ name ∈ service, 0 ∉ name) (status : ℤ) (hmessage : 0 ∉ message) :
    ((Python.sendPush now x host service status message).Safe (ascii "\n") ↔
        x.moin = false ∨ (stampUnsigned now ++ checkResultText host service status message).length ≤ 1023) ∧
      ((Perl.sendCommand errno now x command).Safe (ascii "\r\n") ↔ ¬ Overfills errno command) ∧
      Inside 1024 (Perl.pushStores host service status message) ∧
      (Perl.sendPush errno now x host service status message).Safe (ascii "\r\n") := by
  refine ⟨Python.sendPush_safe_iff now x host service status message, Perl.sendCommand_safe_iff errno now x hcommand,
    (inside_snprintf (show 0 < 1023 by decide) _).mono (by decide), ?_⟩
  · refine stamped_safe errno now x (fun h => ?_) (hasTimestampPrefix_checkResultText errno host service status message)
    exact nul_notMem_checkResultText hhost hservice status hmessage (List.mem_of_mem_take h)

end

/-- A greeting and two answers that say yes. -/
def yes : Exchange := ⟨true, true, some .okay, true, some .okay⟩

theorem commandBuffers_safe_short :
    (Python.sendPush 7 yes (ascii "web") none 0 (ascii "up")).Safe (ascii "\n") ∧
      (Perl.sendCommand 0 7 yes (ascii "[1] RESTART")).Safe (ascii "\r\n") :=
  have h := commandBuffers_safe_iff 0 7 yes (show 0 ∉ ascii "[1] RESTART" by decide)
    (show 0 ∉ ascii "web" by decide) (show ∀ name ∈ (none : Option Bytes), 0 ∉ name by decide) 0
    (show 0 ∉ ascii "up" by decide)
  ⟨h.1.mpr (.inr (by decide)), h.2.1.mpr (by decide)⟩

/-- A message of 1000 bytes in Python, and a command of 1023 bytes with a timestamp in Perl. -/
theorem not_commandBuffers_safe :
    ¬ (Python.sendPush 7 yes (ascii "web") none 0 (List.replicate 1000 (ch 'x'))).Safe (ascii "\n") ∧
      ¬ (Perl.sendCommand 0 7 yes (ascii "[1] " ++ List.replicate 1019 (ch 'x'))).Safe (ascii "\r\n") := by
  constructor
  · rw [Python.sendPush_safe_iff]
    rintro (h | h)
    · exact absurd h (by decide)
    · have hword : (ascii "PROCESS_HOST_CHECK_RESULT;").length = 26 := rfl
      simp only [Python.commandText, checkResultText, List.length_append, List.length_replicate, hword] at h
      omega
  · rw [Perl.sendCommand_safe_iff _ _ _ (by decide +kernel)]
    exact not_not.mpr (by decide +kernel)

end NscaNg.Bindings
