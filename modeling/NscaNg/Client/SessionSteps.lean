/-
# The stages of a client

The client greets the server, and then announces and sends one command after the other, until it quits or is
stopped (`Stage`). A handler takes it from one stage to the next, and writes the request of that stage
(`takes_answer`): which one it is depends on the response, and on what the standard input has to offer.
-/
import NscaNg.Client.Fetching
import NscaNg.Client.SessionStages

namespace NscaNg.Client

open Posix Libev

/-! ### Turns -/

/-- What the client says, and waits for an answer to. -/
inductive Turn
  | greeting
  | announcing (command : Bytes)
  | sending (command : Bytes)
  | quitting

namespace Turn

def request (cfg : Config) : Turn → Bytes
  | greeting => ascii "MOIN 1 " ++ cfg.sessionId ++ Tls.lineTerminator
  | announcing command => ascii "PUSH " ++ decimal (command.length % 2 ^ 32) ++ Tls.lineTerminator
  | sending command => command
  | quitting => ascii "QUIT" ++ Tls.lineTerminator

/-- The handler that waits for the answer takes the line for it. -/
def Accepts : Turn → Bytes → Prop
  | greeting, line => Server.HasKeyword "MOIN" line ∧ ∃ args, Server.parseLine line 2 = some args ∧ atoi (args.getD 1 []) = 1
  | announcing _, line | sending _, line | quitting, line => strcasecmp (ascii "OKAY") line = 0

/-- What the client leaves with if the line is something else. -/
def complaint : Turn → Bytes → Bytes
  | greeting, line =>
    if Server.HasKeyword "MOIN" line then
      match Server.parseLine line 2 with
      | none => ascii "Cannot parse MOIN response"
      | some args =>
        let protocolVersion := atoi (args.getD 1 [])
        if protocolVersion ≤ 0 then ascii "Expected protocol version"
        else ascii "Protocol version " ++ decimalInt protocolVersion ++ ascii " not supported"
    else ascii "Received unexpected MOIN response"
  | announcing _, _ => ascii "Received unexpected PUSH response"
  | sending _, _ => ascii "Received unexpected response after sending command(s)"
  | quitting, _ => ascii "Received unexpected QUIT response"

end Turn

/-! ### Stages -/

/-- How far the client has come. -/
inductive Stage
  | connecting
  | greeting
  | idle
  | asking (submission : Submission)
  | sending (submission : Submission)
  | quitting
  | stopped (status : ℕ)

namespace Stage

/-- What the client writes when it comes to the stage. -/
def request (cfg : Config) : Stage → Bytes
  | greeting => ascii "MOIN 1 " ++ cfg.sessionId ++ Tls.lineTerminator
  | asking submission => submission.request ++ Tls.lineTerminator
  | sending submission => submission.sent
  | quitting => ascii "QUIT" ++ Tls.lineTerminator
  | connecting | idle | stopped _ => []

/-- The response that the server gives if there is nothing wrong. -/
def response : Stage → Bytes
  | greeting => ascii "MOIN 1"
  | asking _ | sending _ | quitting => ascii "OKAY"
  | connecting | idle | stopped _ => []

/-- What the client waits for an answer to. -/
def turn : Stage → Option Turn
  | greeting => some .greeting
  | asking submission => some (.announcing submission.sent)
  | sending submission => some (.sending submission.sent)
  | quitting => some .quitting
  | connecting | idle | stopped _ => none

/-- The command that is built when the client comes to the stage. -/
def builds : Stage → List Bytes
  | asking submission => [submission.sent]
  | connecting | greeting | idle | sending _ | quitting | stopped _ => []

/-- What becomes of the connection at the stage. -/
def posture : Stage → Posture
  | connecting => .connecting
  | greeting => .awaiting .moinResponse
  | idle => .resting
  | asking _ => .awaiting .pushResponse
  | sending _ => .awaiting .commandResponse
  | quitting => .awaiting .quitResponse
  | stopped _ => .closing

end Stage

/-- The submission is made of a chunk of the standard input. -/
def Made (cfg : Config) (submission : Submission) : Prop :=
  ∃ now, ∃ chunk ∈ cfg.chunks,
    handleInputChunk cfg.progname now cfg.mode cfg.delimiter chunk = .ok (some submission)

/-- Nothing has been read of the standard input. -/
structure Untouched (s : Session) : Prop where
  reader : s.reader = none
  built : s.built = []
  exitCode : s.exitCode = 0

/-- The reader has come to this state, and the commands of its chunks have been built. -/
structure Listening (cfg : Config) (s : Session) (r : Reader) : Prop where
  reader : s.reader = some r
  sound : Reader.Sound cfg.chunkSeparator cfg.stdin r
  builds : Builds cfg r.heard s.built
  cancelled : r.cancelled = false
  exitCode : s.exitCode = 0

/-- What there is besides the connection. -/
inductive Keeps (cfg : Config) (s : Session) : Stage → Prop
  | connecting : Untouched s → Keeps cfg s .connecting
  | greeting : Untouched s → Keeps cfg s .greeting
  | idle (r : Reader) : Listening cfg s r → r.active = true → r.trace.getLast? = some .request → Keeps cfg s .idle
  | asking (r : Reader) (submission : Submission) : Listening cfg s r → r.owed = true →
      s.command = some submission → Made cfg submission → Keeps cfg s (.asking submission)
  | sending (r : Reader) (submission : Submission) : Listening cfg s r → r.owed = true → Made cfg submission →
      Keeps cfg s (.sending submission)
  | quitting (r : Reader) : Listening cfg s r → r.freed = true → Keeps cfg s .quitting
  | stopped (done : List Bytes) : (∀ r ∈ s.reader, r.active = false) → done <+: cfg.chunks →
      Builds cfg done s.built → (s.exitCode = 0 → done = cfg.chunks) → Keeps cfg s (.stopped s.exitCode)

/-- The program has ended. -/
def Session.Ended (s : Session) : Prop := s.died = true ∨ s.tls.died = true

/-- The client has come to the stage. -/
structure At (cfg : Config) (s : Session) (stage : Stage) : Prop where
  connection : stage.posture.Holds s.tls
  keeps : Keeps cfg s stage

variable {cfg : Config} {s t : Session} {stage : Stage}

/-- The connection has made a step. -/
theorem Keeps.carry (h : Keeps cfg s stage) (u : Tls.State Handler) : Keeps cfg { s with tls := u } stage := by
  have huntouched : Untouched s → Untouched { s with tls := u } := fun h => ⟨h.reader, h.built, h.exitCode⟩
  have hlistening : ∀ {r}, Listening cfg s r → Listening cfg { s with tls := u } r := fun h =>
    ⟨h.reader, h.sound, h.builds, h.cancelled, h.exitCode⟩
  cases h with
  | connecting h => exact .connecting (huntouched h)
  | greeting h => exact .greeting (huntouched h)
  | idle r h hact hlast => exact .idle r (hlistening h) hact hlast
  | asking r submission h howed hcommand hmade => exact .asking r submission (hlistening h) howed hcommand hmade
  | sending r submission h howed hmade => exact .sending r submission (hlistening h) howed hmade
  | quitting r h hfreed => exact .quitting r (hlistening h) hfreed
  | stopped done hoff hprefix hbuilds hall => exact .stopped (s := { s with tls := u }) done hoff hprefix hbuilds hall

/-- The commands of some of the chunks have been built. -/
def Faithful (cfg : Config) (s : Session) : Prop := ∃ done, done <+: cfg.chunks ∧ Builds cfg done s.built

theorem Keeps.faithful (h : Keeps cfg s stage) : Faithful cfg s := by
  have huntouched : Untouched s → Faithful cfg s := fun h =>
    ⟨[], List.nil_prefix, by rw [h.built]; exact .nil⟩
  have hlistening : ∀ {r}, Listening cfg s r → Faithful cfg s := fun h => ⟨_, h.sound.heard, h.builds⟩
  cases h with
  | connecting h => exact huntouched h
  | greeting h => exact huntouched h
  | idle r h _ _ => exact hlistening h
  | asking r _ h _ _ _ => exact hlistening h
  | sending r _ h _ _ => exact hlistening h
  | quitting r h _ => exact hlistening h
  | stopped done _ hprefix hbuilds _ => exact ⟨done, hprefix, hbuilds⟩

/-- While a handler waits for a line, the reader is not active. -/
theorem Keeps.inactive (h : Keeps cfg s stage) (hidle : stage ≠ .idle) : ∀ r ∈ s.reader, r.active = false := by
  have huntouched : Untouched s → ∀ r ∈ s.reader, r.active = false := fun h r hr => by
    rw [h.reader] at hr
    cases hr
  have howing : ∀ {r}, Listening cfg s r → r.owed = true → ∀ r ∈ s.reader, r.active = false := fun h howed r hr => by
    rw [h.reader, Option.mem_some_iff] at hr
    subst hr
    rw [h.sound.waits (h.sound.not_freed (Or.inr howed)) (h.sound.not_died (Or.inr howed)), howed]
    rfl
  cases h with
  | connecting h => exact huntouched h
  | greeting h => exact huntouched h
  | idle => exact absurd rfl hidle
  | asking r _ h howed _ _ => exact howing h howed
  | sending r _ h howed _ => exact howing h howed
  | quitting r h hfreed =>
    intro r' hr
    rw [h.reader, Option.mem_some_iff] at hr
    exact hr ▸ (h.sound.freed hfreed).1
  | stopped _ hoff _ _ _ => exact hoff

/-! ### What a handler comes to -/

/-- A handler has taken the client to the stage, or the program has ended. -/
structure Takes (cfg : Config) (s t : Session) (stage : Stage) : Prop where
  writes : Tls.Writes (stage.request cfg) s.tls t.tls
  flushes : (s.tls.unsent ++ stage.request cfg).length < 2 ^ 31 → Tls.Flushes t.tls
  built : t.built = s.built ++ stage.builds
  enters : t.died = true ∧ t.built = s.built ∨ At cfg t stage

theorem Takes.reader {r : Option Reader} (h : Takes cfg { s with reader := r } t stage) : Takes cfg s t stage :=
  ⟨h.writes, h.flushes, h.built, h.enters⟩

/-- A request is sent, and a handler waits for the response. -/
theorem writes_request (request : Bytes) (h : Handler) (s : Session) :
    Tls.Writes (request ++ Tls.lineTerminator) s.tls (tlsReadLine h (sendRequest request s)).tls := by
  have hread := (Tls.writes_tlsWriteLine request s.tls).trans (Tls.writes_tlsRead h 0 _)
  rwa [List.append_nil] at hread

theorem flushes_request {request : Bytes} (hf : Tls.Flushes s.tls)
    (hroom : (s.tls.unsent ++ (request ++ Tls.lineTerminator)).length < 2 ^ 31) (h : Handler) :
    Tls.Flushes (tlsReadLine h (sendRequest request s)).tls :=
  Tls.flushes_tlsRead (Tls.flushes_tlsWriteLine hf hroom) h 0

/-- The program ends where a chunk was asked for. -/
theorem takes_died (htls : t.tls = s.tls) (hf : Tls.Flushes s.tls) (hbuilt : t.built = s.built) (hdied : t.died = true) :
    Takes cfg s t .idle :=
  ⟨htls ▸ .refl s.tls, fun _ => htls ▸ hf, hbuilt.trans (List.append_nil _).symm, Or.inl ⟨hdied, hbuilt⟩⟩

/-! ### Chunks -/

/-- The stages that a request for a chunk may come to. -/
inductive Fetched (cfg : Config) : Stage → Prop
  | idle : Fetched cfg .idle
  | asking (submission : Submission) : Made cfg submission → Fetched cfg (.asking submission)
  | quitting : Fetched cfg .quitting

theorem handleInputChunk_ne_none {progname chunk : Bytes} {now : ℕ} {mode : ClientMode} {delimiter : UInt8}
    (h : ¬ Ignored chunk) : handleInputChunk progname now mode delimiter chunk ≠ .ok none := by
  have hdata : ¬ Util.skipNewlines (cstr chunk) = [] := h
  unfold handleInputChunk
  dsimp only
  rw [if_neg hdata]
  split <;> simp

/-- `handle_input_chunk()`: the command of the chunk is announced. -/
theorem takes_announce {r : Reader} {skipped : List Bytes} {chunk : Bytes} (now : ℕ) (hs : Resting s.tls)
    (hf : Tls.Flushes s.tls) (hreader : s.reader = some r) (hexit : s.exitCode = 0)
    (hsound : Reader.Sound cfg.chunkSeparator cfg.stdin r) (hbuilds : Builds cfg skipped s.built)
    (hheard : r.heard = skipped ++ [chunk]) (hchunk : ¬ Ignored chunk) (howed : r.owed = true) :
    ∃ stage, Fetched cfg stage ∧ Takes cfg s (announce cfg now chunk s) stage := by
  have hmem : chunk ∈ cfg.chunks := hsound.heard.subset (by rw [hheard]; simp)
  have hcancelled : r.cancelled = false := by
    by_contra hc
    have hfreed := hsound.cancelled (by simpa using hc)
    exact Bool.false_ne_true ((hsound.not_freed (Or.inr howed)).symm.trans hfreed)
  unfold announce
  cases hmade : handleInputChunk cfg.progname now cfg.mode cfg.delimiter chunk with
  | error message => exact ⟨.idle, .idle, takes_died rfl hf rfl rfl⟩
  | ok result =>
    cases result with
    | none => exact absurd hmade (handleInputChunk_ne_none hchunk)
    | some submission =>
      dsimp only
      have hbuilds' : Builds cfg r.heard (s.built ++ [submission.sent]) := by
        rw [hheard]
        exact hbuilds.built hmade
      have hsubmission : Made cfg submission := ⟨now, chunk, hmem, hmade⟩
      refine ⟨.asking submission, .asking submission hsubmission, ?_⟩
      let announced : Session := { s with command := some submission, built := s.built ++ [submission.sent] }
      exact ⟨writes_request submission.request .pushResponse announced,
        fun hroom => flushes_request (s := announced) hf hroom .pushResponse, rfl,
        Or.inr ⟨(hs.tlsWriteLine _).tlsRead _,
          .asking r submission ⟨hreader, hsound, hbuilds', hcancelled, hexit⟩ howed rfl hsubmission⟩⟩

/-- `handle_input_eof()`. -/
theorem takes_inputEof {r : Reader} (hs : Resting s.tls) (hf : Tls.Flushes s.tls) (h : Listening cfg s r)
    (hfreed : r.freed = true) : Takes cfg s (handleInputEof s) .quitting where
  writes := writes_request (ascii "QUIT") .quitResponse s
  flushes hroom := flushes_request (s := { s with input := false }) hf hroom .quitResponse
  built := (List.append_nil _).symm
  enters := Or.inr ⟨(hs.tlsWriteLine _).tlsRead _,
    .quitting r ⟨h.reader, h.sound, h.builds, h.cancelled, h.exitCode⟩ hfreed⟩

/-- **A request for a chunk.** The next command is announced, or the client quits, or it waits. -/
theorem fetched_hear {r r' : Reader} (now : ℕ) (hs : Resting s.tls) (hf : Tls.Flushes s.tls) (hexit : s.exitCode = 0)
    (hbuilds : Builds cfg r.heard s.built) (hcancelled : r.cancelled = false)
    (hsound : Reader.Sound cfg.chunkSeparator cfg.stdin r') (h : Reader.Fetches r r') :
    ∃ stage, Fetched cfg stage ∧ Takes cfg s (hear cfg now s r') stage := by
  unfold hear
  dsimp only
  by_cases hdied : r'.died = true
  · rw [if_pos hdied]
    exact ⟨.idle, .idle, takes_died rfl hf rfl rfl⟩
  · rw [if_neg hdied]
    cases h with
    | chunk skipped c hskip hc hheard hlast howed =>
      rw [hlast]
      obtain ⟨stage, hstage, htakes⟩ := takes_announce (s := { s with reader := some r' }) now hs hf rfl hexit hsound
        (hbuilds.skip hskip) hheard hc howed
      exact ⟨stage, hstage, htakes.reader⟩
    | eof skipped hskip hheard hlast hfreed hcan =>
      rw [hlast]
      have hlistening : Listening cfg { s with reader := some r' } r' :=
        ⟨rfl, hsound, hheard ▸ hbuilds.skip hskip, hcan.trans hcancelled, hexit⟩
      have htakes := takes_inputEof (s := { s with reader := some r' }) hs hf hlistening hfreed
      exact ⟨.quitting, .quitting, htakes.reader⟩
    | waits skipped hskip hheard hlast hfreed howed =>
      rw [hlast]
      have hactive : r'.active = true := by
        rw [hsound.waits hfreed (by simpa using hdied), howed]
        rfl
      have hcan : r'.cancelled = false := by
        by_contra hc
        exact Bool.false_ne_true (hfreed.symm.trans (hsound.cancelled (by simpa using hc)))
      have hlistening : Listening cfg { s with reader := some r' } r' :=
        ⟨rfl, hsound, hheard ▸ hbuilds.skip hskip, hcan, hexit⟩
      exact ⟨.idle, .idle, Tls.Writes.refl s.tls, fun _ => hf, (List.append_nil _).symm,
        Or.inr ⟨hs, .idle r' hlistening hactive hlast⟩⟩

/-- `input_read_chunk()`. -/
theorem fetched_inputReadChunk {r : Reader} (readings : List Reading) (now : ℕ) (hs : Resting s.tls)
    (hf : Tls.Flushes s.tls) (h : Listening cfg s r) (howed : r.owed = true) :
    ∃ stage, Fetched cfg stage ∧ Takes cfg s (inputReadChunk cfg readings now s) stage := by
  have hstep : r.step cfg.chunkSeparator asksAgain (.ask readings) =
      some (Reader.request (Reader.readCb cfg.chunkSeparator asksAgain (r.work + 1)) { r with readings := readings }) :=
    if_pos howed
  obtain ⟨hsound, -⟩ := Reader.sound_step h.sound hstep
  have hfetches : Reader.Fetches { r with readings := readings } _ :=
    Reader.fetches_request (Reader.fetches_readCb cfg.chunkSeparator (r.work + 1)) (h.sound.not_freed (Or.inr howed))
  unfold inputReadChunk
  rw [h.reader]
  exact fetched_hear now hs hf h.exitCode h.builds h.cancelled hsound (hfetches.of_heard rfl rfl)

/-- The callback of the reader. -/
theorem fetched_inputCb {r r' : Reader} {readings : List Reading} (now : ℕ) (hs : Resting s.tls)
    (hf : Tls.Flushes s.tls) (h : Listening cfg s r) (hact : r.active = true) (hlast : r.trace.getLast? = some .request)
    (hstep : r.step cfg.chunkSeparator asksAgain (.ready readings) = some r') :
    ∃ stage, Fetched cfg stage ∧ Takes cfg s (hear cfg now s r') stage := by
  obtain ⟨hsound, -⟩ := Reader.sound_step h.sound hstep
  have hfreed := h.sound.not_freed (Or.inl hact)
  have howed : r.owed = false := by
    have hwaits := h.sound.waits hfreed (h.sound.not_died (Or.inl hact))
    rw [hact] at hwaits
    simpa using hwaits.symm
  simp only [Reader.step, if_pos hact, Option.some.injEq] at hstep
  subst hstep
  have hfetches : Reader.Fetches { r with readings := readings } _ :=
    Reader.fetches_readCb cfg.chunkSeparator (r.work + 1) { r with readings := readings } hfreed howed hlast
  exact fetched_hear now hs hf h.exitCode h.builds h.cancelled hsound (hfetches.of_heard rfl rfl)

/-! ### Responses -/

/-- The server refuses the request, or leaves. -/
def Grumpy (line : Bytes) : Prop := Server.HasKeyword "FAIL" line ∨ Server.HasKeyword "BAIL" line

/-- `handle_tls_connect()`. -/
theorem takes_connect (cfg : Config) (hs : Resting s.tls) (hf : Tls.Flushes s.tls) (h : Untouched s) :
    Takes cfg s (handleTlsConnect cfg s) .greeting where
  writes := writes_request _ .moinResponse s
  flushes hroom := flushes_request hf hroom .moinResponse
  built := (List.append_nil _).symm
  enters := Or.inr ⟨(hs.tlsWriteLine _).tlsRead _, .greeting ⟨h.reader, h.built, h.exitCode⟩⟩

/-- `handle_tls_moin_response()`, for a handshake that succeeds. -/
theorem fetched_moinResponse (cfg : Config) (readings : List Reading) (now : ℕ) {line : Bytes} (hs : Resting s.tls)
    (hf : Tls.Flushes s.tls) (h : Untouched s) (hline : Turn.greeting.Accepts line) : ∃ stage, Fetched cfg stage ∧
      Takes cfg s (handleTlsMoinResponse cfg readings now line s) stage := by
  let begun : Session := { s with reader := some (Reader.start cfg.stdin), input := true }
  have hbuilds : Builds cfg (Reader.start cfg.stdin).heard begun.built := by
    rw [show begun.built = [] from h.built]
    exact .nil
  have hlistening : Listening cfg begun (Reader.start cfg.stdin) :=
    ⟨rfl, Reader.sound_start cfg.chunkSeparator cfg.stdin, hbuilds, rfl, h.exitCode⟩
  have hread : handleTlsMoinResponse cfg readings now line s = inputReadChunk cfg readings now begun := by
    obtain ⟨hmoin, args, hparse, hversion⟩ := hline
    unfold handleTlsMoinResponse
    rw [if_pos hmoin, hparse]
    dsimp only
    rw [hversion]
    rfl
  obtain ⟨stage, hstage, htakes⟩ := fetched_inputReadChunk readings now (s := begun) hs hf hlistening rfl
  exact ⟨stage, hstage, hread ▸ ⟨htakes.writes, htakes.flushes, htakes.built, htakes.enters⟩⟩

/-- `handle_tls_push_response()`, for a request that is accepted. -/
theorem takes_pushResponse {r : Reader} {submission : Submission} {line : Bytes} (hs : Resting s.tls)
    (hf : Tls.Flushes s.tls) (h : Listening cfg s r) (howed : r.owed = true) (hcommand : s.command = some submission)
    (hmade : Made cfg submission) (hne : submission.sent ≠ []) (hline : strcasecmp (ascii "OKAY") line = 0) :
    Takes cfg s (handleTlsPushResponse line s) (.sending submission) := by
  have hsend : handleTlsPushResponse line s =
      tlsReadLine .commandResponse { s with tls := Tls.tlsWrite submission.sent true s.tls } := by
    unfold handleTlsPushResponse
    rw [if_pos hline, hcommand]
  rw [hsend]
  have hwrites := (Tls.writes_tlsWrite hf.queue submission.sent true).trans (Tls.writes_tlsRead .commandResponse 0 _)
  rw [List.append_nil] at hwrites
  exact ⟨hwrites, fun hroom => Tls.flushes_tlsRead (Tls.flushes_tlsWrite hf hne true hroom) .commandResponse 0,
    (List.append_nil _).symm, Or.inr ⟨(hs.tlsWrite _ true).tlsRead _,
      .sending r submission ⟨h.reader, h.sound, h.builds, h.cancelled, h.exitCode⟩ howed hmade⟩⟩

/-- `client_stop()`, with this exit status. -/
theorem stopped_clientStop {done : List Bytes} {code : ℕ} (hs : Resting s.tls) (hoff : ∀ r ∈ s.reader, r.active = false)
    (hdone : done <+: cfg.chunks) (hbuilds : Builds cfg done s.built) (hall : code = 0 → done = cfg.chunks) :
    At cfg { clientStop s with exitCode := code } (.stopped code) := by
  have hstopped : ∀ r ∈ (clientStop s).reader, r.active = false := by
    intro r hr
    unfold clientStop at hr
    dsimp only at hr
    split at hr
    · obtain ⟨r', -, rfl⟩ := Option.mem_map.mp hr
      rfl
    · exact hoff r hr
  exact ⟨hs.tlsShutdown, .stopped (s := { clientStop s with exitCode := code }) done hstopped hdone hbuilds hall⟩

theorem takes_stop {done : List Bytes} {code : ℕ} (hs : Resting s.tls) (hf : Tls.Flushes s.tls)
    (hoff : ∀ r ∈ s.reader, r.active = false) (hdone : done <+: cfg.chunks) (hbuilds : Builds cfg done s.built)
    (hall : code = 0 → done = cfg.chunks) : Takes cfg s { clientStop s with exitCode := code } (.stopped code) where
  writes := Tls.writes_tlsShutdown s.tls
  flushes _ := Tls.flushes_tlsShutdown hf
  built := (List.append_nil _).symm
  enters := Or.inr (stopped_clientStop hs hoff hdone hbuilds hall)

/-- `handle_tls_quit_response()`, for a request that is accepted. -/
theorem takes_quitResponse {r : Reader} {line : Bytes} (hs : Resting s.tls) (hf : Tls.Flushes s.tls)
    (h : Listening cfg s r) (hfreed : r.freed = true) (hline : strcasecmp (ascii "OKAY") line = 0) :
    Takes cfg s (handleTlsQuitResponse line s) (.stopped 0) := by
  have hoff : ∀ r ∈ s.reader, r.active = false := by
    intro r' hr
    rw [h.reader, Option.mem_some_iff] at hr
    exact hr ▸ (h.sound.freed hfreed).1
  have hall : r.heard = cfg.chunks := h.sound.heard_all hfreed h.cancelled
  have hstop : handleTlsQuitResponse line s = { clientStop s with exitCode := 0 } := by
    unfold handleTlsQuitResponse
    rw [if_pos hline]
    show clientStop s = _
    rw [← h.exitCode]
    rfl
  rw [hstop]
  exact takes_stop hs hf hoff h.sound.heard h.builds fun _ => hall

/-- A line that refuses is not OKAY. -/
theorem Grumpy.not_okay {line : Bytes} (h : Grumpy line) : ¬ strcasecmp (ascii "OKAY") line = 0 := by
  cases line with
  | nil => exact absurd h (by unfold Grumpy; decide)
  | cons c rest =>
    have hc : toLower c = ch 'f' ∨ toLower c = ch 'b' := by
      rcases h with h | h
      · have hmap := (strncasecmp_eq_zero_iff (by decide) (c :: rest)).mp (show strncasecmp (ascii "FAIL") _ 4 = 0 from h)
        exact Or.inl (List.cons.inj hmap).1
      · have hmap := (strncasecmp_eq_zero_iff (by decide) (c :: rest)).mp (show strncasecmp (ascii "BAIL") _ 4 = 0 from h)
        exact Or.inr (List.cons.inj hmap).1
    have hokay : strcasecmp (ascii "OKAY") (c :: rest) =
        if toLower (ch 'O') = toLower c then strncasecmp (ascii "KAY") rest (4 + rest.length + 1)
        else ((toLower (ch 'O')).toNat : ℤ) - (toLower c).toNat := rfl
    rw [hokay]
    rcases hc with hc | hc
    · rw [hc, if_neg (by decide)]
      decide
    · rw [hc, if_neg (by decide)]
      decide

theorem Grumpy.not_moin {line : Bytes} (h : Grumpy line) : ¬ Server.HasKeyword "MOIN" line := fun hmoin =>
  h.elim (fun hfail => absurd (hmoin.unique hfail (by decide) (by decide)) (by decide))
    fun hbail => absurd (hmoin.unique hbail (by decide) (by decide)) (by decide)

/-- `server_is_grumpy()`. -/
theorem takes_grumpy {line : Bytes} (hs : Resting s.tls) (hf : Tls.Flushes s.tls) (h : Keeps cfg s stage)
    (hidle : stage ≠ .idle) (hline : Grumpy line) (otherwise : Session) :
    Takes cfg s ((serverIsGrumpy line s).getD otherwise) (.stopped 1) := by
  obtain ⟨done, hprefix, hbuilds⟩ := h.faithful
  have hgrumpy : serverIsGrumpy line s = some { clientStop s with exitCode := 1 } := if_pos hline
  rw [hgrumpy]
  exact takes_stop hs hf (h.inactive hidle) hprefix hbuilds fun hzero => absurd hzero (by decide)

/-- What `bail()` writes. -/
def farewell (message : Bytes) : Bytes := ascii "BAIL " ++ (message ++ Tls.lineTerminator)

/-- The client has left with this message. -/
structure Bails (cfg : Config) (message : Bytes) (s t : Session) : Prop where
  writes : Tls.Writes (farewell message) s.tls t.tls
  flushes : (s.tls.unsent ++ farewell message).length < 2 ^ 31 → Tls.Flushes t.tls
  built : t.built = s.built
  enters : At cfg t (.stopped 1)

/-- `bail()`. -/
theorem bails_bail (message : Bytes) (hs : Resting s.tls) (hf : Tls.Flushes s.tls) (h : Keeps cfg s stage)
    (hidle : stage ≠ .idle) : Bails cfg message s (bail message s) := by
  obtain ⟨done, hprefix, hbuilds⟩ := h.faithful
  let told : Session := { s with tls := Tls.tlsWriteLine message (Tls.tlsWrite (ascii "BAIL ") false s.tls) }
  have hwrites : Tls.Writes (farewell message) s.tls told.tls :=
    (Tls.writes_tlsWrite hf.queue (ascii "BAIL ") false).trans (Tls.writes_tlsWriteLine message _)
  have hrest : Resting told.tls := (hs.tlsWrite (ascii "BAIL ") false).tlsWriteLine message
  have hflushes : (s.tls.unsent ++ farewell message).length < 2 ^ 31 → Tls.Flushes told.tls := by
    intro hroom
    unfold farewell at hroom
    rw [← List.append_assoc, ← (Tls.writes_tlsWrite hf.queue (ascii "BAIL ") false).unsent] at hroom
    have hroom' : (s.tls.unsent ++ ascii "BAIL ").length < 2 ^ 31 := by
      rw [(Tls.writes_tlsWrite hf.queue (ascii "BAIL ") false).unsent, List.length_append] at hroom
      omega
    exact Tls.flushes_tlsWriteLine (Tls.flushes_tlsWrite hf (by decide) false hroom') hroom
  have hstop : (bail message s) = { clientStop told with exitCode := 1 } := rfl
  have henters : At cfg { clientStop told with exitCode := 1 } (.stopped 1) :=
    stopped_clientStop (s := told) hrest (h.inactive hidle) hprefix hbuilds fun hzero => absurd hzero (by decide)
  have hleaves := hwrites.trans (Tls.writes_tlsShutdown told.tls)
  rw [List.append_nil] at hleaves
  exact ⟨hleaves, fun hroom => Tls.flushes_tlsShutdown (hflushes hroom), rfl, hstop ▸ henters⟩

/-- The stage after a response that is accepted. -/
inductive Follows (cfg : Config) : Stage → Stage → Prop
  | greeted {stage : Stage} : Fetched cfg stage → Follows cfg .greeting stage
  | asked (submission : Submission) : Made cfg submission → Follows cfg (.asking submission) (.sending submission)
  | sent (submission : Submission) {stage : Stage} : Fetched cfg stage → Follows cfg (.sending submission) stage
  | quit : Follows cfg .quitting (.stopped 0)

theorem submitted_of_ok {progname chunk : Bytes} {now : ℕ} {mode : ClientMode} {delimiter : UInt8}
    {submission : Submission} (hchunk : handleInputChunk progname now mode delimiter chunk = .ok (some submission)) :
    ∃ command, submission = submit command := by
  unfold handleInputChunk at hchunk
  dsimp only at hchunk
  split at hchunk
  · cases hchunk
  · split at hchunk
    · cases hchunk
    · rename_i command _
      exact ⟨command, (Option.some.inj (Except.ok.inj hchunk)).symm⟩

theorem Made.submitted {submission : Submission} (h : Made cfg submission) : ∃ command, submission = submit command := by
  obtain ⟨now, chunk, -, hchunk⟩ := h
  exact submitted_of_ok hchunk

theorem submit_sent_ne_nil (command : Bytes) : (submit command).sent ≠ [] := by
  rw [submit_sent]
  exact List.append_ne_nil_of_right_ne_nil _ (List.cons_ne_nil _ _)

theorem Made.sent_ne_nil {submission : Submission} (h : Made cfg submission) : submission.sent ≠ [] := by
  obtain ⟨command, rfl⟩ := h.submitted
  exact submit_sent_ne_nil command

/-- No command is empty. -/
theorem Builds.ne_nil {chunks commands : List Bytes} (h : Builds cfg chunks commands) : ∀ c ∈ commands, c ≠ [] := by
  induction h with
  | nil => simp
  | ignored _ _ ih => exact ih
  | built _ hchunk ih =>
    obtain ⟨command, rfl⟩ := submitted_of_ok hchunk
    intro c hc
    rcases List.mem_append.mp hc with hc | hc
    · exact ih c hc
    · rw [List.mem_singleton.mp hc]
      exact submit_sent_ne_nil command

/-- What the client waits for is not a refusal. -/
theorem Turn.Accepts.not_grumpy {turn : Turn} {line : Bytes} (h : turn.Accepts line) : ¬ Grumpy line := fun hgrumpy => by
  cases turn with
  | greeting => exact hgrumpy.not_moin h.1
  | announcing command => exact hgrumpy.not_okay h
  | sending command => exact hgrumpy.not_okay h
  | quitting => exact hgrumpy.not_okay h

/-- What a line comes to that is no response to the request. -/
structure Rejects (cfg : Config) (line message : Bytes) (s t : Session) : Prop where
  refused : Grumpy line → Takes cfg s t (.stopped 1)
  unexpected : ¬ Grumpy line → Bails cfg message s t

theorem rejects_bail (line message : Bytes) (hs : Resting s.tls) (hf : Tls.Flushes s.tls) (h : Keeps cfg s stage)
    (hidle : stage ≠ .idle) : Rejects cfg line message s ((serverIsGrumpy line s).getD (bail message s)) where
  refused hline := takes_grumpy hs hf h hidle hline _
  unexpected hline := by
    rw [show serverIsGrumpy line s = none from if_neg hline]
    exact bails_bail message hs hf h hidle

/-- `handle_tls_moin_response()`, for a handshake that fails. -/
theorem rejects_moinResponse (cfg : Config) (readings : List Reading) (now : ℕ) {line : Bytes} (hs : Resting s.tls)
    (hf : Tls.Flushes s.tls) (h : Keeps cfg s .greeting) (hline : ¬ Turn.greeting.Accepts line) :
    Rejects cfg line (Turn.greeting.complaint line) s (handleTlsMoinResponse cfg readings now line s) := by
  have hbails : ∀ message, Server.HasKeyword "MOIN" line → Rejects cfg line message s (bail message s) :=
    fun message hmoin =>
      ⟨fun hgrumpy => absurd hmoin hgrumpy.not_moin, fun _ => bails_bail message hs hf h (by simp)⟩
  unfold handleTlsMoinResponse
  rw [Turn.complaint]
  by_cases hmoin : Server.HasKeyword "MOIN" line
  · simp only [if_pos hmoin]
    cases hparse : Server.parseLine line 2 with
    | none => exact hbails _ hmoin
    | some args =>
      dsimp only
      by_cases hsmall : atoi (args.getD 1 []) ≤ 0
      · rw [if_pos hsmall, if_pos hsmall]
        exact hbails _ hmoin
      · by_cases hversion : atoi (args.getD 1 []) = 1
        · exact absurd ⟨hmoin, args, hparse, hversion⟩ hline
        · rw [if_neg hsmall, if_neg hsmall, if_pos hversion]
          exact hbails _ hmoin
  · simp only [if_neg hmoin]
    exact rejects_bail line _ hs hf h (by simp)

/-- **Responses.** The handler that waits for a response takes the client to the next stage if the line is one, and
stops it if the line refuses the request or is something else. -/
theorem takes_answer {handler : Handler} (readings : List Reading) (now : ℕ) (data : Bytes) (hs : Resting s.tls)
    (hf : Tls.Flushes s.tls) (h : Keeps cfg s stage) (hawaits : stage.posture = .awaiting handler) :
    ∃ turn, stage.turn = some turn ∧
      (turn.Accepts (cstr data) → ∃ stage', Follows cfg stage stage' ∧
        Takes cfg s (answer cfg readings now s (.read handler data)) stage') ∧
      (¬ turn.Accepts (cstr data) → Rejects cfg (cstr data) (turn.complaint (cstr data)) s
        (answer cfg readings now s (.read handler data))) := by
  have hkeeps := h
  cases h with
  | connecting => cases hawaits
  | idle => cases hawaits
  | stopped => cases hawaits
  | greeting hk =>
    cases hawaits
    refine ⟨.greeting, rfl, fun hline => ?_, rejects_moinResponse cfg readings now hs hf hkeeps⟩
    obtain ⟨stage', hstage, htakes⟩ := fetched_moinResponse cfg readings now hs hf hk hline
    exact ⟨stage', .greeted hstage, htakes⟩
  | asking r submission hk howed hcommand hmade =>
    cases hawaits
    refine ⟨.announcing submission.sent, rfl, fun hline => ⟨.sending submission, .asked submission hmade,
      takes_pushResponse hs hf hk howed hcommand hmade hmade.sent_ne_nil hline⟩, fun hline => ?_⟩
    have hanswer : answer cfg readings now s (.read .pushResponse data) = _ := if_neg hline
    exact hanswer ▸ rejects_bail _ _ hs hf hkeeps (by simp)
  | sending r submission hk howed hmade =>
    cases hawaits
    refine ⟨.sending submission.sent, rfl, fun hline => ?_, fun hline => ?_⟩
    · obtain ⟨stage', hstage, htakes⟩ := fetched_inputReadChunk readings now hs hf hk howed
      have hanswer : answer cfg readings now s (.read .commandResponse data) = inputReadChunk cfg readings now s :=
        if_pos hline
      exact ⟨stage', .sent submission hstage, hanswer.symm ▸ htakes⟩
    · have hanswer : answer cfg readings now s (.read .commandResponse data) = _ := if_neg hline
      exact hanswer ▸ rejects_bail _ _ hs hf hkeeps (by simp)
  | quitting r hk hfreed =>
    cases hawaits
    refine ⟨.quitting, rfl, fun hline => ⟨.stopped 0, .quit, takes_quitResponse hs hf hk hfreed hline⟩, fun hline => ?_⟩
    have hanswer : answer cfg readings now s (.read .quitResponse data) = _ := if_neg hline
    exact hanswer ▸ rejects_bail _ _ hs hf hkeeps (by simp)

/-! ### What has been built stays -/

theorem built_clientStop (s : Session) : (clientStop s).built = s.built := by
  dsimp only [clientStop]

theorem built_bail (message : Bytes) (s : Session) : (bail message s).built = s.built := by
  dsimp only [bail]
  rw [built_clientStop]

theorem built_request (h : Handler) (request : Bytes) (s : Session) :
    (tlsReadLine h (sendRequest request s)).built = s.built := by
  dsimp only [tlsReadLine, sendRequest]

theorem built_hear (cfg : Config) (now : ℕ) (s : Session) (r : Reader) : s.built <+: (hear cfg now s r).built := by
  unfold hear
  dsimp only
  split
  · exact List.prefix_rfl
  · split
    · unfold announce
      split
      · exact List.prefix_rfl
      · exact List.prefix_rfl
      · rw [built_request]
        exact List.prefix_append _ _
    · unfold handleInputEof
      rw [built_request]
    · exact List.prefix_rfl

theorem built_inputReadChunk (cfg : Config) (readings : List Reading) (now : ℕ) (s : Session) :
    s.built <+: (inputReadChunk cfg readings now s).built := by
  unfold inputReadChunk
  split
  · exact built_hear cfg now s _
  · exact List.prefix_rfl

theorem built_grumpy (line message : Bytes) (s : Session) :
    s.built <+: ((serverIsGrumpy line s).getD (bail message s)).built := by
  unfold serverIsGrumpy
  split
  · rw [Option.getD_some]
    exact (built_clientStop s).symm ▸ List.prefix_rfl
  · rw [Option.getD_none, built_bail]

theorem built_answer (cfg : Config) (readings : List Reading) (now : ℕ) (s : Session) (upcall : Tls.Upcall Handler) :
    s.built <+: (answer cfg readings now s upcall).built := by
  cases upcall with
  | connect handler =>
    show s.built <+: (handleTlsConnect cfg s).built
    unfold handleTlsConnect
    rw [built_request]
  | error handler => exact List.prefix_rfl
  | timeout handler => exact List.prefix_rfl
  | lineTooLong handler => exact List.prefix_rfl
  | read handler data =>
    cases handler with
    | connect => exact List.prefix_rfl
    | moinResponse =>
      show s.built <+: (handleTlsMoinResponse cfg readings now (cstr data) s).built
      unfold handleTlsMoinResponse
      split
      · split
        · rw [built_bail]
        · dsimp only
          split
          · rw [built_bail]
          · split
            · rw [built_bail]
            · exact built_inputReadChunk cfg readings now { s with reader := some (Reader.start cfg.stdin), input := true }
      · exact built_grumpy _ _ s
    | pushResponse =>
      show s.built <+: (handleTlsPushResponse (cstr data) s).built
      unfold handleTlsPushResponse
      split
      · split
        · dsimp only [tlsReadLine]
          exact List.prefix_rfl
        · exact List.prefix_rfl
      · exact built_grumpy _ _ s
    | commandResponse =>
      show s.built <+: (handleTlsCommandResponse cfg readings now (cstr data) s).built
      unfold handleTlsCommandResponse
      split
      · exact built_inputReadChunk cfg readings now s
      · exact built_grumpy _ _ s
    | quitResponse =>
      show s.built <+: (handleTlsQuitResponse (cstr data) s).built
      unfold handleTlsQuitResponse
      split
      · rw [built_clientStop]
      · exact built_grumpy _ _ s

end NscaNg.Client
