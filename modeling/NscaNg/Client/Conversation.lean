/-
# The client's part of a conversation

Whatever a server sends, and however the bytes are cut up, the client keeps to its part (`client_conversation`). It
greets the server, announces and sends the commands one after the other, in the order of its standard input, and quits
(`script`). What comes next it says only when the line that answers what it has said last is the one it waits for; after
any other line it says nothing more, or takes its leave (`Converses`). It exits with 0 only when all of this has been
said, sent and answered.
-/
import NscaNg.Common.TlsLines
import NscaNg.Server.SessionCalls
import NscaNg.Client.SessionMoves

namespace NscaNg.Client

open Posix

variable {cfg : Config} {s t : Session} {stage stage' : Stage}

/-! ### Conversations -/

/-- What the client says to submit the commands, before it quits. -/
def script (commands : List Bytes) : List Turn :=
  .greeting :: commands.flatMap fun command => [.announcing command, .sending command]

/-- What is said in these turns. -/
def said (cfg : Config) (turns : List Turn) : Bytes := turns.flatMap (Turn.request cfg)

/-- The client takes these turns, hears these lines, and says this. -/
inductive Converses (cfg : Config) : List Turn → List Bytes → Bytes → Prop
  | silent : Converses cfg [] [] []
  | waits (turn : Turn) : Converses cfg [turn] [] (turn.request cfg)
  | accepted {turn : Turn} {line : Bytes} {turns : List Turn} {lines : List Bytes} {rest : Bytes} : turn.Accepts line →
      Converses cfg turns lines rest → Converses cfg (turn :: turns) (line :: lines) (turn.request cfg ++ rest)
  | refused {turn : Turn} {line : Bytes} : ¬ turn.Accepts line → Grumpy line →
      Converses cfg [turn] [line] (turn.request cfg)
  | bails {turn : Turn} {line : Bytes} : ¬ turn.Accepts line → ¬ Grumpy line →
      Converses cfg [turn] [line] (turn.request cfg ++ farewell (turn.complaint line))

/-- A conversation goes on after turns that have been answered. -/
theorem Converses.after {before turns : List Turn} {answers lines : List Bytes} {rest : Bytes}
    (h : List.Forall₂ Turn.Accepts before answers) (hrest : Converses cfg turns lines rest) :
    Converses cfg (before ++ turns) (answers ++ lines) (said cfg before ++ rest) := by
  induction h with
  | nil => exact hrest
  | @cons turn line before answers hline _ ih =>
    have hsaid : said cfg (turn :: before) ++ rest = turn.request cfg ++ (said cfg before ++ rest) :=
      List.append_assoc _ _ _
    rw [hsaid]
    exact .accepted hline ih

theorem said_append (cfg : Config) (turns more : List Turn) : said cfg (turns ++ more) = said cfg turns ++ said cfg more :=
  List.flatMap_append

theorem said_singleton (cfg : Config) (turn : Turn) : said cfg [turn] = turn.request cfg := List.append_nil _

theorem length_said (cfg : Config) {turns more : List Turn} (h : turns <+: more) :
    (said cfg turns).length ≤ (said cfg more).length := by
  obtain ⟨rest, rfl⟩ := h
  rw [said_append, List.length_append]
  omega

theorem script_snoc (commands : List Bytes) (command : Bytes) :
    script (commands ++ [command]) = script commands ++ [.announcing command, .sending command] := by
  simp [script]

theorem script_mono {commands more : List Bytes} (h : commands <+: more) : script commands <+: script more := by
  obtain ⟨rest, rfl⟩ := h
  simp [script]

/-- The last words of the client are short. -/
theorem length_complaint (turn : Turn) (line : Bytes) : (farewell (turn.complaint line)).length ≤ 64 := by
  have hshort : ∀ message : Bytes, message.length ≤ 57 → (farewell message).length ≤ 64 := by
    intro message hlength
    have hends : (ascii "BAIL ").length = 5 ∧ Tls.lineTerminator.length = 2 := by decide
    unfold farewell
    rw [List.length_append, List.length_append, hends.1, hends.2]
    omega
  apply hshort
  cases turn with
  | greeting =>
    rw [Turn.complaint]
    split
    · split
      · decide
      · rename_i args _
        dsimp only
        split
        · decide
        · have hlt := Server.atoi_lt (args.getD 1 [])
          have hdecimal : decimalInt (atoi (args.getD 1 [])) = decimal (atoi (args.getD 1 [])).toNat := by
            unfold decimalInt
            rw [if_neg (by omega)]
            congr 1
            omega
          have hdigits : (decimal (atoi (args.getD 1 [])).toNat).length ≤ 10 :=
            length_decimal_le (k := 9) (lt_trans hlt (by decide))
          have hends : (ascii "Protocol version ").length = 17 ∧ (ascii " not supported").length = 14 := by decide
          rw [hdecimal, List.length_append, List.length_append, hends.1, hends.2]
          omega
    · decide
  | announcing command => exact (by decide : (ascii "Received unexpected PUSH response").length ≤ 57)
  | sending command => exact (by decide : (ascii "Received unexpected response after sending command(s)").length ≤ 57)
  | quitting => exact (by decide : (ascii "Received unexpected QUIT response").length ≤ 57)

/-! ### The lines of the server -/

section

variable {η : Type} {u v : Tls.State η} {lines : List Bytes}

/-- What a handler sees of a line, whatever its bytes. -/
theorem cstr_readLine (line : Bytes) : cstr (terminateLine (line ++ [newline])) = cstr (Tls.chomp line) := by
  rcases List.eq_nil_or_concat line with rfl | ⟨front, last, rfl⟩
  · rfl
  · rw [List.concat_eq_append]
    have hlen : (front ++ [last] ++ [newline]).length = front.length + 2 := by simp
    have hget : (front ++ [last] ++ [newline]).getD (front.length + 2 - 2) 0 = last := by
      simp [List.getD_eq_getElem?_getD]
    unfold terminateLine Tls.chomp
    rw [hlen, hget, List.getLast?_append, List.getLast?_singleton, Option.some_or]
    by_cases hlast : last = ch '\r'
    · rw [if_pos ⟨by omega, hlast⟩, if_pos (congrArg some hlast), List.dropLast_concat]
      have hset : (front ++ [last] ++ [newline]).set (front.length + 2 - 2) 0 = front ++ 0 :: [newline] := by simp
      rw [hset, cstr_terminated]
    · rw [if_neg (fun hc => hlast hc.2), if_neg (fun hc => hlast (Option.some.inj hc))]
      have hset : (front ++ [last] ++ [newline]).set (front.length + 2 - 1) 0 = (front ++ [last]) ++ 0 :: [] := by simp
      rw [hset, cstr_terminated]

/-- These lines have been read of what has been received. -/
def Hears (u : Tls.State η) (lines : List Bytes) : Prop :=
  ∃ raw : List Bytes, (∀ l ∈ raw, newline ∉ l) ∧ lines = raw.map (fun l => cstr (Tls.chomp l)) ∧
    u.history.received = Tls.unlines raw ++ u.unread

theorem Hears.quiet {written : Bytes} (h : Hears u lines) (hflow : Tls.Flow none written u v) : Hears v lines := by
  obtain ⟨raw, hall, hlines, hreceived⟩ := h
  obtain ⟨bytes, hmore, hunread⟩ := hflow.received
  have hunread : v.unread = u.unread ++ bytes := hunread
  exact ⟨raw, hall, hlines, by rw [hmore, hreceived, hunread, List.append_assoc]⟩

theorem Hears.reads {written data : Bytes} (h : Hears u lines) (hflow : Tls.Flow (some (.line, data)) written u v) :
    Hears v (lines ++ [cstr data]) := by
  obtain ⟨raw, hall, rfl, hreceived⟩ := h
  obtain ⟨bytes, hmore, hanswer⟩ := hflow.received
  have hread : bufferReadLine (u.unread ++ bytes) = some (data, v.unread) := hanswer
  have hmem : newline ∈ u.unread ++ bytes := by
    by_contra hc
    rw [bufferReadLine_eq_none.mpr hc] at hread
    cases hread
  obtain ⟨line, rest, hsplit, hline⟩ := exists_line hmem
  rw [hsplit, bufferReadLine_line hline] at hread
  cases hread
  refine ⟨raw ++ [line], fun l hl => ?_, by simp [cstr_readLine], ?_⟩
  · rcases List.mem_append.mp hl with hl | hl
    · exact hall l hl
    · exact List.mem_singleton.mp hl ▸ hline
  · rw [hmore, hreceived, List.append_assoc, hsplit]
    simp [Tls.unlines]

/-- What has been read is cut from what has been received. -/
theorem Hears.received (h : Hears u lines) : lines <+: (Tls.streamLines u.history.received).map cstr := by
  obtain ⟨raw, hall, rfl, hreceived⟩ := h
  rw [hreceived, Tls.streamLines_unlines hall, List.map_append, List.map_map]
  exact List.prefix_append _ _

end

/-! ### Turns and stages -/

/-- The turns that have been answered when the client, with these commands built, has come to the stage. -/
inductive Stands : List Bytes → Stage → List Turn → Prop
  | connecting : Stands [] .connecting []
  | greeting : Stands [] .greeting []
  | idle (built : List Bytes) : Stands built .idle (script built)
  | asking (built : List Bytes) (submission : Submission) :
      Stands (built ++ [submission.sent]) (.asking submission) (script built)
  | sending (built : List Bytes) (submission : Submission) :
      Stands (built ++ [submission.sent]) (.sending submission) (script built ++ [.announcing submission.sent])
  | quitting (built : List Bytes) : Stands built .quitting (script built)
  | stopped (built : List Bytes) : Stands built (.stopped 0) (script built ++ [.quitting])

variable {built : List Bytes} {before : List Turn}

theorem stands_fetched (h : Fetched cfg stage) (built : List Bytes) :
    Stands (built ++ stage.builds) stage (script built) := by
  cases h with
  | idle => exact (List.append_nil built).symm ▸ .idle built
  | asking submission _ => exact .asking built submission
  | quitting => exact (List.append_nil built).symm ▸ .quitting built

theorem Stands.advances (h : Stands built stage before) (hadvances : Advances cfg stage stage') :
    Stands (built ++ stage'.builds) stage' before := by
  cases hadvances with
  | connected =>
    cases h
    exact .greeting
  | fetched hstage =>
    cases h
    exact stands_fetched hstage built

/-- The turn has been answered. -/
theorem Stands.follows {turn : Turn} (h : Stands built stage before) (hturn : stage.turn = some turn)
    (hfollows : Follows cfg stage stage') : Stands (built ++ stage'.builds) stage' (before ++ [turn]) := by
  cases h with
  | connecting => cases hturn
  | idle => cases hturn
  | stopped => cases hturn
  | greeting =>
    cases hturn
    cases hfollows with
    | greeted hstage => exact stands_fetched hstage []
  | asking built submission =>
    cases hturn
    cases hfollows with
    | asked _ _ => exact (List.append_nil _).symm ▸ .sending built submission
  | sending built submission =>
    cases hturn
    cases hfollows with
    | sent _ hstage =>
      have hscript : script built ++ [.announcing submission.sent] ++ [.sending submission.sent] =
          script (built ++ [submission.sent]) := by
        rw [script_snoc, List.append_assoc]
        rfl
      rw [hscript]
      exact stands_fetched hstage _
  | quitting =>
    cases hturn
    cases hfollows
    exact (List.append_nil built).symm ▸ .stopped built

/-- The client keeps to the script. -/
theorem Stands.within (h : Stands built stage before) :
    before ++ stage.turn.toList <+: script built ++ [.quitting] := by
  cases h with
  | connecting => exact List.nil_prefix
  | greeting => exact ⟨[.quitting], rfl⟩
  | idle => exact (List.append_nil (script built)).symm ▸ List.prefix_append _ _
  | asking built submission =>
    refine ⟨[.sending submission.sent, .quitting], ?_⟩
    rw [script_snoc]
    simp [Stage.turn]
  | sending built submission =>
    refine ⟨[.quitting], ?_⟩
    rw [script_snoc]
    simp [Stage.turn]
  | quitting => exact List.prefix_rfl
  | stopped => exact (List.append_nil _).symm ▸ List.prefix_rfl

/-- A client that stops after this has kept to all of it. -/
theorem Stands.all (h : Stands built (.stopped 0) before) : before = script built ++ [.quitting] := by
  cases h
  rfl

/-! ### What is said at a stage -/

theorem Made.request {submission : Submission} (h : Made cfg submission) :
    (Stage.asking submission).request cfg = (Turn.announcing submission.sent).request cfg := by
  obtain ⟨command, rfl⟩ := h.submitted
  show (submit command).request ++ _ = ascii "PUSH " ++ decimal ((submit command).sent.length % 2 ^ 32) ++ _
  rw [submit_sent, List.length_append]
  rfl

theorem request_fetched (h : Fetched cfg stage) : stage.request cfg = said cfg stage.turn.toList := by
  cases h with
  | idle => rfl
  | asking submission hmade => exact hmade.request.trans (said_singleton cfg _).symm
  | quitting => exact (said_singleton cfg .quitting).symm

theorem request_advances (h : Advances cfg stage stage') : stage'.request cfg = said cfg stage'.turn.toList := by
  cases h with
  | connected => exact (said_singleton cfg .greeting).symm
  | fetched hstage => exact request_fetched hstage

theorem request_follows (h : Follows cfg stage stage') : stage'.request cfg = said cfg stage'.turn.toList := by
  cases h with
  | greeted hstage => exact request_fetched hstage
  | asked submission _ => exact (said_singleton cfg (.sending submission.sent)).symm
  | sent _ hstage => exact request_fetched hstage
  | quit => rfl

/-! ### Steps -/

/-- Everything the client has written. -/
def Session.written (s : Session) : Bytes := s.tls.history.sent ++ s.tls.unsent

/-- The client takes its turns, or has had its last word. -/
inductive Conversing (cfg : Config) (s : Session) : Stage → Prop
  | going {stage : Stage} (before : List Turn) (lines : List Bytes) : Stands s.built stage before →
      List.Forall₂ Turn.Accepts before lines → Hears s.tls lines →
      s.written = said cfg (before ++ stage.turn.toList) → Conversing cfg s stage
  | ends (turns : List Turn) (lines : List Bytes) : turns <+: script s.built ++ [.quitting] → Hears s.tls lines →
      Converses cfg turns lines s.written → Conversing cfg s (.stopped 1)

theorem Conversing.transcript (h : Conversing cfg s stage) : ∃ turns lines, turns <+: script s.built ++ [.quitting] ∧
    Hears s.tls lines ∧ Converses cfg turns lines s.written := by
  cases h with
  | ends turns lines hwithin hhears hconverses => exact ⟨turns, lines, hwithin, hhears, hconverses⟩
  | going before lines hstands haccepts hhears hwritten =>
    have hrest : Converses cfg stage.turn.toList [] (said cfg stage.turn.toList) := by
      cases stage.turn with
      | none => exact .silent
      | some turn => exact (said_singleton cfg turn).symm ▸ .waits turn
    have hconverses := Converses.after haccepts hrest
    rw [List.append_nil, ← said_append, ← hwritten] at hconverses
    exact ⟨_, lines, hstands.within, hhears, hconverses⟩

/-- What the client would write in all is not too long for a connection. -/
def HasRoom (cfg : Config) (built : List Bytes) : Prop := (said cfg (script built ++ [.quitting])).length + 64 < 2 ^ 31

theorem HasRoom.mono {built more : List Bytes} (h : HasRoom cfg more) (hmore : built <+: more) : HasRoom cfg built := by
  have hle := length_said cfg (script_mono hmore)
  unfold HasRoom at h ⊢
  rw [said_append, List.length_append] at h ⊢
  omega

/-- What holds of a client between the steps. -/
structure Partaking (cfg : Config) (s : Session) (stage : Stage) : Prop where
  conversing : Conversing cfg s stage
  faithful : Faithful cfg s
  runs : s.Ended ∨ At cfg s stage ∧ Tls.Flushes s.tls

theorem unsent_le_written (s : Session) (more : Bytes) :
    (s.tls.unsent ++ more).length ≤ (s.written ++ more).length := by
  unfold Session.written
  simp only [List.length_append]
  omega

/-- The client goes on to a stage of the script. -/
theorem Partaking.comes {taken : Option (Tls.Request × Bytes)} {before : List Turn} {lines : List Bytes}
    (hs : Faithful cfg s) (hroom : HasRoom cfg t.built) (hc : Comes cfg taken s t stage')
    (hwritten : s.written = said cfg before) (hrequest : stage'.request cfg = said cfg stage'.turn.toList)
    (hstands : Stands (s.built ++ stage'.builds) stage' before) (haccepts : List.Forall₂ Turn.Accepts before lines)
    (hhears : Hears t.tls lines) : Partaking cfg t stage' := by
  have hgrown : t.written = said cfg (before ++ stage'.turn.toList) := by
    rw [said_append, ← hwritten, ← hrequest]
    exact hc.flow.stream
  rw [← hc.built] at hstands
  refine ⟨.going before lines hstands haccepts hhears hgrown, hc.faithful hs, hc.enters.imp (fun h => Or.inl h.1)
    fun hat => ⟨hat, hc.flushes ?_⟩⟩
  have hle := unsent_le_written s (stage'.request cfg)
  rw [hrequest] at hle ⊢
  rw [hwritten, ← said_append] at hle
  have hwithin := length_said cfg hstands.within
  unfold HasRoom at hroom
  omega

/-- **A step of the conversation.** -/
theorem partaking_step {e : Event} (h : Partaking cfg s stage) (hroom : HasRoom cfg t.built)
    (hstep : step cfg s e = some t) : ∃ stage', Partaking cfg t stage' := by
  have hruns : ¬ s.Ended := fun hended => by
    rw [Client.step, if_pos (show s.died = true ∨ s.tls.died = true from hended)] at hstep
    cases hstep
  obtain ⟨hat, hflushes⟩ := h.runs.resolve_left hruns
  have hmoves := moves_step hat hflushes hstep
  obtain ⟨hconversing, hfaithful, -⟩ := h
  cases hconversing with
  | ends turns lines hwithin hhears hconverses =>
    cases hmoves with
    | quiet hflow hft hbuilt henters =>
      have hwritten : t.written = s.written := hflow.stream.trans (List.append_nil _)
      obtain ⟨done, hdone, hbuilds⟩ := hfaithful
      exact ⟨_, .ends turns lines (hbuilt ▸ hwithin) (hhears.quiet hflow) (hwritten ▸ hconverses),
        ⟨done, hdone, hbuilt.symm ▸ hbuilds⟩, henters.imp Or.inl fun hat => ⟨hat, hft⟩⟩
    | advances stage' hadvances _ => cases hadvances
    | accepts data turn stage' hturn _ _ _ => cases hturn
    | refused data turn hturn _ _ _ => cases hturn
    | bails data turn hturn _ _ _ => cases hturn
  | going before lines hstands haccepts hhears hwritten =>
    -- the turn is the last one, and this is what the client says in it
    have hlast : ∀ {data : Bytes} {turn : Turn} {rest : Bytes}, stage.turn = some turn → t.built = s.built →
        Tls.Flow (some (.line, data)) rest s.tls t.tls →
        Converses cfg [turn] [cstr data] (turn.request cfg ++ rest) → Conversing cfg t (.stopped 1) := by
      intro data turn rest hturn hbuilt hflow hconverses
      have hwithin := hstands.within
      rw [hturn, Option.toList_some] at hwithin hwritten
      refine .ends _ _ (hbuilt.symm ▸ hwithin) (hhears.reads hflow) ?_
      have hgrown : t.written = said cfg before ++ (turn.request cfg ++ rest) := by
        rw [← List.append_assoc, ← said_singleton, ← said_append, ← hwritten]
        exact hflow.stream
      rw [hgrown]
      exact Converses.after haccepts hconverses
    cases hmoves with
    | quiet hflow hft hbuilt henters =>
      have hgrown : t.written = s.written := hflow.stream.trans (List.append_nil _)
      obtain ⟨done, hdone, hbuilds⟩ := hfaithful
      exact ⟨stage, .going before lines (hbuilt.symm ▸ hstands) haccepts (hhears.quiet hflow) (hgrown.trans hwritten),
        ⟨done, hdone, hbuilt.symm ▸ hbuilds⟩, henters.imp Or.inl fun hat => ⟨hat, hft⟩⟩
    | advances stage' hadvances hc =>
      have hquiet : stage.turn = none := by cases hadvances <;> rfl
      rw [hquiet, Option.toList_none, List.append_nil] at hwritten
      exact ⟨stage', .comes hfaithful hroom hc hwritten (request_advances hadvances) (hstands.advances hadvances)
        haccepts (hhears.quiet hc.flow)⟩
    | accepts data turn stage' hturn hline hfollows hc =>
      rw [hturn, Option.toList_some] at hwritten
      have hanswered : List.Forall₂ Turn.Accepts (before ++ [turn]) (lines ++ [cstr data]) :=
        List.rel_append haccepts (.cons hline .nil)
      exact ⟨stage', .comes hfaithful hroom hc hwritten (request_follows hfollows) (hstands.follows hturn hfollows)
        hanswered (hhears.reads hc.flow)⟩
    | refused data turn hturn hline hgrumpy hc =>
      have hbuilt : t.built = s.built := hc.built.trans (List.append_nil _)
      have hconverses : Converses cfg [turn] [cstr data] (turn.request cfg ++ []) :=
        (List.append_nil (turn.request cfg)).symm ▸ .refused hline hgrumpy
      refine ⟨_, hlast hturn hbuilt hc.flow hconverses, hc.faithful hfaithful,
        hc.enters.imp (fun h => Or.inl h.1) fun hat => ⟨hat, hc.flushes ?_⟩⟩
      rw [show (Stage.stopped 1).request cfg = [] from rfl, List.append_nil]
      exact hflushes.queue.bounded
    | bails data turn hturn hline hgrumpy hd =>
      obtain ⟨done, hdone, hbuilds⟩ := hfaithful
      refine ⟨_, hlast hturn hd.built hd.flow (.bails hline hgrumpy), ⟨done, hdone, hd.built.symm ▸ hbuilds⟩,
        Or.inr ⟨hd.enters, hd.flushes ?_⟩⟩
      have hle := unsent_le_written s (farewell (turn.complaint (cstr data)))
      have hfarewell := length_complaint turn (cstr data)
      have hwithin := length_said cfg hstands.within
      rw [← hwritten] at hwithin
      simp only [List.length_append] at hle ⊢
      unfold HasRoom at hroom
      rw [hd.built] at hroom
      omega

/-! ### Runs -/

/-- The client has come to this state, whatever the server has sent and however the callbacks have followed each
other. -/
def Running (cfg : Config) (es : List Event) (s : Session) : Prop :=
  ∃ hasSocket reply now, Machine.Runs (Machine.Steps (step cfg)) (start cfg hasSocket reply now) es s

theorem partaking_start (cfg : Config) (hasSocket : Bool) (reply : Tls.SslAccept) (now : ℚ) :
    ∃ stage, Partaking cfg (start cfg hasSocket reply now) stage := by
  obtain ⟨stage, hbegins⟩ := begins_start cfg hasSocket reply now
  generalize start cfg hasSocket reply now = s at hbegins
  have hhears : Hears s.tls [] := ⟨[], fun l hl => absurd hl List.not_mem_nil, rfl, by
    rw [hbegins.received, hbegins.unread]
    rfl⟩
  have hwritten : s.written = stage.request cfg := by
    unfold Session.written
    rw [hbegins.sent, hbegins.unsent, List.nil_append]
  have hfaithful : Faithful cfg s := ⟨[], List.nil_prefix, hbegins.built.symm ▸ .nil⟩
  have hruns : s.Ended ∨ At cfg s stage ∧ Tls.Flushes s.tls := hbegins.enters.imp id fun hat => ⟨hat, hbegins.flushes⟩
  have hbuilt := hbegins.built
  rcases hbegins.first with rfl | rfl
  · exact ⟨.connecting, .going [] [] (hbuilt.symm ▸ .connecting) .nil hhears hwritten, hfaithful, hruns⟩
  · have hgreeting : s.written = said cfg [.greeting] := hwritten.trans (said_singleton cfg .greeting).symm
    exact ⟨.greeting, .going [] [] (hbuilt.symm ▸ .greeting) .nil hhears hgreeting, hfaithful, hruns⟩

theorem Running.partaking {es : List Event} (h : Running cfg es s) (hroom : HasRoom cfg s.built) :
    ∃ stage, Partaking cfg s stage := by
  obtain ⟨hasSocket, reply, now, hruns⟩ := h
  have hinvariant := hruns.invariant (I := fun s => HasRoom cfg s.built → ∃ stage, Partaking cfg s stage)
    (fun s e t hs hstep hroom => by
      obtain ⟨stage, hpartaking⟩ := hs (hroom.mono (built_step hstep))
      exact partaking_step hpartaking hroom hstep)
    (fun _ => partaking_start cfg hasSocket reply now)
  exact hinvariant hroom

/-- **The client keeps to its part**, whatever the server sends and however the callbacks follow each other: what it has
written is what it says in the first turns of its script, when it hears the first lines of the server. When it exits with
0, all turns have been taken and answered, all of it has been sent, and the commands are those of its standard input. -/
theorem client_conversation {es : List Event} (h : Running cfg es s) (hroom : HasRoom cfg s.built) :
    ∃ turns lines, turns <+: script s.built ++ [.quitting] ∧ lines <+: (Tls.streamLines s.tls.history.received).map cstr ∧
      Converses cfg turns lines s.written ∧ (∃ done, done <+: cfg.chunks ∧ Builds cfg done s.built) ∧
      (s.exitStatus = some 0 → turns = script s.built ++ [.quitting] ∧ List.Forall₂ Turn.Accepts turns lines ∧
        s.tls.history.sent = said cfg turns ∧ Builds cfg cfg.chunks s.built) := by
  obtain ⟨stage, hconversing, hfaithful, hruns⟩ := h.partaking hroom
  by_cases hexit : s.exitStatus = some 0
  · have hended : ¬ s.Ended := fun hended => by
      unfold Session.exitStatus at hexit
      rw [if_pos (show s.died = true ∨ s.tls.died = true from hended)] at hexit
      cases hexit
    obtain ⟨hat, -⟩ := hruns.resolve_left hended
    obtain ⟨rfl, hbuilds⟩ := hat.exits hended hexit
    have hsent := hat.sent hended hexit
    cases hconversing with
    | going before lines hstands haccepts hhears hwritten =>
      have hturns := hstands.all
      have hsaid : s.tls.history.sent = said cfg before := by
        rw [Session.written, hsent, List.append_nil] at hwritten
        rw [hwritten]
        exact congrArg _ (List.append_nil before)
      have hconverses := Converses.after haccepts (.silent : Converses cfg [] [] [])
      rw [List.append_nil, List.append_nil, List.append_nil, ← hsaid] at hconverses
      refine ⟨before, lines, hturns ▸ List.prefix_rfl, hhears.received, ?_, hfaithful,
        fun _ => ⟨hturns, haccepts, hsaid, hbuilds rfl⟩⟩
      rw [Session.written, hsent, List.append_nil]
      exact hconverses
  · obtain ⟨turns, lines, hwithin, hhears, hconverses⟩ := hconversing.transcript
    exact ⟨turns, lines, hwithin, hhears.received, hconverses, hfaithful, fun h => absurd h hexit⟩

/-- `send_nsca` with a host check result. -/
def downClient : Config where
  progname := ascii "send_nsca"
  mode := .checkResult
  delimiter := 9
  separator := 23
  timeout := 5
  sessionId := ascii "ZG93bjAx"
  sessionId_base64 := by decide +kernel
  sessionId_length := rfl
  stdin := ascii "web\t1\tdown\n"

/-- The server gives all of its answers before anything has been sent to it. -/
def downEvents : List Event :=
  [.ready .init, .connectCb (.ok ()),
    .readCb [.data (ch 'M') (ascii "OIN 1\r\nOKAY\nOKAY\nOKAY\n")] [.data 99, .data 99] 7,
    .readCb [] [] 0, .readCb [] [.data 99] 8, .writeCb [.sent 99, .sent 99], .readCb [] [] 0, .shutdownCb [.done]]

theorem client_conversation_down : ∃ s, Running downClient downEvents s ∧
    s.tls.history.sent = said downClient [.greeting, .announcing (ascii "[7] PROCESS_HOST_CHECK_RESULT;web;1;down\n"),
      .sending (ascii "[7] PROCESS_HOST_CHECK_RESULT;web;1;down\n"), .quitting] := by
  obtain ⟨s, hs, hp⟩ := (Option.any_eq_true _ _).mp (by decide +kernel : Option.any
    (fun s : Session => decide (s.exitStatus = some 0 ∧
      s.built = [ascii "[7] PROCESS_HOST_CHECK_RESULT;web;1;down\n"]))
    (Machine.run (step downClient) (start downClient true (.error .wantRead) 0) downEvents) = true)
  obtain ⟨hexit, hbuilt⟩ := of_decide_eq_true hp
  have hrunning : Running downClient downEvents s := ⟨true, .error .wantRead, 0, Machine.runs_of_run hs⟩
  have hroom : HasRoom downClient s.built := by
    rw [hbuilt]
    unfold HasRoom
    decide
  obtain ⟨turns, lines, -, -, -, -, hall⟩ := client_conversation hrunning hroom
  obtain ⟨hturns, -, hsent, -⟩ := hall hexit
  rw [hbuilt] at hturns
  exact ⟨s, hrunning, by rw [hsent, hturns]; rfl⟩

end NscaNg.Client
