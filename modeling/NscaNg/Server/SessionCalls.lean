/-
# What the handlers of a session do

A handler of the server does some plain things first, such as to send a response, and then takes one
of a few courses (`Course`): it goes on to the next request, it lets the client send data, it ends the
session, or it stops there. What each comes to is said of a session in which a handler is at work
(`Working`).
-/
import NscaNg.Common.TlsOutput
import NscaNg.Server.Session

namespace NscaNg
namespace Server

open Posix Libev

/-! ### Courses -/

/-- Neither the requests of the connection nor its end are concerned. -/
def Action.Plain : Action → Prop
  | .access | .setInputLength _ | .setConnectionId _ | .fifoWrite _ | .free _ | .sendResponse _ | .tlsWrite _
  | .tlsWriteLine _ => True
  | _ => False

/-- The course a handler takes. -/
inductive Course : List Action → Prop
  | goesOn (ws : List Action) (h : ReadHandler) : (∀ a ∈ ws, a.Plain) → h ≠ .push → Course (ws ++ [.tlsReadLine h])
  | takes (ws : List Action) (n : ℕ) : (∀ a ∈ ws, a.Plain) → 0 < n → n < 2 ^ 31 →
      Course (ws ++ [.setInputLength n, .tlsRead .push n])
  | ends (ws : List Action) : (∀ a ∈ ws, a.Plain) → Course (ws ++ [.tlsShutdown, .connectionStop])
  | stalls (ws : List Action) : (∀ a ∈ ws, a.Plain) → Course ws

theorem course_bail (message : String) : Course (bail message) :=
  .ends [.tlsWrite (ascii "BAIL "), .tlsWriteLine (ascii message)] (by simp [Action.Plain])

theorem course_clientExited {line : Bytes} {actions : List Action} (h : clientExited line = some actions) :
    Course actions := by
  unfold clientExited at h
  split at h
  · cases h
    exact .ends [.sendResponse (ascii "OKAY")] (by simp [Action.Plain])
  · split at h <;> cases h
    exact .ends [] (by simp)

theorem course_handshake (line : Bytes) : Course (handleHandshake line) := by
  have hfail : ∀ response, Course [.sendResponse response, .tlsReadLine .handshake] :=
    fun response => .goesOn [.sendResponse response] .handshake (by simp [Action.Plain]) (by decide)
  unfold handleHandshake
  split
  · cases hparse : parseLine line 3 with
    | none => exact hfail _
    | some args =>
      dsimp only
      split
      · exact hfail _
      · exact .goesOn [.setConnectionId (args.getD 2 []), .sendResponse (ascii "MOIN 1")] .connection
          (by simp [Action.Plain]) (by decide)
  · split
    · exact .ends [.sendResponse (ascii "PONG 1")] (by simp [Action.Plain])
    · cases hexit : clientExited line with
      | none => exact hfail _
      | some actions => exact course_clientExited hexit

theorem atoi_lt (token : Bytes) : (atoi token).toNat < 2 ^ 31 := by
  unfold atoi
  rw [Int.bmod_def]
  split <;> omega

theorem course_connection (maxCommandSize : ℕ) (line : Bytes) : Course (handleConnection maxCommandSize line) := by
  have hfail : ∀ response, Course [.sendResponse response, .tlsReadLine .connection] :=
    fun response => .goesOn [.sendResponse response] .connection (by simp [Action.Plain]) (by decide)
  unfold handleConnection
  split
  · exact .stalls _ (by simp [Action.Plain])
  · split
    · cases hparse : parseLine line 2 with
      | none => exact hfail _
      | some args =>
        dsimp only
        by_cases hpos : atoi (args.getD 1 []) ≤ 0
        · rw [if_pos hpos]
          exact hfail _
        · rw [if_neg hpos]
          split
          · exact .goesOn [.access, .sendResponse (ascii "FAIL PUSH data size too large")] .connection
              (by simp [Action.Plain]) (by decide)
          · exact .takes [.access, .sendResponse (ascii "OKAY")] _ (by simp [Action.Plain]) (by omega) (atoi_lt _)
    · cases hexit : clientExited line with
      | none => exact hfail _
      | some actions => exact course_clientExited hexit

theorem course_pushData {ρ : Type} (regexec : ρ → Bytes → RegexecResult) (table : AuthTable ρ)
    (identity : Bytes) (inputLength : ℕ) (block : Bytes) :
    Course (handlePushData regexec table identity inputLength block) := by
  unfold handlePushData handlePush
  split
  · exact .goesOn [.access, .fifoWrite (block.take inputLength), .sendResponse (ascii "OKAY")] .connection
      (by simp [Action.Plain]) (by decide)
  · exact .goesOn [.access, .free block, .sendResponse (ascii "FAIL You're not authorized")] .connection
      (by simp [Action.Plain]) (by decide)

/-- What a read handler does, whatever it is given. -/
theorem course_handle {ρ : Type} (cfg : Config ρ) (id : Option Bytes) (inputLength : ℕ) (h : ReadHandler)
    (data : Bytes) : Course (handle cfg id inputLength (.read h) data) := by
  cases h with
  | handshake => exact course_handshake _
  | connection => exact course_connection _ _
  | push => exact course_pushData _ _ _ _ _

/-! ### A handler at work -/

structure Working (s : Session) : Prop where
  fed : Tls.IoFed s.tls
  alive : s.tls.freed = false
  runs : s.tls.died = false
  connection : s.connection = .live
  sound : s.fault = false

/-- Plain things have been done. -/
structure Proceeds (s t : Session) : Prop where
  working : Working t
  tls : Tls.Alike s.tls t.tls
  log : t.log = s.log
  id : t.id = s.id

theorem Proceeds.trans {s t u : Session} (h : Proceeds s t) (h' : Proceeds t u) : Proceeds s u :=
  ⟨h'.working, h.tls.trans h'.tls, h'.log.trans h.log, h'.id.trans h.id⟩

theorem step_of_alive {η : Type} {s : Tls.State η} {e : Tls.Event η} (hfreed : s.freed = false)
    (hdied : s.died = false) : Tls.step s e = Tls.stepAlive s e := by
  unfold Tls.step
  rw [if_neg (by simp [hfreed, hdied])]

theorem call_eq {s : Session} {e : Tls.Event Handler} {t : Tls.State Handler} (hfreed : s.tls.freed = false)
    (hdied : s.tls.died = false) (h : Tls.stepAlive s.tls e = some t) : s.call e = { s with tls := t } := by
  unfold Session.call
  rw [step_of_alive hfreed hdied, h]

theorem use_eq {s : Session} (h : s.connection = .live) (f : Session → Session) : s.use f = f s := by
  unfold Session.use
  rw [if_pos h]

theorem act_connectionStop {s : Session} (h : s.connection = .live) :
    act s .connectionStop = { s with connection := .freed } := by
  rw [act, use_eq h]

theorem perform_eq {s : Session} (h : s.tls.died = false) (a : Action) : perform s a = act s a := by
  unfold perform
  rw [if_neg (by simp [h])]

theorem Working.refl {s : Session} (h : Working s) : Proceeds s s := ⟨h, .refl s.tls, rfl, rfl⟩

theorem Working.write {s : Session} {e : Tls.Event Handler} {t : Tls.State Handler} (hs : Working s)
    (h : Tls.stepAlive s.tls e = some t) (halike : Tls.Alike s.tls t) : Proceeds s (s.call e) := by
  rw [call_eq hs.alive hs.runs h]
  have hfreed : t.freed = s.tls.freed := congrArg Tls.UserSide.freed halike.user
  have hdied : t.died = s.tls.died := congrArg Tls.UserSide.died halike.user
  have hfed := Tls.ioFed_step hs.fed ((step_of_alive hs.alive hs.runs).trans h)
  exact ⟨⟨hfed, hfreed.trans hs.alive, hdied.trans hs.runs, hs.connection, hs.sound⟩, halike, rfl, rfl⟩

theorem Working.plain {s : Session} (hs : Working s) {a : Action} (ha : a.Plain) : Proceeds s (perform s a) := by
  rw [perform_eq hs.runs]
  cases a with
  | access =>
    rw [act, use_eq hs.connection]
    exact hs.refl
  | setInputLength size =>
    rw [act, use_eq hs.connection]
    exact ⟨⟨hs.fed, hs.alive, hs.runs, hs.connection, hs.sound⟩, .refl s.tls, rfl, rfl⟩
  | setConnectionId id => exact hs.refl
  | fifoWrite data => exact hs.refl
  | free data => exact hs.refl
  | sendResponse response => exact hs.write rfl (Tls.alike_tlsWriteLine response s.tls)
  | tlsWrite data =>
    exact hs.write rfl (Tls.tlsWrite_buffered data s.tls ▸ Tls.alike_writeBuffered data s.tls)
  | tlsWriteLine string => exact hs.write rfl (Tls.alike_tlsWriteLine string s.tls)
  | _ => exact ha.elim

theorem Working.plains {s : Session} (hs : Working s) {ws : List Action} (hws : ∀ a ∈ ws, a.Plain) :
    Proceeds s (ws.foldl perform s) := by
  induction ws generalizing s with
  | nil => exact hs.refl
  | cons a ws ih =>
    have ha := hs.plain (hws a List.mem_cons_self)
    exact ha.trans (ih ha.working fun b hb => hws b (List.mem_cons_of_mem a hb))

theorem Working.tlsRead {s : Session} (hs : Working s) (hoff : .read ∉ s.tls.loop.active) (h : ReadHandler)
    (n : ℕ) : perform s (.tlsRead h n) = { s with tls := (s.tls.ask (.read h) n).arm .read .read } := by
  have hstep : Tls.stepAlive s.tls (.tlsRead (.read h) n) = some ((s.tls.ask (.read h) n).arm .read .read) := by
    simp only [Tls.stepAlive, Tls.tlsRead, if_neg hoff]
  rw [perform_eq hs.runs]
  exact call_eq hs.alive hs.runs hstep

theorem Working.shutdown {s : Session} (hs : Working s) : [.tlsShutdown, .connectionStop].foldl perform s =
    { s with tls := Tls.tlsShutdown s.tls, connection := .freed } := by
  have hstep : perform s .tlsShutdown = { s with tls := Tls.tlsShutdown s.tls } := by
    rw [perform_eq hs.runs]
    exact call_eq hs.alive hs.runs rfl
  have hdied : (Tls.tlsShutdown s.tls).died = s.tls.died :=
    congrArg Tls.UserSide.died (Tls.userSide_tlsShutdown s.tls)
  rw [List.foldl_cons, List.foldl_cons, List.foldl_nil, hstep, perform_eq (hdied.trans hs.runs)]
  exact act_connectionStop hs.connection

end Server
end NscaNg
