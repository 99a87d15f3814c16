/-
# Whose commands these are

OpenSSL binds an identity to a connection only if the client uses the key that `check_psk()` gives for this identity. So
whatever gets to the command file was granted by a section to a client that knows the password of this section
(`command_file_authenticated`).
-/
import NscaNg.Server.Authorizations
import NscaNg.Server.CommandFile

namespace NscaNg
namespace Server

open Posix

/-- The server as it is configured. -/
def configured (table : HashTable AuthSection) (maxCommandSize : ℕ) (timeout : ℚ) : Config Regex where
  maxCommandSize := maxCommandSize
  timeout := timeout
  table := authTable table
  regexec := posixRegexec

/-- An identity is bound only to a client that knows the key for it. An empty key is a refusal. -/
def Authentic (table : HashTable AuthSection) (maxPasswordLen : ℕ) (knows : ℕ → Bytes → Prop) : ServerEvent → Prop
  | .connection n e _ => ∀ identity ∈ e.identity, checkPsk table maxPasswordLen true identity ≠ [] ∧
      knows n (checkPsk table maxPasswordLen true identity)
  | .accept _ _ _ | .fifo _ => True

instance (table : HashTable AuthSection) (maxPasswordLen : ℕ) (knows : ℕ → Bytes → Prop)
    [∀ n key, Decidable (knows n key)] (e : ServerEvent) : Decidable (Authentic table maxPasswordLen knows e) :=
  match e with
  | .connection n e _ => inferInstanceAs (Decidable (∀ identity ∈ e.identity,
      checkPsk table maxPasswordLen true identity ≠ [] ∧ knows n (checkPsk table maxPasswordLen true identity)))
  | .accept _ _ _ => .isTrue trivial
  | .fifo _ => .isTrue trivial

section

variable {ρ : Type} {cfg : Config ρ} {fcfg : Fifo.Config} {d d' : ServerState} {P : ℕ → Bytes → Prop}

/-- An identity comes from the event, or it was there before. -/
theorem id_step {s t : Session} {e : Event} (h : step cfg s e = some t) :
    ∀ identity ∈ t.id, identity ∈ e.identity ∨ identity ∈ s.id := by
  intro identity hid
  unfold step at h
  split at h
  · cases h
  · split at h
    · split at h
      · cases h
      · cases h
      · obtain ⟨u, -, rfl⟩ := Option.map_eq_some_iff.mp h
        exact Or.inr hid
    · obtain ⟨u, -, rfl⟩ := Option.map_eq_some_iff.mp h
      rw [(react_keeps cfg { s with id := e.identity.or s.id } u).1] at hid
      cases he : e.identity with
      | none =>
        rw [he, Option.none_or] at hid
        exact Or.inr hid
      | some other =>
        rw [he, Option.some_or] at hid
        exact Or.inl hid

/-- Each connection has only an identity that it may have. -/
def Identified (P : ℕ → Bytes → Prop) (d : ServerState) : Prop :=
  ∀ n s, d.connections[n]? = some s → ∀ identity ∈ s.id, P n identity

theorem Identified.accept (h : Identified P d) (cfg : Config ρ) (hasAddress hasSsl : Bool) (now : ℚ) :
    Identified P (d.accepted (start cfg hasAddress hasSsl now)) := by
  intro n s hs identity hid
  unfold ServerState.accepted at hs
  dsimp only at hs
  rcases lt_or_ge n d.connections.length with hn | hn
  · rw [List.getElem?_append_left hn] at hs
    exact h n s hs identity hid
  · rw [List.getElem?_append_right hn, List.getElem?_singleton] at hs
    split at hs
    · cases hs
      cases hid
    · cases hs

theorem Identified.moved {n : ℕ} {e : Event} {s t : Session} (h : Identified P d) (hs : d.connections[n]? = some s)
    (hstep : step cfg s e = some t) (he : ∀ identity ∈ e.identity, P n identity) (r : Fifo.Replies) :
    Identified P (d.moved fcfg n s t r) := by
  intro k u hu identity hid
  unfold ServerState.moved at hu
  dsimp only at hu
  by_cases hk : n = k
  · subst hk
    rw [List.getElem?_set_self (List.getElem?_eq_some_iff.mp hs).1] at hu
    obtain rfl := Option.some.inj hu
    rcases id_step hstep identity hid with hevent | hbefore
    · exact he identity hevent
    · exact h n s hs identity hbefore
  · rw [List.getElem?_set_ne hk] at hu
    exact h k u hu identity hid

theorem Identified.step {e : ServerEvent} (h : Identified P d) (hstep : serverStep cfg fcfg d e = some d')
    (he : ∀ n event r, e = .connection n event r → ∀ identity ∈ event.identity, P n identity) : Identified P d' := by
  cases e with
  | accept hasAddress hasSsl now =>
    cases hstep
    exact h.accept cfg hasAddress hasSsl now
  | connection n event r =>
    unfold serverStep at hstep
    dsimp only at hstep
    split at hstep
    · cases hstep
    · rename_i s hs
      obtain ⟨t, ht, rfl⟩ := Option.map_eq_some_iff.mp hstep
      exact h.moved hs ht (he n event r rfl) r
  | fifo e =>
    unfold serverStep at hstep
    dsimp only at hstep
    split at hstep
    · obtain ⟨fifo, -, rfl⟩ := Option.map_eq_some_iff.mp hstep
      exact h
    · cases hstep

/-- What has been submitted comes from a connection with an identity. -/
theorem Composed.bound {n : ℕ} {data : Bytes} (h : Composed cfg fcfg d) (hmem : (n, data) ∈ d.submitted) :
    ∃ s identity, d.connections[n]? = some s ∧ s.id = some identity ∧
      isAuthorized cfg.regexec cfg.table identity (cstr data) = true := by
  obtain ⟨s, hs, before, w, after, hlog, -, hjustified⟩ := h.accepted hmem
  obtain ⟨es, hes⟩ := h.serving s (List.mem_of_getElem? hs)
  obtain ⟨identity, hid⟩ : ∃ identity, s.id = some identity := by
    refine Option.ne_none_iff_exists'.mp fun hnone => ?_
    rw [hes.bound.1.mp hnone] at hlog
    exact absurd hlog (by simp)
  have hauthorized := hjustified.authorized
  rw [hid, Option.getD_some] at hauthorized
  exact ⟨s, identity, hs, hid, hauthorized⟩

theorem Operating.identified {es : List ServerEvent} (h : Operating cfg fcfg es d)
    (hes : ∀ e ∈ es, ∀ n event r, e = .connection n event r → ∀ identity ∈ event.identity, P n identity) :
    Identified P d := by
  obtain ⟨reply, r, now, hruns⟩ := h
  refine (hruns.meeting hes).invariant (fun _ _ _ hd hstep => hd.step hstep.2 hstep.1) ?_
  intro n s hs
  cases hs

end

/-- The client of the connection knows the password of the section that counts for the identity bound to the
connection, and this section grants the command. -/
def Entitled (defaults : Defaults) (ts : List SectionText) (maxPasswordLen : ℕ) (knows : ℕ → Bytes → Prop)
    (d : ServerState) (n : ℕ) (command : Bytes) : Prop :=
  ∃ s identity t password, d.connections[n]? = some s ∧ s.id = some identity ∧ applicable ts identity = some t ∧
    passwordOf defaults t = some password ∧ password.take maxPasswordLen ≠ [] ∧
    knows n (password.take maxPasswordLen) ∧ Terminated (cstr command) ∧
    ∃ text, matchedText (cstr command) = some text ∧ Grants defaults t text

theorem entitled_of_submitted {defaults : Defaults} {ts : List SectionText} {table : HashTable AuthSection}
    {maxCommandSize : ℕ} {timeout : ℚ} {maxPasswordLen : ℕ} {knows : ℕ → Bytes → Prop} {fcfg : Fifo.Config}
    {d : ServerState} {n : ℕ} {command : Bytes} (hconf : confParse defaults ts = .ok table)
    (h : Composed (configured table maxCommandSize timeout) fcfg d)
    (hidentified : Identified (fun n identity => checkPsk table maxPasswordLen true identity ≠ [] ∧
      knows n (checkPsk table maxPasswordLen true identity)) d)
    (hmem : (n, command) ∈ d.submitted) : Entitled defaults ts maxPasswordLen knows d n command := by
  obtain ⟨s, identity, hs, hid, hauthorized⟩ := h.bound hmem
  obtain ⟨hne, hknows⟩ := hidentified n s hs identity hid
  cases happlies : applicable ts identity with
  | none =>
    -- such a client would have been refused
    have hmissing := authSection_none hconf happlies
    unfold checkPsk at hne
    rw [hmissing] at hne
    exact absurd rfl hne
  | some t =>
    obtain ⟨password, hpassword, hkey⟩ := checkPsk_applicable hconf happlies
    rw [hkey] at hne hknows
    obtain ⟨hterminated, text, htext, hgrants⟩ := (isAuthorized_applicable hconf happlies _).mp hauthorized
    exact ⟨s, identity, t, password, hs, hid, happlies, hpassword, hne, hknows, hterminated, text, htext, hgrants⟩

/-- `web` submits its state, and `db` a comment. -/
def configuredClients : List ServerEvent :=
  [.accept true true 0, .accept true true 0] ++
    [(0, .acceptSslCb (.ok (some (ascii "web")))), (1, .acceptSslCb (.ok (some (ascii "db")))),
      (1, .readCb [.data (ch 'M') (ascii "OIN 1 b\r\nPUSH 22\r\n")]), (0, .readCb [.data (ch 'M') (ascii "OIN 1 a\r\n")]),
      (0, .ready .read), (0, .readCb [.data (ch 'P') (ascii "USH 39\r\n")]), (1, .ready .read), (1, .readCb []),
      (0, .ready .read), (0, .readCb [.data (ch '[') (ascii "1] PROCESS_HOST_CHECK_RESULT;web;0;ok\n")]),
      (1, .ready .read), (1, .readCb [.data (ch '[') (ascii "1] ADD_HOST_COMMENT;\n")])].map fun p : ℕ × Event =>
        ServerEvent.connection p.1 p.2 ⟨[.written 0], none, true, true⟩

/-- The passwords of the two clients. -/
def knownPasswords (n : ℕ) (key : Bytes) : Prop := [ascii "secret", ascii "change-me"][n]? = some key

instance (n : ℕ) (key : Bytes) : Decidable (knownPasswords n key) :=
  inferInstanceAs (Decidable ([ascii "secret", ascii "change-me"][n]? = some key))

end Server
end NscaNg

