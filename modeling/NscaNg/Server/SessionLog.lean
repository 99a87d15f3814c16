/-
# What a session writes to the command file

Each call of `fifo_write()` in the log of a session is justified by what is in the log before it
(`Justified`): it is the outcome of the PUSH request that was accepted right before, after a handshake,
for data of the size that was announced and that the client is authorized for.

A request is handled as PING only by `handle_handshake()`; `handle_connection()` refuses it as it does
any line it does not expect.
-/
import NscaNg.Common.TlsLines
import NscaNg.Server.LifeCycle
import NscaNg.Server.PushSize

namespace NscaNg
namespace Server

open Posix Libev

variable {ρ : Type} {cfg : Config ρ} {id : Option Bytes}

/-! ### Entries -/

/-- The blocks that are handed to `fifo_write()`. -/
def fifoWrites (actions : List Action) : List Bytes :=
  actions.filterMap fun action =>
    match action with
    | .fifoWrite data => some data
    | _ => none

namespace Entry

/-- A PUSH request that is answered with OKAY. -/
def AcceptsPush (p : Entry) : Prop :=
  match p.upcall with
  | .read (.read .connection) line => HasKeyword "PUSH" (cstr line) ∧ responses p.actions = [ascii "OKAY"]
  | _ => False

/-- A MOIN request that is answered with a MOIN response. -/
def AnswersMoin (p : Entry) : Prop :=
  match p.upcall with
  | .read (.read .handshake) line => HasKeyword "MOIN" (cstr line) ∧ responses p.actions = [ascii "MOIN 1"]
  | _ => False

/-- A data block. -/
def IsBlock (p : Entry) : Prop :=
  match p.upcall with
  | .read (.read .push) _ => True
  | _ => False

/-- A PING, QUIT or BAIL request is handled. -/
def Exits (p : Entry) : Prop :=
  match p.upcall with
  | .read (.read .handshake) line =>
    HasKeyword "PING" (cstr line) ∨ HasKeyword "QUIT" (cstr line) ∨ HasKeyword "BAIL" (cstr line)
  | .read (.read .connection) line => HasKeyword "QUIT" (cstr line) ∨ HasKeyword "BAIL" (cstr line)
  | _ => False

instance decidableAcceptsPush (p : Entry) : Decidable p.AcceptsPush := by
  unfold AcceptsPush
  split <;> infer_instance

instance decidableIsBlock (p : Entry) : Decidable p.IsBlock := by
  unfold IsBlock
  split <;> infer_instance

end Entry

/-- The PUSH requests answered with OKAY since the last data block. -/
def pushesSinceBlock (log : List Entry) : ℕ :=
  log.foldl (fun n p => if p.IsBlock then 0 else if p.AcceptsPush then n + 1 else n) 0

/-- A call of `fifo_write()` is justified by what was before. -/
structure Justified (cfg : Config ρ) (id : Bytes) (before : List Entry) (w : Entry) (data : Bytes) : Prop where
  moin : ∃ m ∈ before, m.AnswersMoin
  push : ∃ earlier p, before = earlier ++ [p] ∧ p.AcceptsPush ∧ requests p.actions = [(.push, data.length)]
  pushes : pushesSinceBlock before = 1
  block : w.upcall = .read (.read .push) (data ++ [0])
  limit : 0 < cfg.maxCommandSize → data.length ≤ cfg.maxCommandSize
  once : fifoWrites w.actions = [data]
  authorized : isAuthorized cfg.regexec cfg.table id (cstr data) = true
  goesOn : ∀ p ∈ before, ¬ p.Exits ∧ .tlsShutdown ∉ p.actions

/-! ### What is requested and written -/

theorem requests_clientExited {line : Bytes} {actions : List Action} (h : clientExited line = some actions) :
    requests actions = [] ∧ fifoWrites actions = [] := by
  unfold clientExited at h
  split at h
  · cases h
    exact ⟨rfl, rfl⟩
  · split at h <;> cases h
    exact ⟨rfl, rfl⟩

/-- After the handshake the next request is read by `handle_connection()`. -/
theorem requests_handshake (line : Bytes) :
    fifoWrites (handleHandshake line) = [] ∧
      (requests (handleHandshake line) = [] ∨ requests (handleHandshake line) = [(.handshake, 0)] ∨
        (requests (handleHandshake line) = [(.connection, 0)] ∧ HasKeyword "MOIN" line ∧
          responses (handleHandshake line) = [ascii "MOIN 1"])) := by
  unfold handleHandshake
  by_cases hmoin : HasKeyword "MOIN" line
  · rw [if_pos hmoin]
    cases hparse : parseLine line 3 with
    | none => exact ⟨rfl, Or.inr (Or.inl rfl)⟩
    | some args =>
      dsimp only
      split
      · exact ⟨rfl, Or.inr (Or.inl rfl)⟩
      · exact ⟨rfl, Or.inr (Or.inr ⟨rfl, hmoin, rfl⟩)⟩
  · rw [if_neg hmoin]
    split
    · exact ⟨rfl, Or.inl rfl⟩
    · cases hexit : clientExited line with
      | none => exact ⟨rfl, Or.inr (Or.inl rfl)⟩
      | some actions =>
        obtain ⟨hreq, hwrites⟩ := requests_clientExited hexit
        exact ⟨hwrites, Or.inl hreq⟩

/-- Data is read only after a PUSH request has been accepted. -/
theorem requests_connection (maxCommandSize : ℕ) (line : Bytes) :
    fifoWrites (handleConnection maxCommandSize line) = [] ∧
      (requests (handleConnection maxCommandSize line) = [] ∨
        requests (handleConnection maxCommandSize line) = [(.connection, 0)] ∨
        ∃ n, requests (handleConnection maxCommandSize line) = [(.push, n)] ∧ 0 < n ∧
          (0 < maxCommandSize → n ≤ maxCommandSize) ∧ HasKeyword "PUSH" line ∧
          responses (handleConnection maxCommandSize line) = [ascii "OKAY"]) := by
  by_cases hnoop : HasKeyword "NOOP" line
  · unfold handleConnection
    rw [if_pos hnoop]
    exact ⟨rfl, Or.inl rfl⟩
  · by_cases hpush : HasKeyword "PUSH" line
    · unfold handleConnection
      rw [if_neg hnoop, if_pos hpush]
      cases hparse : parseLine line 2 with
      | none => exact ⟨rfl, Or.inr (Or.inl rfl)⟩
      | some args =>
        dsimp only
        by_cases hpos : atoi (args.getD 1 []) ≤ 0
        · rw [if_pos hpos]
          exact ⟨rfl, Or.inr (Or.inl rfl)⟩
        · rw [if_neg hpos]
          by_cases hlimit : 0 < maxCommandSize ∧ maxCommandSize < (atoi (args.getD 1 [])).toNat
          · rw [if_pos hlimit]
            exact ⟨rfl, Or.inr (Or.inl rfl)⟩
          · rw [if_neg hlimit]
            exact ⟨rfl, Or.inr (Or.inr ⟨_, rfl, by omega, fun hmax => by omega, hpush, rfl⟩)⟩
    · unfold handleConnection
      rw [if_neg hnoop, if_neg hpush]
      cases hexit : clientExited line with
      | none => exact ⟨rfl, Or.inr (Or.inl rfl)⟩
      | some actions =>
        obtain ⟨hreq, hwrites⟩ := requests_clientExited hexit
        exact ⟨hwrites, Or.inl hreq⟩

/-- OKAY stands for a PUSH request only if its data is read. -/
theorem requests_of_okay {maxCommandSize : ℕ} {line : Bytes} (hpush : HasKeyword "PUSH" line)
    (hokay : responses (handleConnection maxCommandSize line) = [ascii "OKAY"]) :
    ∃ n, requests (handleConnection maxCommandSize line) = [(.push, n)] := by
  rcases handleConnection_push hpush maxCommandSize with ⟨keyword, size, -, -, hactions⟩ | ⟨-, ⟨reason, hfail⟩, -⟩
  · rw [hactions]
    exact ⟨_, rfl⟩
  · rw [hfail] at hokay
    have hhead := congrArg (fun r => (r.headD []).headD 0) hokay
    exact absurd hhead (by simp [ascii])

theorem pushData_writes (regexec : ρ → Bytes → RegexecResult) (table : AuthTable ρ) (identity : Bytes)
    (inputLength : ℕ) (block : Bytes) :
    requests (handlePushData regexec table identity inputLength block) = [(.connection, 0)] ∧
      fifoWrites (handlePushData regexec table identity inputLength block) =
        if isAuthorized regexec table identity (cstr block) then [block.take inputLength] else [] := by
  unfold handlePushData handlePush
  split <;> exact ⟨rfl, rfl⟩

/-- Exits are shutdowns. -/
theorem HasKeyword.excludes {k k' : String} {line : Bytes} (h : HasKeyword k line)
    (hk : (ascii k).length = 4 ∧ 0 ∉ ascii k) (hk' : (ascii k').length = 4 ∧ 0 ∉ ascii k')
    (hne : (ascii k).map toLower ≠ (ascii k').map toLower) : ¬ HasKeyword k' line :=
  fun h' => hne (h.unique h' hk hk')

theorem exits_handshake {line : Bytes}
    (h : HasKeyword "PING" line ∨ HasKeyword "QUIT" line ∨ HasKeyword "BAIL" line) :
    .tlsShutdown ∈ handleHandshake line := by
  unfold handleHandshake clientExited
  rcases h with h | h | h
  · have hmoin : ¬ HasKeyword "MOIN" line := h.excludes (by decide) (by decide) (by decide)
    simp [hmoin, h]
  · have hmoin : ¬ HasKeyword "MOIN" line := h.excludes (by decide) (by decide) (by decide)
    have hping : ¬ HasKeyword "PING" line := h.excludes (by decide) (by decide) (by decide)
    simp [hmoin, hping, h]
  · have hmoin : ¬ HasKeyword "MOIN" line := h.excludes (by decide) (by decide) (by decide)
    have hping : ¬ HasKeyword "PING" line := h.excludes (by decide) (by decide) (by decide)
    have hquit : ¬ HasKeyword "QUIT" line := h.excludes (by decide) (by decide) (by decide)
    simp [hmoin, hping, hquit, h]

theorem exits_connection {maxCommandSize : ℕ} {line : Bytes} (h : HasKeyword "QUIT" line ∨ HasKeyword "BAIL" line) :
    .tlsShutdown ∈ handleConnection maxCommandSize line := by
  unfold handleConnection clientExited
  rcases h with h | h
  · have hnoop : ¬ HasKeyword "NOOP" line := h.excludes (by decide) (by decide) (by decide)
    have hpush : ¬ HasKeyword "PUSH" line := h.excludes (by decide) (by decide) (by decide)
    simp [hnoop, hpush, h]
  · have hnoop : ¬ HasKeyword "NOOP" line := h.excludes (by decide) (by decide) (by decide)
    have hpush : ¬ HasKeyword "PUSH" line := h.excludes (by decide) (by decide) (by decide)
    have hquit : ¬ HasKeyword "QUIT" line := h.excludes (by decide) (by decide) (by decide)
    simp [hnoop, hpush, hquit, h]

/-! ### The log -/

theorem Recorded.left {log more : List Entry} (h : Recorded cfg id (log ++ more)) : Recorded cfg id log := by
  refine ⟨h.chain.left_of_append, fun q hq => h.head q ?_⟩
  cases log with
  | nil => cases hq
  | cons x log => exact hq

/-- An entry is the first one, or it follows another. -/
theorem Recorded.before {log before after : List Entry} {p : Entry} (h : Recorded cfg id log)
    (hlog : log = before ++ p :: after) :
    (before = [] ∧ p = ⟨.connect .connect, handleConnect⟩) ∨
      ∃ earlier q, before = earlier ++ [q] ∧ Follows cfg id q p := by
  rcases List.eq_nil_or_concat' before with rfl | ⟨earlier, q, rfl⟩
  · exact Or.inl ⟨rfl, h.head p (by rw [hlog]; rfl)⟩
  · rw [hlog, List.append_assoc] at h
    exact Or.inr ⟨earlier, q, rfl, (List.isChain_append_cons_cons.mp h.chain).2.1⟩

theorem Recorded.follows {log : List Entry} {p q : Entry} (h : Recorded cfg id (log ++ [p] ++ [q])) :
    Follows cfg id p q := by
  have hchain := h.chain
  rw [List.append_assoc] at hchain
  exact (List.isChain_append_cons_cons.mp hchain).2.1

theorem Answers.actions {p q : Entry} (h : Answers cfg id p q) : ∃ n, q.actions = answer cfg id n q.upcall := by
  cases h with
  | @read h n data hreq hfits => exact ⟨n, rfl⟩
  | error => exact ⟨0, rfl⟩
  | timeout => exact ⟨0, rfl⟩
  | lineTooLong => exact ⟨0, rfl⟩

theorem Recorded.actions {log : List Entry} {p : Entry} (h : Recorded cfg id log) (hp : p ∈ log) :
    ∃ n, p.actions = answer cfg id n p.upcall := by
  obtain ⟨before, after, hlog⟩ := List.append_of_mem hp
  rcases h.before hlog with ⟨-, rfl⟩ | ⟨earlier, q, -, hfollows⟩
  · exact ⟨0, rfl⟩
  · exact hfollows.answers.actions

/-- Exits end the log. -/
theorem Recorded.goesOn {log before after : List Entry} {w p : Entry} (h : Recorded cfg id log)
    (hlog : log = before ++ w :: after) (hp : p ∈ before) : ¬ p.Exits ∧ .tlsShutdown ∉ p.actions := by
  obtain ⟨front, back, rfl⟩ := List.append_of_mem hp
  have hsplit : log = front ++ p :: (back ++ w :: after) := by simp [hlog]
  have hgoes : .tlsShutdown ∉ p.actions := fun hc => absurd (h.ends hsplit hc) (by simp)
  refine ⟨fun hexits => hgoes ?_, hgoes⟩
  obtain ⟨n, hactions⟩ := h.actions (show p ∈ log by rw [hsplit]; simp)
  rw [hactions]
  obtain ⟨upcall, actions⟩ := p
  unfold Entry.Exits at hexits
  dsimp only at hexits ⊢
  split at hexits
  · exact exits_handshake hexits
  · exact exits_connection hexits
  · exact hexits.elim

/-- What an entry asks for. -/
theorem Answers.asks {p q : Entry} (h : Answers cfg id p q) {k : ReadHandler} {n : ℕ}
    (hreq : requests q.actions = [(k, n)]) :
    k = .handshake ∨ k = .connection ∨
      (k = .push ∧ 0 < n ∧ (0 < cfg.maxCommandSize → n ≤ cfg.maxCommandSize) ∧ q.AcceptsPush) := by
  cases h with
  | @read h m data hpre hfits =>
    cases h with
    | handshake =>
      have hreq' : requests (handleHandshake (cstr data)) = [(k, n)] := hreq
      obtain ⟨-, hnil | hshake | ⟨hconn, -, -⟩⟩ := requests_handshake (cstr data)
      · simp [hnil] at hreq'
      · rw [hshake, List.singleton_inj, Prod.mk.injEq] at hreq'
        exact Or.inl hreq'.1.symm
      · rw [hconn, List.singleton_inj, Prod.mk.injEq] at hreq'
        exact Or.inr (Or.inl hreq'.1.symm)
    | connection =>
      have hreq' : requests (handleConnection cfg.maxCommandSize (cstr data)) = [(k, n)] := hreq
      obtain ⟨-, hnil | hconn | ⟨size, hsize, hpos, hlimit, hpush, hokay⟩⟩ :=
        requests_connection cfg.maxCommandSize (cstr data)
      · simp [hnil] at hreq'
      · rw [hconn, List.singleton_inj, Prod.mk.injEq] at hreq'
        exact Or.inr (Or.inl hreq'.1.symm)
      · rw [hsize, List.singleton_inj, Prod.mk.injEq] at hreq'
        obtain ⟨rfl, rfl⟩ := hreq'
        exact Or.inr (Or.inr ⟨rfl, hpos, hlimit, hpush, hokay⟩)
    | push =>
      have hreq' : requests (handlePushData cfg.regexec cfg.table (id.getD []) m data) = [(k, n)] := hreq
      rw [(pushData_writes _ _ _ _ _).1, List.singleton_inj, Prod.mk.injEq] at hreq'
      exact Or.inr (Or.inl hreq'.1.symm)
  | error => simp [requests, handleError] at hreq
  | timeout => simp [requests, handleTimeout, bail] at hreq
  | lineTooLong => simp [requests, handleLineTooLong, bail] at hreq

/-- An entry that asks for something is a request or a data block, and answers the entry before. -/
theorem Answers.isRead {p q : Entry} (h : Answers cfg id p q) (hreq : requests q.actions ≠ []) :
    ∃ k n data, requests p.actions = [(k, n)] ∧ Tls.Fits data (.ofSize n) ∧
      q = ⟨.read (.read k) data, handle cfg id n (.read k) data⟩ := by
  cases h with
  | read hpre hfits => exact ⟨_, _, _, hpre, hfits, rfl⟩
  | error => exact absurd rfl hreq
  | timeout => exact absurd rfl hreq
  | lineTooLong => exact absurd rfl hreq

/-- What the last entry asks for. -/
theorem Recorded.asks {log : List Entry} {p : Entry} (h : Recorded cfg id (log ++ [p])) {k : ReadHandler} {n : ℕ}
    (hreq : requests p.actions = [(k, n)]) :
    k = .handshake ∨ k = .connection ∨
      (k = .push ∧ 0 < n ∧ (0 < cfg.maxCommandSize → n ≤ cfg.maxCommandSize) ∧ p.AcceptsPush) := by
  rcases List.eq_nil_or_concat' log with rfl | ⟨earlier, q, rfl⟩
  · obtain rfl := h.head p rfl
    have hreq' : [(ReadHandler.handshake, 0)] = [(k, n)] := hreq
    rw [List.singleton_inj, Prod.mk.injEq] at hreq'
    exact Or.inl hreq'.1.symm
  · exact h.follows.answers.asks hreq

/-- Before `handle_connection()` or `handle_push()` is to be called there has been a handshake. -/
theorem Recorded.moin {log : List Entry} {p : Entry} (h : Recorded cfg id (log ++ [p])) {k : ReadHandler} {n : ℕ}
    (hreq : requests p.actions = [(k, n)]) (hk : k ≠ .handshake) : ∃ m ∈ log ++ [p], m.AnswersMoin := by
  -- by induction on the log: a request that is not a handshake answers one that is none either
  induction log using List.reverseRecOn generalizing p k n with
  | nil =>
    obtain rfl := h.head p rfl
    have hreq' : [(ReadHandler.handshake, 0)] = [(k, n)] := hreq
    rw [List.singleton_inj, Prod.mk.injEq] at hreq'
    exact absurd hreq'.1.symm hk
  | append_singleton log q ih =>
    obtain ⟨k', n', data, hpre, -, rfl⟩ := h.follows.answers.isRead (hreq ▸ List.cons_ne_nil _ _)
    by_cases hshake : k' = .handshake
    · subst hshake
      have hreq' : requests (handleHandshake (cstr data)) = [(k, n)] := hreq
      obtain ⟨-, hnil | hagain | ⟨-, hmoin, hresponse⟩⟩ := requests_handshake (cstr data)
      · simp [hnil] at hreq'
      · rw [hagain, List.singleton_inj, Prod.mk.injEq] at hreq'
        exact absurd hreq'.1.symm hk
      · exact ⟨_, List.mem_append_right _ (List.mem_singleton_self _), And.intro hmoin hresponse⟩
    · obtain ⟨m, hm, hanswers⟩ := ih h.left hpre hshake
      exact ⟨m, List.mem_append_left _ hm, hanswers⟩

theorem pushesSinceBlock_snoc (log : List Entry) (p : Entry) : pushesSinceBlock (log ++ [p]) =
    if p.IsBlock then 0 else if p.AcceptsPush then pushesSinceBlock log + 1 else pushesSinceBlock log := by
  simp [pushesSinceBlock]

theorem AcceptsPush.requests {p q : Entry} (h : Answers cfg id p q) (hpush : q.AcceptsPush) :
    ∃ n, requests q.actions = [(.push, n)] := by
  cases h with
  | @read h n data hpre hfits =>
    cases h with
    | handshake => exact hpush.elim
    | connection => exact requests_of_okay hpush.1 hpush.2
    | push => exact hpush.elim
  | error => exact hpush.elim
  | timeout => exact hpush.elim
  | lineTooLong => exact hpush.elim

/-- While the session goes on, a PUSH request that was accepted has been answered, if it is not the last entry. -/
theorem Recorded.pushes {log : List Entry} {p : Entry} (h : Recorded cfg id (log ++ [p]))
    (hreq : requests p.actions ≠ []) : pushesSinceBlock (log ++ [p]) = if p.AcceptsPush then 1 else 0 := by
  induction log using List.reverseRecOn generalizing p with
  | nil =>
    obtain rfl := h.head p rfl
    rfl
  | append_singleton log q ih =>
    obtain ⟨k, n, data, hpre, -, rfl⟩ := h.follows.answers.isRead hreq
    have hbefore := ih h.left (hpre ▸ List.cons_ne_nil _ _)
    rw [pushesSinceBlock_snoc]
    by_cases hk : k = .push
    · subst hk
      simp [Entry.IsBlock, Entry.AcceptsPush]
    · have hq : ¬ q.AcceptsPush := by
        intro hq
        rcases List.eq_nil_or_concat' log with rfl | ⟨earlier, x, rfl⟩
        · obtain rfl := h.left.head q rfl
          exact hq
        · obtain ⟨m, hm⟩ := AcceptsPush.requests h.left.follows.answers hq
          rw [hpre, List.singleton_inj, Prod.mk.injEq] at hm
          exact hk hm.1
      have hblock : ¬ Entry.IsBlock ⟨.read (.read k) data, handle cfg id n (.read k) data⟩ := by
        cases k with
        | handshake => exact fun hc => hc
        | connection => exact fun hc => hc
        | push => exact absurd rfl hk
      rw [if_neg hq] at hbefore
      rw [if_neg hblock, hbefore]

/-- What has been handed to `fifo_write()`. -/
def written (log : List Entry) : List Bytes := log.flatMap fun p => fifoWrites p.actions

theorem mem_fifoWrites {actions : List Action} {data : Bytes} :
    data ∈ fifoWrites actions ↔ .fifoWrite data ∈ actions := by
  unfold fifoWrites
  rw [List.mem_filterMap]
  constructor
  · rintro ⟨a, ha, hdata⟩
    cases a with
    | fifoWrite d => exact Option.some.inj hdata ▸ ha
    | _ => cases hdata
  · exact fun h => ⟨_, h, rfl⟩

/-- What the handler of an entry writes is the data block it has got. -/
theorem Answers.writes {p q : Entry} (h : Answers cfg id p q) (hwrites : fifoWrites q.actions ≠ []) :
    ∃ n block, requests p.actions = [(.push, n)] ∧ Tls.Fits block (.ofSize n) ∧
      q.upcall = .read (.read .push) block ∧ fifoWrites q.actions = [block.take n] ∧
      isAuthorized cfg.regexec cfg.table (id.getD []) (cstr block) = true := by
  cases h with
  | @read h n data hpre hfits =>
    cases h with
    | handshake => exact absurd (requests_handshake (cstr data)).1 hwrites
    | connection => exact absurd (requests_connection cfg.maxCommandSize (cstr data)).1 hwrites
    | push =>
      have hpush : fifoWrites (handle cfg id n (.read .push) data) = _ := (pushData_writes _ _ _ _ _).2
      dsimp only at hwrites ⊢
      by_cases hauth : isAuthorized cfg.regexec cfg.table (id.getD []) (cstr data) = true
      · rw [if_pos hauth] at hpush
        exact ⟨n, data, hpre, hfits, rfl, hpush, hauth⟩
      · rw [if_neg hauth] at hpush
        exact absurd hpush hwrites
  | error => exact absurd rfl hwrites
  | timeout => exact absurd rfl hwrites
  | lineTooLong => exact absurd rfl hwrites

/-- **What is written is justified** by what was before. -/
theorem Recorded.justified {log before after : List Entry} {w : Entry} {data : Bytes} (h : Recorded cfg id log)
    (hlog : log = before ++ w :: after) (hw : .fifoWrite data ∈ w.actions) :
    Justified cfg (id.getD []) before w data := by
  have hmem := mem_fifoWrites.mpr hw
  rcases h.before hlog with ⟨rfl, rfl⟩ | ⟨earlier, p, rfl, hfollows⟩
  · cases hmem
  · obtain ⟨n, block, hreq, hfits, hupcall, hwrites, hauth⟩ :=
      hfollows.answers.writes (List.ne_nil_of_mem hmem)
    have hearlier : Recorded cfg id (earlier ++ [p]) := by
      rw [hlog] at h
      exact h.left
    obtain ⟨hpos, hlimit, haccepts⟩ : 0 < n ∧ (0 < cfg.maxCommandSize → n ≤ cfg.maxCommandSize) ∧ p.AcceptsPush := by
      rcases hearlier.asks hreq with hk | hk | ⟨-, hrest⟩
      · cases hk
      · cases hk
      · exact hrest
    rw [Tls.Request.ofSize, if_neg (by omega)] at hfits
    obtain ⟨body, rfl, hlength⟩ := hfits
    have hdata : data = body := by
      rw [hwrites, List.mem_singleton] at hmem
      rw [hmem, ← hlength, List.take_left]
    subst hdata
    have hpushes := hearlier.pushes (hreq ▸ List.cons_ne_nil _ _)
    rw [if_pos haccepts] at hpushes
    rw [← hlength, List.take_left] at hwrites
    rw [cstr_terminated] at hauth
    exact ⟨hearlier.moin hreq (by decide), ⟨earlier, p, rfl, haccepts, hlength ▸ hreq⟩, hpushes, hupcall,
      fun hmax => hlength ▸ hlimit hmax, hwrites, hauth, fun q hq => h.goesOn hlog hq⟩

/-- Nothing is written but for a PUSH request that was accepted. -/
theorem Recorded.written_le {log : List Entry} {p : Entry} (h : Recorded cfg id (log ++ [p])) :
    (written (log ++ [p])).length + (if p.AcceptsPush then 1 else 0) ≤
      (log ++ [p]).countP fun q => q.AcceptsPush := by
  induction log using List.reverseRecOn generalizing p with
  | nil =>
    obtain rfl := h.head p rfl
    decide
  | append_singleton log q ih =>
    have hbefore := ih h.left
    have hsplit : written (log ++ [q] ++ [p]) = written (log ++ [q]) ++ fifoWrites p.actions := by
      simp [written]
    rw [hsplit, List.length_append, List.countP_append, List.countP_singleton]
    by_cases hnone : fifoWrites p.actions = []
    · rw [hnone]
      by_cases hp : p.AcceptsPush
      · simp only [hp, if_true, decide_true, List.length_nil]
        omega
      · simp only [hp, if_false, decide_false, List.length_nil]
        omega
    · obtain ⟨n, block, hreq, -, hupcall, hwrites, -⟩ := h.follows.answers.writes hnone
      have haccepts : q.AcceptsPush := by
        rcases h.left.asks hreq with hk | hk | ⟨-, -, -, haccepts⟩
        · cases hk
        · cases hk
        · exact haccepts
      have hp : ¬ p.AcceptsPush := by simp [Entry.AcceptsPush, hupcall]
      rw [if_pos haccepts] at hbefore
      simp only [hwrites, hp, if_false, decide_false, List.length_singleton]
      omega

/-! ### The identity -/

theorem perform_keeps (s : Session) (a : Action) : (perform s a).id = s.id ∧ (perform s a).log = s.log := by
  have hcall : ∀ e, (s.call e).id = s.id ∧ (s.call e).log = s.log := by
    intro e
    unfold Session.call
    split <;> exact ⟨rfl, rfl⟩
  have huse : ∀ f : Session → Session, (f s).id = s.id ∧ (f s).log = s.log →
      (s.use f).id = s.id ∧ (s.use f).log = s.log := by
    intro f hf
    unfold Session.use
    split
    · exact hf
    · exact ⟨rfl, rfl⟩
  unfold perform
  split
  · exact ⟨rfl, rfl⟩
  · cases a with
    | allocate => exact ⟨rfl, rfl⟩
    | access => exact huse _ ⟨rfl, rfl⟩
    | connectionStop => exact huse _ ⟨rfl, rfl⟩
    | setInputLength size => exact huse _ ⟨rfl, rfl⟩
    | setConnectionId id => exact ⟨rfl, rfl⟩
    | fifoWrite data => exact ⟨rfl, rfl⟩
    | free data => exact ⟨rfl, rfl⟩
    | _ => exact hcall _

theorem foldl_keeps (actions : List Action) (s : Session) :
    (actions.foldl perform s).id = s.id ∧ (actions.foldl perform s).log = s.log := by
  induction actions generalizing s with
  | nil => exact ⟨rfl, rfl⟩
  | cons a actions ih => exact ⟨(ih _).1.trans (perform_keeps s a).1, (ih _).2.trans (perform_keeps s a).2⟩

theorem react_keeps (cfg : Config ρ) (s : Session) (t : Tls.State Handler) : (react cfg s t).id = s.id ∧
    ((react cfg s t).log = s.log ∧ t.history.upcalls.drop s.tls.history.upcalls.length = [] ∨
      (react cfg s t).log ≠ []) := by
  unfold react
  split
  · rename_i heq
    exact ⟨rfl, Or.inl ⟨rfl, heq⟩⟩
  · rename_i upcall _ _
    have hkeeps := foldl_keeps (answer cfg s.id s.inputLength upcall) { s with
      tls := t
      log := s.log ++ [⟨upcall, answer cfg s.id s.inputLength upcall⟩]
      fault := s.fault || (t.freed && !beforeFree upcall) }
    refine ⟨hkeeps.1, Or.inr ?_⟩
    dsimp only
    rw [hkeeps.2]
    simp

/-- `handle_connect()` is called only for a client with an identity. -/
theorem identity_of_connect {s : Session} {t : Tls.State Handler} {e : Event} {handler : Handler} (hs : Sound s)
    (hacc : Accepting s.tls) (h : Tls.stepAlive s.tls e.tls = some t)
    (hcall : t.history.upcalls = s.tls.history.upcalls ++ [.connect handler]) : e.identity.isSome := by
  have hne : ∀ l : List (Tls.Upcall Handler), l ≠ l ++ [.connect handler] := by simp
  have hoff : ∀ (w : Tls.Watcher) callback, w ≠ .timeout → w ∉ s.tls.loop.active →
      Tls.invoke w callback s.tls = some t → False := fun w callback hw hact hinvoke =>
    hact (hs.fed.fed w hw (Tls.invoke_eq_some hinvoke).1)
  cases e with
  | advance time =>
    cases h
    exact absurd hcall (hne _)
  | ready w =>
    simp only [Event.tls, Tls.stepAlive] at h
    split at h <;> cases h
    exact absurd hcall (hne _)
  | expire =>
    simp only [Event.tls, Tls.stepAlive] at h
    split at h <;> cases h
    exact absurd hcall (hne _)
  | acceptSslCb reply =>
    cases reply with
    | error e =>
      obtain ⟨-, rfl⟩ := Tls.invoke_eq_some h
      have hupcalls := Tls.upcalls_checkTlsError .init e ({ s.tls with loop := s.tls.loop.take .init } : Tls.State _).touch
      unfold Tls.acceptSslCb at hcall
      dsimp only at hcall
      rcases hupcalls with hupcalls | ⟨other, hupcalls⟩
      · rw [hupcalls] at hcall
        exact absurd hcall (hne _)
      · rw [hupcalls] at hcall
        simp [Tls.State.touch] at hcall
    | ok identity =>
      cases identity with
      | none =>
        obtain ⟨-, rfl⟩ := Tls.invoke_eq_some h
        unfold Tls.acceptSslCb at hcall
        dsimp only [Option.isSome] at hcall
        rw [Tls.history_tlsFree] at hcall
        exact absurd hcall (hne _)
      | some id => rfl
  | readCb replies => exact (hoff .read _ (by decide) hacc.read h).elim
  | writeCb replies => exact (hoff .write _ (by decide) hacc.write h).elim
  | shutdownCb replies => exact (hoff .shutdown _ (by decide) hacc.shutdown h).elim
  | timeoutCb =>
    obtain ⟨-, rfl⟩ := Tls.invoke_eq_some h
    rcases Tls.upcalls_timeoutCb { s.tls with loop := s.tls.loop.take .timeout } with hupcalls | ⟨other, hupcalls⟩
    · rw [hupcalls] at hcall
      exact absurd hcall (hne _)
    · rw [hupcalls] at hcall
      simp at hcall

/-- The phase before the first entry. -/
theorem Sound.accepting {s : Session} (hs : Sound s) (halive : s.tls.freed = false) (hlog : s.log = []) :
    Accepting s.tls := by
  cases hs.phase with
  | accepting _ hacc _ _ => exact hacc
  | waiting p h n ho hreq hawaits => exact absurd ho.last (by simp [hlog])
  | stalled p ho hreq hoff => exact absurd ho.last (by simp [hlog])
  | closing p _ hclosing hconn hlast hends => exact absurd hlast (by simp [hlog])
  | gone hgone => exact absurd (halive.symm.trans hgone) (by decide)

theorem log_of_identity {s : Session} {t : Tls.State Handler} {e : Event} {id : Bytes} (hs : Sound s)
    (halive : s.tls.freed = false) (he : e.identity = some id) (h : Tls.stepAlive s.tls e.tls = some t) :
    s.log = [] := by
  have hact : .init ∈ s.tls.loop.active := by
    cases e with
    | acceptSslCb reply =>
      cases reply <;> exact hs.fed.fed .init (by decide) (Tls.invoke_eq_some h).1
    | _ => cases he
  cases hs.phase with
  | accepting _ hacc hlog _ => exact hlog
  | waiting p h n ho hreq hawaits => exact absurd hact ho.attended.init
  | stalled p ho hreq hoff => exact absurd hact ho.attended.init
  | closing p _ hclosing hconn hlast hends => exact absurd hact hclosing.init
  | gone hgone => exact absurd (halive.symm.trans hgone) (by decide)

/-- The identity is bound with the first entry, and only then. -/
theorem bound_step {s t : Session} {e : Event} (hs : Serves cfg s) (hbound : s.id = none ↔ s.log = [])
    (h : step cfg s e = some t) :
    (t.id = none ↔ t.log = []) ∧ t.id.toList = s.id.toList ++ e.identity.toList := by
  cases halive : s.tls.freed with
  | true => exact absurd h (by simp [step_freed hs.toSound halive])
  | false =>
    obtain ⟨u, hu, houtcome, -, rfl⟩ := step_alive hs.toSound halive h
    obtain ⟨hid, hlog⟩ := react_keeps cfg { s with id := e.identity.or s.id } u
    rw [hid]
    cases hidentity : e.identity with
    | some id =>
      have hempty := log_of_identity hs.toSound halive hidentity hu
      have hupcalls := upcalls_of_identity hidentity hu
      have hne : (react cfg { s with id := e.identity.or s.id } u).log ≠ [] := by
        rcases hlog with ⟨-, hdrop⟩ | hne
        · rw [hupcalls, List.drop_left] at hdrop
          cases hdrop
        · exact hne
      rw [hidentity] at hne
      rw [hbound.mpr hempty]
      exact ⟨⟨fun hc => absurd hc (by simp), fun hc => absurd hc hne⟩, rfl⟩
    | none =>
      rw [hidentity] at hlog
      refine ⟨?_, by simp⟩
      change s.id = none ↔ _
      rcases hlog with ⟨hsame, -⟩ | hne
      · rw [hsame]
        exact hbound
      · refine ⟨fun hnone => ?_, fun hc => absurd hc hne⟩
        have hempty := hbound.mp hnone
        have hacc := hs.toSound.accepting halive hempty
        -- the first entry is that of `handle_connect()`
        cases houtcome with
        | quiet hcalls _ _ _ =>
          rw [react_quiet (s := { s with id := none.or s.id }) hcalls.upcalls]
          exact hempty
        | freed hfreed _ =>
          have hupcalls : u.history.upcalls = s.tls.history.upcalls ++ [] :=
            congrArg Tls.UserSide.upcalls hfreed.user
          rw [react_quiet (s := { s with id := none.or s.id }) hupcalls]
          exact hempty
        | error hhandler _ => exact absurd (hhandler.symm.trans hacc.error) (by simp)
        | read data hreader hact _ _ _ => exact absurd hact hacc.read
        | lineTooLong hhandler hact _ _ => exact absurd hact hacc.read
        | connect hact hcalls _ _ =>
          have hsome := identity_of_connect hs.toSound hacc hu hcalls.upcalls
          rw [hidentity] at hsome
          cases hsome
        | timeout hhandler _ _ => exact absurd (hhandler.symm.trans hacc.timeout) (by simp)

theorem Serving.bound {es : List Event} {s : Session} (h : Serving cfg es s) :
    (s.id = none ↔ s.log = []) ∧ s.id.toList = es.flatMap fun e => e.identity.toList := by
  obtain ⟨hasAddress, hasSsl, now, hruns⟩ := h
  have hstep : ∀ s e t, (Serves cfg s ∧ (s.id = none ↔ s.log = [])) → Machine.Steps (step cfg) s e t →
      (Serves cfg t ∧ (t.id = none ↔ t.log = [])) ∧ t.id.toList = s.id.toList ++ e.identity.toList := by
    intro s e t hs h
    obtain ⟨hbound, hids⟩ := bound_step hs.1 hs.2 h
    exact ⟨⟨serves_step hs.1 h, hbound⟩, hids⟩
  obtain ⟨⟨-, hbound⟩, hids⟩ := hruns.accumulates hstep
    ⟨serves_start cfg hasAddress hasSsl now, ⟨fun _ => rfl, fun _ => rfl⟩⟩
  exact ⟨hbound, hids⟩

/-- **Writing to the command file.** In every run of a session, each call of `fifo_write()` is justified by
what was before, for the one identity that the TLS handshake has bound; there are no more of them than PUSH
requests that were accepted. -/
theorem writes_justified {es : List Event} {s : Session} (h : Serving cfg es s) :
    (∀ before w after data, s.log = before ++ w :: after → .fifoWrite data ∈ w.actions →
      ∃ id, es.filterMap Event.identity = [id] ∧ Justified cfg id before w data) ∧
    (written s.log).length ≤ s.log.countP fun p => p.AcceptsPush := by
  have hs := h.serves
  obtain ⟨hbound, hids⟩ := h.bound
  rw [← List.filterMap_eq_flatMap_toList] at hids
  constructor
  · intro before w after data hlog hw
    obtain ⟨id, hid⟩ : ∃ id, s.id = some id := by
      refine Option.isSome_iff_exists.mp (Option.isSome_iff_ne_none.mpr fun hnone => ?_)
      rw [hbound.mp hnone] at hlog
      exact absurd hlog (by simp)
    have hjust := hs.recorded.justified hlog hw
    rw [hid] at hids hjust
    exact ⟨id, hids.symm, hjust⟩
  · rcases List.eq_nil_or_concat' s.log with hnil | ⟨log, p, hlog⟩
    · rw [hnil]
      exact Nat.le_refl _
    · have hrecorded := hs.recorded
      rw [hlog] at hrecorded ⊢
      have hle := hrecorded.written_le
      omega

/-- A client that may submit comments submits one. -/
theorem writes_justified_comment : ∃ (cfg : Config Regex) (es : List Event) (s : Session),
    written s.log = [ascii "[1] ADD_HOST_COMMENT;\n"] ∧
    (∀ before w after data, s.log = before ++ w :: after → .fifoWrite data ∈ w.actions →
      ∃ id, es.filterMap Event.identity = [id] ∧ Justified cfg id before w data) ∧
    (written s.log).length ≤ s.log.countP fun p => p.AcceptsPush := by
  obtain ⟨s, hs, hp⟩ := (Option.any_eq_true _ _).mp (by decide +kernel : Option.any
    (fun s : Session => decide (written s.log = [ascii "[1] ADD_HOST_COMMENT;\n"]))
    (Machine.run (step (⟨16384, 5, [(ascii "*", ⟨[], [], [(regcomp (ascii "^ADD_HOST_COMMENT;.*\n?$")).getD []]⟩)],
        posixRegexec⟩ : Config Regex))
      (start ⟨16384, 5, [(ascii "*", ⟨[], [], [(regcomp (ascii "^ADD_HOST_COMMENT;.*\n?$")).getD []]⟩)],
        posixRegexec⟩ true true 0)
      [.acceptSslCb (.ok (some (ascii "web"))), .readCb [.data (ch 'M') (ascii "OIN 1 x\r\n")],
        .readCb [.data (ch 'P') (ascii "USH 22\r\n")], .readCb [.data (ch '[') (ascii "1] ADD_HOST_COMMENT;\n")]]) =
      true)
  exact ⟨_, _, s, of_decide_eq_true hp, writes_justified (serving_of_run hs)⟩

end Server
end NscaNg
