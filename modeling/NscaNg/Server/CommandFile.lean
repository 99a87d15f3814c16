/-
# What gets to the command file

Whatever the clients send, and however their connections take turns with each other and with the writer: all that the
writer has, in the FIFO, in dump files and in hand, consists of whole commands, each of which a connection has
accepted from a client that is authorized for it, and of the commands to process the dump files. And a command that
has been accepted stays somewhere, or its loss is logged.
-/
import NscaNg.Server.ServerState

namespace NscaNg

open Posix Provenance

namespace Fifo

theorem places_map {β γ : Type} (f : β → γ) (s : State β) : (s.map f).ledger.places = s.ledger.places.map (List.map f) := by
  have hget : ∀ o : Option (List β), (o.map (List.map f)).getD [] = (o.getD []).map f := by
    intro o
    cases o <;> rfl
  have hlog : ∀ m : Message β, (m.map f).data = m.data.map f := by
    intro m
    cases m <;> rfl
  simp [Ledger.places, State.ledger, State.map, History.map, hget, hlog, Function.comp_def, DumpFile.map]

theorem mem_holdings {β : Type} {L : Ledger β} {c : List β} {x : β} (hc : c ∈ L.places) (hx : x ∈ c) : x ∈ L.holdings :=
  Multiset.mem_coe.mpr (List.mem_flatten.mpr ⟨c, hc, hx⟩)

end Fifo

namespace Server

variable {ρ : Type} {cfg : Config ρ} {fcfg : Fifo.Config} {d : ServerState}

/-- What has been submitted is justified by the log of its connection. -/
def Accepted (cfg : Config ρ) (s : Session) (data : Bytes) : Prop :=
  ∃ before w after, s.log = before ++ w :: after ∧ .fifoWrite data ∈ w.actions ∧ Justified cfg (s.id.getD []) before w data

theorem accepted_of_written {es : List Event} {s : Session} {data : Bytes} (h : Serving cfg es s)
    (hdata : data ∈ written s.log) : Accepted cfg s data := by
  obtain ⟨w, hw, hmem⟩ := List.mem_flatMap.mp hdata
  obtain ⟨before, after, hlog⟩ := List.append_of_mem hw
  have haction := mem_fifoWrites.mp hmem
  exact ⟨before, w, after, hlog, haction, h.serves.recorded.justified hlog haction⟩

theorem Composed.accepted {n : ℕ} {data : Bytes} (h : Composed cfg fcfg d) (hmem : (n, data) ∈ d.submitted) :
    ∃ s, d.connections[n]? = some s ∧ Accepted cfg s data := by
  have hlt := h.known _ hmem
  have hget : d.connections[n]? = some d.connections[n] := List.getElem?_eq_getElem hlt
  refine ⟨d.connections[n], hget, ?_⟩
  obtain ⟨es, hes⟩ := h.serving _ (List.getElem_mem hlt)
  refine accepted_of_written hes ?_
  rw [← h.submitted n _ hget]
  exact List.mem_map.mpr ⟨(n, data), List.mem_filter.mpr ⟨hmem, decide_eq_true rfl⟩, rfl⟩

/-- All that the writer has consists of whole commands that have been submitted, and of `PROCESS_FILE` commands
for complete dump files. -/
theorem Composed.parts (h : Composed cfg fcfg d) :
    ∀ place, place ∈ d.fifo.ledger.places ∨ place ∈ d.fifo.history.writes → ∃ parts : List Bytes, place = parts.flatten ∧
      ∀ p ∈ parts, (∃ n, (n, p) ∈ d.submitted) ∨ Fifo.ProcessesFile d.fifo.history.files p := by
  obtain ⟨reply, r, now, es, hruns, hrecords⟩ := h.writer
  obtain ⟨m, hm, hmap⟩ := Fifo.exists_marked_run hruns
  have hacc := Fifo.accounted_of_runs (fun _ _ _ hu => hu) hm
  have hsubmitted : ∀ p, p ∈ Fifo.records es → ∃ n, (n, p) ∈ d.submitted := by
    intro p hp
    rw [hrecords] at hp
    obtain ⟨⟨n, data⟩, hmem, rfl⟩ := List.mem_map.mp hp
    exact ⟨n, hmem⟩
  intro place hplace
  have hparts : ∃ c : List Fifo.Tagged, place = c.map Mark.value ∧ Whole c ∧ ∀ x ∈ c, x ∈ m.ledger.holdings := by
    rw [← hmap] at hplace
    rcases hplace with hplace | hwrite
    · rw [Fifo.places_map] at hplace
      obtain ⟨c, hc, rfl⟩ := List.mem_map.mp hplace
      exact ⟨c, rfl, hacc.places c hc, fun x hx => Fifo.mem_holdings hc hx⟩
    · obtain ⟨c, hc, rfl⟩ := List.mem_map.mp hwrite
      obtain ⟨-, hwhole, hmem⟩ := hacc.writes c hc
      exact ⟨c, rfl, hwhole, hmem⟩
  obtain ⟨c, rfl, hwhole, hmem⟩ := hparts
  obtain ⟨parts, hvalue, hall⟩ := hacc.parts hwhole hmem
  refine ⟨parts, hvalue, fun p hp => (hall p hp).imp (hsubmitted p) ?_⟩
  rw [← hmap]
  exact (Fifo.processesFile_map Mark.value).mpr

/-- A server where everyone may add comments. -/
def commentConfig : Config Regex where
  maxCommandSize := 16384
  timeout := 5
  table := [(ascii "*", ⟨[], [], [(regcomp (ascii "^ADD_HOST_COMMENT;.*\n?$")).getD []]⟩)]
  regexec := posixRegexec

/-- Two clients take turns; the second one submits something that it is not authorized for as well. -/
def twoClients : List ServerEvent :=
  [.accept true true 0, .accept true true 0] ++
    [(0, .acceptSslCb (.ok (some (ascii "web")))), (1, .acceptSslCb (.ok (some (ascii "db")))),
      (1, .readCb [.data (ch 'M') (ascii "OIN 1 b\r\nPUSH 7\r\n")]), (0, .readCb [.data (ch 'M') (ascii "OIN 1 a\r\n")]),
      (0, .ready .read), (0, .readCb [.data (ch 'P') (ascii "USH 22\r\n")]), (1, .ready .read), (1, .readCb []),
      (1, .ready .read), (1, .readCb [.data (ch '[') (ascii "1] X;\n")]),
      (0, .ready .read), (0, .readCb [.data (ch '[') (ascii "1] ADD_HOST_COMMENT;\n")]),
      (1, .ready .read), (1, .readCb [.data (ch 'P') (ascii "USH 23\r\n")]),
      (1, .ready .read), (1, .readCb [.data (ch '[') (ascii "2] ADD_HOST_COMMENT;b\n")])].map fun p : ℕ × Event =>
        ServerEvent.connection p.1 p.2 ⟨[.written 0], none, true, true⟩

theorem Justified.ne_nil {id data : Bytes} {before : List Entry} {w : Entry} (h : Justified cfg id before w data) :
    data ≠ [] := by
  rintro rfl
  obtain ⟨⟨body, hbody, -⟩, -⟩ := (isAuthorized_iff cfg.regexec).mp h.authorized
  exact List.append_ne_nil_of_right_ne_nil body (List.cons_ne_nil newline []) hbody.symm

/-- With its bytes marked, the writer has each command that has been submitted in one place. -/
structure Kept (fcfg : Fifo.Config) (d : ServerState) (m : Fifo.State Fifo.Tagged) : Prop where
  run : ∃ reply r now es, Machine.Runs (Machine.Steps (Fifo.step fcfg)) (Fifo.fifoStart fcfg reply r now)
    (Fifo.markFrom 0 es) m ∧ Fifo.records es = d.submitted.map Prod.snd
  value : m.map Mark.value = d.fifo
  place : ∀ k n data, d.submitted[k]? = some (n, data) → InOnePlace m.ledger.places ⟨.record k, data⟩

theorem Composed.kept (h : Composed cfg fcfg d) : ∃ m, Kept fcfg d m := by
  obtain ⟨reply, r, now, es, hruns, hrecords⟩ := h.writer
  obtain ⟨m, hm, hmap⟩ := Fifo.exists_marked_run hruns
  have hacc := Fifo.accounted_of_runs (fun _ _ _ hu => hu) hm
  refine ⟨m, ⟨reply, r, now, es, hm, hrecords⟩, hmap, fun k n data hk => ?_⟩
  obtain ⟨s, -, before, w, after, -, -, hjustified⟩ := h.accepted (List.mem_of_getElem? hk)
  refine hacc.inOnePlace (List.mem_append_left _ (List.mem_map.mpr ⟨(data, k), ?_, rfl⟩)) hjustified.ne_nil
  rw [hrecords]
  exact List.mk_mem_zipIdx_iff_getElem?.mpr (by rw [List.getElem?_map, hk]; rfl)

/-- A block that is answered with OKAY has been handed on. -/
theorem Recorded.acknowledged {id : Option Bytes} {log : List Entry} {p : Entry} (h : Recorded cfg id log) (hp : p ∈ log)
    (hblock : p.IsBlock) (hokay : responses p.actions = [ascii "OKAY"]) :
    ∃ data, p.upcall = .read (.read .push) (data ++ [0]) ∧ data ∈ written log := by
  obtain ⟨before, after, hlog⟩ := List.append_of_mem hp
  rcases h.before hlog with ⟨-, rfl⟩ | ⟨earlier, q, rfl, hfollows⟩
  · exact hblock.elim
  · have hearlier : Recorded cfg id (earlier ++ [q]) := (hlog ▸ h).left
    cases hfollows.answers with
    | @read k n data hreq hfits =>
      cases k with
      | handshake => exact hblock.elim
      | connection => exact hblock.elim
      | push =>
        have hpos : n ≠ 0 := by
          rcases hearlier.asks hreq with hk | hk | ⟨-, hpos, -⟩
          · cases hk
          · cases hk
          · omega
        rw [Tls.Request.ofSize, if_neg hpos] at hfits
        obtain ⟨block, rfl, rfl⟩ := hfits
        refine ⟨block, rfl, List.mem_flatMap.mpr ⟨_, hp, ?_⟩⟩
        have hwrites : fifoWrites (handle cfg id block.length (.read .push) (block ++ [0])) = _ :=
          (pushData_writes _ _ _ _ _).2
        have hauth : isAuthorized cfg.regexec cfg.table (id.getD []) (cstr (block ++ [0])) = true := by
          by_contra hrefused
          have hactions : handle cfg id block.length (.read .push) (block ++ [0]) = _ :=
            congrArg (fun calls => Action.access :: List.map Action.ofCall calls) (if_neg hrefused)
          dsimp only at hokay
          rw [hactions] at hokay
          have hfail : [ascii "FAIL You're not authorized"] = [ascii "OKAY"] := hokay
          exact absurd hfail (by decide)
        dsimp only
        rw [hwrites, if_pos hauth, List.take_left]
        exact List.mem_singleton_self block
    | error => exact hblock.elim
    | timeout => exact hblock.elim
    | lineTooLong => exact hblock.elim

/-- **What is acknowledged is not lost unnoticed.** In every run of the server, each command that a client has been told
OKAY for has been submitted for this client, in the order in which the client has sent them, and it stands whole in one
place: in the FIFO, in a complete dump file, in the dump in flight, in the block, in the buffer, or in a message that
says that it is lost. -/
theorem acknowledged_kept {es : List ServerEvent} (h : Operating cfg fcfg es d) : ∃ m, Kept fcfg d m ∧
    ∀ n s, d.connections[n]? = some s → (d.submitted.filter (·.1 = n)).map Prod.snd = written s.log ∧
      ∀ p ∈ s.log, p.IsBlock → responses p.actions = [ascii "OKAY"] →
        ∃ k data, p.upcall = .read (.read .push) (data ++ [0]) ∧ d.submitted[k]? = some (n, data) ∧
          InOnePlace m.ledger.places ⟨.record k, data⟩ := by
  have hcomposed := h.composed
  obtain ⟨m, hm⟩ := hcomposed.kept
  refine ⟨m, hm, fun n s hs => ⟨hcomposed.submitted n s hs, fun p hp hblock hokay => ?_⟩⟩
  obtain ⟨es', hes⟩ := hcomposed.serving s (List.mem_of_getElem? hs)
  obtain ⟨data, hupcall, hdata⟩ := hes.serves.recorded.acknowledged hp hblock hokay
  rw [← hcomposed.submitted n s hs] at hdata
  obtain ⟨q, hq, rfl⟩ := List.mem_map.mp hdata
  obtain ⟨hmem, hn⟩ := List.mem_filter.mp hq
  obtain rfl : q.1 = n := of_decide_eq_true hn
  obtain ⟨k, hk⟩ := List.mem_iff_getElem?.mp hmem
  exact ⟨k, q.2, hupcall, hk, hm.place k q.1 q.2 hk⟩

theorem acknowledged_kept_twoClients : ∃ d m, Operating commentConfig (.standard true) twoClients d ∧
    Kept (.standard true) d m ∧ (d.submitted.filter (·.1 = 1)).map Prod.snd = [ascii "[2] ADD_HOST_COMMENT;b\n"] ∧
    InOnePlace m.ledger.places ⟨.record 1, ascii "[2] ADD_HOST_COMMENT;b\n"⟩ := by
  obtain ⟨d, hd, hp⟩ := (Option.any_eq_true _ _).mp (by decide +kernel : Option.any
    (fun d : ServerState => decide (d.submitted =
      [(0, ascii "[1] ADD_HOST_COMMENT;\n"), (1, ascii "[2] ADD_HOST_COMMENT;b\n")]))
    (Machine.run (serverStep commentConfig (.standard true))
      (serverStart (.standard true) .opened ⟨[], none, true, true⟩ 0) twoClients) = true)
  have hsubmitted := of_decide_eq_true hp
  have hoperating : Operating commentConfig (.standard true) twoClients d := ⟨_, _, _, Machine.runs_of_run hd⟩
  obtain ⟨m, hm, -⟩ := acknowledged_kept hoperating
  exact ⟨d, m, hoperating, hm, by rw [hsubmitted]; decide, hm.place 1 1 _ (by rw [hsubmitted]; rfl)⟩

end Server
end NscaNg
