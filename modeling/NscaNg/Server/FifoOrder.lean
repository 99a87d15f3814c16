/-
# The order of the records

The reader of the FIFO processes a dump file where it reads its command. So what takes effect is what
is in the FIFO with every command replaced by its file (`effective`). With the synchronous build these
are the records in the order in which they were written (`effective_inOrder`). The AIO build writes
small records while a dump is on its way, and so before larger ones that came first
(`not_effective_inOrder`).
-/
import NscaNg.Server.FifoRecords

namespace NscaNg
namespace Fifo

open Posix Libev Provenance

/-! ### The line -/

/-- What the commands stand for. -/
def Ledger.table (L : Ledger Tagged) : List (Id × List Tagged) :=
  L.files.zipIdx.map fun p => (.command p.2, p.1.contents)

/-- What has been written and what is to be written, in this order. -/
def Ledger.line (L : Ledger Tagged) : List Tagged := L.fifo ++ L.request ++ (L.output ++ L.outputBuffer)

/-- What has been given up. -/
def Ledger.given (L : Ledger Tagged) : List Tagged := L.log.flatMap Message.data

/-- The line has the records in their order, but for those that have been given up, and a request is
the end of it. -/
structure Ordered (all : List Tagged) (L : Ledger Tagged) : Prop where
  line : expand L.table L.line = all.filter (· ∉ expand L.table L.given)
  given : ∀ x ∈ expand L.table L.given, x ∈ all
  last : L.request ≠ [] → L.output = [] ∧ L.outputBuffer = []

theorem table_snoc (L : Ledger Tagged) (f : DumpFile Tagged) :
    (L.files ++ [f]).zipIdx.map (fun p => (Id.command p.2, p.1.contents)) =
      L.table ++ [(.command L.files.length, f.contents)] := by
  simp [Ledger.table, List.zipIdx_append]

/-- Values are taken out of the middle of a list. -/
theorem filter_notMem_middle {A B C : List Tagged} (h : (A ++ B ++ C).Nodup) :
    (A ++ B ++ C).filter (· ∉ B) = A ++ C := by
  obtain ⟨hAB, -, hABC⟩ := List.nodup_append'.mp h
  obtain ⟨-, -, hdisj⟩ := List.nodup_append'.mp hAB
  have hA : A.filter (· ∉ B) = A := List.filter_eq_self.mpr fun x hx => by simpa using hdisj hx
  have hB : B.filter (· ∉ B) = [] := List.filter_eq_nil_iff.mpr fun x hx => by simpa using hx
  have hC : C.filter (· ∉ B) = C := List.filter_eq_self.mpr fun x hx => by
    simpa using fun hxB => hABC (List.mem_append_right A hxB) hx
  rw [List.filter_append, List.filter_append, hA, hB, hC, List.append_nil]

/-- A part of the line is given up. -/
theorem Ordered.lose {all : List Tagged} {L L' : Ledger Tagged} {A B C : List Tagged} (h : Ordered all L)
    (hnodup : all.Nodup) (hline : L.line = A ++ B ++ C) (htable : L'.table = L.table) (hline' : L'.line = A ++ C)
    (hgiven : L'.given = L.given ++ B) (hlast : L'.request ≠ [] → L'.output = [] ∧ L'.outputBuffer = []) :
    Ordered all L' := by
  have hall : expand L.table A ++ expand L.table B ++ expand L.table C =
      all.filter (· ∉ expand L.table L.given) := by
    rw [← expand_append, ← expand_append, ← hline]
    exact h.line
  have hgone : expand L.table (L.given ++ B) = expand L.table L.given ++ expand L.table B := expand_append _ _ _
  refine ⟨?_, fun x hx => ?_, hlast⟩
  · have hkeep := filter_notMem_middle (hall ▸ hnodup.filter _)
    rw [hall, List.filter_filter] at hkeep
    rw [htable, hline', hgiven, expand_append, ← hkeep, hgone]
    refine List.filter_congr fun x _ => ?_
    simp [not_or, and_comm]
  · rw [htable, hgiven, hgone] at hx
    rcases List.mem_append.mp hx with hx | hx
    · exact h.given x hx
    · have hmem : x ∈ expand L.table A ++ expand L.table B ++ expand L.table C := by simp [hx]
      rw [hall] at hmem
      exact (List.mem_filter.mp hmem).1

/-- Nothing about the line changes. -/
theorem Ordered.congr {all : List Tagged} {L L' : Ledger Tagged} (h : Ordered all L) (htable : L'.table = L.table)
    (hline : L'.line = L.line) (hgiven : L'.given = L.given)
    (hlast : L'.request ≠ [] → L'.output = [] ∧ L'.outputBuffer = []) : Ordered all L' := by
  refine ⟨?_, ?_, hlast⟩
  · rw [htable, hline, hgiven]
    exact h.line
  · rw [htable, hgiven]
    exact h.given

theorem Put.line {data : List Tagged} {L L' : Ledger Tagged} (h : Put data L L') :
    L'.line = L.line ++ data ∧ L'.table = L.table ∧ L'.given = L.given ∧ L'.request = L.request := by
  cases h with
  | output ho hb => exact ⟨by simp [Ledger.line, ho, hb], rfl, rfl, rfl⟩
  | buffer => exact ⟨by simp [Ledger.line], rfl, rfl, rfl⟩

/-- The command for a dump file takes the place of the request. -/
theorem Ordered.process {all : List Tagged} {L L' : Ledger Tagged} {text : Bytes} (h : Ordered all L)
    (hfresh : ∀ x ∈ L.holdings, x.item.id ≠ .command L.files.length) (htext : text ≠ [])
    (hput : Put (Cell.command L.files.length text) { L with files := L.files ++ [⟨text, L.request⟩], request := [] } L') :
    Ordered all L' := by
  obtain ⟨hline, htable, hgiven, hreq⟩ := hput.line
  have htable' : L'.table = L.table ++ [(.command L.files.length, L.request)] := htable.trans (table_snoc L _)
  have hsame : ∀ l : List Tagged, (∀ x ∈ l, x ∈ L.holdings) →
      substitute (.command L.files.length) L.request l = l := fun l hl =>
    substitute_of_ne fun x hx => hfresh x (hl x hx)
  have hcommand : substitute (.command L.files.length) L.request (Cell.command L.files.length text) = L.request :=
    substitute_marks L.request rfl htext
  have hexpand : expand L'.table L'.line = expand L.table L.line := by
    rw [htable', hline, expand_snoc, substitute_append, hcommand, hsame]
    · congr 1
      by_cases hempty : L.request = []
      · simp [Ledger.line, hempty]
      · obtain ⟨ho, hb⟩ := h.last hempty
        simp [Ledger.line, ho, hb]
    · intro x hx
      rw [holdings_eq]
      simp only [Ledger.line, List.append_nil, List.mem_append] at hx
      simp only [Multiset.mem_add, Multiset.mem_coe]
      tauto
  have hlost : expand L'.table L'.given = expand L.table L.given := by
    have hgiven' : L'.given = L.given := hgiven
    rw [htable', hgiven', expand_snoc, hsame]
    intro x hx
    rw [holdings_eq]
    simp only [Multiset.mem_add, Multiset.mem_coe]
    exact Or.inr (Or.inr (Or.inr (Or.inr (Or.inr hx))))
  refine ⟨?_, ?_, fun hne => absurd hreq hne⟩
  · rw [hexpand, hlost]
    exact h.line
  · rw [hlost]
    exact h.given

/-- A record joins the line. -/
theorem Ordered.accept {all data : List Tagged} {L L' : Ledger Tagged} (h : Ordered all L)
    (hdisj : ∀ x ∈ data, x ∉ all) (hrecord : ∀ x ∈ data, ∀ p ∈ L.table, x.item.id ≠ p.1) (hreq : L.request = [])
    (hput : Put data L L') : Ordered (all ++ data) L' := by
  obtain ⟨hline, htable, hgiven, hreq'⟩ := hput.line
  refine ⟨?_, fun x hx => ?_, fun hne => absurd (hreq'.trans hreq) hne⟩
  · have hkeep : data.filter (· ∉ expand L.table L.given) = data :=
      List.filter_eq_self.mpr fun x hx => by simpa using fun hlost => hdisj x hx (h.given x hlost)
    rw [htable, hline, hgiven, expand_append, h.line, expand_of_ne hrecord, List.filter_append, hkeep]
  · rw [htable, hgiven] at hx
    exact List.mem_append_left _ (h.given x hx)

theorem given_snoc (log : List (Message Tagged)) (m : Message Tagged) :
    (log ++ [m]).flatMap Message.data = log.flatMap Message.data ++ m.data := by
  simp

/-- The records of a ledger, and not the commands. -/
def Records (all : List Tagged) : Prop := ∀ x ∈ all, ∃ k, x.item.id = .record k

theorem Records.ne_table {all : List Tagged} (h : Records all) {L : Ledger Tagged} :
    ∀ x ∈ all, ∀ p ∈ L.table, x.item.id ≠ p.1 := by
  intro x hx p hp
  obtain ⟨k, hk⟩ := h x hx
  obtain ⟨q, -, rfl⟩ := List.mem_map.mp hp
  rw [hk]
  intro hc
  cases hc

/-- The number of the next command is not in use. -/
theorem Accounted.fresh {pipeBuf : ℕ} {all : List Tagged} {L : Ledger Tagged} (h : Accounted pipeBuf all L)
    (hall : Records all) : ∀ x ∈ L.holdings, x.item.id ≠ .command L.files.length := by
  intro x hx
  rw [h.holdings] at hx
  rcases List.mem_append.mp hx with hx | hx
  · obtain ⟨k, hk⟩ := hall x hx
    rw [hk]
    intro hc
    cases hc
  · obtain ⟨p, hp, hitem⟩ := List.mem_map.mp (mem_glue.mp hx).1
    have hlt := List.snd_lt_of_mem_zipIdx hp
    rw [← hitem]
    intro hc
    have := Id.command.inj hc
    omega

/-- Every move of a prompt writer keeps the order. -/
theorem Move.ordered {pipeBuf : ℕ} {all : List Tagged} {L L' : Ledger Tagged} {new : List (List Tagged)}
    (h : Move pipeBuf True L new L') (hacc : Accounted pipeBuf all L) (hL : Ordered all L)
    (hnodup : (all ++ new.flatten).Nodup) (hrecords : Records (all ++ new.flatten)) :
    Ordered (all ++ new.flatten) L' := by
  obtain ⟨hall, -, hdisj⟩ := List.nodup_append'.mp hnodup
  have hrec : Records all := fun x hx => hrecords x (List.mem_append_left _ hx)
  cases h with
  | note m hm =>
    rw [List.flatten_nil, List.append_nil]
    exact hL.congr rfl rfl ((given_snoc L.log m).trans (by rw [hm, List.append_nil]; rfl)) hL.last
  | join =>
    rw [List.flatten_nil, List.append_nil]
    refine hL.congr rfl (by simp [Ledger.line]) rfl fun hne => ?_
    obtain ⟨ho, hb⟩ := hL.last hne
    exact ⟨by simp [ho, hb], rfl⟩
  | attempt _ =>
    rw [List.flatten_nil, List.append_nil]
    exact hL.congr rfl rfl rfl hL.last
  | write =>
    rw [List.flatten_nil, List.append_nil]
    refine hL.congr rfl ?_ rfl fun hne => ⟨rfl, (hL.last hne).2⟩
    by_cases hreq : L.request = []
    · simp [Ledger.line, hreq]
    · simp [Ledger.line, (hL.last hreq).1]
  | queue hreq hbuf =>
    rw [List.flatten_nil, List.append_nil]
    exact hL.congr rfl (by simp [Ledger.line, hreq, hbuf]) rfl fun _ => ⟨rfl, hbuf⟩
  | overflow megabytes =>
    rw [List.flatten_nil, List.append_nil]
    refine hL.lose hall (A := L.fifo ++ L.request ++ L.output) (B := L.outputBuffer) (C := []) ?_ rfl ?_
      (given_snoc L.log _) fun hne => ⟨(hL.last hne).1, rfl⟩
    · simp [Ledger.line]
    · simp [Ledger.line]
  | abandon reason =>
    rw [List.flatten_nil, List.append_nil]
    refine hL.lose hall (A := L.fifo ++ L.request) (B := L.output) (C := L.outputBuffer) ?_ rfl ?_
      (given_snoc L.log _) fun hne => ⟨rfl, (hL.last hne).2⟩
    · simp [Ledger.line]
    · simp [Ledger.line]
  | abandonRequest reason =>
    rw [List.flatten_nil, List.append_nil]
    refine hL.lose hall (A := L.fifo) (B := L.request) (C := L.output ++ L.outputBuffer) rfl rfl ?_
      (given_snoc L.log _) fun hne => absurd rfl hne
    simp [Ledger.line]
  | accept data _ hprompt hput =>
    have hdata : [data].flatten = data := List.flatten_singleton
    rw [hdata] at hdisj hrecords ⊢
    refine hL.accept (fun x hx hxa => hdisj hxa hx) ?_ (hprompt trivial) hput
    have hdatarec : Records data := fun x hx => hrecords x (List.mem_append_right _ hx)
    exact hdatarec.ne_table
  | process time file _ hput =>
    rw [List.flatten_nil, List.append_nil]
    exact hL.process (hacc.fresh hrec) (by simp [processFileCommand, ascii]) hput

theorem Moves.ordered {pipeBuf : ℕ} {all : List Tagged} {L L' : Ledger Tagged} {new : List (List Tagged)}
    (h : Moves pipeBuf True L new L') (hacc : Accounted pipeBuf all L) (hL : Ordered all L)
    (hwhole : ∀ d ∈ new, Whole d) (hnodup : (all ++ new.flatten).Nodup) (hrecords : Records (all ++ new.flatten)) :
    Ordered (all ++ new.flatten) L' := by
  induction h generalizing all with
  | refl => simpa using hL
  | step h1 h2 ih =>
    rw [List.flatten_append, ← List.append_assoc] at hnodup hrecords ⊢
    have hrec1 : Records _ := fun x hx => hrecords x (List.mem_append_left _ hx)
    have hacc1 := h1.accounted hacc fun d hd => hwhole d (List.mem_append_left _ hd)
    have hord1 := h1.ordered hacc hL (List.nodup_append'.mp hnodup).1 hrec1
    exact ih hacc1 hord1 (fun d hd => hwhole d (List.mem_append_right _ hd)) hnodup hrecords

/-! ### What takes effect -/

/-- What is in the FIFO, with every command replaced by its dump file. -/
def effective (m : State Tagged) : List Tagged := expand m.ledger.table m.history.fifo

/-- Whether it was a dump that failed. Otherwise the queue was too large. -/
def Loss.isDump : Loss → Bool
  | .throwingAway _ => false
  | .cannotCreate _ | .cannotQueue | .cannotWrite _ | .wrote _ _ _ | .cannotClose _ => true

/-- The data that an overflow discards. -/
def Message.thrownAway {β : Type} : Message β → List β
  | .loss reason data => if reason.isDump then [] else data
  | .noReader | .cannotOpen | .noStatus | .notFifo | .opened | .cannotWriteFifo => []

/-- What queue overflows have discarded, with every command replaced by its dump file. -/
def thrownAway (m : State Tagged) : List Tagged :=
  expand m.ledger.table (m.history.log.flatMap Message.thrownAway)

/-- A dump has failed, and this has been logged. -/
def DumpFailed {β : Type} (s : State β) : Prop :=
  ∃ reason data, .loss reason data ∈ s.history.log ∧ reason.isDump = true

/-- What takes effect are the records, from the first on and in their order, but for those that an
overflow has discarded. -/
def InOrder (rs : List Bytes) (m : State Tagged) : Prop :=
  effective m <+: (glue (numberedFrom 0 rs)).filter (· ∉ thrownAway m)

/-- With AIO, `fifo_write()` is not called while a dump is in flight. -/
def Prompt {β : Type} (cfg : Config) (s : State β) (e : Event β) : Prop :=
  cfg.aio = true → e.records ≠ [] → s.request = none

theorem records_glue (k : ℕ) (rs : List Bytes) : Records (glue (numberedFrom k rs)) := by
  intro x hx
  obtain ⟨p, -, hitem⟩ := List.mem_map.mp (mem_glue.mp hx).1
  exact ⟨p.2, by rw [← hitem]⟩

theorem ordered_empty : Ordered [] Ledger.empty := ⟨rfl, fun _ hx => hx, fun hne => absurd rfl hne⟩

variable {cfg : Config} {reply : OpenReply} {r : Replies} {now : ℚ} {es : List (Event UInt8)} {s : State UInt8}

theorem ordered_of_runs {R : State Tagged → Event Tagged → State Tagged → Prop} {m : State Tagged}
    (hR : ∀ u e u', Armed cfg u → R u e u' → step cfg u e = some u' ∧ (True → e.records ≠ [] → u.request = none))
    (h : Machine.Runs R (fifoStart cfg reply r now) (markFrom 0 es) m) :
    Ordered (glue (numberedFrom 0 (records es))) m.ledger := by
  have hstart : Moves cfg.pipeBuf True _ [] (fifoStart cfg reply r now : State Tagged).ledger :=
    moves_fifoStart cfg reply r now
  have hruns : Moves cfg.pipeBuf True _ _ m.ledger := moves_runs hR (armed_fifoStart cfg reply r now) h
  have hmoves := hstart.trans hruns
  rw [List.nil_append, records_markFrom] at hmoves
  have hall : ((numberedFrom 0 (records es)).map Item.marks).flatten = glue (numberedFrom 0 (records es)) := rfl
  have hord := hmoves.ordered (accounted_empty cfg.pipeBuf) ordered_empty
  rw [hall, List.nil_append] at hord
  refine hord (fun d hd => ?_) (nodup_glue (numberedFrom_nodup 0 _)) (records_glue 0 _)
  obtain ⟨i, -, rfl⟩ := List.mem_map.mp hd
  exact whole_marks i

/-- Without a failed dump, only overflows discard data. -/
theorem thrownAway_eq {m : State Tagged} (h : ¬ DumpFailed m) : thrownAway m = expand m.ledger.table m.ledger.given := by
  have hlog : m.history.log.flatMap Message.thrownAway = m.history.log.flatMap Message.data := by
    rw [List.flatMap_def, List.flatMap_def]
    congr 1
    refine List.map_congr_left fun x hx => ?_
    cases x with
    | loss reason data =>
      have hreason : reason.isDump ≠ true := fun hc => h ⟨reason, data, hx, hc⟩
      exact if_neg hreason
    | _ => rfl
  exact congrArg (expand m.ledger.table) hlog

theorem dumpFailed_map {m : State Tagged} (h : DumpFailed m) : DumpFailed (m.map Mark.value) := by
  obtain ⟨reason, data, hmem, hdump⟩ := h
  exact ⟨reason, data.map Mark.value, List.mem_map.mpr ⟨_, hmem, rfl⟩, hdump⟩

/-- **The order of the records.** In every run without a failed dump, where `fifo_write()` is not called
while an asynchronous dump is in flight, what takes effect are the records in the order in which they
were passed to `fifo_write()`. This goes for every run of the synchronous build. -/
theorem effective_inOrder (h : Machine.Runs (Machine.Meeting (Prompt cfg) (Machine.Steps (step cfg)))
    (fifoStart cfg reply r now) es s) (hdump : ¬ DumpFailed s) :
    ∃ m : State Tagged, Machine.Runs (Machine.Steps (step cfg)) (fifoStart cfg reply r now) (markFrom 0 es) m ∧
      m.map Mark.value = s ∧ InOrder (records es) m := by
  rw [← map_fifoStart Mark.value cfg] at h
  obtain ⟨m, hm, rfl⟩ := exists_marked (k := 0) h
  refine ⟨m, hm.mono fun _ _ _ hs => hs.2, rfl, ?_⟩
  have hord := ordered_of_runs (fun u e u' hs hu => ⟨hu.2, fun _ hne => ?_⟩) hm
  · have hline : effective m <+: expand m.ledger.table m.ledger.line := by
      refine ⟨expand m.ledger.table (m.ledger.request ++ (m.ledger.output ++ m.ledger.outputBuffer)), ?_⟩
      rw [effective, ← expand_append]
      simp [Ledger.line, State.ledger]
    rw [InOrder, thrownAway_eq (mt dumpFailed_map hdump), ← hord.line]
    exact hline
  · by_cases haio : cfg.aio = true
    · have hprompt := hu.1 haio (by cases e <;> simp_all [Event.records, Event.mapData])
      simpa [State.map] using hprompt
    · exact hs.toOrderly.idle_of_sync haio

instance {β : Type} [DecidableEq β] (cfg : Config) (s : State β) (e : Event β) : Decidable (Prompt cfg s e) := by
  unfold Prompt
  infer_instance

/-- With AIO, the second record comes in when the dump of the first one is complete. -/
theorem effective_inOrder_later : ∃ s : State UInt8,
    Machine.run (Machine.guarded (Prompt (Config.standard true)) (step (Config.standard true)))
      (fifoStart (Config.standard true) .opened ⟨[], none, true, true⟩ 0)
      [.fifoWrite (List.replicate 513 (ch 'x')) true ⟨[], some (ascii "1"), true, true⟩, .ready .async,
        .asyncCb (.wrote 513) 1 true ⟨[.written 40], none, true, true⟩ ⟨[], none, true, true⟩,
        .fifoWrite (ascii "y\n") true ⟨[.written 1], none, true, true⟩] = some s ∧
    ∃ m : State Tagged, Machine.Runs (Machine.Steps (step (Config.standard true)))
        (fifoStart (Config.standard true) .opened ⟨[], none, true, true⟩ 0)
        (markFrom 0 [.fifoWrite (List.replicate 513 (ch 'x')) true ⟨[], some (ascii "1"), true, true⟩,
          .ready .async, .asyncCb (.wrote 513) 1 true ⟨[.written 40], none, true, true⟩ ⟨[], none, true, true⟩,
          .fifoWrite (ascii "y\n") true ⟨[.written 1], none, true, true⟩]) m ∧
      m.map Mark.value = s ∧ InOrder [List.replicate 513 (ch 'x'), ascii "y\n"] m := by
  obtain ⟨s, hs, hlog⟩ := (Option.any_eq_true _ _).mp (by decide +kernel : Option.any
    (fun s => decide (s.history.log = []))
    (Machine.run (Machine.guarded (Prompt (Config.standard true)) (step (Config.standard true)))
      (fifoStart (Config.standard true) .opened ⟨[], none, true, true⟩ 0 : State UInt8)
      [.fifoWrite (List.replicate 513 (ch 'x')) true ⟨[], some (ascii "1"), true, true⟩, .ready .async,
        .asyncCb (.wrote 513) 1 true ⟨[.written 40], none, true, true⟩ ⟨[], none, true, true⟩,
        .fifoWrite (ascii "y\n") true ⟨[.written 1], none, true, true⟩]) = true)
  refine ⟨s, hs, effective_inOrder (Machine.runs_of_guarded hs) ?_⟩
  rintro ⟨reason, data, hmem, -⟩
  rw [of_decide_eq_true hlog] at hmem
  cases hmem

/-- The AIO build: the second record takes effect before the first one. -/
theorem not_effective_inOrder : ¬ ∀ (cfg : Config) (reply : OpenReply) (r : Replies) (now : ℚ)
    (es : List (Event UInt8)) (s : State UInt8),
    Machine.Runs (Machine.Steps (step cfg)) (fifoStart cfg reply r now) es s → ¬ DumpFailed s →
      ∃ m : State Tagged, Machine.Runs (Machine.Steps (step cfg)) (fifoStart cfg reply r now) (markFrom 0 es) m ∧
        m.map Mark.value = s ∧ InOrder (records es) m := by
  intro h
  obtain ⟨s, hs, hlog⟩ := (Option.any_eq_true _ _).mp (by decide +kernel : Option.any
    (fun s => decide (s.history.log = [])) (Machine.run (step (Config.standard true))
      (fifoStart (Config.standard true) .opened ⟨[], none, true, true⟩ 0 : State UInt8) largeThenSmall) = true)
  have hdump : ¬ DumpFailed s := by
    rintro ⟨reason, data, hmem, -⟩
    rw [of_decide_eq_true hlog] at hmem
    cases hmem
  obtain ⟨m, hm, -, hprefix⟩ := h _ _ _ _ _ s (Machine.runs_of_run hs) hdump
  obtain ⟨m', hm', hp⟩ := (Option.any_eq_true _ _).mp (by decide +kernel : Option.any
    (fun m => decide ((effective m).head?.map (fun x => x.item.id) = some (.record 1) ∧ thrownAway m = []))
    (Machine.run (step (Config.standard true))
      (fifoStart (Config.standard true) .opened ⟨[], none, true, true⟩ 0 : State Tagged)
      (markFrom 0 largeThenSmall)) = true)
  obtain rfl : m' = m := Option.some.inj (hm'.symm.trans (Machine.run_of_runs hm))
  obtain ⟨hfirst, hnone⟩ := of_decide_eq_true hp
  obtain ⟨rest, hrest⟩ := hprefix
  have hhead : (glue (numberedFrom 0 (records largeThenSmall))).head?.map (fun x => x.item.id) = some (.record 0) := by
    decide +kernel
  rw [hnone] at hrest
  simp only [List.not_mem_nil, not_false_eq_true, decide_true, List.filter_true] at hrest
  rw [← hrest, List.head?_append_of_ne_nil _ fun hnil => by simp [hnil] at hfirst, hfirst] at hhead
  cases Option.some.inj hhead

end Fifo
end NscaNg
