/-
# No record is lost, doubled or torn

What comes into a ledger stays there, whatever the moves (`Move.holdings`), and every place of it
consists of whole records and commands (`Accounted`). With marked bytes this says of each record of a
run that it is in one place (`record_inOnePlace`), and of each `write()` that it is given whole
records and commands that fit into the pipe (`writes_whole`).
-/
import NscaNg.Server.FifoLedger
import NscaNg.Server.FifoMarks

namespace NscaNg
namespace Fifo

open Posix Libev Provenance

variable {β : Type}

/-! ### What a ledger holds -/

/-- The places where data can be: in the FIFO, in the dump in flight, in the block, in the buffer, in a
complete dump file, or in a message that says that it is lost. -/
def Ledger.places (L : Ledger β) : List (List β) :=
  [L.fifo, L.request, L.output, L.outputBuffer] ++ (L.files.map DumpFile.contents ++ L.log.map Message.data)

/-- All data in a ledger. -/
def Ledger.holdings (L : Ledger β) : Multiset β := (L.places.flatten : List β)

theorem holdings_eq (L : Ledger β) : L.holdings =
    L.fifo + (L.request + (L.output + (L.outputBuffer + ((L.files.flatMap DumpFile.contents : List β) +
      (L.log.flatMap Message.data : List β)) : Multiset β))) := by
  simp [Ledger.holdings, Ledger.places, List.flatMap]

theorem Put.holdings {data : List β} {L L' : Ledger β} (h : Put data L L') :
    L'.files = L.files ∧ L'.holdings = L.holdings + data := by
  cases h with
  | output ho hb =>
    refine ⟨rfl, ?_⟩
    rw [holdings_eq, holdings_eq, ho]
    simp only [Multiset.coe_nil]
    abel
  | buffer =>
    refine ⟨rfl, ?_⟩
    rw [holdings_eq, holdings_eq]
    simp only [← Multiset.coe_add]
    abel

/-- **Conservation.** A move loses nothing and doubles nothing: the ledger holds what it held, what
comes in, and the command for a new dump file. -/
theorem Move.holdings [Cell β] {pipeBuf : ℕ} {prompt : Prop} {L L' : Ledger β} {new : List (List β)}
    (h : Move pipeBuf prompt L new L') :
    (L'.files = L.files ∧ L'.holdings = L.holdings + (new.flatten : List β)) ∨
      ∃ time file contents, new = [] ∧ L'.files = L.files ++ [⟨processFileCommand time file, contents⟩] ∧
        L'.holdings = L.holdings + (Cell.command L.files.length (processFileCommand time file) : List β) := by
  cases h with
  | note m hm =>
    refine Or.inl ⟨rfl, ?_⟩
    simp [holdings_eq, hm]
  | join =>
    refine Or.inl ⟨rfl, ?_⟩
    simp only [holdings_eq, ← Multiset.coe_add, List.flatten_nil, Multiset.coe_nil]
    abel
  | attempt _ => exact Or.inl ⟨rfl, by simp [holdings_eq]⟩
  | write =>
    refine Or.inl ⟨rfl, ?_⟩
    simp only [holdings_eq, ← Multiset.coe_add, List.flatten_nil, Multiset.coe_nil]
    abel
  | queue hreq hbuf =>
    refine Or.inl ⟨rfl, ?_⟩
    simp only [holdings_eq, hreq, List.flatten_nil, Multiset.coe_nil]
    abel
  | overflow megabytes =>
    refine Or.inl ⟨rfl, ?_⟩
    simp only [holdings_eq, List.flatMap_append, List.flatMap_singleton, Message.data, ← Multiset.coe_add,
      List.flatten_nil, Multiset.coe_nil]
    abel
  | abandon reason =>
    refine Or.inl ⟨rfl, ?_⟩
    simp only [holdings_eq, List.flatMap_append, List.flatMap_singleton, Message.data, ← Multiset.coe_add,
      List.flatten_nil, Multiset.coe_nil]
    abel
  | abandonRequest reason =>
    refine Or.inl ⟨rfl, ?_⟩
    simp only [holdings_eq, List.flatMap_append, List.flatMap_singleton, Message.data, ← Multiset.coe_add,
      List.flatten_nil, Multiset.coe_nil]
    abel
  | accept data _ _ hput =>
    obtain ⟨hfiles, hhold⟩ := hput.holdings
    exact Or.inl ⟨hfiles, by simpa using hhold⟩
  | process time file _ hput =>
    obtain ⟨hfiles, hhold⟩ := hput.holdings
    refine Or.inr ⟨time, file, L.request, rfl, hfiles, ?_⟩
    rw [hhold, holdings_eq, holdings_eq]
    simp only [List.flatMap_append, List.flatMap_singleton, ← Multiset.coe_add, Multiset.coe_nil]
    abel

/-! ### Marked data in a ledger -/

/-- The commands that have been made for the dump files. -/
def commands (files : List (DumpFile Tagged)) : List (Item Id UInt8) :=
  files.zipIdx.map fun p => ⟨.command p.2, p.1.command⟩

theorem commands_snoc (files : List (DumpFile Tagged)) (f : DumpFile Tagged) :
    commands (files ++ [f]) = commands files ++ [⟨.command files.length, f.command⟩] := by
  simp [commands, List.zipIdx_append]

/-- The ledger holds these records and the commands, whole. -/
structure Accounted (pipeBuf : ℕ) (all : List Tagged) (L : Ledger Tagged) : Prop where
  holdings : L.holdings = (all ++ glue (commands L.files) : List Tagged)
  places : ∀ c ∈ L.places, Whole c
  writes : ∀ w ∈ L.writes, w.length ≤ pipeBuf ∧ Whole w ∧ ∀ x ∈ w, x ∈ L.holdings
  texts : ∀ f ∈ L.files, ∃ time file, f.command = processFileCommand time file

theorem Put.places {data : List Tagged} {L L' : Ledger Tagged} (h : Put data L L')
    (hL : ∀ c ∈ L.places, Whole c) (hdata : Whole data) : ∀ c ∈ L'.places, Whole c := by
  have hbuf := hL L.outputBuffer (by simp [Ledger.places])
  cases h with
  | output ho hb =>
    intro c hc
    simp only [Ledger.places, List.mem_append, List.mem_cons, List.not_mem_nil, or_false] at hL hc
    grind
  | buffer =>
    have hnew := hbuf.append hdata
    intro c hc
    simp only [Ledger.places, List.mem_append, List.mem_cons, List.not_mem_nil, or_false] at hL hc
    grind

/-- Places that stay whole when data is moved from one to another. -/
theorem whole_places {L : Ledger Tagged} : (∀ c ∈ L.places, Whole c) ↔
    (Whole L.fifo ∧ Whole L.request ∧ Whole L.output ∧ Whole L.outputBuffer) ∧
      (∀ f ∈ L.files, Whole f.contents) ∧ ∀ m ∈ L.log, Whole m.data := by
  simp only [Ledger.places, List.mem_append, List.mem_cons, List.not_mem_nil, or_false, List.mem_map]
  grind

/-- A move leaves the places whole. -/
theorem Move.places {pipeBuf : ℕ} {prompt : Prop} {L L' : Ledger Tagged} {new : List (List Tagged)}
    (h : Move pipeBuf prompt L new L') (hL : ∀ c ∈ L.places, Whole c) (hnew : ∀ d ∈ new, Whole d) :
    ∀ c ∈ L'.places, Whole c := by
  obtain ⟨⟨hfifo, hreq, hout, hbuf⟩, hfiles, hlog⟩ := whole_places.mp hL
  have hloss : ∀ m : Message Tagged, Whole m.data → ∀ m' ∈ L.log ++ [m], Whole m'.data := by
    intro m hm m' hm'
    rcases List.mem_append.mp hm' with hm' | hm'
    · exact hlog m' hm'
    · obtain rfl := List.mem_singleton.mp hm'
      exact hm
  cases h with
  | note m hm => exact whole_places.mpr ⟨⟨hfifo, hreq, hout, hbuf⟩, hfiles, hloss m (hm ▸ Whole.nil)⟩
  | join => exact whole_places.mpr ⟨⟨hfifo, hreq, hout.append hbuf, Whole.nil⟩, hfiles, hlog⟩
  | attempt _ => exact hL
  | write => exact whole_places.mpr ⟨⟨hfifo.append hout, hreq, Whole.nil, hbuf⟩, hfiles, hlog⟩
  | queue _ _ => exact whole_places.mpr ⟨⟨hfifo, hout, Whole.nil, hbuf⟩, hfiles, hlog⟩
  | overflow megabytes => exact whole_places.mpr ⟨⟨hfifo, hreq, hout, Whole.nil⟩, hfiles, hloss _ hbuf⟩
  | abandon reason => exact whole_places.mpr ⟨⟨hfifo, hreq, Whole.nil, hbuf⟩, hfiles, hloss _ hout⟩
  | abandonRequest reason => exact whole_places.mpr ⟨⟨hfifo, Whole.nil, hout, hbuf⟩, hfiles, hloss _ hreq⟩
  | accept data _ _ hput => exact hput.places hL (hnew data (by simp))
  | process time file _ hput =>
    refine hput.places (whole_places.mpr ⟨⟨hfifo, Whole.nil, hout, hbuf⟩, fun f hf => ?_, hlog⟩) (whole_marks _)
    rcases List.mem_append.mp hf with hf | hf
    · exact hfiles f hf
    · obtain rfl := List.mem_singleton.mp hf
      exact hreq

theorem Put.writes {data : List Tagged} {L L' : Ledger Tagged} (h : Put data L L') : L'.writes = L.writes := by
  cases h <;> rfl

/-- What the FIFO was to be written: nothing that was not there, and no more than the pipe takes. -/
theorem Move.writes {pipeBuf : ℕ} {prompt : Prop} {L L' : Ledger Tagged} {new : List (List Tagged)}
    (h : Move pipeBuf prompt L new L') : L'.writes = L.writes ∨
      (L.output.length ≤ pipeBuf ∧ L'.writes = L.writes ++ [L.output]) := by
  cases h with
  | attempt hfits => exact Or.inr ⟨hfits, rfl⟩
  | accept data _ _ hput => exact Or.inl hput.writes
  | process time file _ hput =>
    have hsame := hput.writes
    exact Or.inl hsame
  | _ => exact Or.inl rfl

theorem Move.accounted {pipeBuf : ℕ} {prompt : Prop} {all : List Tagged} {L L' : Ledger Tagged}
    {new : List (List Tagged)} (h : Move pipeBuf prompt L new L') (hL : Accounted pipeBuf all L)
    (hnew : ∀ d ∈ new, Whole d) : Accounted pipeBuf (all ++ new.flatten) L' := by
  have hgrows : ∀ x ∈ L.holdings, x ∈ L'.holdings := by
    intro x hx
    rcases h.holdings with ⟨-, hhold⟩ | ⟨_, _, _, -, -, hhold⟩
    · rw [hhold]
      exact Multiset.mem_add.mpr (Or.inl hx)
    · rw [hhold]
      exact Multiset.mem_add.mpr (Or.inl hx)
  refine ⟨?_, h.places hL.places hnew, fun w hw => ?_, fun f hf => ?_⟩
  · rcases h.holdings with ⟨hfiles, hhold⟩ | ⟨time, file, contents, rfl, hfiles, hhold⟩
    · rw [hhold, hL.holdings, hfiles]
      simp only [← Multiset.coe_add]
      abel
    · rw [hhold, hL.holdings, hfiles, commands_snoc, glue_append, glue_singleton, List.flatten_nil, List.append_nil]
      simp only [← Multiset.coe_add, add_assoc]
      rfl
  · rcases h.writes with heq | ⟨hfits, heq⟩
    · rw [heq] at hw
      obtain ⟨hlen, hwhole, hmem⟩ := hL.writes w hw
      exact ⟨hlen, hwhole, fun x hx => hgrows x (hmem x hx)⟩
    · rw [heq] at hw
      rcases List.mem_append.mp hw with hw | hw
      · obtain ⟨hlen, hwhole, hmem⟩ := hL.writes w hw
        exact ⟨hlen, hwhole, fun x hx => hgrows x (hmem x hx)⟩
      · obtain rfl := List.mem_singleton.mp hw
        refine ⟨hfits, (whole_places.mp hL.places).1.2.2.1, fun x hx => hgrows x ?_⟩
        rw [holdings_eq]
        simp [hx]
  · rcases h.holdings with ⟨hfiles, -⟩ | ⟨time, file, contents, -, hfiles, -⟩
    · rw [hfiles] at hf
      exact hL.texts f hf
    · rw [hfiles] at hf
      rcases List.mem_append.mp hf with hf | hf
      · exact hL.texts f hf
      · obtain rfl := List.mem_singleton.mp hf
        exact ⟨time, file, rfl⟩

theorem Moves.accounted {pipeBuf : ℕ} {prompt : Prop} {all : List Tagged} {L L' : Ledger Tagged}
    {new : List (List Tagged)} (h : Moves pipeBuf prompt L new L') (hL : Accounted pipeBuf all L)
    (hnew : ∀ d ∈ new, Whole d) : Accounted pipeBuf (all ++ new.flatten) L' := by
  induction h generalizing all with
  | refl => simpa using hL
  | step h1 _ ih =>
    have h1' := h1.accounted hL fun d hd => hnew d (List.mem_append_left _ hd)
    have hrest := ih h1' fun d hd => hnew d (List.mem_append_right _ hd)
    rwa [List.append_assoc, ← List.flatten_append] at hrest

theorem accounted_empty (pipeBuf : ℕ) : Accounted pipeBuf [] Ledger.empty := by
  refine ⟨rfl, fun c hc => ?_, fun w hw => ?_, fun f hf => ?_⟩
  · have hc' : c = [] := by simpa [Ledger.places, Ledger.empty] using hc
    exact hc' ▸ Whole.nil
  · cases hw
  · cases hf

/-! ### Records and writes -/

theorem numberedFrom_nodup (k : ℕ) (rs : List Bytes) : (numberedFrom k rs).Nodup := by
  have hids : (numberedFrom k rs).map Item.id = (List.range' k rs.length).map Id.record := by
    simp only [numberedFrom, List.map_map]
    rw [← List.zipIdx_map_snd k rs, List.map_map]
    rfl
  refine List.Nodup.of_map Item.id ?_
  rw [hids]
  exact List.Nodup.map (fun _ _ h => Id.record.inj h) List.nodup_range'

theorem commands_nodup (files : List (DumpFile Tagged)) : (commands files).Nodup := by
  have hids : (commands files).map Item.id = (List.range' 0 files.length).map Id.command := by
    simp only [commands, List.map_map]
    rw [← List.zipIdx_map_snd 0 files, List.map_map]
    rfl
  refine List.Nodup.of_map Item.id ?_
  rw [hids]
  exact List.Nodup.map (fun _ _ h => Id.command.inj h) List.nodup_range'

/-- The records and the commands are all different. -/
theorem created_nodup (rs : List Bytes) (files : List (DumpFile Tagged)) :
    (numberedFrom 0 rs ++ commands files).Nodup := by
  refine List.Nodup.append (numberedFrom_nodup 0 rs) (commands_nodup files) fun i hi hi' => ?_
  obtain ⟨p, -, rfl⟩ := List.mem_map.mp hi
  obtain ⟨q, -, hq⟩ := List.mem_map.mp hi'
  cases congrArg Item.id hq

variable {cfg : Config} {reply : OpenReply} {r : Replies} {now : ℚ} {es : List (Event UInt8)} {s : State UInt8}

/-- The ledger of a marked run accounts for its records. -/
theorem accounted_of_runs {R : State Tagged → Event Tagged → State Tagged → Prop} {m : State Tagged}
    (hR : ∀ u e u', R u e u' → step cfg u e = some u')
    (h : Machine.Runs R (fifoStart cfg reply r now) (markFrom 0 es) m) :
    Accounted cfg.pipeBuf (glue (numberedFrom 0 (records es))) m.ledger := by
  have hstart : Moves cfg.pipeBuf False _ [] (fifoStart cfg reply r now : State Tagged).ledger :=
    moves_fifoStart cfg reply r now
  have hruns : Moves cfg.pipeBuf False _ _ m.ledger :=
    moves_runs (fun u e u' _ hu => ⟨hR u e u' hu, False.elim⟩) (armed_fifoStart cfg reply r now) h
  have hall := (hstart.trans hruns).accounted (accounted_empty cfg.pipeBuf) fun d hd => by
    rw [List.nil_append, records_markFrom] at hd
    obtain ⟨i, -, rfl⟩ := List.mem_map.mp hd
    exact whole_marks i
  rw [List.nil_append, List.nil_append, records_markFrom] at hall
  exact hall

/-- Every run is one with marks. -/
theorem exists_marked_run (h : Machine.Runs (Machine.Steps (step cfg)) (fifoStart cfg reply r now) es s) :
    ∃ m : State Tagged, Machine.Runs (Machine.Steps (step cfg)) (fifoStart cfg reply r now) (markFrom 0 es) m ∧
      m.map Mark.value = s := by
  have hmeet : Machine.Runs (Machine.Meeting (fun _ _ => True) (Machine.Steps (step cfg)))
      ((fifoStart cfg reply r now : State Tagged).map Mark.value) es s := by
    rw [map_fifoStart]
    exact h.mono fun _ _ _ hs => ⟨trivial, hs⟩
  obtain ⟨m, hm, hmap⟩ := exists_marked (k := 0) hmeet
  exact ⟨m, hm.mono fun _ _ _ hs => hs.2, hmap⟩

/-- What a ledger holds is marked with the records and the commands. -/
theorem Accounted.item_mem {pipeBuf : ℕ} {is : List (Item Id UInt8)} {L : Ledger Tagged} {x : Tagged}
    (h : Accounted pipeBuf (glue is) L) (hx : x ∈ L.holdings) : x.item ∈ is ++ commands L.files := by
  rw [h.holdings, ← glue_append] at hx
  exact (mem_glue.mp hx).1

theorem content_of_mem_numberedFrom {k : ℕ} {rs : List Bytes} {i : Item Id UInt8} (h : i ∈ numberedFrom k rs) :
    i.content ∈ rs := by
  obtain ⟨p, hp, rfl⟩ := List.mem_map.mp h
  exact List.fst_mem_of_mem_zipIdx hp

theorem content_of_mem_commands {files : List (DumpFile Tagged)} {i : Item Id UInt8} (h : i ∈ commands files) :
    ∃ f ∈ files, i.content = f.command := by
  obtain ⟨p, hp, rfl⟩ := List.mem_map.mp h
  exact ⟨p.1, List.fst_mem_of_mem_zipIdx hp, rfl⟩

theorem Accounted.inOnePlace {pipeBuf : ℕ} {rs : List Bytes} {L : Ledger Tagged} {i : Item Id UInt8}
    (h : Accounted pipeBuf (glue (numberedFrom 0 rs)) L) (hi : i ∈ numberedFrom 0 rs ++ commands L.files)
    (hne : i.content ≠ []) : InOnePlace L.places i := by
  refine Provenance.inOnePlace h.places ?_ (created_nodup rs L.files) hi hne
  rw [← Multiset.coe_eq_coe, glue_append]
  exact h.holdings

/-- **Each record is in one place.** In every run, with the bytes marked, each record that is not empty
stands whole in the FIFO, in a complete dump file, in the dump in flight, in the block, in the buffer,
or in a message about data that is given up, and nothing of it is anywhere else. The same goes for the
command of each complete dump file. -/
theorem record_inOnePlace (h : Machine.Runs (Machine.Steps (step cfg)) (fifoStart cfg reply r now) es s) :
    ∃ m : State Tagged, Machine.Runs (Machine.Steps (step cfg)) (fifoStart cfg reply r now) (markFrom 0 es) m ∧
      m.map Mark.value = s ∧
      (∀ k data, (records es)[k]? = some data → data ≠ [] → InOnePlace m.ledger.places ⟨.record k, data⟩) ∧
      ∀ n f, m.history.files[n]? = some f → InOnePlace m.ledger.places ⟨.command n, f.command⟩ := by
  obtain ⟨m, hm, hmap⟩ := exists_marked_run h
  have hacc := accounted_of_runs (fun _ _ _ hu => hu) hm
  refine ⟨m, hm, hmap, fun k data hk hne => ?_, fun n f hn => ?_⟩
  · refine hacc.inOnePlace (List.mem_append_left _ (List.mem_map.mpr ⟨(data, k), ?_, rfl⟩)) hne
    exact List.mk_mem_zipIdx_iff_getElem?.mpr hk
  · obtain ⟨time, file, htext⟩ := hacc.texts f (List.mem_of_getElem? hn)
    refine hacc.inOnePlace (List.mem_append_right _ (List.mem_map.mpr ⟨(f, n), ?_, rfl⟩)) ?_
    · exact List.mk_mem_zipIdx_iff_getElem?.mpr hn
    · dsimp only
      rw [htext]
      simp [processFileCommand, ascii]

/-- A record is written while a larger one is on its way to a dump file. -/
def largeThenSmall : List (Event UInt8) :=
  [.fifoWrite (List.replicate 512 (ch 'x') ++ [newline]) true ⟨[], some (ascii "1"), true, true⟩,
    .fifoWrite (ascii "y\n") true ⟨[.written 1], none, true, true⟩, .ready .async,
    .asyncCb (.wrote 513) 1 true ⟨[.written 40], none, true, true⟩ ⟨[], none, true, true⟩]

/-- A large record on its way is overtaken by a small one. -/
theorem record_inOnePlace_largeThenSmall : ∃ s : State UInt8,
    Machine.run (step (Config.standard true)) (fifoStart (Config.standard true) .opened ⟨[], none, true, true⟩ 0)
      largeThenSmall = some s ∧
    ∃ m : State Tagged, Machine.Runs (Machine.Steps (step (Config.standard true)))
        (fifoStart (Config.standard true) .opened ⟨[], none, true, true⟩ 0) (markFrom 0 largeThenSmall) m ∧
      m.map Mark.value = s ∧
      (∀ k data, (records largeThenSmall)[k]? = some data → data ≠ [] →
        InOnePlace m.ledger.places ⟨.record k, data⟩) ∧
      ∀ n f, m.history.files[n]? = some f → InOnePlace m.ledger.places ⟨.command n, f.command⟩ := by
  obtain ⟨s, hs⟩ := Option.isSome_iff_exists.mp (by decide +kernel : Option.isSome
    (Machine.run (step (Config.standard true))
      (fifoStart (Config.standard true) .opened ⟨[], none, true, true⟩ 0 : State UInt8) largeThenSmall) = true)
  exact ⟨s, hs, record_inOnePlace (Machine.runs_of_run hs)⟩

/-- A `PROCESS_FILE` command for a dump file that is complete. -/
def ProcessesFile {β : Type} (files : List (DumpFile β)) (p : Bytes) : Prop :=
  ∃ f ∈ files, p = f.command ∧ ∃ time file, f.command = processFileCommand time file

theorem processesFile_map {β γ : Type} {files : List (DumpFile β)} {p : Bytes} (g : β → γ) :
    ProcessesFile (files.map (DumpFile.map g)) p ↔ ProcessesFile files p := by
  simp [ProcessesFile, DumpFile.map]

/-- The bytes of what consists of whole records and commands. -/
theorem Accounted.parts {pipeBuf : ℕ} {rs : List Bytes} {L : Ledger Tagged} {c : List Tagged}
    (h : Accounted pipeBuf (glue (numberedFrom 0 rs)) L) (hwhole : Whole c) (hmem : ∀ x ∈ c, x ∈ L.holdings) :
    ∃ parts : List Bytes, c.map Mark.value = parts.flatten ∧ ∀ p ∈ parts, p ∈ rs ∨ ProcessesFile L.files p := by
  obtain ⟨is, rfl⟩ := hwhole
  refine ⟨(is.map Item.content).filter (· ≠ []), ?_, fun p hp => ?_⟩
  · rw [map_value_glue, List.flatten_filter_ne_nil]
    exact List.flatMap_def
  · obtain ⟨hp, hne⟩ := List.mem_filter.mp hp
    obtain ⟨i, hi, rfl⟩ := List.mem_map.mp hp
    obtain ⟨x, hx⟩ := exists_mark (by simpa using hne)
    have hitem := h.item_mem (hmem x (List.mem_flatMap.mpr ⟨i, hi, hx⟩))
    rw [item_of_mem_marks hx] at hitem
    rcases List.mem_append.mp hitem with hrec | hcmd
    · exact Or.inl (content_of_mem_numberedFrom hrec)
    · obtain ⟨f, hf, hcontent⟩ := content_of_mem_commands hcmd
      exact Or.inr ⟨f, hf, hcontent, h.texts f hf⟩

/-- **Writes are small and whole.** In every run, each `write()` on the FIFO is given at most
`PIPE_BUF` bytes, which are complete records and commands for complete dump files one after the other; and
while the write watcher is active, neither the block nor the buffer is larger. -/
theorem writes_whole (h : Machine.Runs (Machine.Steps (step cfg)) (fifoStart cfg reply r now) es s) :
    (∀ w ∈ s.history.writes, w.length ≤ cfg.pipeBuf ∧ ∃ parts : List Bytes, w = parts.flatten ∧
      ∀ p ∈ parts, p ∈ records es ∨ ProcessesFile s.history.files p) ∧
      (.write ∈ s.loop.active → s.outputSize ≤ cfg.pipeBuf ∧ s.outputBuffer.length ≤ cfg.pipeBuf) := by
  obtain ⟨m, hm, hmap⟩ := exists_marked_run h
  have hacc := accounted_of_runs (fun _ _ _ hu => hu) hm
  refine ⟨fun w hw => ?_, fun hact => ?_⟩
  · subst hmap
    obtain ⟨v, hv, rfl⟩ := List.mem_map.mp hw
    obtain ⟨hlen, hwhole, hmem⟩ := hacc.writes v hv
    obtain ⟨parts, hvalue, hall⟩ := hacc.parts hwhole hmem
    refine ⟨by rwa [List.length_map], parts, hvalue, fun p hp => (hall p hp).imp_right ?_⟩
    exact (processesFile_map Mark.value).mpr
  · have hreach : Reachable cfg s := ⟨reply, r, now, es, h⟩
    exact not_buffersExceedPipeSize.mp (hreach.armed.small hact)

/-- The same run. -/
theorem writes_whole_largeThenSmall : ∃ s : State UInt8,
    Machine.run (step (Config.standard true)) (fifoStart (Config.standard true) .opened ⟨[], none, true, true⟩ 0)
      largeThenSmall = some s ∧
    (∀ w ∈ s.history.writes, w.length ≤ (Config.standard true).pipeBuf ∧ ∃ parts : List Bytes, w = parts.flatten ∧
      ∀ p ∈ parts, p ∈ records largeThenSmall ∨ ProcessesFile s.history.files p) ∧
      (.write ∈ s.loop.active → s.outputSize ≤ (Config.standard true).pipeBuf ∧
        s.outputBuffer.length ≤ (Config.standard true).pipeBuf) := by
  obtain ⟨s, hs⟩ := Option.isSome_iff_exists.mp (by decide +kernel : Option.isSome
    (Machine.run (step (Config.standard true))
      (fifoStart (Config.standard true) .opened ⟨[], none, true, true⟩ 0 : State UInt8) largeThenSmall) = true)
  exact ⟨s, hs, writes_whole (Machine.runs_of_run hs)⟩

end Fifo
end NscaNg
