/-
# Asking for a chunk

What `input_read_chunk()` comes to for a client: empty chunks are skipped, and then there is one to announce,
or the input has ended, or the reader waits for more (`Fetches`). The commands that are built are those of the
chunks that have been handed out (`Builds`).
-/
import NscaNg.Client.Session

namespace NscaNg.Client

open Posix

/-! ### Chunks -/

/-- The chunk of an item. -/
def Item.chunk? : Item → Option Bytes
  | .chunk bytes => some bytes
  | _ => none

/-- The chunks that have been handed out. -/
def Reader.heard (r : Reader) : List Bytes := r.trace.filterMap Item.chunk?

/-- The chunks of the standard input. -/
def Config.chunks (cfg : Config) : List Bytes := (Reader.chunksOf cfg.chunkSeparator cfg.stdin).map (· ++ [0])

/-- `handle_input_chunk()` ignores the chunk. -/
def Ignored (chunk : Bytes) : Prop := Util.skipNewlines (cstr chunk) = []

/-- These commands are built of these chunks, each at some time. -/
inductive Builds (cfg : Config) : List Bytes → List Bytes → Prop
  | nil : Builds cfg [] []
  | ignored {chunks commands : List Bytes} {chunk : Bytes} : Builds cfg chunks commands → Ignored chunk →
      Builds cfg (chunks ++ [chunk]) commands
  | built {chunks commands : List Bytes} {chunk : Bytes} {now : ℕ} {submission : Submission} :
      Builds cfg chunks commands →
      handleInputChunk cfg.progname now cfg.mode cfg.delimiter chunk = .ok (some submission) →
      Builds cfg (chunks ++ [chunk]) (commands ++ [submission.sent])

theorem Builds.skip {cfg : Config} {chunks commands skipped : List Bytes} (h : Builds cfg chunks commands)
    (hskip : ∀ c ∈ skipped, Ignored c) : Builds cfg (chunks ++ skipped) commands := by
  induction skipped generalizing chunks with
  | nil => rwa [List.append_nil]
  | cons c cs ih =>
    have hc := h.ignored (hskip c List.mem_cons_self)
    rw [← List.singleton_append, ← List.append_assoc]
    exact ih hc fun d hd => hskip d (List.mem_cons_of_mem c hd)

namespace Reader

variable {separator : UInt8} {input : Bytes} {r : Reader}

theorem heard_expected (separator : UInt8) (input : Bytes) :
    (expected separator input).filterMap Item.chunk? = (chunksOf separator input).map (· ++ [0]) := by
  unfold expected exchange calls
  generalize chunksOf separator input = chunks
  induction chunks with
  | nil => rfl
  | cons c cs ih =>
    rw [List.map_cons, List.cons_append, List.flatMap_cons, List.filterMap_append, ih]
    rfl

/-- What has been handed out is the beginning of what there is. -/
theorem Sound.heard (h : Sound separator input r) : r.heard <+: (chunksOf separator input).map (· ++ [0]) := by
  rw [← heard_expected]
  exact h.before.filterMap Item.chunk?

theorem Sound.heard_all (h : Sound separator input r) (hf : r.freed = true) (hc : r.cancelled = false) :
    r.heard = (chunksOf separator input).map (· ++ [0]) := by
  rw [← heard_expected, h.ended hf hc]
  rfl

/-! ### What a request comes to -/

/-- Some chunks are skipped, and there is a chunk that is not, or the input has ended, or the reader waits. -/
inductive Fetches (r r' : Reader) : Prop
  | chunk (skipped : List Bytes) (c : Bytes) : (∀ d ∈ skipped, Ignored d) → ¬ Ignored c →
      r'.heard = r.heard ++ skipped ++ [c] → r'.trace.getLast? = some (.chunk c) → r'.owed = true → Fetches r r'
  | eof (skipped : List Bytes) : (∀ d ∈ skipped, Ignored d) → r'.heard = r.heard ++ skipped →
      r'.trace.getLast? = some .eof → r'.freed = true → r'.cancelled = r.cancelled → Fetches r r'
  | waits (skipped : List Bytes) : (∀ d ∈ skipped, Ignored d) → r'.heard = r.heard ++ skipped →
      r'.trace.getLast? = some .request → r'.freed = false → r'.owed = false → Fetches r r'

/-- Nothing has been skipped on the way. -/
theorem Fetches.of_heard {s r' : Reader} (h : Fetches s r') (hheard : s.heard = r.heard)
    (hcancelled : s.cancelled = r.cancelled) : Fetches r r' := by
  cases h with
  | chunk skipped c hskip hc hh hlast ho => exact .chunk skipped c hskip hc (hheard ▸ hh) hlast ho
  | eof skipped hskip hh hlast hf hcan => exact .eof skipped hskip (hheard ▸ hh) hlast hf (hcan.trans hcancelled)
  | waits skipped hskip hh hlast hf ho => exact .waits skipped hskip (hheard ▸ hh) hlast hf ho

/-- A chunk has been skipped on the way. -/
theorem Fetches.of_skipped {s r' : Reader} {c : Bytes} (h : Fetches s r') (hc : Ignored c)
    (hheard : s.heard = r.heard ++ [c]) (hcancelled : s.cancelled = r.cancelled) : Fetches r r' := by
  have hmem : ∀ {skipped : List Bytes}, (∀ d ∈ skipped, Ignored d) → ∀ d ∈ c :: skipped, Ignored d :=
    fun hskip => List.forall_mem_cons.mpr ⟨hc, hskip⟩
  cases h with
  | chunk skipped d hskip hd hh hlast ho =>
    exact .chunk (c :: skipped) d (hmem hskip) hd (by rw [hh, hheard]; simp) hlast ho
  | eof skipped hskip hh hlast hf hcan =>
    exact .eof (c :: skipped) (hmem hskip) (by rw [hh, hheard]; simp) hlast hf (hcan.trans hcancelled)
  | waits skipped hskip hh hlast hf ho =>
    exact .waits (c :: skipped) (hmem hskip) (by rw [hh, hheard]; simp) hlast hf ho

/-- What a callback does for a reader that is to give a chunk. -/
def Serves (cb : Reader → Reader) : Prop :=
  ∀ r : Reader, r.freed = false → r.owed = false → r.trace.getLast? = some .request → Fetches r (cb r)

theorem fetches_finish {s : Reader} (hheard : s.heard = r.heard) (hcancelled : s.cancelled = r.cancelled) :
    Fetches r s.finish := by
  have hfinish : s.finish.heard = s.heard := by
    simp [Reader.heard, finish, stop, use, List.filterMap_append, Item.chunk?]
  exact .eof [] (List.forall_mem_nil _) (by rw [hfinish, hheard, List.append_nil])
    (by simp [finish, stop, use]) rfl hcancelled

theorem fetches_request {cb : Reader → Reader} (hcb : Serves cb) (hf : r.freed = false) : Fetches r (r.request cb) := by
  have hheard : r.asked.heard = r.heard := by
    simp [Reader.heard, asked, use, Item.chunk?]
  unfold request
  split
  · exact fetches_finish hheard rfl
  · have hgot : Fetches { r.asked with active := true } (cb { r.asked with active := true }) :=
      hcb _ hf rfl (List.getLast?_concat)
    exact hgot.of_heard hheard rfl

theorem asksAgain_handed (r : Reader) (chunk : Bytes) :
    asksAgain (r.handed chunk).trace = true ↔ Ignored chunk := by
  have hlast : (r.handed chunk).trace.getLast? = some (.chunk chunk) := List.getLast?_concat
  simp only [asksAgain, hlast, decide_eq_true_eq, Ignored]

theorem fetches_handle {cb : Reader → Reader} (hcb : Serves cb) (hf : r.freed = false) (chunk : Bytes) :
    Fetches r (r.handle asksAgain cb chunk) := by
  have hheard : (r.handed chunk).heard = r.heard ++ [chunk] := by
    simp [Reader.heard, handed, Item.chunk?]
  unfold handle
  by_cases hskip : Ignored chunk
  · rw [if_pos ((asksAgain_handed r chunk).mpr hskip)]
    have hgot : Fetches (r.handed chunk) ((r.handed chunk).request cb) := fetches_request hcb hf
    exact hgot.of_skipped hskip hheard rfl
  · rw [if_neg fun h => hskip ((asksAgain_handed r chunk).mp h)]
    exact .chunk [] chunk (List.forall_mem_nil _) hskip (by rw [hheard, List.append_nil]) List.getLast?_concat rfl

/-- `read_cb()`; the induction is on the calls that may be needed. -/
theorem fetches_readCb (separator : UInt8) (fuel : ℕ) : Serves (readCb separator asksAgain fuel) := by
  induction fuel with
  | zero =>
    intro r hf ho hlast
    exact .waits [] (List.forall_mem_nil _) (List.append_nil _).symm hlast hf ho
  | succ fuel ih =>
    intro r hf ho hlast
    have hsame : ∀ {s : Reader}, s.trace = r.trace → s.freed = false → s.owed = false → Fetches r s :=
      fun htrace hf ho => .waits [] (List.forall_mem_nil _) (by simp [Reader.heard, htrace]) (htrace ▸ hlast) hf ho
    rw [readCb, use_of_not_freed hf]
    split
    · rename_i chunk rest _
      exact (fetches_handle (r := { r with active := false, buffer := rest }) ih hf chunk).of_heard rfl rfl
    · have hread : ∀ bytes s, r.read = .inr (bytes, s) →
          s.trace = r.trace ∧ s.freed = r.freed ∧ s.owed = r.owed ∧ s.cancelled = r.cancelled := by
        intro bytes s h
        unfold read at h
        split at h
        · cases h
          exact ⟨rfl, rfl, rfl, rfl⟩
        · cases h
        · cases h
        · cases h
      split
      · exact hsame rfl hf ho
      · exact hsame rfl hf ho
      · rename_i s h
        obtain ⟨htrace, hfreed, -, hcancelled⟩ := hread _ _ h
        have hheard : s.heard = r.heard := by rw [Reader.heard, htrace, Reader.heard]
        unfold atEof
        split
        · exact (fetches_handle (r := { s with eof := true, active := false, buffer := [] }) ih (hfreed.trans hf)
            (s.buffer ++ [0])).of_heard hheard hcancelled
        · exact fetches_finish hheard hcancelled
      · rename_i bytes s _ h
        obtain ⟨htrace, hfreed, howed, hcancelled⟩ := hread _ _ h
        have hgot : Fetches { s with buffer := s.buffer ++ bytes } _ :=
          ih _ (hfreed.trans hf) (howed.trans ho) ((congrArg List.getLast? htrace).trans hlast)
        exact hgot.of_heard (congrArg (List.filterMap Item.chunk?) htrace) hcancelled

end Reader

end NscaNg.Client
