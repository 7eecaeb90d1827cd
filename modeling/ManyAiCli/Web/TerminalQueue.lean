import Mathlib.Data.List.Basic
import Mathlib.Data.List.Range
import Mathlib.Order.Basic
import ManyAiCli.Runs.Machine

/-! Output on its way to a session's terminal. A chunk is written at once, or it waits: while the session
is hidden, while a flush is being written, or while the burst after a resize is collected. Writes finish,
frames come and timers fire when they like. Is a chunk lost, written twice, out of order, or stuck? -/

namespace ManyAiCli.Web.TerminalQueue

open Runs

def terminalPendingMaxBytes : ℕ := 100 * 1024

def liveBatchAfterResizeMs : ℕ := 400

def liveBatchMaxBytes : ℕ := 4 * 1024 * 1024

/-- The bytes of one message. Its number and whether the session was shown are not in the source. -/
structure Chunk where
  number : ℕ
  shown : Bool
  bytes : List UInt8
  deriving DecidableEq, Repr

structure Queue where
  pendingChunks : List Chunk
  pendingTotalBytes : ℕ
  pendingFlushActive : Bool
  pendingFlushSeq : ℕ
  liveBatchUntil : ℕ
  /-- `liveBatchFlushTimer` is set. -/
  flushTimer : Bool
  /-- The flushes whose `finish` has not run. -/
  unfinished : List ℕ
  /-- The animation frames that were asked for. -/
  frames : ℕ
  /-- How many messages have come. -/
  received : ℕ
  deriving DecidableEq, Repr

def start : Queue := ⟨[], 0, false, 0, 0, false, [], 0, 0⟩

inductive Event
  /-- One call of `writePTYChunk`, with the bytes of these chunks. -/
  | written (chunks : List Chunk)
  /-- The oldest chunks are dropped; these are left. -/
  | dropped (chunks kept : List Chunk)
  | cleared (chunks : List Chunk)
  deriving DecidableEq, Repr

inductive Step
  /-- A `pty_data` message, with `isLiveRendered` and the time. -/
  | ptyData (isLiveRendered : Bool) (bytes : List UInt8) (now : ℕ)
  /-- `attachTerminal` flushes. -/
  | flush
  /-- A write calls back, or its watchdog does. -/
  | finish (seq : ℕ)
  | frame
  /-- `beginLiveOutputBatchForResize`. -/
  | resize (now : ℕ)
  | batchTimer
  /-- `resetTerminalHistoryForSession`. -/
  | reset
  deriving DecidableEq, Repr

def totalBytes (chunks : List Chunk) : ℕ := chunks.foldr (fun c n => c.bytes.length + n) 0

/-- How many chunks `while (total > max && chunks.length > 1)` shifts out. -/
def overflow : ℕ → List Chunk → ℕ
  | total, c :: d :: chunks =>
    if terminalPendingMaxBytes < total then overflow (total - c.bytes.length) (d :: chunks) + 1 else 0
  | _, _ => 0

namespace Queue

variable (q : Queue)

def isLiveOutputBatching (now : ℕ) : Bool := now < q.liveBatchUntil

def endLiveOutputBatch : Queue := { q with flushTimer := false, liveBatchUntil := 0 }

def flushPending : Queue × List Event :=
  match q.pendingChunks with
  | [] => ({ q with pendingTotalBytes := 0 }, [])
  | chunks =>
    ({ q with
        pendingChunks := []
        pendingTotalBytes := 0
        pendingFlushSeq := q.pendingFlushSeq + 1
        pendingFlushActive := true
        unfinished := q.unfinished ++ [q.pendingFlushSeq + 1] },
      [.written chunks])

/-- The loop that drops the oldest chunks. -/
def dropOldest : Queue × List Event :=
  let n := overflow q.pendingTotalBytes q.pendingChunks
  let gone := q.pendingChunks.take n
  let kept := q.pendingChunks.drop n
  ({ q with pendingChunks := kept, pendingTotalBytes := q.pendingTotalBytes - totalBytes gone },
    if gone = [] then [] else [.dropped gone kept])

def queuePendingTerminalChunk (chunk : Chunk) (now : ℕ) : Queue × List Event :=
  let q := { q with
    pendingChunks := q.pendingChunks ++ [chunk]
    pendingTotalBytes := q.pendingTotalBytes + chunk.bytes.length }
  if q.isLiveOutputBatching now then
    if liveBatchMaxBytes < q.pendingTotalBytes then q.endLiveOutputBatch.flushPending else (q, [])
  else q.dropOldest

/-- A chunk is not queued. -/
def writesAtOnce (isLiveRendered : Bool) (now : ℕ) : Bool :=
  isLiveRendered && !q.pendingFlushActive && !q.isLiveOutputBatching now

/-- What `onmessage` does with the output of a session. -/
def ptyData (isLiveRendered : Bool) (bytes : List UInt8) (now : ℕ) : Queue × List Event :=
  let chunk : Chunk := ⟨q.received, isLiveRendered, bytes⟩
  if q.writesAtOnce isLiveRendered now then ({ q with received := q.received + 1 }, [.written [chunk]])
  else { q with received := q.received + 1 }.queuePendingTerminalChunk chunk now

def beginLiveOutputBatchForResize (now : ℕ) : Queue :=
  { q with liveBatchUntil := now + liveBatchAfterResizeMs, flushTimer := true }

/-- `finish` of the flush `seq`. -/
def finish (seq : ℕ) : Queue :=
  let q := { q with unfinished := q.unfinished.filter (· ≠ seq) }
  if q.pendingFlushSeq ≠ seq then q
  else
    let q := { q with pendingFlushActive := false }
    if q.pendingChunks = [] then q else { q with frames := q.frames + 1 }

def step : Step → Option (Queue × List Event)
  | .ptyData isLiveRendered bytes now => some (q.ptyData isLiveRendered bytes now)
  | .flush => some q.flushPending
  | .finish seq => if seq ∈ q.unfinished then some (q.finish seq, []) else none
  | .frame => if q.frames = 0 then none else some { q with frames := q.frames - 1 }.flushPending
  | .resize now => some (q.beginLiveOutputBatchForResize now, [])
  | .batchTimer => if q.flushTimer then some q.endLiveOutputBatch.flushPending else none
  | .reset =>
    some ({ q with pendingChunks := [], pendingTotalBytes := 0 }, [.cleared q.pendingChunks])

end Queue

/-! ### What became of the chunks -/

/-- The chunks an event is about. -/
def Event.chunks : Event → List Chunk
  | .written chunks => chunks
  | .dropped chunks _ => chunks
  | .cleared chunks => chunks

/-- The messages that are done with, in the order of what was done. -/
def settled (es : List Event) : List ℕ := es.flatMap fun e => e.chunks.map (·.number)

/-- The messages done with and those that wait. -/
def accounted (es : List Event) (q : Queue) : List ℕ := settled es ++ q.pendingChunks.map (·.number)

@[simp] theorem settled_append (es fs : List Event) : settled (es ++ fs) = settled es ++ settled fs :=
  List.flatMap_append ..

/-- Nothing waits when a chunk is written at once. -/
def NoOvertaking (q : Queue) : Step → Prop
  | .ptyData isLiveRendered _ now => q.writesAtOnce isLiveRendered now = true → q.pendingChunks = []
  | _ => True

instance (q : Queue) : DecidablePred (NoOvertaking q)
  | .ptyData .. => inferInstanceAs (Decidable (_ → _))
  | .flush | .finish _ | .frame | .resize _ | .batchTimer | .reset => .isTrue trivial

/-- Something is written, and a chunk is dropped only for more than the limit and never the newest. -/
def Event.Needed : Event → Prop
  | .written chunks => chunks ≠ []
  | .dropped chunks kept =>
    kept ≠ [] ∧ ∃ last, chunks.getLast? = some last ∧
      terminalPendingMaxBytes < last.bytes.length + totalBytes kept
  | .cleared _ => True

/-! ### What is dropped -/

@[simp] theorem totalBytes_append (chunks more : List Chunk) :
    totalBytes (chunks ++ more) = totalBytes chunks + totalBytes more := by
  induction chunks with
  | nil => exact (Nat.zero_add _).symm
  | cons c chunks ih =>
    show c.bytes.length + totalBytes (chunks ++ more) = c.bytes.length + totalBytes chunks + totalBytes more
    rw [ih, Nat.add_assoc]

theorem overflow_spec (chunks : List Chunk) :
    let n := overflow (totalBytes chunks) chunks
    (totalBytes (chunks.drop n) ≤ terminalPendingMaxBytes ∨ (chunks.drop n).length ≤ 1) ∧
      (chunks ≠ [] → chunks.drop n ≠ []) ∧
      ∀ last, (chunks.take n).getLast? = some last →
        terminalPendingMaxBytes < last.bytes.length + totalBytes (chunks.drop n) := by
  induction chunks with
  | nil => exact ⟨.inr (Nat.zero_le 1), fun h => h, fun last h => absurd h (by simp [overflow])⟩
  | cons c chunks ih =>
    cases chunks with
    | nil => exact ⟨.inr le_rfl, fun _ => by simp [overflow], fun last h => absurd h (by simp [overflow])⟩
    | cons d chunks =>
      have hsum : totalBytes (c :: d :: chunks) = c.bytes.length + totalBytes (d :: chunks) := by
        simp [totalBytes]
      rw [overflow]
      by_cases hmax : terminalPendingMaxBytes < totalBytes (c :: d :: chunks)
      · rw [if_pos hmax, hsum, Nat.add_sub_cancel_left]
        obtain ⟨hfit, hne, hneed⟩ := ih
        refine ⟨hfit, fun _ => hne (by simp), fun last hlast => ?_⟩
        rw [List.take_succ_cons, List.getLast?_cons] at hlast
        rw [List.drop_succ_cons]
        cases hgone : ((d :: chunks).take (overflow (totalBytes (d :: chunks)) (d :: chunks))).getLast? with
        | some l =>
          rw [hgone, Option.getD_some, Option.some.injEq] at hlast
          exact hlast ▸ hneed l hgone
        | none =>
          -- The first chunk alone was too much.
          rw [hgone, Option.getD_none, Option.some.injEq] at hlast
          rw [List.getLast?_eq_none_iff, List.take_eq_nil_iff] at hgone
          have hzero : overflow (totalBytes (d :: chunks)) (d :: chunks) = 0 := hgone.resolve_right (by simp)
          rw [hzero, List.drop_zero, ← hlast, ← hsum]
          exact hmax
      · rw [if_neg hmax]
        exact ⟨.inl (Nat.le_of_not_lt hmax), fun h => h, fun last h => absurd h (by simp)⟩

/-! ### What a step keeps -/

structure Inv (q : Queue) : Prop where
  total : q.pendingTotalBytes = totalBytes q.pendingChunks
  bound : q.pendingTotalBytes ≤ liveBatchMaxBytes ∨ q.pendingChunks.length ≤ 1
  flushing : q.pendingFlushActive = true → q.pendingFlushSeq ∈ q.unfinished
  batching : q.liveBatchUntil ≠ 0 → q.flushTimer = true
  awake : ∀ c ∈ q.pendingChunks, c.shown = true → q.pendingFlushActive = true ∨ q.frames ≠ 0 ∨ q.flushTimer = true

/-- What a function that settles chunks of `chunks` comes to. -/
structure Settles (chunks : List Chunk) (received : ℕ) (r : Queue × List Event) : Prop where
  inv : Inv r.1
  accounted : accounted r.2 r.1 = chunks.map (·.number)
  received_eq : r.1.received = received
  needed : ∀ e ∈ r.2, e.Needed

variable {q : Queue}

theorem settles_flushPending (hbatch : q.liveBatchUntil ≠ 0 → q.flushTimer = true)
    (hflush : q.pendingFlushActive = true → q.pendingFlushSeq ∈ q.unfinished) :
    Settles q.pendingChunks q.received q.flushPending := by
  rw [Queue.flushPending]
  cases hp : q.pendingChunks with
  | nil =>
    exact ⟨⟨rfl, .inl (Nat.zero_le _), hflush, hbatch, fun c hc => absurd hc List.not_mem_nil⟩, rfl, rfl,
      fun e he => absurd he List.not_mem_nil⟩
  | cons c chunks =>
    refine ⟨⟨rfl, .inl (Nat.zero_le _), fun _ => ?_, hbatch, by simp⟩, ?_, rfl, ?_⟩
    · exact List.mem_append_right _ (List.mem_singleton_self _)
    · simp [accounted, settled, Event.chunks]
    · intro e he
      rw [List.mem_singleton.1 he]
      exact List.cons_ne_nil c chunks

theorem settles_dropOldest (htotal : q.pendingTotalBytes = totalBytes q.pendingChunks)
    (hbatch : q.liveBatchUntil ≠ 0 → q.flushTimer = true)
    (hflush : q.pendingFlushActive = true → q.pendingFlushSeq ∈ q.unfinished)
    (hawake : ∀ c ∈ q.pendingChunks, c.shown = true →
      q.pendingFlushActive = true ∨ q.frames ≠ 0 ∨ q.flushTimer = true) :
    Settles q.pendingChunks q.received q.dropOldest := by
  obtain ⟨hfit, hne, hneed⟩ := overflow_spec q.pendingChunks
  rw [← htotal] at hfit hne hneed
  set n := overflow q.pendingTotalBytes q.pendingChunks with hn
  have hsplit : q.pendingChunks.take n ++ q.pendingChunks.drop n = q.pendingChunks := List.take_append_drop ..
  have hsum : q.pendingTotalBytes = totalBytes (q.pendingChunks.take n) + totalBytes (q.pendingChunks.drop n) := by
    rw [htotal, ← totalBytes_append, hsplit]
  have hleft : q.dropOldest.1.pendingTotalBytes = totalBytes (q.pendingChunks.drop n) := by
    show q.pendingTotalBytes - totalBytes (q.pendingChunks.take n) = _
    omega
  have hmax : terminalPendingMaxBytes ≤ liveBatchMaxBytes := by decide
  refine ⟨⟨hleft, ?_, hflush, hbatch, fun c hc => hawake c (List.mem_of_mem_drop hc)⟩, ?_, rfl, ?_⟩
  · rw [hleft]
    exact hfit.imp_left fun h => h.trans hmax
  · show settled (if q.pendingChunks.take n = [] then _ else _) ++ _ = _
    conv_rhs => rw [← hsplit, List.map_append]
    split_ifs with hgone
    · rw [hgone]
      rfl
    · simp [settled, Event.chunks, Queue.dropOldest, ← hn]
  · show ∀ e ∈ (if q.pendingChunks.take n = [] then _ else _), Event.Needed e
    split_ifs with hgone
    · simp
    · intro e he
      rw [List.mem_singleton.1 he]
      obtain ⟨last, hlast⟩ : ∃ last, (q.pendingChunks.take n).getLast? = some last :=
        ⟨_, List.getLast?_eq_some_getLast hgone⟩
      exact ⟨hne (by rintro h; simp [h] at hgone), last, hlast, hneed last hlast⟩

theorem settles_queue (h : Inv q) (chunk : Chunk) (now : ℕ)
    (hshown : chunk.shown = true → q.pendingFlushActive = true ∨ q.isLiveOutputBatching now = true) :
    Settles (q.pendingChunks ++ [chunk]) q.received (q.queuePendingTerminalChunk chunk now) := by
  have hpushed : q.pendingTotalBytes + chunk.bytes.length = totalBytes (q.pendingChunks ++ [chunk]) := by
    rw [totalBytes_append, h.total]
    simp [totalBytes]
  have hawake : ∀ c ∈ q.pendingChunks ++ [chunk], c.shown = true →
      q.pendingFlushActive = true ∨ q.frames ≠ 0 ∨ q.flushTimer = true := by
    intro c hc hs
    rcases List.mem_append.1 hc with hc | hc
    · exact h.awake c hc hs
    · obtain rfl := List.mem_singleton.1 hc
      refine (hshown hs).imp_right fun hb => .inr (h.batching ?_)
      have hlt : now < q.liveBatchUntil := of_decide_eq_true hb
      omega
  rw [Queue.queuePendingTerminalChunk]
  dsimp only
  split_ifs with hb hmax
  · exact settles_flushPending (q := { q with
      pendingChunks := q.pendingChunks ++ [chunk]
      pendingTotalBytes := q.pendingTotalBytes + chunk.bytes.length }.endLiveOutputBatch)
      (fun hne => absurd rfl hne) h.flushing
  · exact ⟨⟨hpushed, .inl (Nat.le_of_not_lt hmax), h.flushing, h.batching, hawake⟩, rfl, rfl, by simp⟩
  · exact settles_dropOldest (q := { q with
      pendingChunks := q.pendingChunks ++ [chunk]
      pendingTotalBytes := q.pendingTotalBytes + chunk.bytes.length })
      hpushed h.batching h.flushing hawake

/-- What a step comes to: what was waiting waits or is done with, and a new chunk is the last of all,
unless it is written at once. -/
theorem step_cases {a : Step} {r : Queue × List Event} (h : Inv q) (hs : q.step a = some r) :
    Inv r.1 ∧ (∀ e ∈ r.2, e.Needed) ∧
      ((r.1.received = q.received ∧ accounted r.2 r.1 = q.pendingChunks.map (·.number) ∧ NoOvertaking q a) ∨
        (r.1.received = q.received + 1 ∧ NoOvertaking q a ∧
          accounted r.2 r.1 = q.pendingChunks.map (·.number) ++ [q.received]) ∨
        (r.1.received = q.received + 1 ∧ (NoOvertaking q a ↔ q.pendingChunks = []) ∧
          accounted r.2 r.1 = q.received :: q.pendingChunks.map (·.number))) := by
  cases a with
  | ptyData live bytes now =>
    obtain rfl : q.ptyData live bytes now = r := by simpa [Queue.step] using hs
    rw [Queue.ptyData]
    by_cases hdirect : q.writesAtOnce live now = true
    · rw [if_pos hdirect]
      refine ⟨⟨h.total, h.bound, h.flushing, h.batching, h.awake⟩, ?_, .inr (.inr ⟨rfl, ?_, rfl⟩)⟩
      · intro e he
        rw [List.mem_singleton.1 he]
        exact List.cons_ne_nil _ []
      · exact ⟨fun hn => hn hdirect, fun hp _ => hp⟩
    · rw [if_neg hdirect]
      have hq : Inv { q with received := q.received + 1 } :=
        ⟨h.total, h.bound, h.flushing, h.batching, h.awake⟩
      have hset := settles_queue hq ⟨q.received, live, bytes⟩ now (fun hl => by
        have hl : live = true := hl
        rw [Queue.writesAtOnce, hl, Bool.true_and, Bool.and_eq_true, not_and_or] at hdirect
        refine hdirect.imp (fun hn => by simpa using hn) (fun hn => ?_)
        show q.isLiveOutputBatching now = true
        simpa using hn)
      refine ⟨hset.inv, hset.needed, .inr (.inl ⟨hset.received_eq, fun hd => absurd hd hdirect, ?_⟩)⟩
      rw [hset.accounted, List.map_append, List.map_singleton]
  | flush =>
    obtain rfl : q.flushPending = r := by simpa [Queue.step] using hs
    have hset := settles_flushPending h.batching h.flushing
    exact ⟨hset.inv, hset.needed, .inl ⟨hset.received_eq, hset.accounted, trivial⟩⟩
  | frame =>
    obtain ⟨-, rfl⟩ : q.frames ≠ 0 ∧ { q with frames := q.frames - 1 }.flushPending = r := by
      simpa [Queue.step] using hs
    have hset := settles_flushPending (q := { q with frames := q.frames - 1 }) h.batching h.flushing
    exact ⟨hset.inv, hset.needed, .inl ⟨hset.received_eq, hset.accounted, trivial⟩⟩
  | batchTimer =>
    obtain ⟨-, rfl⟩ : q.flushTimer = true ∧ q.endLiveOutputBatch.flushPending = r := by
      simpa [Queue.step] using hs
    have hset := settles_flushPending (q := q.endLiveOutputBatch) (fun hne => absurd rfl hne) h.flushing
    exact ⟨hset.inv, hset.needed, .inl ⟨hset.received_eq, hset.accounted, trivial⟩⟩
  | resize now =>
    obtain rfl : (q.beginLiveOutputBatchForResize now, []) = r := by simpa [Queue.step] using hs
    exact ⟨⟨h.total, h.bound, h.flushing, fun _ => rfl, fun _ _ _ => .inr (.inr rfl)⟩, by simp,
      .inl ⟨rfl, rfl, trivial⟩⟩
  | reset =>
    obtain rfl : ({ q with pendingChunks := [], pendingTotalBytes := 0 }, [.cleared q.pendingChunks]) = r := by
      simpa [Queue.step] using hs
    refine ⟨⟨rfl, .inl (Nat.zero_le _), h.flushing, h.batching, by simp⟩, ?_, .inl ⟨rfl, ?_, trivial⟩⟩
    · intro e he
      rw [List.mem_singleton.1 he]
      trivial
    · simp [accounted, settled, Event.chunks]
  | finish seq =>
    obtain ⟨-, rfl⟩ : seq ∈ q.unfinished ∧ (q.finish seq, []) = r := by simpa [Queue.step] using hs
    have hsame : (q.finish seq).pendingChunks = q.pendingChunks ∧ (q.finish seq).received = q.received ∧
        (q.finish seq).pendingTotalBytes = q.pendingTotalBytes := by
      rw [Queue.finish]
      dsimp only
      split_ifs <;> exact ⟨rfl, rfl, rfl⟩
    refine ⟨⟨?_, ?_, ?_, ?_, ?_⟩, by simp, .inl ⟨hsame.2.1, ?_, trivial⟩⟩
    · rw [hsame.1, hsame.2.2, h.total]
    · rw [hsame.1, hsame.2.2]
      exact h.bound
    · rw [Queue.finish]
      dsimp only
      split_ifs with hne
      · intro ha
        exact List.mem_filter.2 ⟨h.flushing ha, by simpa using hne⟩
      · exact fun ha => absurd ha (by simp)
      · exact fun ha => absurd ha (by simp)
    · rw [Queue.finish]
      dsimp only
      split_ifs <;> exact h.batching
    · intro c hc hshown
      rw [hsame.1] at hc
      have hwas := h.awake c hc hshown
      rw [Queue.finish]
      dsimp only
      split_ifs with hne hnil
      · exact hwas
      · exact absurd hc (by rw [hnil]; exact List.not_mem_nil)
      · exact .inr (.inl (Nat.succ_ne_zero _))
    · rw [accounted, hsame.1]
      rfl

theorem inv_start : Inv start :=
  ⟨rfl, .inl (Nat.zero_le _), fun h => absurd h (by decide), fun h => absurd rfl h, fun _ hc => absurd hc List.not_mem_nil⟩

/-! ### Every run -/

theorem run_inv {run : List Step} {es : List Event} (hx : exec Queue.step start run = some (q, es)) : Inv q :=
  exec_keeps (I := Inv) (fun _ _ _ _ h hs => (step_cases h hs).1) inv_start hx

theorem run_needed {run : List Step} {es : List Event} (hx : exec Queue.step start run = some (q, es)) :
    ∀ e ∈ es, e.Needed := by
  let I : List Event → Queue → Prop := fun es q => Inv q ∧ ∀ e ∈ es, e.Needed
  have hstart : I [] start := ⟨inv_start, by simp⟩
  refine (exec_invariant (I := I) (fun h s a t fs hI (_ : True) hs => ?_) hstart
    (meets_of_forall (fun _ _ => trivial) start run) hx).2
  obtain ⟨ht, hneed, -⟩ := step_cases hI.1 hs
  exact ⟨ht, fun e he => (List.mem_append.1 he).elim (hI.2 e) (hneed e)⟩

/-- Every message is done with once or waits; the newest is never dropped and nothing is dropped
without need; and the messages are done with in their order exactly when no chunk is written while
others wait. -/
theorem chunks_once_in_order_iff {run : List Step} {es : List Event}
    (hx : exec Queue.step start run = some (q, es)) :
    (accounted es q).Perm (List.range q.received) ∧ (∀ e ∈ es, e.Needed) ∧
      (q.pendingTotalBytes ≤ liveBatchMaxBytes ∨ q.pendingChunks.length ≤ 1) ∧
      ((∀ bs, bs <+: run → ∀ u fs, exec Queue.step start bs = some (u, fs) →
          accounted fs u = List.range u.received) ↔
        Meets Queue.step NoOvertaking start run) := by
  refine ⟨?_, run_needed hx, (run_inv hx).bound, ?_⟩
  · let I : List Event → Queue → Prop := fun es q => Inv q ∧ (accounted es q).Perm (List.range q.received)
    have hstart : I [] start := ⟨inv_start, .refl _⟩
    refine (exec_invariant (I := I) (fun h s a t fs hI (_ : True) hs => ?_) hstart
      (meets_of_forall (fun _ _ => trivial) start run) hx).2
    obtain ⟨hinv, hperm⟩ := hI
    obtain ⟨ht, -, hcase⟩ := step_cases hinv hs
    refine ⟨ht, ?_⟩
    have hsplit : accounted (h ++ fs) t = settled h ++ accounted fs t := by
      rw [accounted, settled_append, List.append_assoc, accounted]
    rw [hsplit]
    rcases hcase with ⟨hr, ha, -⟩ | ⟨hr, -, ha⟩ | ⟨hr, -, ha⟩
    · rw [ha, hr]
      exact hperm
    · rw [ha, hr, ← List.append_assoc, List.range_succ]
      exact hperm.append_right _
    · rw [ha, hr, List.range_succ]
      refine List.perm_middle.trans (.trans ?_ (List.perm_append_singleton _ _).symm)
      exact hperm.cons _
  · let P : List Event → Queue → Prop := fun es q => Inv q ∧ accounted es q = List.range q.received
    have hiff := forall_prefix_iff_meets (P := P)
      (fun h s a t fs hP hs => (?_ : _ ↔ NoOvertaking s a)) (h := []) (s := start) ⟨inv_start, rfl⟩ hx
    · rw [← hiff]
      refine forall_congr' fun bs => forall_congr' fun _ => forall_congr' fun u => forall_congr' fun fs =>
        forall_congr' fun hu => ?_
      exact ⟨fun h => ⟨run_inv hu, h⟩, fun h => h.2⟩
    · obtain ⟨hinv, horder⟩ := hP
      obtain ⟨ht, -, hcase⟩ := step_cases hinv hs
      have hsplit : accounted (h ++ fs) t = settled h ++ accounted fs t := by
        rw [accounted, settled_append, List.append_assoc, accounted]
      show Inv t ∧ accounted (h ++ fs) t = List.range t.received ↔ _
      rw [and_iff_right ht, hsplit]
      rcases hcase with ⟨hr, ha, hok⟩ | ⟨hr, hok, ha⟩ | ⟨hr, hok, ha⟩
      · rw [ha, hr]
        exact ⟨fun _ => hok, fun _ => horder⟩
      · rw [ha, hr, ← List.append_assoc, List.range_succ]
        exact ⟨fun _ => hok, fun _ => congrArg (· ++ [s.received]) horder⟩
      · rw [ha, hr, hok, List.range_succ, ← horder, accounted, List.append_assoc, List.append_cancel_left_eq]
        constructor
        · intro heq
          cases hp : s.pendingChunks with
          | nil => rfl
          | cons c chunks =>
            -- The new number would be one of those before it.
            rw [hp, List.map_cons, List.cons_append] at heq
            have hnum : c.number ∈ List.range s.received := by
              rw [← horder, accounted, hp]
              simp
            rw [← (List.cons.inj heq).1] at hnum
            exact absurd (List.mem_range.1 hnum) (lt_irrefl _)
        · intro hp
          rw [hp]
          rfl

theorem chunks_once_in_order_iff_overtaken :
    ∃ q es, exec Queue.step start
        [.ptyData false [1] 0, .ptyData true [2] 0, .flush, .ptyData true [3] 0, .finish 1, .frame] = some (q, es) ∧
      settled es = [1, 0, 2] ∧ (accounted es q).Perm (List.range q.received) := by
  refine ⟨_, _, rfl, rfl, ?_⟩
  have h := chunks_once_in_order_iff (rfl : exec Queue.step start
    [.ptyData false [1] 0, .ptyData true [2] 0, .flush, .ptyData true [3] 0, .finish 1, .frame] = some (_, _))
  exact h.1

/-- What the browser still owes. -/
def Step.owed : Step → Bool
  | .finish _ | .frame | .batchTimer => true
  | _ => false

/-- Output that came while the session was shown does not stay behind: a write, a frame or a timer that
is outstanding leads to the flush of all that waits. -/
theorem shown_chunk_flushed {run : List Step} {es : List Event} (hx : exec Queue.step start run = some (q, es))
    {c : Chunk} (hc : c ∈ q.pendingChunks) (hshown : c.shown = true) :
    ∃ more t, more.all Step.owed ∧ exec Queue.step q more = some (t, [.written q.pendingChunks]) ∧
      t.pendingChunks = [] := by
  have hinv := run_inv hx
  have hne : q.pendingChunks ≠ [] := List.ne_nil_of_mem hc
  have hflush : ∀ r : Queue, r.pendingChunks = q.pendingChunks →
      r.flushPending.2 = [.written q.pendingChunks] ∧ r.flushPending.1.pendingChunks = [] := by
    intro r hr
    rw [← hr] at hne ⊢
    rw [Queue.flushPending]
    cases hp : r.pendingChunks with
    | nil => exact absurd hp hne
    | cons d chunks => exact ⟨rfl, rfl⟩
  rcases hinv.awake c hc hshown with hactive | hframes | htimer
  · -- The write that is under way asks for a frame.
    have hmem := hinv.flushing hactive
    have hfinish : (q.finish q.pendingFlushSeq).frames = q.frames + 1 ∧
        (q.finish q.pendingFlushSeq).pendingChunks = q.pendingChunks := by
      rw [Queue.finish]
      dsimp only
      rw [if_neg (not_not.2 rfl), if_neg hne]
      exact ⟨rfl, rfl⟩
    set r := q.finish q.pendingFlushSeq with hr
    obtain ⟨h1, h2⟩ := hflush { r with frames := r.frames - 1 } hfinish.2
    refine ⟨[.finish q.pendingFlushSeq, .frame], _, rfl, ?_, h2⟩
    have hstep1 : q.step (.finish q.pendingFlushSeq) = some (r, []) := if_pos hmem
    have hstep2 : r.step .frame = some { r with frames := r.frames - 1 }.flushPending :=
      if_neg (by rw [hfinish.1]; exact Nat.succ_ne_zero _)
    simp only [exec, hstep1, hstep2, Option.map_some, List.nil_append, List.append_nil, h1]
  · obtain ⟨h1, h2⟩ := hflush { q with frames := q.frames - 1 } rfl
    refine ⟨[.frame], _, rfl, ?_, h2⟩
    have hstep : q.step .frame = some { q with frames := q.frames - 1 }.flushPending := if_neg hframes
    simp only [exec, hstep, Option.map_some, List.append_nil, h1]
  · obtain ⟨h1, h2⟩ := hflush q.endLiveOutputBatch rfl
    refine ⟨[.batchTimer], _, rfl, ?_, h2⟩
    have hstep : q.step .batchTimer = some q.endLiveOutputBatch.flushPending := if_pos htimer
    simp only [exec, hstep, Option.map_some, List.append_nil, h1]

theorem shown_chunk_flushed_in_batch :
    ∃ q es c, exec Queue.step start [.resize 0, .ptyData true [7] 10] = some (q, es) ∧ c ∈ q.pendingChunks ∧
      c.shown = true ∧ ∃ more t, more.all Step.owed ∧
        exec Queue.step q more = some (t, [.written q.pendingChunks]) ∧ t.pendingChunks = [] := by
  have hmem : (⟨0, true, [7]⟩ : Chunk) ∈ [(⟨0, true, [7]⟩ : Chunk)] := List.mem_singleton_self _
  refine ⟨_, _, ⟨0, true, [7]⟩, rfl, hmem, rfl, ?_⟩
  exact shown_chunk_flushed (rfl : exec Queue.step start [.resize 0, .ptyData true [7] 10] = some (_, _)) hmem rfl

end ManyAiCli.Web.TerminalQueue
