import ManyAiCli.Runs.Reader

/-! Filters of a stream that comes in chunks. A filter takes a chunk and a state and gives what it puts
out and the next state. Two chunks may be joined where the filter does the same with the joined one;
filters behind each other may then be fed with joined chunks too. -/

namespace ManyAiCli.Runs

variable {σ τ α β γ : Type*}

/-- A filter of chunks. -/
abbrev ChunkFilter (σ α β : Type*) := σ → List α → List β × σ

namespace ChunkFilter

/-- The filter makes no difference between the chunk `x ++ y` and `x` before `y`. -/
def Joins (f : ChunkFilter σ α β) (s : σ) (x y : List α) : Prop :=
  f s (x ++ y) = ((f s x).1 ++ (f (f s x).2 y).1, (f (f s x).2 y).2)

/-- What the first puts out goes into the second. -/
def andThen (f : ChunkFilter σ α β) (g : ChunkFilter τ β γ) : ChunkFilter (σ × τ) α γ := fun s x =>
  ((g s.2 (f s.1 x).1).1, ((f s.1 x).2, (g s.2 (f s.1 x).1).2))

/-- The chunks one after the other. -/
def feed (f : ChunkFilter σ α β) : σ → List (List α) → List β × σ
  | s, [] => ([], s)
  | s, chunk :: chunks => ((f s chunk).1 ++ (feed f (f s chunk).2 chunks).1, (feed f (f s chunk).2 chunks).2)

/-- Each chunk may be joined with those behind it. -/
def JoinsAll (f : ChunkFilter σ α β) : σ → List (List α) → Prop
  | _, [] => True
  | s, chunk :: chunks => (chunks ≠ [] → Joins f s chunk chunks.flatten) ∧ JoinsAll f (f s chunk).2 chunks

variable {f : ChunkFilter σ α β} {g : ChunkFilter τ β γ} {s : σ} {t : τ} {x y : List α}

theorem Joins.andThen (hf : Joins f s x y) (hg : Joins g t (f s x).1 (f (f s x).2 y).1) :
    Joins (f.andThen g) (s, t) x y := by
  rw [Joins] at hf hg ⊢
  simp only [ChunkFilter.andThen, hf, hg]

/-- Chunks that may be joined are filtered as one. -/
theorem JoinsAll.flatten {chunks : List (List α)} (h : JoinsAll f s chunks) (hne : chunks ≠ []) :
    f s chunks.flatten = feed f s chunks := by
  induction chunks generalizing s with
  | nil => exact absurd rfl hne
  | cons chunk chunks ih =>
    obtain ⟨hjoin, hrest⟩ := h
    cases hc : chunks with
    | nil => simp only [List.flatten_cons, List.flatten_nil, List.append_nil, feed]
    | cons next others =>
      have hne' : chunks ≠ [] := by simp [hc]
      have hone := hjoin hne'
      rw [Joins, ih hrest hne'] at hone
      rw [← hc, List.flatten_cons, hone, feed]

end ChunkFilter

namespace Reader

/-- A reader keeps what is left over for the next chunk. -/
def chunkFilter (r : Reader σ α β) : ChunkFilter (σ × List α) α β := fun s x =>
  let (v, out, carry) := r.run s.1 (s.2 ++ x)
  (out, (v, carry))

theorem joins_chunkFilter (r : Reader σ α β) (s : σ × List α) (x y : List α) :
    r.chunkFilter.Joins s x y := by
  simp only [ChunkFilter.Joins, chunkFilter, ← List.append_assoc]
  rw [run_append]

end Reader

end ManyAiCli.Runs
