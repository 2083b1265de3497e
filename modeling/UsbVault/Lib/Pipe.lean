import Mathlib.Data.List.Basic

/-!
# Pipes

A synchronous pipe. The writer hands its chunks over one at a time, waits
until each has been read, and closes its end; the reader takes what there is
of a chunk, and sees the end once the writer has closed. A reader that closes
its own end stops the writer. However the two take turns, nothing is lost
between them (`run_conserves`), and a reader that has seen the end has
received every chunk (`received_of_ended`).
-/

namespace Pipe

variable {α : Type}

/-- `chunks` are still to be written, `offered` is what is left of the one
being written; `ended`: the reader has seen the end. -/
structure State (α : Type) where
  chunks : List (List α)
  offered : List α
  received : List α
  closed : Bool
  broken : Bool
  ended : Bool
  deriving DecidableEq, Repr

/-- The writer writes or closes, the reader reads up to `n` or closes. -/
inductive Act where
  | write
  | close
  | read (n : Nat)
  | hangUp
  deriving DecidableEq, Repr

def start (chunks : List (List α)) : State α := ⟨chunks, [], [], false, false, false⟩

/-- Who cannot go on waits. -/
def step (s : State α) : Act → State α
  | .write =>
    match s.broken, s.offered, s.chunks with
    | false, [], chunk :: chunks => { s with chunks := chunks, offered := chunk }
    | _, _, _ => s
  | .close =>
    match s.broken, s.offered, s.chunks with
    | false, [], [] => { s with closed := true }
    | _, _, _ => s
  | .read n =>
    match s.broken, s.offered with
    | false, [] => { s with ended := s.closed || s.ended }
    | false, data =>
      { s with offered := data.drop n, received := s.received ++ data.take n }
    | true, _ => s
  | .hangUp => { s with broken := true }

def run (s : State α) (acts : List Act) : State α := acts.foldl step s

/-- What has been read and what is left are the chunks; the writer closes
after the last of them, and the reader sees the end after that. -/
structure Conserves (chunks : List (List α)) (s : State α) : Prop where
  total : s.received ++ (s.offered ++ s.chunks.flatten) = chunks.flatten
  drained : s.closed → s.offered = [] ∧ s.chunks = []
  ended : s.ended → s.closed

variable {chunks : List (List α)} {s : State α}

theorem start_conserves (chunks : List (List α)) : Conserves chunks (start chunks) where
  total := rfl
  drained := (by rintro ⟨⟩)
  ended := (by rintro ⟨⟩)

theorem Conserves.step (h : Conserves chunks s) (a : Act) : Conserves chunks (step s a) := by
  obtain ⟨htotal, hdrained, hended⟩ := h
  cases a with
  | write =>
    rw [Pipe.step]
    split
    · rename_i chunk rest _ hoffered hchunks
      refine ⟨?_, ?_, hended⟩
      · rw [hoffered, hchunks] at htotal
        simpa using htotal
      · intro hclosed
        rw [(hdrained hclosed).2] at hchunks
        cases hchunks
    · exact ⟨htotal, hdrained, hended⟩
  | close =>
    rw [Pipe.step]
    split
    · rename_i _ hoffered hchunks
      exact ⟨htotal, fun _ => ⟨hoffered, hchunks⟩, fun _ => rfl⟩
    · exact ⟨htotal, hdrained, hended⟩
  | read n =>
    rw [Pipe.step]
    split
    · refine ⟨htotal, hdrained, ?_⟩
      intro h
      rcases Bool.or_eq_true_iff.mp h with hclosed | h
      · exact hclosed
      · exact hended h
    · refine ⟨?_, ?_, hended⟩
      · rw [← htotal]
        simp only [List.append_assoc, ← List.append_assoc (s.offered.take n),
          List.take_append_drop]
      · intro hclosed
        rw [(hdrained hclosed).1, List.drop_nil]
        exact ⟨rfl, (hdrained hclosed).2⟩
    · exact ⟨htotal, hdrained, hended⟩
  | hangUp => exact ⟨htotal, hdrained, hended⟩

/-- **Nothing is lost between the two**, whatever turns they take. -/
theorem run_conserves (h : Conserves chunks s) (acts : List Act) :
    Conserves chunks (run s acts) := by
  induction acts generalizing s with
  | nil => exact h
  | cons a acts ih => exact ih (h.step a)

/-- **A reader that has seen the end has received every chunk.** -/
theorem received_of_ended {acts : List Act} (h : (run (start chunks) acts).ended) :
    (run (start chunks) acts).received = chunks.flatten := by
  have hconserves := run_conserves (start_conserves chunks) acts
  obtain ⟨hoffered, hrest⟩ := hconserves.drained (hconserves.ended h)
  have htotal := hconserves.total
  rw [hoffered, hrest] at htotal
  simpa using htotal

/-- What has been received is a beginning of what is written. -/
theorem received_isPrefix (chunks : List (List α)) (acts : List Act) :
    (run (start chunks) acts).received <+: chunks.flatten :=
  ⟨_, (run_conserves (start_conserves chunks) acts).total⟩

end Pipe
