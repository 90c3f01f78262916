import ChunkedStorage.Proofs.Reader.Turn

/-!
# Histories of readers

A reader is used by one call after the other, and each call meets the world as others have left it.  The history of the
calls is the row of all their steps, each with the reader and the world before it and the calls it notes.  Every history
is a path of single steps (`Reader.history_path`), along which invariants are carried; a read ends its part of it with
the step that answers (`Reader.Reads.last`).
-/

namespace ChunkedStorage

variable {σ β : Type}

/-- What may be done with a reader, and the world that it is done in. -/
inductive Use (σ : Type) where
  | next (max : Nat) (world : σ)
  | read (size : Nat) (world : σ)
  | close (world : σ)

def Use.world : Use σ → σ
  | next _ world | read _ world | close world => world

/-- One step of a reader. -/
structure Step (σ β : Type) where
  /-- The reader before the step. -/
  reader : Reader β
  /-- The world before the step. -/
  world : σ
  notes : List Exchange
  /-- What the step answers, unless the read goes on. -/
  answer? : Option (Except Failure (Option Bytes))

/-- The bytes that a step hands out. -/
def Step.output (step : Step σ β) : Bytes :=
  match step.answer? with
  | some (.ok (some piece)) => piece
  | _ => []

namespace Reader

/-! ### Calls -/

/-- The reader after a call. -/
def afterUse (r : Reader β) (b : Backend σ β) : Use σ → Reader β
  | .next max world => (r.next b max world).2.1
  | .read size world => (r.read b size world).2.1
  | .close world => (r.close b world).1

/-- The bytes that a call hands out. -/
def given (r : Reader β) (b : Backend σ β) : Use σ → Bytes
  | .next max world => (((r.next b max world).1.toOption).getD none).getD []
  | .read size world => ((r.read b size world).1.toOption).getD []
  | .close _ => []

/-- The reader after a row of calls. -/
def after (b : Backend σ β) : List (Use σ) → Reader β → Reader β
  | [], r => r
  | use :: uses, r => after b uses (r.afterUse b use)

/-- The bytes that a row of calls hands out. -/
def output (b : Backend σ β) : List (Use σ) → Reader β → Bytes
  | [], _ => []
  | use :: uses, r => r.given b use ++ output b uses (r.afterUse b use)

/-! ### Steps of calls -/

/-- The steps of one read. -/
def steps (r : Reader β) (b : Backend σ β) (max : Nat) (world : σ) : List (Step σ β) :=
  match _step : r.turn b.noting max (world, []) with
  | .answered result _ (_, notes) => [⟨r, world, notes, some result⟩]
  | .going r' (world', notes) => ⟨r, world, notes, none⟩ :: r'.steps b max world'
termination_by (r.pending.length, r.phase.rank, r.idle b world)
decreasing_by
  have := turn_going _step
  simpa [Prod.lex_def, Nearer, idle, Backend.noting] using this

/-- The steps of one call. -/
def stepsOf (r : Reader β) (b : Backend σ β) : Use σ → List (Step σ β)
  | .next max world => r.steps b max world
  | .read size world => if size = 0 then [] else r.steps b size world
  | .close world => [⟨r, world, (r.close b.noting (world, [])).2.2, none⟩]

/-- The steps of a row of calls. -/
def history (b : Backend σ β) : List (Use σ) → Reader β → List (Step σ β)
  | [], _ => []
  | use :: uses, r => r.stepsOf b use ++ history b uses (r.afterUse b use)

/-! ### Reads as rows of steps -/

/-- The steps of one read, and what it comes to. -/
inductive Reads (b : Backend σ β) (max : Nat) :
    Reader β → σ → List (Step σ β) → Except Failure (Option Bytes) × Reader β × σ → Prop where
  | answered {r r' : Reader β} {world world' : σ} {notes : List Exchange} {result : Except Failure (Option Bytes)}
      (hacts : Acts b max r world notes (.answered result r' world')) :
      Reads b max r world [⟨r, world, notes, some result⟩] (result, r', world')
  | going {r r' : Reader β} {world world' : σ} {notes : List Exchange} {steps : List (Step σ β)}
      {outcome : Except Failure (Option Bytes) × Reader β × σ} (hacts : Acts b max r world notes (.going r' world'))
      (hreads : Reads b max r' world' steps outcome) :
      Reads b max r world (⟨r, world, notes, none⟩ :: steps) outcome

theorem reads_steps (r : Reader β) (b : Backend σ β) (max : Nat) (world : σ) :
    Reads b max r world (r.steps b max world) (r.next b max world) := by
  fun_induction next r b max world with
  | case1 r world result r' world' hturn =>
    obtain ⟨notes, hnoting, hacts⟩ := r.turn_acts b max world
    rw [hturn] at hnoting hacts
    unfold steps
    split
    · next hstep =>
      rw [hnoting] at hstep
      cases hstep
      exact .answered hacts
    · next hstep =>
      rw [hnoting] at hstep
      cases hstep
  | case2 r world r' world' hturn ih =>
    obtain ⟨notes, hnoting, hacts⟩ := r.turn_acts b max world
    rw [hturn] at hnoting hacts
    unfold steps
    split
    · next hstep =>
      rw [hnoting] at hstep
      cases hstep
    · next hstep =>
      rw [hnoting] at hstep
      cases hstep
      exact .going hacts ih

/-! ### Paths -/

/-- Steps that follow one another, be they those of reads or the closing of the reader. -/
inductive Path (b : Backend σ β) : Reader β → List (Step σ β) → Reader β → Prop where
  | nil (r : Reader β) : Path b r [] r
  | turn {r r' : Reader β} {max : Nat} {world : σ} {notes : List Exchange} {turn : Turn β σ}
      {steps : List (Step σ β)} (hacts : Acts b max r world notes turn) (hpath : Path b turn.reader steps r') :
      Path b r (⟨r, world, notes, turn.answer?⟩ :: steps) r'
  | close {r r' : Reader β} {world : σ} {steps : List (Step σ β)}
      (hpath : Path b { r with phase := .closed } steps r') :
      Path b r (⟨r, world, r.closeNotes, none⟩ :: steps) r'

theorem Path.append {b : Backend σ β} {r r₁ r₂ : Reader β} {steps steps' : List (Step σ β)}
    (h : Path b r steps r₁) (h' : Path b r₁ steps' r₂) : Path b r (steps ++ steps') r₂ := by
  induction h with
  | nil r => exact h'
  | turn hacts _ ih => exact .turn hacts (ih h')
  | close _ ih => exact .close (ih h')

theorem Path.of_append {b : Backend σ β} {r r' : Reader β} {steps steps' : List (Step σ β)}
    (h : Path b r (steps ++ steps') r') : ∃ r₁, Path b r steps r₁ ∧ Path b r₁ steps' r' := by
  induction steps generalizing r with
  | nil => exact ⟨r, .nil r, h⟩
  | cons first steps ih =>
    cases h with
    | turn hacts hpath =>
      obtain ⟨r₁, hfirst, hrest⟩ := ih hpath
      exact ⟨r₁, .turn hacts hfirst, hrest⟩
    | close hpath =>
      obtain ⟨r₁, hfirst, hrest⟩ := ih hpath
      exact ⟨r₁, .close hfirst, hrest⟩

/-- A path can be cut at each of its steps. -/
theorem Path.split {b : Backend σ β} {r r' : Reader β} {before after : List (Step σ β)} {step : Step σ β}
    (h : Path b r (before ++ step :: after) r') :
    Path b r before step.reader ∧ Path b step.reader (step :: after) r' := by
  obtain ⟨r₁, hbefore, hafter⟩ := h.of_append
  have hreader : r₁ = step.reader := by cases hafter <;> rfl
  exact hreader ▸ ⟨hbefore, hafter⟩

/-- The listing is the same all along a path, and the pending slices are the last ones of those at its start. -/
theorem Path.keeps {b : Backend σ β} {r r' : Reader β} {steps : List (Step σ β)} (h : Path b r steps r') :
    r'.chunks = r.chunks ∧ r'.pending <:+ r.pending := by
  induction h with
  | nil => exact ⟨rfl, List.suffix_rfl⟩
  | turn hacts _ ih =>
    obtain ⟨hchunks, hpending⟩ := hacts.keeps
    exact ⟨ih.1.trans hchunks, ih.2.trans hpending⟩
  | close _ ih => exact ih

theorem Reads.path {b : Backend σ β} {max : Nat} {r : Reader β} {world : σ} {steps : List (Step σ β)}
    {outcome : Except Failure (Option Bytes) × Reader β × σ} (h : Reads b max r world steps outcome) :
    Path b r steps outcome.2.1 := by
  induction h with
  | answered hacts => exact .turn hacts (.nil _)
  | going hacts _ ih => exact .turn hacts ih

/-- A read goes on until a step answers. -/
theorem Reads.last {b : Backend σ β} {max : Nat} {r : Reader β} {world : σ} {steps : List (Step σ β)}
    {outcome : Except Failure (Option Bytes) × Reader β × σ} (h : Reads b max r world steps outcome) :
    ∃ init last, steps = init ++ [last] ∧ Path b r init last.reader ∧
      Acts b max last.reader last.world last.notes (.answered outcome.1 outcome.2.1 outcome.2.2) ∧
      last.answer? = some outcome.1 ∧ ∀ step ∈ init, step.answer? = none := by
  induction h with
  | answered hacts => exact ⟨[], _, rfl, .nil _, hacts, rfl, by simp⟩
  | going hacts _ ih =>
    obtain ⟨init, last, rfl, hpath, hlast, hanswer, hinit⟩ := ih
    refine ⟨_ :: init, last, rfl, .turn hacts hpath, hlast, hanswer, ?_⟩
    intro step hstep
    rcases List.mem_cons.1 hstep with rfl | hstep
    · rfl
    · exact hinit step hstep

private theorem close_notes (r : Reader β) (b : Backend σ β) (world : σ) :
    (r.close b.noting (world, [])).2.2 = r.closeNotes := by
  unfold close closeNotes
  cases r.phase <;> rfl

theorem stepsOf_path (r : Reader β) (b : Backend σ β) (use : Use σ) :
    Path b r (r.stepsOf b use) (r.afterUse b use) := by
  cases use with
  | next max world => exact (r.reads_steps b max world).path
  | read size world =>
    unfold stepsOf afterUse read
    by_cases hsize : size = 0
    · simp only [if_pos hsize]
      exact .nil r
    · simp only [if_neg hsize]
      exact (r.reads_steps b size world).path
  | close world =>
    simp only [stepsOf, afterUse, close_notes, close_reader]
    exact .close (.nil _)

/-- The history of calls is a path of single steps. -/
theorem history_path (r : Reader β) (b : Backend σ β) (uses : List (Use σ)) :
    Path b r (r.history b uses) (r.after b uses) := by
  induction uses generalizing r with
  | nil => exact .nil r
  | cons use uses ih => exact (r.stepsOf_path b use).append (ih _)

/-! ### What the last step of a read tells -/

/-- Some step gives the answer of a read. -/
theorem acts_of_next {r r' : Reader β} {b : Backend σ β} {max : Nat} {world world' : σ}
    {result : Except Failure (Option Bytes)} (hnext : r.next b max world = (result, r', world')) :
    ∃ r₁ world₁ notes, Acts b max r₁ world₁ notes (.answered result r' world') := by
  obtain ⟨init, last, -, -, hacts, -⟩ := (r.reads_steps b max world).last
  rw [hnext] at hacts
  exact ⟨last.reader, last.world, last.notes, hacts⟩

theorem piece_ne_nil_of_next {r r' : Reader β} {b : Backend σ β} {max : Nat} {world world' : σ} {piece : Bytes}
    (hnext : r.next b max world = (.ok (some piece), r', world')) : piece ≠ [] := by
  obtain ⟨r₁, world₁, notes, hacts⟩ := acts_of_next hnext
  cases hacts with
  | delivered _ _ _ hpiece => exact hpiece

theorem phase_of_next_end {r r' : Reader β} {b : Backend σ β} {max : Nat} {world world' : σ}
    (hnext : r.next b max world = (.ok none, r', world')) : r'.phase = .exhausted := by
  obtain ⟨r₁, world₁, notes, hacts⟩ := acts_of_next hnext
  cases hacts with
  | exhausted hphase => exact hphase

/-! ### What is handed out -/

theorem Reads.output {b : Backend σ β} {max : Nat} {r : Reader β} {world : σ} {steps : List (Step σ β)}
    {outcome : Except Failure (Option Bytes) × Reader β × σ} (h : Reads b max r world steps outcome) :
    steps.flatMap Step.output = ((outcome.1.toOption).getD none).getD [] := by
  induction h with
  | @answered _ _ _ _ _ result _ => rcases result with _ | _ | _ <;> simp [Step.output, Except.toOption]
  | going _ _ ih => simpa [Step.output] using ih

theorem output_stepsOf (r : Reader β) (b : Backend σ β) (use : Use σ) :
    (r.stepsOf b use).flatMap Step.output = r.given b use := by
  cases use with
  | next max world => exact (r.reads_steps b max world).output
  | read size world =>
    unfold stepsOf given read
    by_cases hsize : size = 0
    · simp [hsize, Except.toOption]
    · simp only [if_neg hsize]
      rw [(r.reads_steps b size world).output]
      cases (r.next b size world).1 <;> rfl
  | close world => rfl

theorem output_history (r : Reader β) (b : Backend σ β) (uses : List (Use σ)) :
    (r.history b uses).flatMap Step.output = r.output b uses := by
  induction uses generalizing r with
  | nil => rfl
  | cons use uses ih => simp only [history, output, List.flatMap_append, output_stepsOf, ih]

end Reader

end ChunkedStorage
