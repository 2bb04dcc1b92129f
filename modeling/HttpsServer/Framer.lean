import Mathlib.Data.List.Basic

/-!
# HttpsServer.Framer

Incremental framing of a stream, over an arbitrary alphabet.

A `Framer` is run again and again on everything received so far: it reports a
frame and how many symbols it takes, asks for more, or gives up.  `Run` is the
session this makes on a stream that arrives in pieces.

A verdict is *settled* when the symbols still to come cannot change it.
`Run.flatten` shows that a session whose verdicts are all settled is the
session on the whole stream at once, so two ways of cutting one stream into
pieces cannot be told apart (`Run.eq_of_flatten_eq`).
-/

namespace HttpsServer

variable {α ρ : Type*}

/-- What a framer says about the symbols received so far. -/
inductive Verdict (ρ : Type*) where
  | done (frame : ρ) (consumed : Nat)
  | more
  | failed
  deriving DecidableEq

/-- A framer: a frame takes at least one symbol and no more than there are. -/
structure Framer (α ρ : Type*) where
  verdict : List α → Verdict ρ
  progress : ∀ {buf frame n}, verdict buf = .done frame n → 0 < n ∧ n ≤ buf.length

/-- How a session ends. -/
inductive Ending where
  | endOfStream
  | failed
  deriving DecidableEq

namespace Framer

variable (F : Framer α ρ)

/-- The session from a buffer and the pieces still to arrive: its frames and
its end.  A piece is taken from the stream only when the framer asks. -/
inductive Run : List α → List (List α) → List ρ → Ending → Prop
  | eos {buf : List α} : F.verdict buf = .more → Run buf [] [] .endOfStream
  | failed {buf : List α} {pieces : List (List α)} :
      F.verdict buf = .failed → Run buf pieces [] .failed
  | read {buf piece : List α} {pieces : List (List α)} {frames : List ρ} {e : Ending} :
      F.verdict buf = .more → Run (buf ++ piece) pieces frames e →
        Run buf (piece :: pieces) frames e
  | frame {buf : List α} {pieces : List (List α)} {frame : ρ} {n : Nat} {frames : List ρ}
      {e : Ending} : F.verdict buf = .done frame n → Run (buf.drop n) pieces frames e →
        Run buf pieces (frame :: frames) e

/-- The session asks for a verdict on `b` while `rest` is still to arrive. -/
inductive Visits : List α → List (List α) → List α → List α → Prop
  | here (buf : List α) (pieces : List (List α)) : Visits buf pieces buf pieces.flatten
  | read {buf piece : List α} {pieces : List (List α)} {b rest : List α} :
      F.verdict buf = .more → Visits (buf ++ piece) pieces b rest →
        Visits buf (piece :: pieces) b rest
  | frame {buf : List α} {pieces : List (List α)} {frame : ρ} {n : Nat} {b rest : List α} :
      F.verdict buf = .done frame n → Visits (buf.drop n) pieces b rest → Visits buf pieces b rest

/-- The symbols still to come do not change the verdict, unless there is none
yet. -/
def Settled (b rest : List α) : Prop :=
  F.verdict b = .more ∨ F.verdict (b ++ rest) = F.verdict b

variable {F}

/-- A session has one outcome. -/
theorem Run.deterministic {buf : List α} {pieces : List (List α)} {fs gs : List ρ} {e e' : Ending}
    (h : F.Run buf pieces fs e) (h' : F.Run buf pieces gs e') : fs = gs ∧ e = e' := by
  induction h generalizing gs e' with
  | eos hv => cases h' <;> simp_all
  | failed hv => cases h' <;> simp_all
  | read hv _ ih =>
      cases h' with
      | failed hv' => simp_all
      | read _ h' => exact ih h'
      | frame hv' => simp_all
  | frame hv _ ih =>
      cases h' with
      | eos hv' => simp_all
      | failed hv' => simp_all
      | read hv' => simp_all
      | frame hv' h' =>
          rw [hv] at hv'
          cases hv'
          obtain ⟨rfl, rfl⟩ := ih h'
          exact ⟨rfl, rfl⟩

/-- Once every piece has been taken nothing is left to arrive. -/
theorem Visits.rest_eq_nil {buf b rest : List α} (h : F.Visits buf [] b rest) : rest = [] := by
  generalize hp : ([] : List (List α)) = pieces at h
  induction h with
  | here buf pieces => rw [← hp]; rfl
  | read => contradiction
  | frame _ _ ih => exact ih hp

/-- A settled verdict, once there is one, is that on the whole stream. -/
theorem Settled.verdict_append {b rest : List α} (h : F.Settled b rest)
    (hmore : F.verdict b ≠ .more) : F.verdict (b ++ rest) = F.verdict b := by
  cases h with
  | inl h => exact absurd h hmore
  | inr h => exact h

/-- **A session of settled verdicts is the session on the whole stream**: the
pieces could as well have been in the buffer from the start. -/
theorem Run.flatten {buf : List α} {pieces : List (List α)} {fs : List ρ} {e : Ending}
    (h : F.Run buf pieces fs e) (hset : ∀ b rest, F.Visits buf pieces b rest → F.Settled b rest) :
    F.Run (buf ++ pieces.flatten) [] fs e := by
  induction h with
  | eos hv => simpa using Run.eos hv
  | @failed buf pieces hv =>
      refine .failed ?_
      rw [(hset _ _ (.here buf pieces)).verdict_append (by simp [hv]), hv]
  | read hv _ ih =>
      have := ih fun b rest hvis => hset b rest (.read hv hvis)
      simpa using this
  | @frame buf pieces frame n _ _ hv _ ih =>
      have hrest := ih fun b rest hvis => hset b rest (.frame hv hvis)
      rw [← List.drop_append_of_le_length (F.progress hv).2] at hrest
      refine .frame ?_ hrest
      rw [(hset _ _ (.here buf pieces)).verdict_append (by simp [hv]), hv]

/-- **Independence of the cutting**: two sessions of settled verdicts on one
stream have the same frames and the same end. -/
theorem Run.eq_of_flatten_eq {pieces pieces' : List (List α)} {fs gs : List ρ} {e e' : Ending}
    (h : F.Run [] pieces fs e) (h' : F.Run [] pieces' gs e')
    (hflat : pieces.flatten = pieces'.flatten)
    (hset : ∀ b rest, F.Visits [] pieces b rest → F.Settled b rest)
    (hset' : ∀ b rest, F.Visits [] pieces' b rest → F.Settled b rest) : fs = gs ∧ e = e' := by
  have hw := h.flatten hset
  have hw' := h'.flatten hset'
  rw [hflat] at hw
  exact hw.deterministic hw'

end Framer

/-! ## Frames in a row

The reader of a stream may know a key for each frame that is to come, such as
the question it is the answer to. -/

section Frames

variable {κ φ : Type*}

/-- One frame for each key, and what is left of the stream. -/
def readFrames (read : κ → List α → Option (φ × List α)) :
    List κ → List α → Option (List φ × List α)
  | [], stream => some ([], stream)
  | key :: keys, stream => do
    let (frame, rest) ← read key stream
    let (frames, rest) ← readFrames read keys rest
    some (frame :: frames, rest)

variable {read : κ → List α → Option (φ × List α)}

/-- The frames of a stream that ends where the frames do are followed by those
of what is appended to it. -/
theorem readFrames_append
    (hread : ∀ {key stream frame rest}, read key stream = some (frame, rest) → ∀ more,
      read key (stream ++ more) = some (frame, rest ++ more))
    {keys : List κ} {stream : List α} {frames : List φ}
    (h : readFrames read keys stream = some (frames, [])) (keys' : List κ) (more : List α) :
    readFrames read (keys ++ keys') (stream ++ more) =
      (readFrames read keys' more).map fun x => (frames ++ x.1, x.2) := by
  induction keys generalizing stream frames with
  | nil =>
      cases h
      simp
  | cons key keys ih =>
      simp only [readFrames, Option.bind_eq_bind, Option.bind_eq_some_iff, Option.some.injEq,
        Prod.mk.injEq, Prod.exists] at h
      obtain ⟨frame, rest, hfirst, frames, _, hrest, rfl, rfl⟩ := h
      simp only [List.cons_append, readFrames, hread hfirst more, ih hrest, Option.bind_eq_bind,
        Option.bind_some]
      cases readFrames read keys' more <;> rfl

/-- One more frame is found exactly when what is appended is that frame. -/
theorem readFrames_append_iff
    (hread : ∀ {key stream frame rest}, read key stream = some (frame, rest) → ∀ more,
      read key (stream ++ more) = some (frame, rest ++ more))
    {keys : List κ} {stream : List α} {frames : List φ}
    (h : readFrames read keys stream = some (frames, [])) {key : κ} {more : List α} {frame : φ} :
    readFrames read (keys ++ [key]) (stream ++ more) = some (frames ++ [frame], []) ↔
      read key more = some (frame, []) := by
  rw [readFrames_append hread h]
  cases hmore : read key more with
  | none => simp [readFrames, hmore]
  | some x => simp [readFrames, hmore, Prod.ext_iff]

/-- Frames that each read back from their own bytes read back in a row. -/
theorem readFrames_flatMap {β : Type*} {key : β → κ} {write : β → List α} {frame : β → φ}
    (hread : ∀ {key stream frame rest}, read key stream = some (frame, rest) → ∀ more,
      read key (stream ++ more) = some (frame, rest ++ more)) {xs : List β}
    (h : ∀ x ∈ xs, read (key x) (write x) = some (frame x, [])) :
    readFrames read (xs.map key) (xs.flatMap write) = some (xs.map frame, []) := by
  induction xs with
  | nil => rfl
  | cons x xs ih =>
      have hfirst := hread (h x List.mem_cons_self) (xs.flatMap write)
      have hrest := ih fun y hy => h y (List.mem_cons_of_mem x hy)
      rw [List.nil_append] at hfirst
      simp only [List.map_cons, List.flatMap_cons, readFrames, hfirst, hrest,
        Option.bind_eq_bind, Option.bind_some]

end Frames

end HttpsServer
