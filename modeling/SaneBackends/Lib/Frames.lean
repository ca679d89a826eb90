import Mathlib.Tactic
/-!
# Messages on a stream

Messages that follow one another on a stream, and a reader that gets the stream in pieces, takes the
messages that are complete and keeps the rest. What it does is a matter of the messages and not of
where the stream was cut.
-/

namespace SaneBackends.Lib

variable {σ μ α : Type*}

/-- Where a reader stands. -/
structure Received (σ α : Type*) where
  state : σ
  kept : List α
  failed : Bool

/-- The messages one after another, up to the first that fails. -/
def runMessages (step : σ → μ → σ × Bool) : σ → List μ → σ × Bool
  | s, [] => (s, false)
  | s, m :: ms => if (step s m).2 then step s m else runMessages step (step s m).1 ms

theorem runMessages_singleton (step : σ → μ → σ × Bool) (s : σ) (m : μ) :
    runMessages step s [m] = step s m := by
  rw [runMessages]
  split_ifs with hfailed
  · rfl
  · exact Prod.ext rfl (Bool.eq_false_of_not_eq_true hfailed).symm

/-- Messages that do not fail lead to those behind them. -/
theorem runMessages_append {step : σ → μ → σ × Bool} {s s' : σ} {ms : List μ}
    (h : runMessages step s ms = (s', false)) (ms' : List μ) :
    runMessages step s (ms ++ ms') = runMessages step s' ms' := by
  induction ms generalizing s with
  | nil =>
      obtain ⟨rfl, -⟩ := Prod.mk.inj h
      rfl
  | cons m ms ih =>
      rw [runMessages] at h
      rw [List.cons_append, runMessages]
      split_ifs at h ⊢ with hfailed
      · rw [h] at hfailed
        exact absurd hfailed Bool.false_ne_true
      · exact ih h

/-- The pieces one after another, each behind what was kept. -/
def readPieces (process : σ → List α → Received σ α) (received : Received σ α) :
    List (List α) → Received σ α
  | [] => received
  | piece :: pieces =>
      let received := process received.state (received.kept ++ piece)
      if received.failed then received else readPieces process received pieces

/-- The stream of messages. -/
def streamOf (encode : μ → List α) (ms : List μ) : List α := (ms.map encode).flatten

/-- A reader that takes complete messages from the front and keeps what is left. -/
structure Framed (good : μ → Prop) (encode : μ → List α) (step : σ → μ → σ × Bool)
    (process : σ → List α → Received σ α) : Prop where
  nothing : ∀ s, process s [] = ⟨s, [], false⟩
  message : ∀ s m rest, good m → process s (encode m ++ rest) =
    if (step s m).2 then ⟨(step s m).1, rest, true⟩ else process (step s m).1 rest
  incomplete : ∀ s m p q, good m → encode m = p ++ q → q ≠ [] → process s p = ⟨s, p, false⟩

namespace Framed

variable {good : μ → Prop} {encode : μ → List α} {step : σ → μ → σ × Bool}
  {process : σ → List α → Received σ α}

/-- A part of the stream: the reader fails as the messages do, or it keeps the beginning of the
messages that are left, and does so only if more is to come. -/
theorem process_beginning (h : Framed good encode step process) {ms : List μ}
    (hgood : ∀ m ∈ ms, good m) (s : σ) {p q : List α} (hstream : p ++ q = streamOf encode ms) :
    (process s p).failed = true ∧ runMessages step s ms = ((process s p).state, true) ∨
    (process s p).failed = false ∧ ∃ rest, (∀ m ∈ rest, good m) ∧
      (process s p).kept ++ q = streamOf encode rest ∧
      runMessages step s ms = runMessages step (process s p).state rest ∧ (q = [] → rest = []) := by
  induction ms generalizing s p with
  | nil =>
      obtain ⟨rfl, rfl⟩ := List.append_eq_nil_iff.mp hstream
      rw [h.nothing]
      exact .inr ⟨rfl, [], hgood, rfl, rfl, fun _ => rfl⟩
  | cons m ms ih =>
      have hm := hgood m List.mem_cons_self
      have hms := fun m' hm' => hgood m' (List.mem_cons_of_mem m hm')
      have hcons : streamOf encode (m :: ms) = encode m ++ streamOf encode ms := rfl
      rw [hcons] at hstream
      obtain ⟨p', rfl, hrest⟩ | ⟨q', hbegin, rfl⟩ := List.append_eq_append_iff.mp hstream.symm
      · -- the message is complete
        rw [h.message s m p' hm, runMessages]
        cases hfailed : (step s m).2 with
        | true =>
            refine .inl ⟨rfl, ?_⟩
            rw [if_pos rfl, if_pos rfl, ← hfailed]
        | false =>
            rw [if_neg Bool.false_ne_true, if_neg Bool.false_ne_true]
            exact ih hms (step s m).1 hrest.symm
      · cases q' with
        | nil =>
            rw [List.append_nil] at hbegin
            have hnext := h.message s m [] hm
            rw [List.append_nil, hbegin] at hnext
            rw [hnext, runMessages]
            cases hfailed : (step s m).2 with
            | true =>
                refine .inl ⟨rfl, ?_⟩
                rw [if_pos rfl, if_pos rfl, ← hfailed]
            | false =>
                rw [if_neg Bool.false_ne_true, if_neg Bool.false_ne_true]
                exact ih hms (step s m).1 rfl
        | cons a q' =>
            rw [h.incomplete s m p (a :: q') hm hbegin (List.cons_ne_nil a q')]
            refine .inr ⟨rfl, m :: ms, hgood, ?_, rfl, fun hnil => ?_⟩
            · rw [hcons, hbegin, List.append_assoc]
            · exact absurd hnil (List.cons_ne_nil _ _)

/-- However the stream is cut, the reader does what the messages say. -/
theorem readPieces_eq (h : Framed good encode step process) {ms : List μ}
    (hgood : ∀ m ∈ ms, good m) (pieces : List (List α)) {received : Received σ α}
    (hkept : received.failed = false)
    (hstream : received.kept ++ pieces.flatten = streamOf encode ms)
    (hlast : pieces = [] → ms = []) :
    (readPieces process received pieces).state = (runMessages step received.state ms).1 ∧
      (readPieces process received pieces).failed = (runMessages step received.state ms).2 ∧
      ((readPieces process received pieces).failed = false →
        (readPieces process received pieces).kept = []) := by
  induction pieces generalizing received ms with
  | nil =>
      obtain rfl := hlast rfl
      rw [List.flatten_nil, List.append_nil] at hstream
      exact ⟨rfl, hkept, fun _ => hstream⟩
  | cons piece pieces ih =>
      rw [List.flatten_cons, ← List.append_assoc] at hstream
      rw [readPieces]
      obtain ⟨hfailed, hrun⟩ | ⟨hfailed, rest, hrest, hkept', hrun, hnil⟩ :=
        h.process_beginning hgood received.state hstream
      · rw [hfailed, if_pos rfl, hrun]
        refine ⟨rfl, hfailed, fun hnot => ?_⟩
        exact absurd (hfailed.symm.trans hnot) Bool.false_ne_true.symm
      · rw [hfailed, if_neg Bool.false_ne_true, hrun]
        refine ih hrest hfailed hkept' fun hpieces => hnil ?_
        rw [hpieces, List.flatten_nil]

end Framed

end SaneBackends.Lib
