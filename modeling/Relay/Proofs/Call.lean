/-
# Runs of calls

A run of a call is taken apart at its steps: what came of the whole is what came of one
step after the other, up to the first that halts. Two things are kept from step to step:
that only events of one sort are added to the record, and that only failures of one sort
end the call.

Key definitions: `Call.Event.request?`, `Call.requests`, `Call.Within`, `Call.Hands`.
Key theorems: `run_bind_eq_ok_iff`, `run_bind_eq_error_iff`, `Within.bind`, `Hands.bind`.
-/
import Relay.Call

namespace Relay.Call

variable {σ α β : Type} {s t : State σ}

/-! ### Taking a run apart -/

theorem run_bind_eq_ok_iff {x : Call σ α} {f : α → Call σ β} {b : β} :
    (x >>= f).run s = (.ok b, t) ↔
      ∃ a u, x.run s = (.ok a, u) ∧ (f a).run u = (.ok b, t) := by
  rw [run_bind]
  rcases hx : x.run s with ⟨h | a, u⟩
  · simp
  · constructor
    · exact fun hf => ⟨a, u, rfl, hf⟩
    · rintro ⟨a', u', heq, hf⟩
      cases heq
      exact hf

theorem run_bind_eq_error_iff {x : Call σ α} {f : α → Call σ β} {h : Halt} :
    (x >>= f).run s = (.error h, t) ↔
      x.run s = (.error h, t) ∨
        ∃ a u, x.run s = (.ok a, u) ∧ (f a).run u = (.error h, t) := by
  rw [run_bind]
  rcases hx : x.run s with ⟨h' | a, u⟩
  · simp
  · constructor
    · exact fun hf => .inr ⟨a, u, rfl, hf⟩
    · rintro (heq | ⟨a', u', heq, hf⟩)
      · cases heq
      · cases heq
        exact hf

theorem run_ofExcept_eq_ok_iff {e : Except Failure α} {a : α} :
    (ofExcept e : Call σ α).run s = (.ok a, t) ↔ e = .ok a ∧ t = s := by
  cases e with
  | ok a' => simp [ofExcept, eq_comm]
  | error f => simp [ofExcept, fail]

theorem run_ofExcept_eq_error_iff {e : Except Failure α} {h : Halt} :
    (ofExcept e : Call σ α).run s = (.error h, t) ↔
      ∃ f, e = .error f ∧ h = .failed f ∧ t = s := by
  cases e with
  | ok a => simp [ofExcept]
  | error f => simp [ofExcept, fail, eq_comm]

/-- A check that is passed is no step. -/
theorem run_ofExcept_bind_ok {e : Except Failure α} {a : α} (he : e = .ok a)
    (f : α → Call σ β) : (ofExcept e >>= f).run s = (f a).run s := by
  rw [he]
  rfl

/-- A check in front of a call is passed, and the state is as before. -/
theorem run_ofExcept_bind_eq_ok_iff {e : Except Failure α} {f : α → Call σ β} {b : β} :
    (ofExcept e >>= f).run s = (.ok b, t) ↔ ∃ a, e = .ok a ∧ (f a).run s = (.ok b, t) := by
  rw [run_bind_eq_ok_iff]
  constructor
  · rintro ⟨a, u, hcheck, hf⟩
    obtain ⟨he, rfl⟩ := run_ofExcept_eq_ok_iff.mp hcheck
    exact ⟨a, he, hf⟩
  · rintro ⟨a, he, hf⟩
    exact ⟨a, s, run_ofExcept_eq_ok_iff.mpr ⟨he, rfl⟩, hf⟩

/-- A check in front of a call is the failure, and the state is as before, or it is
passed. -/
theorem run_ofExcept_bind_eq_failed_iff {e : Except Failure α} {k : α → Call σ β} {f : Failure} :
    (ofExcept e >>= k).run s = (.error (.failed f), t) ↔
      (e = .error f ∧ t = s) ∨ ∃ a, e = .ok a ∧ (k a).run s = (.error (.failed f), t) := by
  cases e with
  | ok a => simp [ofExcept]
  | error f' => simp [ofExcept, fail, eq_comm]

theorem run_outcome_eq_ok_iff {x : Call σ α} {a : α} :
    x.outcome.run s = (.ok (.ok a), t) ↔ x.run s = (.ok a, t) := by
  rw [run_outcome]
  rcases x.run s with ⟨(g | _ | _) | a', u⟩ <;> simp

theorem run_outcome_eq_failed_iff {x : Call σ α} {f : Failure} :
    x.outcome.run s = (.ok (.error f), t) ↔ x.run s = (.error (.failed f), t) := by
  rw [run_outcome]
  rcases x.run s with ⟨(g | _ | _) | a', u⟩ <;> simp

/-- Whatever becomes of a failure, the state is the one that the call led to. -/
theorem run_outcome_snd (x : Call σ α) (s : State σ) : (x.outcome.run s).2 = (x.run s).2 := by
  rw [run_outcome]
  rcases x.run s with ⟨(g | _ | _) | a', u⟩ <;> rfl

/-- A failure that became a value does not end the call. -/
theorem run_outcome_ne_failed (x : Call σ α) (f : Failure) :
    x.outcome.run s ≠ (.error (.failed f), t) := by
  rw [run_outcome]
  rcases x.run s with ⟨(g | _ | _) | a', u⟩ <;> simp

/-! ### What a call adds to the record and how it fails -/

/-- The request over a connection, unless the event is about a token. -/
def Event.request? : Event → Option Request
  | .request _ r _ _ => some r
  | .token .. => none

/-- The requests over connections among events. -/
def requests (events : List Event) : List Request := events.filterMap Event.request?

/-- The event is about a token. -/
def Event.AboutToken (e : Event) : Prop := e.request? = none

theorem requests_cons (c : Connection) (r : Request) (timeout : Span) (limit : Nat)
    (events : List Event) :
    requests (.request c r timeout limit :: events) = r :: requests events := rfl

theorem requests_eq_nil {events : List Event} (h : ∀ e ∈ events, e.AboutToken) :
    requests events = [] :=
  List.filterMap_eq_nil_iff.mpr h

variable {P : Event → Prop} {Q : Failure → Prop}

/-- Run from this state, the call adds only events of one sort to the record. -/
def Hands (P : Event → Prop) (x : Call σ α) (s : State σ) : Prop :=
  ∃ events, (x.run s).2.record = events ++ s.record ∧ ∀ e ∈ events, P e

theorem Hands.of_record {x : Call σ α} (h : (x.run s).2.record = s.record) : x.Hands P s :=
  ⟨[], h, fun _ he => (nomatch he)⟩

theorem Hands.pure (a : α) : (Pure.pure a : Call σ α).Hands P s := .of_record rfl

theorem Hands.ofExcept (e : Except Failure α) : (Call.ofExcept e : Call σ α).Hands P s := by
  cases e with
  | ok a => exact .of_record rfl
  | error f => exact .of_record rfl

theorem Hands.bind {x : Call σ α} {f : α → Call σ β} (hx : x.Hands P s)
    (hf : ∀ a u, x.run s = (.ok a, u) → (f a).Hands P u) : (x >>= f).Hands P s := by
  obtain ⟨events, hrecord, hevents⟩ := hx
  unfold Hands
  rw [run_bind]
  rcases hrun : x.run s with ⟨h | a, u⟩
  · rw [hrun] at hrecord
    exact ⟨events, hrecord, hevents⟩
  · rw [hrun] at hrecord
    obtain ⟨later, hlater, hall⟩ := hf a u hrun
    refine ⟨later ++ events, ?_, fun e he => ?_⟩
    · rw [List.append_assoc, ← hrecord]
      exact hlater
    · rcases List.mem_append.mp he with he | he
      · exact hall e he
      · exact hevents e he

/-- A check adds nothing, and what comes after it is reached only if it is passed. -/
theorem Hands.ofExcept_bind {e : Except Failure α} {f : α → Call σ β}
    (h : ∀ a, e = .ok a → (f a).Hands P s) : (Call.ofExcept e >>= f).Hands P s := by
  refine .bind (.ofExcept e) fun a u hrun => ?_
  obtain ⟨he, rfl⟩ := run_ofExcept_eq_ok_iff.mp hrun
  exact h a he

theorem Hands.outcome {x : Call σ α} (hx : x.Hands P s) : x.outcome.Hands P s := by
  unfold Hands
  rw [run_outcome_snd]
  exact hx

/-- From every state, the call adds only events of one sort to the record, and only
failures of one sort end it. -/
structure Within (P : Event → Prop) (Q : Failure → Prop) (x : Call σ α) : Prop where
  records : ∀ s, ∃ events, (x.run s).2.record = events ++ s.record ∧ ∀ e ∈ events, P e
  fails : ∀ s f t, x.run s = (.error (.failed f), t) → Q f

/-- What is true of a call from every state, and a weaker sort of events. -/
theorem Within.hands {x : Call σ α} (h : x.Within P Q) {P' : Event → Prop}
    (himp : ∀ e, P e → P' e) (s : State σ) : x.Hands P' s := by
  obtain ⟨events, hrecord, hevents⟩ := h.records s
  exact ⟨events, hrecord, fun e he => himp e (hevents e he)⟩

/-- A call that leaves the record alone and does not fail. -/
theorem Within.of_quiet {x : Call σ α} (hrecord : ∀ s, (x.run s).2.record = s.record)
    (hfails : ∀ s f t, x.run s ≠ (.error (.failed f), t)) : x.Within P Q where
  records := fun s => ⟨[], by rw [hrecord s, List.nil_append], by simp⟩
  fails := fun s f t h => absurd h (hfails s f t)

theorem Within.pure (a : α) : (Pure.pure a : Call σ α).Within P Q :=
  .of_quiet (fun _ => rfl) fun _ _ _ h => by cases h

theorem Within.get : (Call.get : Call σ _).Within P Q :=
  .of_quiet (fun _ => rfl) fun _ _ _ h => by cases h

theorem Within.modifyPool (f : Pool → Pool) : (Call.modifyPool f : Call σ _).Within P Q :=
  .of_quiet (fun _ => rfl) fun _ _ _ h => by cases h

theorem Within.ofTime? : ∀ a : Option α, (Call.ofTime? a : Call σ α).Within P Q
  | some a => .pure a
  | none => .of_quiet (fun _ => rfl) fun _ _ _ h => by cases h

theorem Within.ofExcept {e : Except Failure α} (h : ∀ f, e = .error f → Q f) :
    (Call.ofExcept e : Call σ α).Within P Q where
  records := fun s => ⟨[], by cases e <;> rfl, by simp⟩
  fails := fun s f t hrun => by
    obtain ⟨f', he, hf, -⟩ := run_ofExcept_eq_error_iff.mp hrun
    cases hf
    exact h f he

theorem Within.bind {x : Call σ α} {f : α → Call σ β} (hx : x.Within P Q)
    (hf : ∀ a, (f a).Within P Q) : (x >>= f).Within P Q where
  records := fun s => Hands.bind (hx.records s) fun a u _ => (hf a).records u
  fails := fun s failure t h => by
    rcases run_bind_eq_error_iff.mp h with h | ⟨a, u, -, h⟩
    · exact hx.fails s failure t h
    · exact (hf a).fails u failure t h

end Relay.Call
