import Mathlib.Data.List.Basic
import Mathlib.Data.List.Infix

/-!
# Runs of a state machine

A machine is a step function on states and inputs; a run folds it over a list
of inputs. `Along` says that every input meets a condition in the state it is
applied to, which is how assumptions on a schedule or on an adversary are
stated. One induction turns what a step preserves into what a run preserves.
-/

namespace Basis

variable {σ α : Type*} (step : σ → α → σ)

/-- The state after a list of inputs. -/
def run (s : σ) (as : List α) : σ := as.foldl step s

/-- Every input meets `C` in the state it is applied to. -/
def Along (C : σ → α → Prop) : σ → List α → Prop
  | _, [] => True
  | s, a :: as => C s a ∧ Along C (step s a) as

/-- `P` holds in every state of the run, the first and the last included. -/
def Throughout (P : σ → Prop) (s : σ) (as : List α) : Prop :=
  ∀ pre, pre <+: as → P (run step s pre)

/-- What the inputs of a run put out, in order. -/
def outputs {β : Type*} (out : σ → α → List β) : σ → List α → List β
  | _, [] => []
  | s, a :: as => out s a ++ outputs out (step s a) as

@[simp] theorem run_nil (s : σ) : run step s [] = s := rfl

@[simp] theorem run_cons (s : σ) (a : α) (as : List α) :
    run step s (a :: as) = run step (step s a) as := rfl

theorem run_append (s : σ) (as bs : List α) :
    run step s (as ++ bs) = run step (run step s as) bs := List.foldl_append ..

variable {step}

@[simp] theorem along_nil {C : σ → α → Prop} {s : σ} : Along step C s [] := trivial

theorem along_cons {C : σ → α → Prop} {s : σ} {a : α} {as : List α} :
    Along step C s (a :: as) ↔ C s a ∧ Along step C (step s a) as := Iff.rfl

instance instDecidableAlong {C : σ → α → Prop} [∀ s a, Decidable (C s a)] (s : σ) :
    (as : List α) → Decidable (Along step C s as)
  | [] => .isTrue trivial
  | a :: as =>
      have : Decidable (Along step C (step s a) as) := instDecidableAlong (step s a) as
      inferInstanceAs (Decidable (C s a ∧ Along step C (step s a) as))

theorem along_append {C : σ → α → Prop} {s : σ} {as bs : List α} :
    Along step C s (as ++ bs) ↔ Along step C s as ∧ Along step C (run step s as) bs := by
  induction as generalizing s with
  | nil => simp
  | cons a as ih => simp only [List.cons_append, along_cons, ih, run_cons, and_assoc]

/-- A prefix of a conforming run conforms. -/
theorem Along.initial {C : σ → α → Prop} {s : σ} {as pre : List α} (h : Along step C s as)
    (hpre : pre <+: as) : Along step C s pre := by
  obtain ⟨post, rfl⟩ := hpre
  exact (along_append.mp h).1

/-- Conditions may be weakened along a run. -/
theorem Along.mono {C D : σ → α → Prop} (hCD : ∀ s a, C s a → D s a) {s : σ} {as : List α}
    (h : Along step C s as) : Along step D s as := by
  induction as generalizing s with
  | nil => trivial
  | cons a as ih => exact ⟨hCD s a h.1, ih h.2⟩

/-- What every step preserves, every run preserves. -/
theorem run_invariant {C : σ → α → Prop} {I : σ → Prop}
    (hstep : ∀ s a, I s → C s a → I (step s a)) {s : σ} {as : List α} (hs : I s)
    (h : Along step C s as) : I (run step s as) := by
  induction as generalizing s with
  | nil => exact hs
  | cons a as ih => exact ih (hstep s a hs h.1) h.2

/-- What a conforming step from an invariant state does, every step of a conforming run does. -/
theorem along_of_step {C D : σ → α → Prop} {I : σ → Prop}
    (hstep : ∀ s a, I s → C s a → D s a ∧ I (step s a)) {s : σ} {as : List α} (hs : I s)
    (h : Along step C s as) : Along step D s as := by
  induction as generalizing s with
  | nil => trivial
  | cons a as ih =>
    obtain ⟨hd, hnext⟩ := hstep s a hs h.1
    exact ⟨hd, ih hnext h.2⟩

/-- What every step preserves without condition, every run preserves. -/
theorem run_preserves {I : σ → Prop} (hstep : ∀ s a, I s → I (step s a)) {s : σ} (hs : I s)
    (as : List α) : I (run step s as) := by
  induction as generalizing s with
  | nil => exact hs
  | cons a as ih => exact ih (hstep s a hs)

/-- What every step preserves holds in every state of a run. -/
theorem throughout_of_step {C : σ → α → Prop} {I : σ → Prop}
    (hstep : ∀ s a, I s → C s a → I (step s a)) {s : σ} {as : List α} (hs : I s)
    (h : Along step C s as) : Throughout step I s as :=
  fun _ hpre => run_invariant hstep hs (h.initial hpre)

/-- What holds of an output right after its input, and is preserved by every step, holds of all
outputs of a run at its end. -/
theorem outputs_invariant {β : Type*} {out : σ → α → List β} {C : σ → α → Prop} {I : σ → Prop}
    {Q : β → σ → Prop} (hI : ∀ s a, I s → C s a → I (step s a))
    (hout : ∀ s a, I s → C s a → ∀ b ∈ out s a, Q b (step s a))
    (hstep : ∀ s a b, I s → C s a → Q b s → Q b (step s a)) {s : σ} {as : List α} (hs : I s)
    (h : Along step C s as) : ∀ b ∈ outputs step out s as, Q b (run step s as) := by
  induction as generalizing s with
  | nil => exact fun _ hb => nomatch hb
  | cons a as ih =>
    intro b hb
    rcases List.mem_append.mp hb with hnow | hlater
    · have hkept : ∀ s a, I s ∧ Q b s → C s a → I (step s a) ∧ Q b (step s a) :=
        fun s a hs hc => ⟨hI s a hs.1 hc, hstep s a b hs.1 hc hs.2⟩
      exact (run_invariant hkept ⟨hI s a hs h.1, hout s a hs h.1 b hnow⟩ h.2).2
    · exact ih (hI s a hs h.1) h.2 b hlater

theorem throughout_nil {P : σ → Prop} {s : σ} : Throughout step P s [] ↔ P s := by
  simp [Throughout]

/-- A property throughout a run is the property now and throughout the rest. -/
theorem throughout_cons {P : σ → Prop} {s : σ} {a : α} {as : List α} :
    Throughout step P s (a :: as) ↔ P s ∧ Throughout step P (step s a) as := by
  constructor
  · intro h
    refine ⟨h [] (List.nil_prefix ..), fun pre hpre => ?_⟩
    exact h (a :: pre) (List.cons_prefix_cons.mpr ⟨rfl, hpre⟩)
  · rintro ⟨hs, h⟩ pre hpre
    cases pre with
    | nil => exact hs
    | cons b pre =>
      obtain ⟨rfl, hrest⟩ := List.cons_prefix_cons.mp hpre
      exact h pre hrest

/-- A condition that every input meets holds along every run. -/
theorem along_of_forall {C : σ → α → Prop} (h : ∀ s a, C s a) (s : σ) (as : List α) :
    Along step C s as := by
  induction as generalizing s with
  | nil => trivial
  | cons a as ih => exact ⟨h s a, ih (step s a)⟩

/-- A condition that the listed inputs meet in every state holds along the run. -/
theorem along_of_mem {C : σ → α → Prop} {as : List α} (h : ∀ a ∈ as, ∀ s, C s a) (s : σ) :
    Along step C s as := by
  induction as generalizing s with
  | nil => trivial
  | cons a as ih =>
    exact ⟨h a (List.mem_cons_self ..) s, ih (fun b hb => h b (List.mem_cons_of_mem a hb)) _⟩

/-- Two conditions hold along a run together exactly when each does. -/
theorem along_and {C D : σ → α → Prop} {s : σ} {as : List α} :
    Along step (fun s a => C s a ∧ D s a) s as ↔ Along step C s as ∧ Along step D s as := by
  induction as generalizing s with
  | nil => simp
  | cons a as ih =>
    simp only [along_cons, ih]
    exact and_and_and_comm

/-- What holds throughout a run holds at its start and after every input. -/
theorem throughout_iff_after {P : σ → Prop} {s : σ} {as : List α} :
    Throughout step P s as ↔ P s ∧ Along step (fun s a => P (step s a)) s as := by
  induction as generalizing s with
  | nil => simp [throughout_nil]
  | cons a as ih =>
    rw [throughout_cons, ih, along_cons]

/-- Two conditions that agree where `I` holds agree along a run, if one of them keeps `I`. -/
theorem along_congr {C D : σ → α → Prop} {I : σ → Prop}
    (hiff : ∀ s a, I s → (C s a ↔ D s a)) (hstep : ∀ s a, I s → D s a → I (step s a)) {s : σ}
    {as : List α} (hs : I s) : Along step C s as ↔ Along step D s as := by
  induction as generalizing s with
  | nil => exact Iff.rfl
  | cons a as ih =>
    rw [along_cons, along_cons, hiff s a hs]
    exact and_congr_right fun hd => ih (hstep s a hs hd)

/-- When each step preserves `P` exactly if it meets `C`, a run whose steps all meet `D` keeps `P`
exactly if all steps meet `C`. -/
theorem throughout_iff_along {C D : σ → α → Prop} {I P : σ → Prop}
    (hI : ∀ s a, I s → D s a → I (step s a))
    (hstep : ∀ s a, I s → P s → (P (step s a) ↔ C s a)) {s : σ} {as : List α} (hs : I s) (hp : P s)
    (hd : Along step D s as) : Throughout step P s as ↔ Along step C s as := by
  induction as generalizing s with
  | nil => exact throughout_nil.trans (iff_of_true hp trivial)
  | cons a as ih =>
    rw [throughout_cons, along_cons]
    have hs' := hI s a hs hd.1
    constructor
    · rintro ⟨-, h⟩
      have hP : P (step s a) := h [] (List.nil_prefix ..)
      exact ⟨(hstep s a hs hp).mp hP, (ih hs' hP hd.2).mp h⟩
    · rintro ⟨hc, h⟩
      exact ⟨hp, (ih hs' ((hstep s a hs hp).mpr hc) hd.2).mpr h⟩

end Basis
