import Mathlib.Data.List.Basic

/-!
# Crash images

A procedure on a disk is a list of effects. An effect of size `n` reaches the
disk unit by unit, so a crash may leave any number of its units; an atomic
effect has size zero. The images of a procedure are what a crash may leave.
-/

namespace Basis

/-- One effect on a disk: `part k` is the disk with the first `k` of `size` units written. -/
structure Effect (δ : Type) where
  size : Nat
  part : Nat → δ → δ

namespace Effect

variable {δ : Type}

/-- The disk after a completed effect. -/
def complete (e : Effect δ) (d : δ) : δ := e.part e.size d

/-- The disk after a completed procedure. -/
def outcome (es : List (Effect δ)) (d : δ) : δ := es.foldl (fun d e => e.complete d) d

/-- What a crash in the course of a procedure may leave on the disk. -/
def Image : List (Effect δ) → δ → δ → Prop
  | [], d, d' => d' = d
  | e :: es, d, d' => d' = d ∨ (∃ k, k ≤ e.size ∧ d' = e.part k d) ∨ Image es (e.complete d) d'

end Effect

end Basis
