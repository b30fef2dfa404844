import PersistHotStuff.Basis.Run

/-!
# Last writer wins

Inputs set a key to a value, clear a key, or leave it alone. A machine that
follows them key by key holds the value set last, unless the key was cleared
since.
-/

namespace Basis

variable {σ α κ ν : Type*}

section Standing

variable (sets : α → κ → ν → Prop) (clears : α → κ → Prop)

/-- An input that leaves a key alone. -/
def Spares (k : κ) (a : α) : Prop := (∀ v, ¬ sets a k v) ∧ ¬ clears a k

/-- Some input sets the key to the value, and every later one leaves the key alone. -/
def Standing (as : List α) (k : κ) (v : ν) : Prop :=
  ∃ before a after, as = before ++ a :: after ∧ sets a k v ∧ ∀ b ∈ after, Spares sets clears k b

variable {sets clears}

theorem not_standing_nil (k : κ) (v : ν) : ¬ Standing sets clears [] k v := by
  rintro ⟨before, a, after, h, -⟩
  cases before <;> cases h

/-- What stands after one more input: what it sets, or what stood before if it leaves the key
alone. -/
theorem standing_concat {as : List α} {a : α} {k : κ} {v : ν} :
    Standing sets clears (as ++ [a]) k v ↔
      sets a k v ∨ Spares sets clears k a ∧ Standing sets clears as k v := by
  constructor
  · rintro ⟨before, b, after, h, hset, hspares⟩
    rcases List.eq_nil_or_concat after with rfl | ⟨rest, c, rfl⟩
    · obtain ⟨-, hlast⟩ := List.append_inj' h rfl
      obtain ⟨rfl, -⟩ := List.cons.inj hlast
      exact .inl hset
    · rw [List.concat_eq_append] at h hspares
      rw [← List.cons_append, ← List.append_assoc] at h
      obtain ⟨rfl, hlast⟩ := List.append_inj' h rfl
      obtain ⟨rfl, -⟩ := List.cons.inj hlast
      refine .inr ⟨hspares a (List.mem_append_right _ (List.mem_singleton_self a)), ?_⟩
      exact ⟨before, b, rest, rfl, hset, fun d hd => hspares d (List.mem_append_left _ hd)⟩
  · rintro (hset | ⟨hspares, before, b, after, rfl, hset, hafter⟩)
    · exact ⟨as, a, [], rfl, hset, fun b hb => nomatch hb⟩
    · refine ⟨before, b, after ++ [a], by simp, hset, fun d hd => ?_⟩
      rcases List.mem_append.mp hd with hd | hd
      · exact hafter d hd
      · rw [List.mem_singleton.mp hd]
        exact hspares

end Standing

/-- A machine with a value, or none, for each key, which follows what its inputs set and clear. -/
structure LastWriter (step : σ → α → σ) (value : σ → κ → Option ν) (sets : α → κ → ν → Prop)
    (clears : α → κ → Prop) : Prop where
  set : ∀ s a k v, sets a k v → value (step s a) k = some v
  clear : ∀ s a k, clears a k → value (step s a) k = none
  spare : ∀ s a k, Spares sets clears k a → value (step s a) k = value s k

/-- From a state without a value for the key, a machine that follows its inputs holds what
stands. -/
theorem LastWriter.value_run {step : σ → α → σ} {value : σ → κ → Option ν}
    {sets : α → κ → ν → Prop} {clears : α → κ → Prop} (h : LastWriter step value sets clears)
    {s : σ} {k : κ} (hs : value s k = none) (as : List α) (v : ν) :
    value (run step s as) k = some v ↔ Standing sets clears as k v := by
  induction as using List.reverseRecOn generalizing v with
  | nil =>
    rw [run_nil, hs]
    exact iff_of_false (by simp) (not_standing_nil k v)
  | append_singleton as a ih =>
    rw [run_append, run_cons, run_nil, standing_concat]
    by_cases hspares : Spares sets clears k a
    · rw [h.spare _ a k hspares, ih]
      exact ⟨fun hv => .inr ⟨hspares, hv⟩, fun hv => hv.elim (absurd · (hspares.1 v)) And.right⟩
    · have hnot : ¬ (Spares sets clears k a ∧ Standing sets clears as k v) :=
        fun hboth => hspares hboth.1
      rw [or_iff_left hnot]
      -- the machine holds one value, so the input sets no other, and none if it clears
      rw [Spares, not_and_or, not_forall, not_not] at hspares
      constructor
      · intro hv
        rcases hspares with ⟨w, hw⟩ | hclear
        · have hset := h.set (run step s as) a k w (not_not.mp hw)
          rw [Option.some.inj (hv.symm.trans hset)]
          exact not_not.mp hw
        · rw [h.clear _ a k hclear] at hv
          cases hv
      · exact h.set _ a k v

/-- It holds nothing exactly when nothing stands. -/
theorem LastWriter.value_run_eq_none {step : σ → α → σ} {value : σ → κ → Option ν}
    {sets : α → κ → ν → Prop} {clears : α → κ → Prop} (h : LastWriter step value sets clears)
    {s : σ} {k : κ} (hs : value s k = none) (as : List α) :
    value (run step s as) k = none ↔ ∀ v, ¬ Standing sets clears as k v := by
  rw [Option.eq_none_iff_forall_ne_some]
  exact forall_congr' fun v => not_congr (h.value_run hs as v)

end Basis
