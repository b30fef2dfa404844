import Mathlib.Data.List.Chain
import Mathlib.Data.List.Nodup
import Mathlib.Logic.Relation

/-!
# Two-chains

Items carry a view and name at most one earlier item, their justification. An
item is certified when a quorum stands behind it. When certified items of one
view are equal, and no certified item is justified from below a two-chain of an
earlier view, all bottoms of two-chains lie on one path. Logs that contain only
such bottoms, each after the item that justifies it, agree wherever both have an
entry.
-/

namespace Basis

variable {β : Type*} (just : β → Option β)

/-- An item is reached from another by following justifications. -/
def Reaches (a c : β) : Prop := Relation.ReflTransGen (fun x y => just y = some x) a c

/-- What certification guarantees. -/
structure CertRules (view : β → ℕ) (cert : β → Prop) : Prop where
  /-- Two certified items of one view are the same item. -/
  unique : ∀ a b, cert a → cert b → view a = view b → a = b
  /-- The justification of a certified item is certified in an earlier view. -/
  descends : ∀ a b, cert b → just b = some a → cert a ∧ view a < view b
  /-- An item above a two-chain is justified by one that is not below it. -/
  locks : ∀ a b c, cert b → just b = some a → view b = view a + 1 → cert c → view b < view c →
    ∃ p, just c = some p ∧ view a ≤ view p

/-- An item is the bottom of a two-chain of consecutive views. -/
def TwoChainBottom (view : β → ℕ) (cert : β → Prop) (a : β) : Prop :=
  ∃ b, cert b ∧ just b = some a ∧ view b = view a + 1

/-- A log in which every item follows the item that justifies it. -/
inductive Grounded : List β → Prop
  | nil : Grounded []
  | snoc {l : List β} {b : β} : Grounded l → b ∉ l → (∀ p, just b = some p → p ∈ l) →
      Grounded (l ++ [b])

/-- A log that starts without justification and continues by it. -/
def Rooted (l : List β) : Prop :=
  (∀ b ∈ l.head?, just b = none) ∧ l.IsChain fun a b => just b = some a

variable {just} {view : β → ℕ} {cert : β → Prop}

namespace CertRules

/-- What a certified item reaches is certified in no later view. -/
theorem reaches_view (h : CertRules just view cert) {a c : β} (hc : cert c)
    (hreach : Reaches just a c) : cert a ∧ view a ≤ view c := by
  induction hreach with
  | refl => exact ⟨hc, le_rfl⟩
  | tail hab hbc ih =>
    obtain ⟨hb, hlt⟩ := h.descends _ _ hc hbc
    obtain ⟨ha, hle⟩ := ih hb
    exact ⟨ha, hle.trans hlt.le⟩

/-- Two certified items that reach each other are the same. -/
theorem reaches_antisymm (h : CertRules just view cert) {a c : β} (ha : cert a) (hc : cert c)
    (hac : Reaches just a c) (hca : Reaches just c a) : a = c :=
  h.unique a c ha hc (le_antisymm (h.reaches_view hc hac).2 (h.reaches_view ha hca).2)

theorem bottom_cert (h : CertRules just view cert) {a : β}
    (ha : TwoChainBottom just view cert a) : cert a := by
  obtain ⟨b, hb, hjust, -⟩ := ha
  exact (h.descends a b hb hjust).1

/-- Every certified item of no earlier view reaches the bottom of a two-chain. -/
theorem reaches_of_bottom (h : CertRules just view cert) {a : β}
    (ha : TwoChainBottom just view cert a) {c : β} (hc : cert c) (hle : view a ≤ view c) :
    Reaches just a c := by
  obtain ⟨b, hb, hjust, hview⟩ := ha
  have hcert : cert a := (h.descends a b hb hjust).1
  induction hv : view c using Nat.strong_induction_on generalizing c with
  | _ v ih =>
    rcases Nat.lt_trichotomy (view b) (view c) with hlt | heq | hgt
    · obtain ⟨p, hp, hap⟩ := h.locks a b c hb hjust hview hc hlt
      obtain ⟨hpc, hpv⟩ := h.descends p c hc hp
      exact (ih (view p) (hv ▸ hpv) hpc hap rfl).tail hp
    · rw [← h.unique b c hb hc heq]
      exact Relation.ReflTransGen.single hjust
    · have heq : view a = view c := by omega
      rw [h.unique a c hcert hc heq]
      exact Relation.ReflTransGen.refl

/-- Any two bottoms lie on one path. -/
theorem bottoms_comparable (h : CertRules just view cert) {a c : β}
    (ha : TwoChainBottom just view cert a) (hc : TwoChainBottom just view cert c) :
    Reaches just a c ∨ Reaches just c a := by
  rcases Nat.le_total (view a) (view c) with hle | hle
  · exact Or.inl (h.reaches_of_bottom ha (h.bottom_cert hc) hle)
  · exact Or.inr (h.reaches_of_bottom hc (h.bottom_cert ha) hle)

end CertRules

/-- A grounded log contains everything its items reach. -/
theorem Grounded.closed {l : List β} (h : Grounded just l) {a b : β} (hab : Reaches just a b)
    (hb : b ∈ l) : a ∈ l := by
  induction h generalizing b with
  | nil => cases hb
  | @snoc l c hl hc hjust ih =>
    rcases List.mem_append.mp hb with hb | hb
    · exact List.mem_append_left _ (ih hab hb)
    · rw [List.mem_singleton] at hb
      subst hb
      cases hab with
      | refl => exact List.mem_append_right _ (List.mem_singleton_self _)
      | tail hap hpb => exact List.mem_append_left _ (ih hap (hjust _ hpb))

/-- Only the justifications of its items matter to a grounded log. -/
theorem Grounded.congr {just' : β → Option β} {l : List β} (h : Grounded just l)
    (heq : ∀ a ∈ l, just' a = just a) : Grounded just' l := by
  induction h with
  | nil => exact Grounded.nil
  | @snoc l b hl hb hjust ih =>
    have hold : ∀ a ∈ l, just' a = just a := fun a ha => heq a (List.mem_append_left _ ha)
    refine Grounded.snoc (ih hold) hb fun p hp => ?_
    rw [heq b (List.mem_append_right _ (List.mem_singleton_self _))] at hp
    exact hjust p hp

/-- A log stays grounded under new items that each come after their justification. -/
theorem Grounded.append {l m : List β} (h : Grounded just l)
    (hm : ∀ m₁ b m₂, m = m₁ ++ b :: m₂ →
      b ∉ l ++ m₁ ∧ ∀ p, just b = some p → p ∈ l ++ m₁) : Grounded just (l ++ m) := by
  induction m using List.reverseRecOn with
  | nil => rwa [List.append_nil]
  | append_singleton m b ih =>
    obtain ⟨hb, hjust⟩ := hm m b [] rfl
    rw [← List.append_assoc]
    refine Grounded.snoc (ih fun m₁ c m₂ heq => ?_) hb hjust
    exact hm m₁ c (m₂ ++ [b]) (by rw [heq, List.append_assoc, List.cons_append])

/-- Only the justifications of its items matter to a path. -/
theorem Rooted.congr {just' : β → Option β} {l : List β} (h : Rooted just l)
    (heq : ∀ a ∈ l, just' a = just a) : Rooted just' l := by
  refine ⟨fun b hb => ?_, h.2.imp_of_mem_imp fun a b _ hb hab => ?_⟩
  · rw [heq b (List.mem_of_head? hb)]
    exact h.1 b hb
  · rw [heq b hb]
    exact hab

/-- A path grows by an item that its last one justifies. -/
theorem Rooted.snoc {l : List β} {b : β} (h : Rooted just l) (hb : just b = l.getLast?) :
    Rooted just (l ++ [b]) := by
  refine ⟨fun a ha => ?_, List.isChain_append.mpr ⟨h.2, List.isChain_singleton _, ?_⟩⟩
  · cases l with
    | nil =>
      cases ha
      exact hb
    | cons x l => exact h.1 a ha
  · intro x hx y hy
    cases hy
    exact hb.trans hx

/-- A path from a root is grounded. -/
theorem Rooted.grounded {l : List β} (h : Rooted just l) (hnodup : l.Nodup) : Grounded just l := by
  induction l using List.reverseRecOn with
  | nil => exact Grounded.nil
  | append_singleton l b ih =>
    obtain ⟨hhead, hchain⟩ := h
    obtain ⟨hchain', -, hlast⟩ := List.isChain_append.mp hchain
    obtain ⟨hnodup', -, hdisj⟩ := List.nodup_append.mp hnodup
    have hhead' : ∀ a ∈ l.head?, just a = none := fun a ha =>
      hhead a (by rw [List.head?_append, ha]; rfl)
    refine Grounded.snoc (ih ⟨hhead', hchain'⟩ hnodup') ?_ fun p hp => ?_
    · exact fun hb => hdisj b hb b (List.mem_singleton_self _) rfl
    · cases hl : l.getLast? with
      | none =>
        rw [List.getLast?_eq_none_iff.mp hl] at hhead
        rw [hhead b rfl] at hp
        cases hp
      | some x =>
        have hx : just b = some x := hlast x hl b rfl
        rw [hp, Option.some.injEq] at hx
        rw [hx]
        exact List.mem_of_getLast? hl

/-- What comes first in a grounded log is grounded. -/
theorem Grounded.initial {l m : List β} (h : Grounded just m) (hpre : l <+: m) :
    Grounded just l := by
  induction h with
  | nil =>
    rw [List.prefix_nil.mp hpre]
    exact Grounded.nil
  | @snoc m b hm hb hjust ih =>
    rcases List.prefix_concat_iff.mp hpre with rfl | hpre
    · exact Grounded.snoc hm hb hjust
    · exact ih hpre

/-- A grounded log of items of a path from a root starts that path. -/
theorem Grounded.isPrefix {l m : List β} (h : Grounded just l) (hroot : Rooted just m)
    (hnodup : m.Nodup) (hsub : ∀ a ∈ l, a ∈ m) : l <+: m := by
  induction h with
  | nil => exact List.nil_prefix
  | @snoc l b hl hb hjust ih =>
    obtain ⟨rest, rfl⟩ := ih fun a ha => hsub a (List.mem_append_left _ ha)
    have hbm := hsub b (List.mem_append_right _ (List.mem_singleton_self _))
    obtain ⟨before, after, rfl⟩ := List.append_of_mem ((List.mem_append.mp hbm).resolve_left hb)
    have hchain := (List.isChain_append.mp (List.isChain_append.mp hroot.2).2.1).2.2
    have hdisj := (List.nodup_append.mp hnodup).2.2
    -- an item between the log and the new one would be in the log already
    have hbefore : before = [] := by
      rw [← List.getLast?_eq_none_iff]
      cases hx : before.getLast? with
      | none => rfl
      | some x =>
        have hxl : x ∈ l := hjust x (hchain x hx b rfl)
        have hxr : x ∈ before ++ b :: after := List.mem_append_left _ (List.mem_of_getLast? hx)
        exact absurd rfl (hdisj x hxl x hxr)
    rw [hbefore, List.nil_append]
    exact ⟨after, by rw [List.append_assoc, List.singleton_append]⟩

/-- Every item of a path reaches the last one. -/
theorem reaches_last {l : List β} (hchain : l.IsChain fun a b => just b = some a) {p x : β}
    (hp : p ∈ l) (hx : x ∈ l.getLast?) : Reaches just p x := by
  induction l generalizing p with
  | nil => cases hp
  | cons a l ih =>
    cases l with
    | nil =>
      cases hx
      rw [List.mem_singleton.mp hp]
      exact Relation.ReflTransGen.refl
    | cons b l =>
      obtain ⟨hab, hrest⟩ := List.isChain_cons_cons.mp hchain
      rw [List.getLast?_cons_cons] at hx
      rcases List.mem_cons.mp hp with rfl | hp
      · exact Relation.ReflTransGen.head hab (ih hrest (List.mem_cons_self ..) hx)
      · exact ih hrest hp hx

/-- A grounded log of bottoms is a path from a root. -/
theorem Grounded.rooted (hrules : CertRules just view cert) {l : List β} (h : Grounded just l)
    (hbottom : ∀ a ∈ l, TwoChainBottom just view cert a) : Rooted just l := by
  induction h with
  | nil => exact ⟨fun b hb => (by cases hb), List.isChain_nil⟩
  | @snoc l b hl hb hjust ih =>
    have hb' : TwoChainBottom just view cert b :=
      hbottom b (List.mem_append_right _ (List.mem_singleton_self _))
    have hl' : ∀ a ∈ l, TwoChainBottom just view cert a :=
      fun a ha => hbottom a (List.mem_append_left _ ha)
    obtain ⟨hhead, hchain⟩ := ih hl'
    -- the last item lies below the new one, since what it reaches is in the log already
    have hbelow : ∀ x ∈ l, Reaches just x b ∧ x ≠ b := by
      intro x hx
      refine ⟨?_, fun he => hb (he ▸ hx)⟩
      exact (hrules.bottoms_comparable (hl' x hx) hb').resolve_right
        fun hbx => hb (hl.closed hbx hx)
    have hlast : ∀ x ∈ l.getLast?, just b = some x := by
      intro x hx
      have hxl : x ∈ l := List.mem_of_getLast? hx
      obtain ⟨hreach, hne⟩ := hbelow x hxl
      cases hreach with
      | refl => exact absurd rfl hne
      | @tail p _ hxp hp =>
        have hpl : p ∈ l := hjust p hp
        have hpx : Reaches just p x := reaches_last hchain hpl hx
        rw [hp, hrules.reaches_antisymm (hrules.bottom_cert (hl' p hpl))
          (hrules.bottom_cert (hl' x hxl)) hpx hxp]
    refine ⟨?_, List.isChain_append.mpr ⟨hchain, List.isChain_singleton _, ?_⟩⟩
    · intro x hx
      cases l with
      | nil =>
        cases hx
        cases hj : just b with
        | none => rfl
        | some p => exact absurd (hjust p hj) List.not_mem_nil
      | cons y l => exact hhead x hx
    · intro x hx y hy
      cases hy
      exact hlast x hx

/-- Two paths of bottoms agree wherever both have an item. -/
theorem rooted_agree (hrules : CertRules just view cert) {l m : List β} (hl : Rooted just l)
    (hm : Rooted just m) (hbl : ∀ a ∈ l, TwoChainBottom just view cert a)
    (hbm : ∀ a ∈ m, TwoChainBottom just view cert a) (i : Nat) {a b : β} (ha : l[i]? = some a)
    (hb : m[i]? = some b) : a = b := by
  have hba := hbl a (List.mem_of_getElem? ha)
  have hbb := hbm b (List.mem_of_getElem? hb)
  induction i generalizing a b with
  | zero =>
    have hja : just a = none := hl.1 a (by rw [List.head?_eq_getElem?]; exact ha)
    have hjb : just b = none := hm.1 b (by rw [List.head?_eq_getElem?]; exact hb)
    rcases hrules.bottoms_comparable hba hbb with h | h
    · cases h with
      | refl => rfl
      | tail _ hp =>
        rw [hjb] at hp
        cases hp
    · cases h with
      | refl => rfl
      | tail _ hp =>
        rw [hja] at hp
        cases hp
  | succ i ih =>
    obtain ⟨hi, rfl⟩ := List.getElem?_eq_some_iff.mp ha
    obtain ⟨hj, rfl⟩ := List.getElem?_eq_some_iff.mp hb
    have hxa := List.isChain_iff_getElem.mp hl.2 i hi
    have hxb := List.isChain_iff_getElem.mp hm.2 i hj
    have hx : l[i] = m[i] := ih (List.getElem?_eq_getElem (by omega))
      (List.getElem?_eq_getElem (by omega)) (hbl _ (List.getElem_mem _))
      (hbm _ (List.getElem_mem _))
    -- one cannot lie strictly between the common predecessor and the other
    have hstep : ∀ {c d x : β}, TwoChainBottom just view cert c → TwoChainBottom just view cert x →
        just c = some x → just d = some x → Reaches just c d → c = d := by
      intro c d x hc hx hjc hjd hreach
      cases hreach with
      | refl => rfl
      | tail hcp hp =>
        have hpx := Option.some.inj (hp.symm.trans hjd)
        subst hpx
        have hle := (hrules.reaches_view (hrules.bottom_cert hx) hcp).2
        have hlt := (hrules.descends _ _ (hrules.bottom_cert hc) hjc).2
        omega
    have hbx : TwoChainBottom just view cert l[i] := hbl _ (List.getElem_mem _)
    rcases hrules.bottoms_comparable hba hbb with h | h
    · exact hstep hba hbx hxa (hx ▸ hxb) h
    · exact (hstep hbb hbx (hx ▸ hxb) hxa h).symm

end Basis
