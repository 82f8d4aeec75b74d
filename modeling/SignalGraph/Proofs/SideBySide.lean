import Mathlib.Data.List.Forall2
import Mathlib.Data.List.Nodup

/-!
# Lists side by side

What two lists whose elements are related place by place have in common: their elements, their
updates, what a search finds in both, and the pairs of their `zip`.
-/

namespace SignalGraph

variable {α β : Type} {R : α → β → Prop} {l : List α} {l' : List β}

theorem forall₂_getElem? (h : List.Forall₂ R l l') (i : Nat) :
    l[i]? = none ∧ l'[i]? = none ∨ ∃ a b, l[i]? = some a ∧ l'[i]? = some b ∧ R a b := by
  induction h generalizing i with
  | nil => exact .inl ⟨rfl, rfl⟩
  | @cons a b _ _ hab _ ih =>
    cases i with
    | zero => exact .inr ⟨a, b, rfl, rfl, hab⟩
    | succ i => exact ih i

theorem forall₂_set (h : List.Forall₂ R l l') (i : Nat) {a : α} {b : β} (hab : R a b) :
    List.Forall₂ R (l.set i a) (l'.set i b) := by
  induction h generalizing i with
  | nil => exact .nil
  | cons hfirst hrest ih =>
    cases i with
    | zero => exact .cons hab hrest
    | succ i => exact .cons hfirst (ih i)

theorem zip_set (l : List α) (l' : List β) (i : Nat) (a : α) (b : β) :
    (l.set i a).zip (l'.set i b) = (l.zip l').set i (a, b) := by
  induction l generalizing l' i with
  | nil => rfl
  | cons c l ih =>
    cases l' with
    | nil => cases i <;> rfl
    | cons d l' =>
      cases i with
      | zero => rfl
      | succ i =>
        rw [List.set_cons_succ, List.set_cons_succ, List.zip_cons_cons, ih, List.zip_cons_cons,
          List.set_cons_succ]

/-- Two searches that agree side by side find elements of one place, and leave lists that still
stand side by side. -/
theorem forall₂_find? {p : α → Bool} {p' : β → Bool} (h : List.Forall₂ R l l')
    (hp : ∀ x ∈ l.zip l', p' x.2 = p x.1) :
    l.find? p = none ∧ l'.find? p' = none ∨
      ∃ a b, l.find? p = some a ∧ l'.find? p' = some b ∧
        List.Forall₂ R (l.eraseP p) (l'.eraseP p') ∧
        (l.zip l').Perm ((a, b) :: (l.eraseP p).zip (l'.eraseP p')) := by
  induction h with
  | nil => exact .inl ⟨rfl, rfl⟩
  | @cons a b rest rest' hab hrest ih =>
    have hfirst : p' b = p a := hp (a, b) List.mem_cons_self
    cases hpa : p a with
    | true =>
      refine .inr ⟨a, b, List.find?_cons_of_pos hpa,
        List.find?_cons_of_pos (hfirst.trans hpa), ?_, ?_⟩
      · rw [List.eraseP_cons_of_pos hpa, List.eraseP_cons_of_pos (hfirst.trans hpa)]
        exact hrest
      · rw [List.eraseP_cons_of_pos hpa, List.eraseP_cons_of_pos (hfirst.trans hpa)]
        exact .refl _
    | false =>
      have hpa' : ¬ p a = true := by simp [hpa]
      have hpb' : ¬ p' b = true := by simp [hfirst, hpa]
      rw [List.find?_cons_of_neg hpa', List.find?_cons_of_neg hpb', List.eraseP_cons_of_neg hpa',
        List.eraseP_cons_of_neg hpb']
      rcases ih fun x hx => hp x (List.mem_cons_of_mem _ hx) with
        hnone | ⟨c, d, hc, hd, hall, hperm⟩
      · exact .inl hnone
      · exact .inr ⟨c, d, hc, hd, .cons hab hall, (hperm.cons (a, b)).trans (.swap _ _ _)⟩

theorem mem_zip_map_self {f : β → α} {p : α × β} (h : p ∈ (l'.map f).zip l') : p.1 = f p.2 := by
  have hmapped : List.Forall₂ (fun a b => a = f b) (l'.map f) l' :=
    List.forall₂_map_left_iff.2 (List.forall₂_same.2 fun _ _ => rfl)
  exact (List.forall₂_iff_zip.1 hmapped).2 h

theorem eq_of_mem_zip_self {p : α × α} (h : p ∈ l.zip l) : p.1 = p.2 := by
  have hmap : p ∈ (l.map id).zip l := by rwa [List.map_id]
  exact mem_zip_map_self hmap

theorem map_eq_map_of_zip {γ : Type} {f : α → γ} {g : β → γ} (hlength : l.length = l'.length)
    (h : ∀ p ∈ l.zip l', f p.1 = g p.2) : l.map f = l'.map g := by
  rw [← List.forall₂_eq_eq_eq, List.forall₂_map_left_iff, List.forall₂_map_right_iff]
  exact List.forall₂_iff_zip.2 ⟨hlength, fun {_ _} hp => h _ hp⟩

/-- A place in two lists is told by what stands there in the first one. -/
theorem eq_of_mem_zip {γ : Type} {f : α → γ} {p q : α × β} (hlength : l.length = l'.length)
    (hnodup : (l.map f).Nodup) (hp : p ∈ l.zip l') (hq : q ∈ l.zip l') (h : f p.1 = f q.1) :
    p = q := by
  have hmap : ((l.zip l').map fun p => f p.1) = l.map f := by
    conv_rhs => rw [← List.map_fst_zip (Nat.le_of_eq hlength), List.map_map]
    rfl
  exact List.inj_on_of_nodup_map (hmap ▸ hnodup) hp hq h

end SignalGraph
