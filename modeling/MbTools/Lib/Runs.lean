import Mathlib.Data.List.Basic

/-! # Runs of guarded steps

A system is a partial step function: `step s a = some s'` when action `a` can
happen in state `s`. A run is a list of actions each of which can happen. The
rules here carry a property of one step over to whole runs, with or without a
side condition `ok` that the steps of the run have to meet.
-/

namespace MbTools.Runs

variable {σ α : Type} {step : σ → α → Option σ} {s s' : σ} {a : α} {as bs : List α}

/-- The state after a list of actions, if every one of them can happen. -/
def exec (step : σ → α → Option σ) : σ → List α → Option σ
  | s, [] => some s
  | s, a :: as => (step s a).bind fun s' => exec step s' as

@[simp] theorem exec_nil : exec step s [] = some s := rfl

theorem exec_cons :
    exec step s (a :: as) = some s' ↔ ∃ t, step s a = some t ∧ exec step t as = some s' := by
  simp [exec, Option.bind_eq_some_iff]

theorem exec_append :
    exec step s (as ++ bs) = some s' ↔ ∃ t, exec step s as = some t ∧ exec step t bs = some s' := by
  induction as generalizing s with
  | nil => simp
  | cons a as ih =>
    rw [List.cons_append, exec_cons]
    simp only [ih, exec_cons]
    constructor
    · rintro ⟨t, ht, w, hw, hr⟩
      exact ⟨w, ⟨t, ht, hw⟩, hr⟩
    · rintro ⟨w, ⟨t, ht, hw⟩, hr⟩
      exact ⟨t, ht, w, hw, hr⟩

theorem exec_concat :
    exec step s (as ++ [a]) = some s' ↔ ∃ t, exec step s as = some t ∧ step t a = some s' := by
  rw [exec_append]
  simp [exec_cons]

variable {ok P Q : σ → α → Prop}

/-- Every action of the list is taken in a state where `ok` allows it. -/
def Meets (step : σ → α → Option σ) (ok : σ → α → Prop) : σ → List α → Prop
  | _, [] => True
  | s, a :: as => ok s a ∧ ∀ s', step s a = some s' → Meets step ok s' as

theorem meets_cons_of_step (h : step s a = some s') :
    Meets step ok s (a :: as) ↔ ok s a ∧ Meets step ok s' as := by
  simp [Meets, h]

theorem meets_cons_of_stuck (h : step s a = none) : Meets step ok s (a :: as) ↔ ok s a := by
  simp [Meets, h]

instance decidableMeets [∀ s a, Decidable (ok s a)] : ∀ s as, Decidable (Meets step ok s as)
  | _, [] => isTrue trivial
  | s, a :: as =>
    match h : step s a with
    | none => decidable_of_iff (ok s a) (meets_cons_of_stuck h).symm
    | some s' =>
      have := decidableMeets s' as
      decidable_of_iff (ok s a ∧ Meets step ok s' as) (meets_cons_of_step h).symm

/-- Some action of the run is taken in a state where `P` holds of it. -/
def Happened (step : σ → α → Option σ) (P : σ → α → Prop) : σ → List α → Prop
  | _, [] => False
  | s, a :: as => P s a ∨ ∃ s', step s a = some s' ∧ Happened step P s' as

/-- In the run something `P` holds of, and after it something `Q` holds of. -/
def HappenedThen (step : σ → α → Option σ) (P Q : σ → α → Prop) (s : σ) (as : List α) : Prop :=
  ∃ bs cs t, as = bs ++ cs ∧ exec step s bs = some t ∧ Happened step P s bs ∧
    Happened step Q t cs

variable {Inv : σ → Prop}

@[simp] theorem meets_nil : Meets step ok s [] := trivial

theorem Meets.head (h : Meets step ok s (a :: as)) : ok s a := h.1

theorem Meets.tail (h : Meets step ok s (a :: as)) (hs : step s a = some s') :
    Meets step ok s' as := h.2 s' hs

theorem Meets.and {ok' : σ → α → Prop} (h : Meets step ok s as) (h' : Meets step ok' s as) :
    Meets step (fun s a => ok s a ∧ ok' s a) s as := by
  induction as generalizing s with
  | nil => trivial
  | cons a as ih => exact ⟨⟨h.head, h'.head⟩, fun s' hs => ih (h.tail hs) (h'.tail hs)⟩

/-- A condition that keeps `Inv` and implies another one with it. -/
theorem Meets.imp (Inv : σ → Prop) {ok' : σ → α → Prop} (h : Meets step ok s as)
    (hstep : ∀ s a s', Inv s → ok s a → step s a = some s' → Inv s')
    (hok : ∀ s a, Inv s → ok s a → ok' s a) (hi : Inv s) : Meets step ok' s as := by
  induction as generalizing s with
  | nil => trivial
  | cons a as ih =>
    refine ⟨hok s a hi h.head, fun t ht => ?_⟩
    exact ih (h.tail ht) (hstep s a t hi h.head ht)

theorem meets_of_forall (h : ∀ a ∈ as, ∀ s, ok s a) : Meets step ok s as := by
  induction as generalizing s with
  | nil => trivial
  | cons a as ih =>
    rw [List.forall_mem_cons] at h
    exact ⟨h.1 s, fun s' _ => ih h.2⟩

theorem meets_of_inv {P : σ → Prop} (hok : ∀ s a, a ∈ as → P s → ok s a)
    (hstep : ∀ s a s', a ∈ as → P s → step s a = some s' → P s') (h : P s) :
    Meets step ok s as := by
  induction as generalizing s with
  | nil => trivial
  | cons a as ih =>
    refine ⟨hok s a List.mem_cons_self h, fun s' hs => ih ?_ ?_ ?_⟩
    · exact fun t b hb => hok t b (List.mem_cons_of_mem a hb)
    · exact fun t b t' hb => hstep t b t' (List.mem_cons_of_mem a hb)
    · exact hstep s a s' List.mem_cons_self h hs

theorem Meets.append (h : Meets step ok s as)
    (h' : ∀ t, exec step s as = some t → Meets step ok t bs) : Meets step ok s (as ++ bs) := by
  induction as generalizing s with
  | nil => exact h' s rfl
  | cons a as ih =>
    exact ⟨h.head, fun s' hs => ih (h.tail hs) fun t ht => h' t (exec_cons.mpr ⟨s', hs, ht⟩)⟩

theorem Meets.left (h : Meets step ok s (as ++ bs)) : Meets step ok s as := by
  induction as generalizing s with
  | nil => trivial
  | cons a as ih => exact ⟨h.head, fun s' hs => ih (h.tail hs)⟩

theorem Meets.right (h : Meets step ok s (as ++ bs)) (hr : exec step s as = some s') :
    Meets step ok s' bs := by
  induction as generalizing s with
  | nil => exact Option.some.inj hr ▸ h
  | cons a as ih =>
    obtain ⟨t, ht, hr⟩ := exec_cons.mp hr
    exact ih (h.tail ht) hr

theorem inv_of_exec (hstep : ∀ s a s', Inv s → step s a = some s' → Inv s')
    (h : Inv s) (hr : exec step s as = some s') : Inv s' := by
  induction as generalizing s with
  | nil => exact Option.some.inj hr ▸ h
  | cons a as ih =>
    obtain ⟨t, ht, hr⟩ := exec_cons.mp hr
    exact ih (hstep s a t h ht) hr

/-- What one step meeting `ok` keeps, a run whose steps meet `ok` keeps. -/
theorem inv_of_meets (hstep : ∀ s a s', Inv s → ok s a → step s a = some s' → Inv s')
    (h : Inv s) (hm : Meets step ok s as) (hr : exec step s as = some s') : Inv s' := by
  induction as generalizing s with
  | nil => exact Option.some.inj hr ▸ h
  | cons a as ih =>
    obtain ⟨t, ht, hr⟩ := exec_cons.mp hr
    exact ih (hstep s a t h hm.head ht) (hm.tail ht) hr

/-- A run that has `P` throughout meets what a step needs to keep it. -/
theorem meets_of_always {P : σ → Prop} (hstep : ∀ s a s', P s → step s a = some s' → P s' → ok s a)
    (hr : exec step s as = some s')
    (h : ∀ bs t, bs <+: as → exec step s bs = some t → P t) : Meets step ok s as := by
  induction as generalizing s with
  | nil => trivial
  | cons a as ih =>
    obtain ⟨t, ht, hr⟩ := exec_cons.mp hr
    have hs : P s := h [] s List.nil_prefix rfl
    have hp : P t := h [a] t ⟨as, rfl⟩ (by simp [exec, ht])
    refine (meets_cons_of_step ht).mpr ⟨hstep s a t hs ht hp, ih hr fun bs u hb hu => ?_⟩
    exact h (a :: bs) u (List.cons_prefix_cons.mpr ⟨rfl, hb⟩) (exec_cons.mpr ⟨t, ht, hu⟩)

/-- Where the steps that keep `Inv` are exactly those `ok` allows, a run keeps it throughout exactly
when it meets `ok`. -/
theorem meets_iff_inv (hstep : ∀ s a s', Inv s → step s a = some s' → (Inv s' ↔ ok s a))
    (h : Inv s) (hr : exec step s as = some s') :
    Meets step ok s as ↔ ∀ bs t, bs <+: as → exec step s bs = some t → Inv t := by
  constructor
  · rintro hm bs t ⟨cs, rfl⟩ hb
    exact inv_of_meets (fun _ _ _ hi hok hs => (hstep _ _ _ hi hs).mpr hok) h hm.left hb
  · exact meets_of_always (fun s a s' hi hs hi' => (hstep s a s' hi hs).mp hi') hr

/-- Where a step keeps `P` exactly when `ok` allows it, and nothing brings `P` back, `P` at the end
says that the run met `ok`. -/
theorem meets_iff_of_exec {P : σ → Prop} (hinv : ∀ s a s', Inv s → step s a = some s' → Inv s')
    (hstep : ∀ s a s', Inv s → step s a = some s' → (P s' ↔ P s ∧ ok s a)) (h : Inv s)
    (hr : exec step s as = some s') : P s' ↔ P s ∧ Meets step ok s as := by
  induction as generalizing s with
  | nil =>
    obtain rfl := Option.some.inj hr
    simp
  | cons a as ih =>
    obtain ⟨t, ht, hr⟩ := exec_cons.mp hr
    rw [ih (hinv s a t h ht) hr, hstep s a t h ht, meets_cons_of_step ht, and_assoc]

/-- Two conditions that agree wherever `Inv` holds allow the same runs. -/
theorem meets_congr {ok' : σ → α → Prop} (hok : ∀ s a, Inv s → (ok s a ↔ ok' s a))
    (hstep : ∀ s a s', Inv s → step s a = some s' → Inv s') (h : Inv s) :
    Meets step ok s as ↔ Meets step ok' s as := by
  induction as generalizing s with
  | nil => exact Iff.rfl
  | cons a as ih =>
    constructor
    · intro hm
      exact ⟨(hok s a h).mp hm.head, fun t ht => (ih (hstep s a t h ht)).mp (hm.tail ht)⟩
    · intro hm
      exact ⟨(hok s a h).mpr hm.head, fun t ht => (ih (hstep s a t h ht)).mpr (hm.tail ht)⟩

/-- Two conditions that agree on the steps of a run, as long as one of them keeps `Inv`. -/
theorem meets_congr_of_exec {ok' : σ → α → Prop}
    (hok : ∀ s a s', Inv s → step s a = some s' → (ok s a ↔ ok' s a))
    (hstep : ∀ s a s', Inv s → ok s a → step s a = some s' → Inv s') (h : Inv s)
    (hr : exec step s as = some s') : Meets step ok s as ↔ Meets step ok' s as := by
  induction as generalizing s with
  | nil => exact Iff.rfl
  | cons a as ih =>
    obtain ⟨t, ht, hr⟩ := exec_cons.mp hr
    have hhead := hok s a t h ht
    rw [meets_cons_of_step ht, meets_cons_of_step ht]
    constructor
    · rintro ⟨ha, hm⟩
      exact ⟨hhead.mp ha, (ih (hstep s a t h ha ht) hr).mp hm⟩
    · rintro ⟨ha, hm⟩
      exact ⟨hhead.mpr ha, (ih (hstep s a t h (hhead.mpr ha) ht) hr).mpr hm⟩

theorem meets_of_not_happened (h : ¬ Happened step P s as) :
    Meets step (fun s a => ¬ P s a) s as := by
  induction as generalizing s with
  | nil => trivial
  | cons a as ih =>
    exact ⟨fun hp => h (Or.inl hp), fun t ht => ih fun hp => h (Or.inr ⟨t, ht, hp⟩)⟩

/-- What `Q` alone ends, and nothing brings back, holds after a run where no `Q` has happened. -/
theorem holds_iff_not_happened {H : σ → Prop} {Q : σ → α → Prop}
    (hinv : ∀ s a s', Inv s → step s a = some s' → Inv s')
    (hstep : ∀ s a s', Inv s → step s a = some s' → (H s' ↔ H s ∧ ¬ Q s a))
    (h : Inv s) (hr : exec step s as = some s') : H s' ↔ H s ∧ ¬ Happened step Q s as := by
  induction as generalizing s with
  | nil =>
    obtain rfl := Option.some.inj hr
    simp [Happened]
  | cons a as ih =>
    obtain ⟨t, ht, hr⟩ := exec_cons.mp hr
    rw [ih (hinv s a t h ht) hr, hstep s a t h ht]
    simp [Happened, ht, and_assoc]

theorem Happened.append (h : Happened step P s as) (bs : List α) :
    Happened step P s (as ++ bs) := by
  induction as generalizing s with
  | nil => exact h.elim
  | cons a as ih =>
    rcases h with (h | ⟨t, ht, h⟩)
    · exact Or.inl h
    · exact Or.inr ⟨t, ht, ih h⟩

theorem Happened.concat (hr : exec step s as = some s') (h : P s' a) :
    Happened step P s (as ++ [a]) := by
  induction as generalizing s with
  | nil =>
    obtain rfl := Option.some.inj hr
    exact Or.inl h
  | cons b as ih =>
    obtain ⟨t, ht, hr⟩ := exec_cons.mp hr
    exact Or.inr ⟨t, ht, ih hr⟩

theorem HappenedThen.append (h : HappenedThen step P Q s as) (bs : List α) :
    HappenedThen step P Q s (as ++ bs) := by
  obtain ⟨us, vs, t, rfl, hr, hp, hq⟩ := h
  exact ⟨us, vs ++ bs, t, List.append_assoc us vs bs, hr, hp, hq.append bs⟩

theorem Happened.thenConcat (h : Happened step P s as) (hr : exec step s as = some s')
    (hq : Q s' a) : HappenedThen step P Q s (as ++ [a]) :=
  ⟨as, [a], s', rfl, hr, h, Or.inl hq⟩

theorem Happened.prepend (hr : exec step s as = some s') (h : Happened step P s' bs) :
    Happened step P s (as ++ bs) := by
  induction as generalizing s with
  | nil => exact Option.some.inj hr ▸ h
  | cons a as ih =>
    obtain ⟨t, ht, hr⟩ := exec_cons.mp hr
    exact Or.inr ⟨t, ht, ih hr⟩

@[simp] theorem not_happenedThen_nil : ¬ HappenedThen step P Q s [] := by
  rintro ⟨bs, cs, t, has, -, hp, -⟩
  obtain ⟨rfl, -⟩ := List.append_eq_nil_iff.mp has.symm
  exact hp

/-- What happens first does so in the first action or after it. -/
theorem happenedThen_cons : HappenedThen step P Q s (a :: as) ↔
    ∃ t, step s a = some t ∧ (P s a ∧ Happened step Q t as ∨ HappenedThen step P Q t as) := by
  constructor
  · rintro ⟨bs, cs, t, has, hr, hp, hq⟩
    cases bs with
    | nil => exact hp.elim
    | cons b bs =>
      obtain ⟨rfl, rfl⟩ := List.cons_eq_cons.mp has
      obtain ⟨u, hu, hr⟩ := exec_cons.mp hr
      refine ⟨u, hu, ?_⟩
      rcases hp with (hp | ⟨v, hv, hp⟩)
      · exact Or.inl ⟨hp, hq.prepend hr⟩
      · obtain rfl := Option.some.inj (hu.symm.trans hv)
        exact Or.inr ⟨bs, cs, t, rfl, hr, hp, hq⟩
  · rintro ⟨t, ht, (⟨hp, hq⟩ | ⟨bs, cs, u, rfl, hr, hp, hq⟩)⟩
    · exact ⟨[a], as, t, rfl, exec_cons.mpr ⟨t, ht, rfl⟩, Or.inl hp, hq⟩
    · exact ⟨a :: bs, cs, u, rfl, exec_cons.mpr ⟨t, ht, hr⟩, Or.inr ⟨t, ht, hp⟩, hq⟩

instance decidableHappened [∀ s a, Decidable (P s a)] : ∀ s as, Decidable (Happened step P s as)
  | _, [] => isFalse id
  | s, a :: as =>
    match h : step s a with
    | none => decidable_of_iff (P s a) (by simp [Happened, h])
    | some s' =>
      have := decidableHappened s' as
      decidable_of_iff (P s a ∨ Happened step P s' as) (by simp [Happened, h])

instance decidableHappenedThen [∀ s a, Decidable (P s a)] [∀ s a, Decidable (Q s a)] :
    ∀ s as, Decidable (HappenedThen step P Q s as)
  | _, [] => isFalse not_happenedThen_nil
  | s, a :: as =>
    match h : step s a with
    | none => isFalse (by simp [happenedThen_cons, h])
    | some s' =>
      have := decidableHappenedThen s' as
      decidable_of_iff (P s a ∧ Happened step Q s' as ∨ HappenedThen step P Q s' as)
        (by simp [happenedThen_cons, h])

end MbTools.Runs
