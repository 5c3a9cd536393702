import Mathlib.Data.List.Forall2

/-!
# Computations that may fail

What it means for a chain of such computations, or for one of them along a list, to succeed.
-/

set_option autoImplicit false

namespace TablePipeline.Outcome

variable {ε ε' α β : Type}

theorem bind_eq_ok {x : Except ε α} {f : α → Except ε β} {b : β} :
    (x >>= f) = .ok b ↔ ∃ a, x = .ok a ∧ f a = .ok b := by
  cases x with
  | ok a => simp [bind, Except.bind]
  | error e => simp [bind, Except.bind]

theorem map_eq_ok {x : Except ε α} {f : α → β} {b : β} :
    x.map f = .ok b ↔ ∃ a, x = .ok a ∧ f a = b := by
  cases x with
  | ok a => simp [Except.map]
  | error e => simp [Except.map]

theorem mapError_eq_ok {x : Except ε α} {f : ε → ε'} {a : α} :
    x.mapError f = .ok a ↔ x = .ok a := by
  cases x with
  | ok a => simp [Except.mapError]
  | error e => simp [Except.mapError]

theorem toOption_eq_some {x : Except ε α} {a : α} : x.toOption = some a ↔ x = .ok a := by
  cases x with
  | ok a => simp [Except.toOption]
  | error e => simp [Except.toOption]

theorem pure_eq_ok {a b : α} : (pure a : Except ε α) = .ok b ↔ a = b := by
  simp [pure, Except.pure]

/-- Along a list each element succeeds with the one of the results at its place. -/
theorem mapM_eq_ok {f : α → Except ε β} {xs : List α} {ys : List β} :
    xs.mapM f = .ok ys ↔ List.Forall₂ (fun x y => f x = .ok y) xs ys := by
  induction xs generalizing ys with
  | nil =>
    rw [List.mapM_nil, pure_eq_ok, List.forall₂_nil_left_iff]
    exact eq_comm
  | cons x xs ih =>
    rw [List.mapM_cons, bind_eq_ok]
    constructor
    · rintro ⟨y, hy, h⟩
      obtain ⟨ys', hys, h⟩ := bind_eq_ok.mp h
      obtain rfl := pure_eq_ok.mp h
      exact .cons hy (ih.mp hys)
    · intro h
      cases h with
      | cons hy hys => exact ⟨_, hy, bind_eq_ok.mpr ⟨_, ih.mpr hys, rfl⟩⟩

theorem mapM_map_of_eq {f : α → Except ε β} {g : α → α} (h : ∀ x, f (g x) = f x) (xs : List α) :
    (xs.map g).mapM f = xs.mapM f := by
  rw [List.mapM_map]
  exact congrArg (xs.mapM ·) (funext h)

theorem exists_of_forall₂ {R : α → β → Prop} {xs : List α} {ys : List β}
    (h : List.Forall₂ R xs ys) {x : α} (hx : x ∈ xs) : ∃ y ∈ ys, R x y := by
  induction h with
  | nil => cases hx
  | cons hxy _ ih =>
    rcases List.mem_cons.mp hx with rfl | hx
    · exact ⟨_, List.mem_cons_self, hxy⟩
    · obtain ⟨y, hy, hxy⟩ := ih hx
      exact ⟨y, List.mem_cons_of_mem _ hy, hxy⟩

theorem exists_of_mem_right {f : α → Except ε β} {xs : List α} {ys : List β}
    (h : xs.mapM f = .ok ys) {y : β} (hy : y ∈ ys) : ∃ x ∈ xs, f x = .ok y :=
  exists_of_forall₂ (mapM_eq_ok.mp h).flip hy

theorem exists_of_mem_left {f : α → Except ε β} {xs : List α} {ys : List β}
    (h : xs.mapM f = .ok ys) {x : α} (hx : x ∈ xs) : ∃ y ∈ ys, f x = .ok y :=
  exists_of_forall₂ (mapM_eq_ok.mp h) hx

theorem exists_forall₂ {R : α → β → Prop} {xs : List α} (h : ∀ x ∈ xs, ∃ y, R x y) :
    ∃ ys, List.Forall₂ R xs ys := by
  induction xs with
  | nil => exact ⟨[], .nil⟩
  | cons x xs ih =>
    obtain ⟨y, hy⟩ := h x List.mem_cons_self
    obtain ⟨ys, hys⟩ := ih fun x' hx' => h x' (List.mem_cons_of_mem _ hx')
    exact ⟨y :: ys, .cons hy hys⟩

theorem mapM_ok_of_forall {f : α → Except ε β} {xs : List α}
    (h : ∀ x ∈ xs, ∃ y, f x = .ok y) : ∃ ys, xs.mapM f = .ok ys :=
  (exists_forall₂ h).imp fun _ => mapM_eq_ok.mpr

/-! ### Computations that succeed together -/

/-- The second computation succeeds just where the first does, with its result under a function. -/
def Mapped (f : α → β) (x : Except ε α) (y : Except ε β) : Prop := y.toOption = x.toOption.map f

theorem Mapped.pure {f : α → β} {a : α} {b : β} (h : b = f a) :
    Mapped f (Except.ok a : Except ε α) (Except.ok b) := by
  subst h
  rfl

theorem Mapped.refl (x : Except ε α) : Mapped id x x := by
  cases x with
  | ok a => exact .pure rfl
  | error e => rfl

theorem Mapped.error {f : α → β} (e e' : ε) : Mapped f (.error e) (.error e') := rfl

theorem Mapped.bind {γ δ : Type} {f : α → β} {g : γ → δ} {x : Except ε α} {y : Except ε β}
    {k : α → Except ε γ} {l : β → Except ε δ} (h : Mapped f x y)
    (hk : ∀ a, x = .ok a → Mapped g (k a) (l (f a))) : Mapped g (x >>= k) (y >>= l) := by
  cases x with
  | error e =>
    cases y with
    | error e' => exact Mapped.error e e'
    | ok b => cases h
  | ok a =>
    cases y with
    | error e' => cases h
    | ok b =>
      obtain rfl : b = f a := Option.some.inj h
      exact hk a rfl

theorem Mapped.map {γ δ : Type} {f : α → β} {g : γ → δ} {x : Except ε α} {y : Except ε β}
    {k : α → γ} {l : β → δ} (h : Mapped f x y) (hk : ∀ a, l (f a) = g (k a)) :
    Mapped g (x.map k) (y.map l) :=
  Mapped.bind h fun a _ => .pure (hk a)

theorem Mapped.mapM {α' β' : Type} {f : α → α'} {g : β → β'} {k : α → Except ε β}
    {l : α' → Except ε β'} {xs : List α} (h : ∀ x ∈ xs, Mapped g (k x) (l (f x))) :
    Mapped (List.map g) (xs.mapM k) ((xs.map f).mapM l) := by
  induction xs with
  | nil => exact .pure rfl
  | cons x xs ih =>
    rw [List.map_cons, List.mapM_cons, List.mapM_cons]
    refine (h x List.mem_cons_self).bind fun y _ => ?_
    exact (ih fun x' hx' => h x' (List.mem_cons_of_mem _ hx')).bind fun ys _ => .pure rfl

/-! ### How computations end -/

/-- The results of a computation have one property and its errors another. -/
def Ends (P : α → Prop) (E : ε → Prop) : Except ε α → Prop
  | .ok a => P a
  | .error e => E e

namespace Ends

variable {P : α → Prop} {Q : β → Prop} {E : ε → Prop} {x : Except ε α}

theorem of_ok {a : α} (h : Ends P E x) (hx : x = .ok a) : P a := by
  rw [hx] at h
  exact h

theorem of_error {e : ε} (h : Ends P E x) (hx : x = .error e) : E e := by
  rw [hx] at h
  exact h

theorem mono {P' : α → Prop} (h : Ends P E x) (hP : ∀ a, P a → P' a) : Ends P' E x := by
  cases x with
  | ok a => exact hP a h
  | error e => exact h

theorem mono_error {E' : ε → Prop} (h : Ends P E x) (hE : ∀ e, E e → E' e) : Ends P E' x := by
  cases x with
  | ok a => exact h
  | error e => exact hE e h

theorem bind {f : α → Except ε β} (h : Ends P E x) (hf : ∀ a, P a → Ends Q E (f a)) :
    Ends Q E (x >>= f) := by
  cases x with
  | ok a => exact hf a h
  | error e => exact h

theorem map {f : α → β} (h : Ends P E x) (hf : ∀ a, P a → Q (f a)) : Ends Q E (x.map f) := by
  cases x with
  | ok a => exact hf a h
  | error e => exact h

theorem mapError {E' : ε' → Prop} {f : ε → ε'} (h : Ends P E x) (hf : ∀ e, E e → E' (f e)) :
    Ends P E' (x.mapError f) := by
  cases x with
  | ok a => exact h
  | error e => exact hf e h

theorem mapM {f : α → Except ε β} {xs : List α} (h : ∀ x ∈ xs, Ends Q E (f x)) :
    Ends (fun ys => ys.length = xs.length ∧ ∀ y ∈ ys, Q y) E (xs.mapM f) := by
  induction xs with
  | nil => exact ⟨rfl, List.forall_mem_nil _⟩
  | cons x xs ih =>
    rw [List.mapM_cons]
    refine (h x List.mem_cons_self).bind fun y hy => ?_
    refine (ih fun x' hx' => h x' (List.mem_cons_of_mem _ hx')).bind fun ys hys => ?_
    exact ⟨congrArg (· + 1) hys.1, List.forall_mem_cons.mpr ⟨hy, hys.2⟩⟩

end Ends

end TablePipeline.Outcome
