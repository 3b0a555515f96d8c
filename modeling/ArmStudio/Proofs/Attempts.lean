import Mathlib.Algebra.Order.Group.Nat
import Mathlib.Data.List.Basic

/-!
# Steps that may fail

The link, the screen and the bench work in steps that change a state and may fail; what was done
before a failure stays done.
-/

namespace ArmStudio

variable {ε σ α β : Type}

abbrev Attempt (ε σ : Type) := ExceptT ε (StateM σ)

section Together

variable {t : Attempt ε σ α} {f : α → Attempt ε σ β} {s s' : σ} {a : α} {e : ε}
  {handler : ε → Attempt ε σ α}

lemma bind_of_ok (h : t s = (.ok a, s')) : (t >>= f) s = f a s' := by
  show ExceptT.bindCont f (t s).1 (t s).2 = _
  rw [h]
  rfl

lemma bind_of_error (h : t s = (.error e, s')) : (t >>= f) s = (.error e, s') := by
  show ExceptT.bindCont f (t s).1 (t s).2 = _
  rw [h]
  rfl

lemma tryCatch_of_ok (h : t s = (.ok a, s')) :
    (tryCatch t handler : Attempt ε σ α) s = (.ok a, s') := by
  simp [tryCatch, tryCatchThe, MonadExceptOf.tryCatch, ExceptT.tryCatch, ExceptT.mk, bind,
    StateT.bind, h]
  rfl

lemma tryCatch_of_error (h : t s = (.error e, s')) :
    (tryCatch t handler : Attempt ε σ α) s = handler e s' := by
  simp [tryCatch, tryCatchThe, MonadExceptOf.tryCatch, ExceptT.tryCatch, ExceptT.mk, bind,
    StateT.bind, h]

lemma bind_ok (h : (t s).1 = .ok a) : (t >>= f) s = f a (t s).2 := bind_of_ok (Prod.ext h rfl)

lemma bind_error (h : (t s).1 = .error e) : (t >>= f) s = (.error e, (t s).2) :=
  bind_of_error (Prod.ext h rfl)

lemma tryCatch_ok (h : (t s).1 = .ok a) :
    (tryCatch t handler : Attempt ε σ α) s = (.ok a, (t s).2) :=
  tryCatch_of_ok (Prod.ext h rfl)

lemma tryCatch_error (h : (t s).1 = .error e) :
    (tryCatch t handler : Attempt ε σ α) s = handler e (t s).2 :=
  tryCatch_of_error (Prod.ext h rfl)

@[simp] lemma pure_apply (a : α) (s : σ) : (pure a : Attempt ε σ α) s = (.ok a, s) := rfl

@[simp] lemma throw_apply (e : ε) (s : σ) :
    (throw e : Attempt ε σ α) s = (.error e, s) := rfl

@[simp] lemma get_bind_apply (f : σ → Attempt ε σ β) (s : σ) : (get >>= f) s = f s s := rfl

attribute [simp] Except.toOption Except.mapError

@[simp] lemma ok_bind (f : α → Except ε β) : (.ok a >>= f : Except ε β) = f a := rfl

@[simp] lemma error_bind (f : α → Except ε β) : (.error e >>= f : Except ε β) = .error e := rfl

@[simp] lemma pure_ok : (pure a : Except ε α) = .ok a := rfl

end Together

/-! ## What a step leaves -/

/-- The step leaves what `view` shows of the state, whether it fails or not. -/
def Preserves {γ : Type} (view : σ → γ) (t : Attempt ε σ α) : Prop :=
  ∀ s, view (t s).2 = view s

namespace Preserves

variable {γ : Type} {view : σ → γ} {t : Attempt ε σ α}

lemma of_pure (a : α) : Preserves view (pure a : Attempt ε σ α) := fun _ => rfl

lemma of_throw (e : ε) : Preserves view (throw e : Attempt ε σ α) := fun _ => rfl

lemma of_modify {g : σ → σ} (h : ∀ s, view (g s) = view s) :
    Preserves view (modify g : Attempt ε σ Unit) := h

lemma bind {f : α → Attempt ε σ β} (ht : Preserves view t)
    (hf : ∀ a, Preserves view (f a)) : Preserves view (t >>= f) := by
  intro s
  cases hres : (t s).1 with
  | ok a =>
    rw [bind_ok hres, hf a]
    exact ht s
  | error e =>
    rw [bind_error hres]
    exact ht s

lemma of_tryCatch {handler} (ht : Preserves view t) (h : ∀ e, Preserves view (handler e)) :
    Preserves view (tryCatch t handler : Attempt ε σ α) := by
  intro s
  cases hres : (t s).1 with
  | ok a =>
    rw [tryCatch_ok hres]
    exact ht s
  | error e =>
    rw [tryCatch_error hres, h e]
    exact ht s

lemma get_bind {f : σ → Attempt ε σ β} (hf : ∀ s, view (f s s).2 = view s) :
    Preserves view (get >>= f) := hf

lemma forIn {ι δ : Type} {body : ι → δ → Attempt ε σ (ForInStep δ)}
    (h : ∀ i d, Preserves view (body i d)) (l : List ι) (d : δ) :
    Preserves view (ForIn.forIn l d body) := by
  induction l generalizing d with
  | nil => exact of_pure _
  | cons i rest ih =>
    rw [List.forIn_cons]
    refine (h i d).bind fun step => ?_
    cases step with
    | done d => exact of_pure d
    | yield d => exact ih d

lemma foldlM {ι : Type} {f : α → ι → Attempt ε σ α} (h : ∀ a i, Preserves view (f a i))
    (l : List ι) (a : α) : Preserves view (l.foldlM f a) := by
  induction l generalizing a with
  | nil => exact of_pure a
  | cons i rest ih =>
    rw [List.foldlM_cons]
    exact (h a i).bind fun b => ih b

end Preserves

/-! ## What a step gives -/

/-- Where the step does not fail, what it gives has a property. -/
def Returns (P : α → Prop) (t : Attempt ε σ α) : Prop := ∀ s a, (t s).1 = .ok a → P a

namespace Returns

variable {P : α → Prop} {Q : β → Prop} {t : Attempt ε σ α} {f : α → Attempt ε σ β}

lemma of_pure {a : α} (h : P a) : Returns P (pure a : Attempt ε σ α) := by
  rintro s b ⟨⟩
  exact h

lemma imp {P'} (h : Returns P t) (himp : ∀ a, P a → P' a) : Returns P' t :=
  fun s a ha => himp a (h s a ha)

lemma of_throw (e : ε) : Returns P (throw e : Attempt ε σ α) := by rintro s b ⟨⟩

lemma bind (ht : Returns P t) (hf : ∀ a, P a → Returns Q (f a)) : Returns Q (t >>= f) := by
  intro s b hb
  cases hres : (t s).1 with
  | ok a =>
    rw [bind_ok hres] at hb
    exact hf a (ht s a hres) _ b hb
  | error e =>
    rw [bind_error hres] at hb
    cases hb

lemma andThen (hf : ∀ a, Returns Q (f a)) : Returns Q (t >>= f) :=
  bind (P := fun _ => True) (fun _ _ _ => trivial) fun a _ => hf a

end Returns

/-! ## Steps that never fail -/

/-- From every state with `inv` the step succeeds, and `inv` holds behind it. -/
def Maintains (inv : σ → Prop) (t : Attempt ε σ α) : Prop :=
  ∀ s, inv s → (∃ a, (t s).1 = .ok a) ∧ inv (t s).2

/-- The step never fails. -/
abbrev Succeeds (t : Attempt ε σ α) : Prop := Maintains (fun _ => True) t

namespace Maintains

variable {inv : σ → Prop} {t : Attempt ε σ α}

lemma of_pure (a : α) : Maintains inv (pure a : Attempt ε σ α) :=
  fun _ hs => ⟨⟨a, rfl⟩, hs⟩

lemma of_modify {g : σ → σ} (h : ∀ s, inv s → inv (g s)) :
    Maintains inv (modify g : Attempt ε σ Unit) :=
  fun s hs => ⟨⟨(), rfl⟩, h s hs⟩

lemma bind {f : α → Attempt ε σ β} (ht : Maintains inv t)
    (hf : ∀ a, Maintains inv (f a)) : Maintains inv (t >>= f) := by
  intro s hs
  obtain ⟨⟨a, hres⟩, hnext⟩ := ht s hs
  rw [bind_ok hres]
  exact hf a _ hnext

lemma get_bind {f : σ → Attempt ε σ β} (hf : ∀ s, inv s → Maintains inv (f s)) :
    Maintains inv (get >>= f) := fun s hs => hf s hs s hs

lemma forIn {ι : Type} {body : ι → Attempt ε σ PUnit} (h : ∀ i, Maintains inv (body i))
    (l : List ι) :
    Maintains inv (ForIn.forIn l PUnit.unit fun i _ => do body i; pure (.yield PUnit.unit)) := by
  induction l with
  | nil => exact of_pure _
  | cons i rest ih =>
    rw [List.forIn_cons, bind_assoc]
    exact (h i).bind fun _ => by simpa using ih

end Maintains

namespace Succeeds

variable {t : Attempt ε σ α}

lemma ok (h : Succeeds t) (s : σ) : ∃ a, (t s).1 = .ok a := (h s trivial).1

lemma of_modify (g : σ → σ) : Succeeds (modify g : Attempt ε σ Unit) :=
  Maintains.of_modify fun _ _ => trivial

lemma of_tryCatch {handler} (h : ∀ e, Succeeds (handler e)) :
    Succeeds (tryCatch t handler : Attempt ε σ α) := by
  intro s _
  cases hres : (t s).1 with
  | ok a => exact ⟨⟨a, by rw [tryCatch_ok hres]⟩, trivial⟩
  | error e =>
    rw [tryCatch_error hres]
    exact h e _ trivial

end Succeeds

end ArmStudio
