import Mathlib.Tactic

/-!
# Runs that leave a trace

A run notes events and comes to a result, unless it meets something undefined; what it has
noted by then stays. Rules say what holds of a result, and when two runs go in step: they
note the same events and come to related results, or to none.
-/
namespace MorningProjects.Library

structure Traced (ε α : Type*) where
  log : List ε
  result : Option α

namespace Traced

variable {ε α β γ δ : Type*}

def note (e : ε) : Traced ε Unit := ⟨[e], some ()⟩

def ofOption (result : Option α) : Traced ε α := ⟨[], result⟩

def bind (t : Traced ε α) (f : α → Traced ε β) : Traced ε β :=
  match t.result with
  | none => ⟨t.log, none⟩
  | some a => ⟨t.log ++ (f a).log, (f a).result⟩

instance : Monad (Traced ε) where
  pure a := ⟨[], some a⟩
  bind := bind

/-! ### Results -/

section Result

variable {α β : Type}

@[simp] theorem result_note (e : ε) : (note e).result = some () := rfl

@[simp] theorem result_ofOption (o : Option α) : (ofOption o : Traced ε α).result = o := rfl

@[simp] theorem result_bind (t : Traced ε α) (f : α → Traced ε β) :
    (t >>= f).result = t.result.bind fun a => (f a).result := by
  obtain ⟨log, result⟩ := t
  cases result <;> rfl

theorem log_bind (t : Traced ε α) (f : α → Traced ε β) :
    (t >>= f).log = t.log ++ t.result.elim [] fun a => (f a).log := by
  obtain ⟨log, result⟩ := t
  cases result with
  | none => exact (List.append_nil log).symm
  | some a => rfl

theorem log_bind_silent {t : Traced ε α} {f : α → Traced ε β} (hf : ∀ a, (f a).log = []) :
    (t >>= f).log = t.log := by
  rw [log_bind]
  cases t.result with
  | none => exact List.append_nil _
  | some a =>
    rw [Option.elim_some, hf, List.append_nil]

end Result

def Gives (t : Traced ε α) (P : α → Prop) : Prop := ∀ a, t.result = some a → P a

section Gives

variable {α β : Type} {t : Traced ε α} {f : α → Traced ε β} {P : α → Prop} {Q : β → Prop}

theorem gives_pure {a : α} (h : P a) : (pure a : Traced ε α).Gives P := by
  rintro a' ⟨⟩
  exact h

theorem gives_none (h : t.result = none) : t.Gives P := by
  intro a ha
  rw [h] at ha
  cases ha

theorem gives_bind (ht : t.Gives P) (hf : ∀ a, P a → (f a).Gives Q) : (t >>= f).Gives Q := by
  obtain ⟨log, result⟩ := t
  cases result with
  | none => exact gives_none rfl
  | some a => exact hf a (ht a rfl)

/-- What holds of a result whatever came before it. -/
theorem gives_bind_of_forall (hf : ∀ a, t.result = some a → (f a).Gives Q) :
    (t >>= f).Gives Q :=
  gives_bind (fun _ h => h) hf

end Gives

/-! ### Runs in step -/

/-- Two runs note the same, and come to related results or to none. -/
structure InStep (R : α → β → Prop) (t : Traced ε α) (t' : Traced ε β) : Prop where
  log : t.log = t'.log
  result : Option.Rel R t.result t'.result

section InStep

variable {α β γ δ : Type} {t : Traced ε α} {t' : Traced ε β} {f : α → Traced ε γ}
  {f' : β → Traced ε δ} {R : α → β → Prop} {S : γ → δ → Prop}

theorem inStep_pure {a : α} {b : β} (h : R a b) :
    InStep R (pure a : Traced ε α) (pure b) := ⟨rfl, .some h⟩

theorem inStep_ofOption {o : Option α} {o' : Option β} (h : Option.Rel R o o') :
    InStep R (ofOption o : Traced ε α) (ofOption o') := ⟨rfl, h⟩

theorem InStep.of_left (h : InStep R t t') {a : α} (ha : t.result = some a) :
    ∃ b, t'.result = some b ∧ R a b := by
  obtain ⟨-, hresult⟩ := h
  rw [ha] at hresult
  generalize t'.result = result' at hresult ⊢
  cases hresult with
  | some hab => exact ⟨_, rfl, hab⟩

theorem InStep.of_right (h : InStep R t t') {b : β} (hb : t'.result = some b) :
    ∃ a, t.result = some a ∧ R a b := by
  obtain ⟨-, hresult⟩ := h
  rw [hb] at hresult
  generalize t.result = result at hresult ⊢
  cases hresult with
  | some hab => exact ⟨_, rfl, hab⟩

theorem inStep_bind (ht : InStep R t t') (hf : ∀ a b, R a b → InStep S (f a) (f' b)) :
    InStep S (t >>= f) (t' >>= f') := by
  obtain ⟨log, result⟩ := t
  obtain ⟨log', result'⟩ := t'
  obtain ⟨rfl, hresult⟩ := ht
  cases hresult with
  | none => exact ⟨rfl, .none⟩
  | some h =>
    obtain ⟨hlog, hrel⟩ := hf _ _ h
    exact ⟨congrArg (log ++ ·) hlog, hrel⟩

theorem inStep_bind_same (t : Traced ε α) {f : α → Traced ε γ} {f' : α → Traced ε δ}
    (hf : ∀ a, t.result = some a → InStep S (f a) (f' a)) : InStep S (t >>= f) (t >>= f') := by
  have ht : InStep (fun a b => a = b ∧ t.result = some a) t t := by
    refine ⟨rfl, ?_⟩
    cases t.result with
    | none => exact .none
    | some a => exact .some ⟨rfl, rfl⟩
  refine inStep_bind ht ?_
  rintro a _ ⟨rfl, ha⟩
  exact hf a ha

end InStep

end Traced

section Options

variable {α β γ δ : Type*} {R : α → β → Prop} {S : γ → δ → Prop}

theorem rel_refl {R : α → α → Prop} (hR : ∀ a, R a a) (o : Option α) : Option.Rel R o o := by
  cases o with
  | none => exact .none
  | some a => exact .some (hR a)

theorem rel_bind {o : Option α} {o' : Option β} {f : α → Option γ} {f' : β → Option δ}
    (ho : Option.Rel R o o') (hf : ∀ a b, R a b → Option.Rel S (f a) (f' b)) :
    Option.Rel S (o.bind f) (o'.bind f') := by
  cases ho with
  | none => exact .none
  | some h => exact hf _ _ h

theorem rel_map {o : Option α} {o' : Option β} {f : α → γ} {f' : β → δ}
    (ho : Option.Rel R o o') (hf : ∀ a b, R a b → S (f a) (f' b)) :
    Option.Rel S (o.map f) (o'.map f') := by
  cases ho with
  | none => exact .none
  | some h => exact .some (hf _ _ h)

theorem rel_of_isSome {o : Option α} {o' : Option β} (h : o.isSome ↔ o'.isSome) :
    Option.Rel (fun _ _ => True) o o' := by
  cases o with
  | none =>
    cases o' with
    | none => exact .none
    | some b => exact absurd (h.mpr rfl) Bool.false_ne_true
  | some a =>
    cases o' with
    | none => exact absurd (h.mp rfl) Bool.false_ne_true
    | some b => exact .some trivial

end Options

end MorningProjects.Library
