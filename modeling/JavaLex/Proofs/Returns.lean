import JavaLex.Fault

/-! Computations that end without a fault. `Returns x post` says that `x` gives a value and that
`post` holds of it, so a chain of such facts is a proof that nothing in the chain faults. -/

namespace JavaLex

def Returns {α : Type} (x : Except Fault α) (post : α → Prop) : Prop := ∃ a, x = .ok a ∧ post a

@[simp] theorem except_pure {α : Type} (a : α) : (pure a : Except Fault α) = .ok a := rfl

@[simp] theorem except_ok_bind {α β : Type} (a : α) (f : α → Except Fault β) :
    (Except.ok a >>= f) = f a := rfl

@[simp] theorem except_ok_map {α β : Type} (a : α) (f : α → β) :
    f <$> (Except.ok a : Except Fault α) = .ok (f a) := rfl

theorem bind_eq_ok {α β : Type} {x : Except Fault α} {f : α → Except Fault β} {b : β}
    (h : x >>= f = .ok b) : ∃ a, x = .ok a ∧ f a = .ok b := by
  cases x with
  | error e => cases h
  | ok a => exact ⟨a, rfl, h⟩

theorem map_eq_ok {α β : Type} {x : Except Fault α} {f : α → β} {b : β}
    (h : f <$> x = .ok b) : ∃ a, x = .ok a ∧ f a = b := by
  cases x with
  | error e => cases h
  | ok a => exact ⟨a, rfl, Except.ok.inj h⟩

namespace Returns

variable {α β : Type} {x : Except Fault α} {post : α → Prop}

theorem ok {a : α} (h : post a) : Returns (.ok a) post := ⟨a, rfl, h⟩

theorem mono {post' : α → Prop} (h : Returns x post) (hp : ∀ a, post a → post' a) :
    Returns x post' := by
  obtain ⟨a, hx, ha⟩ := h
  exact ⟨a, hx, hp a ha⟩

theorem bind {f : α → Except Fault β} {post' : β → Prop} (h : Returns x post)
    (hf : ∀ a, x = .ok a → post a → Returns (f a) post') : Returns (x >>= f) post' := by
  obtain ⟨a, hx, ha⟩ := h
  obtain ⟨b, hb, hpost⟩ := hf a hx ha
  exact ⟨b, by rw [hx]; exact hb, hpost⟩

theorem map {f : α → β} {post' : β → Prop} (h : Returns x post)
    (hf : ∀ a, x = .ok a → post a → post' (f a)) : Returns (f <$> x) post' := by
  obtain ⟨a, hx, ha⟩ := h
  exact ⟨f a, by rw [hx]; rfl, hf a hx ha⟩

theorem of_eq_ok {a : α} (h : Returns x post) (hx : x = .ok a) : post a := by
  obtain ⟨b, hb, hpost⟩ := h
  rw [hx] at hb
  cases hb
  exact hpost

end Returns

end JavaLex
