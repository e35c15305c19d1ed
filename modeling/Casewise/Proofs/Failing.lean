namespace Casewise

variable {ε σ α β : Type} {x : ExceptT ε (StateM σ) α} {f : α → ExceptT ε (StateM σ) β}
  {g : ε → ExceptT ε (StateM σ) α} {s s' : σ} {a : α} {e : ε}

theorem run_bind_ok (hx : x.run s = (.ok a, s')) : (x >>= f).run s = (f a).run s' := by
  show StateT.bind x.run (ExceptT.bindCont f) s = _
  simp only [StateT.bind, hx]
  rfl

theorem run_bind_error (hx : x.run s = (.error e, s')) : (x >>= f).run s = (.error e, s') := by
  show StateT.bind x.run (ExceptT.bindCont f) s = _
  simp only [StateT.bind, hx]
  rfl

theorem run_bind_eq_ok {b : β} (h : (x >>= f).run s = (.ok b, s')) :
    ∃ a s₁, x.run s = (.ok a, s₁) ∧ (f a).run s₁ = (.ok b, s') := by
  rcases hx : x.run s with ⟨e | a, s₁⟩
  · rw [run_bind_error hx] at h
    exact absurd (congrArg Prod.fst h) nofun
  · rw [run_bind_ok hx] at h
    exact ⟨a, s₁, rfl, h⟩

theorem run_bind_pure (x : ExceptT ε (StateM σ) α) (f : α → β) (s : σ) :
    (x >>= fun a => pure (f a)).run s = ((x.run s).1.map f, (x.run s).2) := by
  rcases hx : x.run s with ⟨e | a, s'⟩
  · exact run_bind_error hx
  · exact run_bind_ok hx

theorem run_tryCatch_ok (hx : x.run s = (.ok a, s')) : (tryCatch x g).run s = (.ok a, s') := by
  rw [ExceptT.run_tryCatch]
  show StateT.bind x.run _ s = _
  simp only [StateT.bind, hx]
  rfl

theorem run_tryCatch_error (hx : x.run s = (.error e, s')) : (tryCatch x g).run s = (g e).run s' := by
  rw [ExceptT.run_tryCatch]
  show StateT.bind x.run _ s = _
  simp only [StateT.bind, hx]
  rfl

theorem run_bind_ne_error (hx : ∀ s, (x.run s).1 ≠ .error e) (hf : ∀ a s, ((f a).run s).1 ≠ .error e) (s : σ) :
    ((x >>= f).run s).1 ≠ .error e := by
  have hx := hx s
  rcases hr : x.run s with ⟨e' | a, s'⟩
  · rw [run_bind_error hr]
    rw [hr] at hx
    exact fun he => hx (Except.error.inj he ▸ rfl)
  · rw [run_bind_ok hr]
    exact hf a s'

end Casewise
