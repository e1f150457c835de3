namespace Reckoner.Proofs.Results

variable {α β ε : Type} {r : Except ε α} {b : β}

theorem ok_of_map {f : α → β} (h : r.map f = .ok b) : ∃ a, r = .ok a ∧ f a = b := by
  cases r with
  | error e => cases h
  | ok a =>
    cases h
    exact ⟨a, rfl, rfl⟩

theorem ok_of_bind {f : α → Except ε β} (h : r >>= f = .ok b) : ∃ a, r = .ok a ∧ f a = .ok b := by
  cases r with
  | error e => cases h
  | ok a => exact ⟨a, rfl, h⟩

theorem error_of_bind {e : ε} {f : α → Except ε β} (h : r >>= f = .error e) :
    r = .error e ∨ ∃ a, r = .ok a ∧ f a = .error e := by
  cases r with
  | error e' =>
    cases h
    exact .inl rfl
  | ok a => exact .inr ⟨a, rfl, h⟩

/-- A run over a list fails at the first element whose step does. -/
theorem foldlM_error_iff {f : β → α → Except ε β} {xs : List α} {e : ε} :
    xs.foldlM f b = .error e ↔
      ∃ before x after c, xs = before ++ x :: after ∧ before.foldlM f b = .ok c ∧
        f c x = .error e := by
  constructor
  · intro h
    induction xs generalizing b with
    | nil => cases h
    | cons x xs ih =>
      rw [List.foldlM_cons] at h
      obtain hx | ⟨c, hc, h⟩ := error_of_bind h
      · exact ⟨[], x, xs, b, rfl, rfl, hx⟩
      · obtain ⟨before, y, after, d, rfl, hd, hy⟩ := ih h
        refine ⟨x :: before, y, after, d, rfl, ?_, hy⟩
        rw [List.foldlM_cons, hc]
        exact hd
  · rintro ⟨before, x, after, c, rfl, hc, hx⟩
    rw [List.foldlM_append, hc]
    change (x :: after).foldlM f c = _
    rw [List.foldlM_cons, hx]
    rfl

end Reckoner.Proofs.Results
