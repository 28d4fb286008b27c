import ElasticCache.Error

/-!
# Operations that may fail

An operation changes a state and answers, or it fails and keeps what it did so far. What follows an
answer goes on from there, and what follows a failure is not done unless it handles it. So a fact
that every step of an operation maintains is maintained by the whole, however that ends.
-/

namespace ElasticCache

/-! ## Outcomes -/

section Outcomes

variable {σ α β : Type} {m : ExceptT Error (StateM σ) α} {next : α → ExceptT Error (StateM σ) β}
  {handler : Error → ExceptT Error (StateM σ) α} {a : α} {e : Error} {s s' : σ}

/-- What follows a success goes on from its answer. -/
theorem run_bind_of_ok (h : Id.run (m.run.run s) = (.ok a, s')) :
    Id.run ((m >>= next).run.run s) = Id.run ((next a).run.run s') := by
  rw [ExceptT.run_bind, StateT.run_bind, Id.run_bind, h]

/-- What follows a failure is not done. -/
theorem run_bind_of_error (h : Id.run (m.run.run s) = (.error e, s')) :
    Id.run ((m >>= next).run.run s) = (.error e, s') := by
  rw [ExceptT.run_bind, StateT.run_bind, Id.run_bind, h]
  rfl

/-- What succeeds is not handled. -/
theorem run_tryCatch_of_ok (h : Id.run (m.run.run s) = (.ok a, s')) :
    Id.run ((tryCatch m handler).run.run s) = (.ok a, s') := by
  rw [ExceptT.run_tryCatch, StateT.run_bind, Id.run_bind, h]
  rfl

/-- What fails is handled. -/
theorem run_tryCatch_of_error (h : Id.run (m.run.run s) = (.error e, s')) :
    Id.run ((tryCatch m handler).run.run s) = Id.run ((handler e).run.run s') := by
  rw [ExceptT.run_tryCatch, StateT.run_bind, Id.run_bind, h]

/-- An operation without its answer runs as the operation does. -/
theorem run_discard (m : ExceptT Error (StateM σ) α) (s : σ) :
    Id.run ((discard m : ExceptT Error (StateM σ) Unit).run.run s) =
      ((Id.run (m.run.run s)).1.map fun _ => (), (Id.run (m.run.run s)).2) := by
  have hmap : (discard m : ExceptT Error (StateM σ) Unit) = (fun _ => ()) <$> m := rfl
  rw [hmap, ExceptT.run_map, StateT.run_map]
  rfl

end Outcomes

/-! ## Facts that are maintained -/

/-- However it ends, an operation maintains a fact about the state. -/
def Maintains {σ α : Type} (fact : σ → Prop) (m : ExceptT Error (StateM σ) α) : Prop :=
  ∀ s, fact s → fact (Id.run (m.run.run s)).2

namespace Maintains

variable {σ α β : Type} {fact : σ → Prop} {m : ExceptT Error (StateM σ) α}

/-- An answer without a step maintains everything. -/
theorem pure (a : α) : Maintains fact (pure a) := fun _ hfact => hfact

/-- A failure without a step maintains everything. -/
theorem throw (e : Error) : Maintains fact (throw e : ExceptT Error (StateM σ) α) :=
  fun _ hfact => hfact

/-- Reading the state maintains everything. -/
theorem get : Maintains fact (get : ExceptT Error (StateM σ) σ) := fun _ hfact => hfact

/-- A change of the state maintains what it leaves true. -/
theorem modify {change : σ → σ} (h : ∀ s, fact s → fact (change s)) :
    Maintains fact (modify change : ExceptT Error (StateM σ) Unit) := h

/-- Two steps one after the other maintain what each of them does. -/
theorem bind {next : α → ExceptT Error (StateM σ) β} (h : Maintains fact m)
    (hnext : ∀ a, Maintains fact (next a)) : Maintains fact (m >>= next) := by
  intro s hfact
  have hfirst := h s hfact
  rcases hrun : Id.run (m.run.run s) with ⟨outcome, s'⟩
  rw [hrun] at hfirst
  cases outcome with
  | ok a =>
    rw [run_bind_of_ok hrun]
    exact hnext a s' hfirst
  | error e =>
    rw [run_bind_of_error hrun]
    exact hfirst

/-- A step and what handles its failure maintain what each of them does. -/
theorem tryCatch {handler : Error → ExceptT Error (StateM σ) α} (h : Maintains fact m)
    (hhandler : ∀ e, Maintains fact (handler e)) :
    Maintains fact (MonadExcept.tryCatch m handler) := by
  intro s hfact
  have hfirst := h s hfact
  rcases hrun : Id.run (m.run.run s) with ⟨outcome, s'⟩
  rw [hrun] at hfirst
  cases outcome with
  | ok a =>
    rw [run_tryCatch_of_ok hrun]
    exact hfirst
  | error e =>
    rw [run_tryCatch_of_error hrun]
    exact hhandler e s' hfirst

/-- An outcome without a step maintains everything. -/
theorem liftExcept (x : Except Error α) :
    Maintains fact (liftM x : ExceptT Error (StateM σ) α) := by
  cases x with
  | ok a => exact .pure a
  | error e => exact .throw e

/-- A step for each of some items maintains what each of the steps does. -/
theorem forM {γ : Type} {step : γ → ExceptT Error (StateM σ) Unit}
    (h : ∀ c, Maintains fact (step c)) (items : List γ) : Maintains fact (items.forM step) := by
  induction items with
  | nil => exact .pure ()
  | cons item rest ih => exact .bind (h item) fun _ => ih

/-- An operation without its answer maintains what the operation does. -/
theorem discard (h : Maintains fact m) :
    Maintains fact (discard m : ExceptT Error (StateM σ) Unit) := by
  intro s hfact
  rw [run_discard]
  exact h s hfact

end Maintains

end ElasticCache
