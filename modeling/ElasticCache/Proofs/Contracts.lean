import ElasticCache.Proofs.Operations

/-!
# Contracts of operations

What an operation leaves behind depends on how it ends. A contract says so: of the states that it
may start from, and of the outcomes with the states that they come with. The contract of an
operation is put together from those of its steps, one rule for each way to compose them.
-/

namespace ElasticCache

/-- Started in a state with `before`, an operation ends with an outcome and a state with `after`. -/
def Leads {σ α : Type} (before : σ → Prop) (m : ExceptT Error (StateM σ) α)
    (after : Except Error α → σ → Prop) : Prop :=
  ∀ s, before s → after (Id.run (m.run.run s)).1 (Id.run (m.run.run s)).2

namespace Leads

variable {σ α β γ : Type} {before before' : σ → Prop} {m : ExceptT Error (StateM σ) α}
  {after after' : Except Error α → σ → Prop}

/-- A contract asks for no less and promises no more. -/
theorem imp (h : Leads before m after) (hbefore : ∀ s, before' s → before s)
    (hafter : ∀ outcome s, after outcome s → after' outcome s) : Leads before' m after' :=
  fun s hs => hafter _ _ (h s (hbefore s hs))

/-- What an operation maintains it leads to, however it ends. -/
theorem of_maintains {fact : σ → Prop} (h : Maintains fact m) : Leads fact m fun _ => fact := h

/-- What an operation leads to from itself, however it ends, it maintains. -/
theorem maintains {fact : σ → Prop} (h : Leads fact m fun _ => fact) : Maintains fact m := h

/-- An answer without a step leads to what holds already. -/
theorem pure {a : α} (h : ∀ s, before s → after (.ok a) s) : Leads before (pure a) after := h

/-- A failure without a step leads to what holds already. -/
theorem throw {e : Error} (h : ∀ s, before s → after (.error e) s) :
    Leads before (throw e) after := h

/-- What follows an answer starts from what came with it, and a failure is passed on. -/
theorem bind {next : α → ExceptT Error (StateM σ) β} {between : Except Error α → σ → Prop}
    {after : Except Error β → σ → Prop} (h : Leads before m between)
    (herror : ∀ e s, between (.error e) s → after (.error e) s)
    (hnext : ∀ a, Leads (between (.ok a)) (next a) after) : Leads before (m >>= next) after := by
  intro s hs
  have hfirst := h s hs
  rcases hrun : Id.run (m.run.run s) with ⟨outcome, s'⟩
  rw [hrun] at hfirst
  cases outcome with
  | ok a =>
    rw [run_bind_of_ok hrun]
    exact hnext a s' hfirst
  | error e =>
    rw [run_bind_of_error hrun]
    exact herror e s' hfirst

/-- What follows a step that maintains a fact starts from that fact. -/
theorem bind_of_maintains {fact : σ → Prop} {next : α → ExceptT Error (StateM σ) β}
    {after : Except Error β → σ → Prop} (h : Maintains fact m)
    (herror : ∀ e s, fact s → after (.error e) s) (hnext : ∀ a, Leads fact (next a) after) :
    Leads fact (m >>= next) after := bind (of_maintains h) herror hnext

/-- An answer is passed on, and what handles a failure starts from what came with it. -/
theorem tryCatch {handler : Error → ExceptT Error (StateM σ) α}
    {between : Except Error α → σ → Prop} (h : Leads before m between)
    (hok : ∀ a s, between (.ok a) s → after (.ok a) s)
    (hhandler : ∀ e, Leads (between (.error e)) (handler e) after) :
    Leads before (MonadExcept.tryCatch m handler) after := by
  intro s hs
  have hfirst := h s hs
  rcases hrun : Id.run (m.run.run s) with ⟨outcome, s'⟩
  rw [hrun] at hfirst
  cases outcome with
  | ok a =>
    rw [run_tryCatch_of_ok hrun]
    exact hok a s' hfirst
  | error e =>
    rw [run_tryCatch_of_error hrun]
    exact hhandler e s' hfirst

/-- Whatever holds of an operation holds of it without its answer. -/
theorem discard {after : Except Error Unit → σ → Prop}
    (h : Leads before m fun outcome => after (outcome.map fun _ => ())) :
    Leads before (discard m : ExceptT Error (StateM σ) Unit) after := by
  intro s hs
  rw [run_discard]
  exact h s hs

/-- A fact that the step on each of some items maintains holds after the steps on all of them, or
after the first one that fails. -/
theorem forM {fact : σ → Prop} {step : γ → ExceptT Error (StateM σ) Unit} {items : List γ}
    (h : ∀ item ∈ items, Maintains fact (step item)) :
    Leads fact (items.forM step) fun _ => fact := by
  induction items with
  | nil => exact fun _ hfact => hfact
  | cons item rest ih =>
    refine bind (of_maintains (h item List.mem_cons_self)) (fun _ _ hfact => hfact) fun _ => ?_
    exact ih fun other hother => h other (List.mem_cons_of_mem item hother)

end Leads

end ElasticCache
