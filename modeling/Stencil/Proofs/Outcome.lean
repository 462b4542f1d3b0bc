import Mathlib.Data.List.Forall2
import Stencil.Token.Lexing

/-! Outcomes of readings, which carry a state and may fail: what a reading returns, and what it
leaves as it was, or keeps true of its state, whether it returns or fails. -/
namespace Stencil

variable {ε σ α β γ : Type}

/-- The reading, started in `s`, returns `a` and ends in `t`. -/
def Returns (reading : ExceptT ε (StateM σ) α) (s : σ) (a : α) (t : σ) : Prop :=
  reading.run.run s = (.ok a, t)

/-- The reading, started in `s`, fails with `e` and ends in `t`. -/
def Fails (reading : ExceptT ε (StateM σ) α) (s : σ) (e : ε) (t : σ) : Prop :=
  reading.run.run s = (.error e, t)

theorem exists_ok (result : Except ε α) (ok : result.isOk = true) : ∃ a, result = .ok a := by
  cases result with
  | error e => contradiction
  | ok a => exact ⟨a, rfl⟩

theorem exists_of_map_ok {result : Except ε α} {f : α → β} {b : β} (mapped : result.map f = .ok b) :
    ∃ a, result = .ok a ∧ f a = b := by
  cases result with
  | error e => cases mapped
  | ok a => exact ⟨a, rfl, Except.ok.inj mapped⟩

section Returns

variable {reading : ExceptT ε (StateM σ) α} {next : α → ExceptT ε (StateM σ) β} {s t u : σ}

theorem run_bind (reading : ExceptT ε (StateM σ) α) (next : α → ExceptT ε (StateM σ) β) (s : σ) :
    (reading >>= next).run.run s = match reading.run.run s with
      | (.ok a, t) => (next a).run.run t
      | (.error e, t) => (.error e, t) := by
  simp only [bind, ExceptT.bind, ExceptT.mk, ExceptT.bindCont, StateT.bind, ExceptT.run, StateT.run]
  rcases reading s with ⟨result, t⟩
  cases result <;> rfl

theorem result_bind (reading : ExceptT ε (StateM σ) α) (next : α → ExceptT ε (StateM σ) β) (s : σ) :
    ((reading >>= next).run.run s).1 = (do
      let a ← (reading.run.run s).1
      ((next a).run.run (reading.run.run s).2).1 : Except ε β) := by
  rw [run_bind]
  rcases reading.run.run s with ⟨_ | _, t⟩ <;> rfl

theorem returns_or_fails (reading : ExceptT ε (StateM σ) α) (s : σ) :
    (∃ a t, Returns reading s a t) ∨ ∃ e t, Fails reading s e t := by
  rcases run : reading.run.run s with ⟨result, t⟩
  cases result with
  | error e => exact .inr ⟨e, t, run⟩
  | ok a => exact .inl ⟨a, t, run⟩

theorem Returns.unique {a b : α} (first : Returns reading s a t) (second : Returns reading s b u) :
    a = b ∧ t = u := by
  cases first.symm.trans second
  exact ⟨rfl, rfl⟩

/-- A reading whose outcome is known returns that and nothing else. -/
theorem Returns.iff {a b : α} (run : Returns reading s a t) :
    Returns reading s b u ↔ b = a ∧ u = t := by
  constructor
  · exact fun other => other.unique run
  · rintro ⟨rfl, rfl⟩
    exact run

@[simp] theorem returns_pure {a b : α} :
    Returns (pure a : ExceptT ε (StateM σ) α) s b t ↔ b = a ∧ t = s :=
  Returns.iff rfl

@[simp] theorem returns_bind {b : β} :
    Returns (reading >>= next) s b u ↔ ∃ a t, Returns reading s a t ∧ Returns (next a) t b u := by
  change (reading >>= next).run.run s = (.ok b, u) ↔ _
  rw [run_bind]
  rcases returns_or_fails reading s with ⟨a, t, first⟩ | ⟨e, t, first⟩
  · rw [show reading.run.run s = _ from first]
    constructor
    · intro run
      exact ⟨a, t, first, run⟩
    · rintro ⟨b, v, other, run⟩
      cases first.symm.trans other
      exact run
  · rw [show reading.run.run s = _ from first]
    constructor
    · intro run
      cases run
    · rintro ⟨b, v, other, -⟩
      cases first.symm.trans other

theorem fails_bind {e : ε} :
    Fails (reading >>= next) s e u ↔
      Fails reading s e u ∨ ∃ a t, Returns reading s a t ∧ Fails (next a) t e u := by
  change (reading >>= next).run.run s = (.error e, u) ↔ _
  rw [run_bind]
  rcases returns_or_fails reading s with ⟨a, t, first⟩ | ⟨f, t, first⟩
  · rw [show reading.run.run s = _ from first]
    constructor
    · intro run
      exact .inr ⟨a, t, first, run⟩
    · rintro (other | ⟨b, v, other, run⟩)
      · cases first.symm.trans other
      · cases first.symm.trans other
        exact run
  · rw [show reading.run.run s = _ from first]
    constructor
    · intro run
      cases run
      exact .inl first
    · rintro (other | ⟨b, v, other, -⟩)
      · cases first.symm.trans other
        rfl
      · cases first.symm.trans other

@[simp] theorem returns_map {f : α → β} {b : β} :
    Returns (f <$> reading) s b u ↔ ∃ a, Returns reading s a u ∧ b = f a := by
  rw [map_eq_pure_bind]
  simp only [returns_bind, returns_pure]
  constructor
  · rintro ⟨a, t, run, same, rfl⟩
    exact ⟨a, run, same⟩
  · rintro ⟨a, run, same⟩
    exact ⟨a, u, run, same, rfl⟩

@[simp] theorem returns_throw {e : ε} {a : α} :
    ¬ Returns (throw e : ExceptT ε (StateM σ) α) s a t := by
  intro run
  cases run

@[simp] theorem returns_modify {f : σ → σ} {a : PUnit} :
    Returns (modify f : ExceptT ε (StateM σ) PUnit) s a t ↔ t = f s :=
  (Returns.iff rfl).trans (and_iff_right rfl)

theorem Fails.not_returns {e : ε} {a : α} (failed : Fails reading s e t) :
    ¬ Returns reading s a u := by
  intro returned
  cases failed.symm.trans returned

end Returns

section Quiet

/-- Started anywhere, the reading leaves `view` of the state as it was, and if it fails then with
an expected failure. -/
def Quiet (view : σ → γ) (expected : ε → Prop) (reading : ExceptT ε (StateM σ) α) : Prop :=
  ∀ s, (∀ a t, Returns reading s a t → view t = view s) ∧
    ∀ e t, Fails reading s e t → view t = view s ∧ expected e

variable {view : σ → γ} {expected : ε → Prop}
  {reading : ExceptT ε (StateM σ) α} {next : α → ExceptT ε (StateM σ) β}

theorem Quiet.view_eq {s t : σ} {a : α} (quiet : Quiet view expected reading)
    (run : Returns reading s a t) : view t = view s :=
  (quiet s).1 a t run

theorem quiet_pure (a : α) : Quiet view expected (pure a : ExceptT ε (StateM σ) α) := by
  intro s
  constructor
  · intro b t run
    rw [(returns_pure.mp run).2]
  · intro e t run
    cases run

theorem quiet_throw {e : ε} (known : expected e) :
    Quiet view expected (throw e : ExceptT ε (StateM σ) α) := by
  intro s
  constructor
  · intro a t run
    exact absurd run returns_throw
  · intro e t run
    cases run
    exact ⟨rfl, known⟩

theorem quiet_get : Quiet view expected (get : ExceptT ε (StateM σ) σ) := by
  intro s
  constructor
  · intro a t run
    cases run
    rfl
  · intro e t run
    cases run

theorem quiet_modify {f : σ → σ} (same : ∀ s, view (f s) = view s) :
    Quiet view expected (modify f : ExceptT ε (StateM σ) PUnit) := by
  intro s
  constructor
  · intro a t run
    rw [returns_modify.mp run, same]
  · intro e t run
    cases run

theorem quiet_bind (first : Quiet view expected reading)
    (later : ∀ a, Quiet view expected (next a)) : Quiet view expected (reading >>= next) := by
  intro s
  constructor
  · intro b u run
    obtain ⟨a, t, here, there⟩ := returns_bind.mp run
    rw [(later a).view_eq there, first.view_eq here]
  · intro e u run
    rcases fails_bind.mp run with here | ⟨a, t, here, there⟩
    · exact (first s).2 e u here
    · obtain ⟨same, known⟩ := (later a t).2 e u there
      exact ⟨same.trans (first.view_eq here), known⟩

theorem quiet_lift (result : Except ε α) (known : ∀ e, result = .error e → expected e) :
    Quiet view expected (liftM result : ExceptT ε (StateM σ) α) := by
  intro s
  cases result with
  | error e =>
    constructor
    · intro a t run
      cases run
    · intro f t run
      cases run
      exact ⟨rfl, known e rfl⟩
  | ok a =>
    constructor
    · intro b t run
      cases run
      rfl
    · intro f t run
      cases run

theorem quiet_map (f : α → β) (first : Quiet view expected reading) :
    Quiet view expected (f <$> reading) := by
  rw [map_eq_pure_bind]
  exact quiet_bind first fun a => quiet_pure (f a)

theorem quiet_mapM (f : α → ExceptT ε (StateM σ) β) (items : List α)
    (each : ∀ item ∈ items, Quiet view expected (f item)) :
    Quiet view expected (items.mapM f) := by
  induction items with
  | nil => exact quiet_pure []
  | cons item rest ih =>
    rw [List.mapM_cons]
    refine quiet_bind (each item (by simp)) fun b => ?_
    refine quiet_bind (ih fun other member => each other (by simp [member])) fun bs => ?_
    exact quiet_pure (b :: bs)

theorem quiet_forM (f : α → ExceptT ε (StateM σ) PUnit) (items : List α)
    (each : ∀ item ∈ items, Quiet view expected (f item)) :
    Quiet view expected (items.forM f) := by
  induction items with
  | nil => exact quiet_pure PUnit.unit
  | cons item rest ih =>
    change Quiet view expected (f item >>= fun _ => rest.forM f)
    exact quiet_bind (each item (by simp)) fun _ =>
      ih fun other member => each other (by simp [member])

end Quiet

section Ensures

/-- Started in a fit state the reading ends in one, also where it fails, and what it returns is
good. -/
def Ensures (fit : σ → Prop) (good : α → Prop) (reading : ExceptT ε (StateM σ) α) : Prop :=
  ∀ s, fit s → (∀ a t, Returns reading s a t → fit t ∧ good a) ∧ ∀ e t, Fails reading s e t → fit t

variable {fit : σ → Prop} {good : α → Prop} {fine : β → Prop}
  {reading : ExceptT ε (StateM σ) α} {next : α → ExceptT ε (StateM σ) β}

theorem ensures_pure {a : α} (here : good a) :
    Ensures fit good (pure a : ExceptT ε (StateM σ) α) := by
  intro s before
  constructor
  · intro b t run
    obtain ⟨rfl, rfl⟩ := returns_pure.mp run
    exact ⟨before, here⟩
  · intro e t run
    cases run

theorem ensures_throw (e : ε) : Ensures fit good (throw e : ExceptT ε (StateM σ) α) := by
  intro s before
  constructor
  · intro a t run
    exact absurd run returns_throw
  · intro e t run
    cases run
    exact before

theorem ensures_modify {f : σ → σ} (keeps : ∀ s, fit s → fit (f s)) :
    Ensures fit (fun _ => True) (modify f : ExceptT ε (StateM σ) PUnit) := by
  intro s before
  constructor
  · intro a t run
    rw [returns_modify.mp run]
    exact ⟨keeps s before, trivial⟩
  · intro e t run
    cases run

theorem ensures_lift (result : Except ε α) :
    Ensures fit (fun _ => True) (liftM result : ExceptT ε (StateM σ) α) := by
  intro s before
  cases result with
  | error e =>
    constructor
    · intro a t run
      cases run
    · intro f t run
      cases run
      exact before
  | ok a =>
    constructor
    · intro b t run
      cases run
      exact ⟨before, trivial⟩
    · intro f t run
      cases run

theorem ensures_bind (first : Ensures fit good reading)
    (later : ∀ a, good a → Ensures fit fine (next a)) : Ensures fit fine (reading >>= next) := by
  intro s before
  constructor
  · intro b u run
    obtain ⟨a, t, here, there⟩ := returns_bind.mp run
    obtain ⟨between, known⟩ := (first s before).1 a t here
    exact (later a known t between).1 b u there
  · intro e u run
    rcases fails_bind.mp run with here | ⟨a, t, here, there⟩
    · exact (first s before).2 e u here
    · obtain ⟨between, known⟩ := (first s before).1 a t here
      exact (later a known t between).2 e u there

theorem Ensures.weaken {wider : α → Prop} (ensures : Ensures fit good reading)
    (weaker : ∀ a, good a → wider a) : Ensures fit wider reading :=
  fun s before =>
    ⟨fun a t run => ⟨((ensures s before).1 a t run).1, weaker a ((ensures s before).1 a t run).2⟩,
      (ensures s before).2⟩

/-- What is known of all results is known of those of a reading that keeps its state fit. -/
theorem Ensures.of_returns {other : α → Prop} (ensures : Ensures fit good reading)
    (known : ∀ s a t, Returns reading s a t → other a) : Ensures fit other reading :=
  fun s before =>
    ⟨fun a t run => ⟨((ensures s before).1 a t run).1, known s a t run⟩, (ensures s before).2⟩

theorem ensures_map {f : α → β} (ensures : Ensures fit (fun a => fine (f a)) reading) :
    Ensures fit fine (f <$> reading) := by
  rw [map_eq_pure_bind]
  exact ensures_bind ensures fun a known => ensures_pure known

/-- Each result is what its item calls for. -/
theorem ensures_mapM {rel : α → β → Prop} (f : α → ExceptT ε (StateM σ) β) (items : List α)
    (each : ∀ item ∈ items, Ensures fit (rel item) (f item)) :
    Ensures fit (List.Forall₂ rel items) (items.mapM f) := by
  induction items with
  | nil => exact ensures_pure .nil
  | cons item rest ih =>
    rw [List.mapM_cons]
    refine ensures_bind (each item List.mem_cons_self) fun b here => ?_
    refine ensures_bind (ih fun other member => each other (List.mem_cons_of_mem _ member)) ?_
    exact fun bs later => ensures_pure (.cons here later)

theorem exists_of_forall₂_of_mem {rel : α → β → Prop} {items : List α} {results : List β}
    (pairs : List.Forall₂ rel items results) {b : β} (member : b ∈ results) :
    ∃ a ∈ items, rel a b := by
  induction pairs with
  | nil => cases member
  | cons here _ ih =>
    rcases List.mem_cons.mp member with rfl | later
    · exact ⟨_, List.mem_cons_self, here⟩
    · obtain ⟨a, inside, pair⟩ := ih later
      exact ⟨a, List.mem_cons_of_mem _ inside, pair⟩

theorem ensures_mapM_all (f : α → ExceptT ε (StateM σ) β) (items : List α)
    (each : ∀ item ∈ items, Ensures fit fine (f item)) :
    Ensures fit (fun results => ∀ b ∈ results, fine b) (items.mapM f) := by
  refine (ensures_mapM f items each).weaken fun results pairs b member => ?_
  obtain ⟨_, -, known⟩ := exists_of_forall₂_of_mem pairs member
  exact known

theorem ensures_forM (f : α → ExceptT ε (StateM σ) PUnit) (items : List α)
    (each : ∀ item ∈ items, Ensures fit (fun _ => True) (f item)) :
    Ensures fit (fun _ => True) (items.forM f) := by
  induction items with
  | nil => exact ensures_pure trivial
  | cons item rest ih =>
    change Ensures fit (fun _ => True) (f item >>= fun _ => rest.forM f)
    exact ensures_bind (each item List.mem_cons_self) fun _ _ =>
      ih fun other member => each other (List.mem_cons_of_mem _ member)

end Ensures

/-- A reading of tokens succeeds where it returns; its problems become diagnostics. -/
theorem Lexing.run_ok {α : Type} {lines : Option Text.Lines} {reading : Lexing α} {a : α}
    {diagnostics : List Diagnostic} :
    Lexing.run lines reading = .ok (a, diagnostics) ↔
      ∃ problems, Returns reading [] a problems ∧
        diagnostics = problems.map (·.toDiagnostic .tokens fun offset => lines.map (·.locate offset)) := by
  rcases returns_or_fails reading [] with ⟨b, problems, result⟩ | ⟨e, problems, result⟩
  · have run : (ExceptT.run reading [] : Id _) = (.ok b, problems) := result
    simp only [Lexing.run, run, Except.map, Except.ok.injEq, Prod.mk.injEq]
    constructor
    · rintro ⟨rfl, rfl⟩
      exact ⟨problems, result, rfl⟩
    · rintro ⟨others, other, rfl⟩
      obtain ⟨rfl, rfl⟩ := result.unique other
      exact ⟨rfl, rfl⟩
  · have run : (ExceptT.run reading [] : Id _) = (.error e, problems) := result
    simp only [Lexing.run, run, Except.map, reduceCtorEq, false_iff, not_exists, not_and]
    intro others other
    cases result.symm.trans other

theorem Lexing.run_error {α : Type} {lines : Option Text.Lines} {reading : Lexing α} {fault : Fault}
    (failed : Lexing.run lines reading = .error fault) :
    ∃ problems, Fails reading [] fault problems := by
  rcases returns_or_fails reading [] with ⟨a, problems, result⟩ | ⟨e, problems, result⟩
  · have run : (ExceptT.run reading [] : Id _) = (.ok a, problems) := result
    simp [Lexing.run, run, Except.map] at failed
  · have run : (ExceptT.run reading [] : Id _) = (.error e, problems) := result
    simp only [Lexing.run, run, Except.map, Except.error.injEq] at failed
    exact ⟨problems, failed ▸ result⟩

end Stencil
