import Stencil.Proofs.Outcome

/-! Two computations side by side. From related states both return related results, or both fail
with the same failure, and the states they leave are related again. Where the comparison is
lenient, the second may do anything when the first fails. -/
namespace Stencil

variable {ε σ τ α β γ δ : Type}

/-- Two results that are related, or the same failure. -/
def Accord (lenient : Prop) (results : α → β → Prop) (first : Except ε α) (second : Except ε β) :
    Prop :=
  (∃ a b, first = .ok a ∧ second = .ok b ∧ results a b) ∨
    (∃ e, first = .error e ∧ second = .error e) ∨ lenient ∧ ∃ e, first = .error e

/-- From two states the second computation does what the first one does, and the states they leave
are related. -/
def MirrorsAt (lenient : Prop) (states : σ → τ → Prop) (results : α → β → Prop)
    (first : ExceptT ε (StateM σ) α) (second : ExceptT ε (StateM τ) β) (s : σ) (t : τ) : Prop :=
  (∃ a s' b t', Returns first s a s' ∧ Returns second t b t' ∧ results a b ∧ states s' t') ∨
    (∃ e s' t', Fails first s e s' ∧ Fails second t e t' ∧ states s' t') ∨
    lenient ∧ ∃ e s', Fails first s e s'

/-- The second computation does from related states what the first one does. -/
def Mirrors (lenient : Prop) (states : σ → τ → Prop) (results : α → β → Prop)
    (first : ExceptT ε (StateM σ) α) (second : ExceptT ε (StateM τ) β) : Prop :=
  ∀ s t, states s t → MirrorsAt lenient states results first second s t

/-- One bound is the other, or does not go beyond it where the comparison is lenient. -/
def Reaches (lenient : Prop) (bound other : Nat) : Prop :=
  bound = other ∨ lenient ∧ bound ≤ other

section Bounds

variable {lenient : Prop} {bound other : Nat}

theorem Reaches.refl (bound : Nat) : Reaches lenient bound bound := .inl rfl

theorem Reaches.sub (reaches : Reaches lenient bound other) (used : Nat) :
    Reaches lenient (bound - used) (other - used) :=
  reaches.imp (congrArg (· - used)) (And.imp_right fun le => Nat.sub_le_sub_right le used)

theorem Reaches.of_succ (reaches : Reaches lenient (bound + 1) other) :
    ∃ less, other = less + 1 ∧ Reaches lenient bound less := by
  rcases reaches with same | ⟨mild, le⟩
  · exact ⟨bound, same.symm, .inl rfl⟩
  · exact ⟨other - 1, by omega, .inr ⟨mild, by omega⟩⟩

end Bounds

section Accord

variable {lenient : Prop} {results : α → β → Prop} {first : Except ε α} {second : Except ε β}

theorem Accord.refl (result : Except ε α) : Accord lenient Eq result result := by
  cases result with
  | error e => exact .inr (.inl ⟨e, rfl, rfl⟩)
  | ok a => exact .inl ⟨a, a, rfl, rfl, rfl⟩

/-- Where nothing is lenient equal results come from equal sides. -/
theorem Accord.eq {second : Except ε α} (accord : Accord False Eq first second) :
    first = second := by
  rcases accord with ⟨a, b, rfl, rfl, rfl⟩ | ⟨e, rfl, rfl⟩ | ⟨impossible, -⟩
  · rfl
  · rfl
  · exact impossible.elim

end Accord

section Steps

variable {lenient : Prop} {states : σ → τ → Prop} {results : α → β → Prop}
  {second : ExceptT ε (StateM τ) β}

theorem mirrors_pure {a : α} {b : β} (same : results a b) :
    Mirrors lenient states results (pure a : ExceptT ε (StateM σ) α)
      (pure b : ExceptT ε (StateM τ) β) :=
  fun s t related =>
    .inl ⟨a, s, b, t, returns_pure.mpr ⟨rfl, rfl⟩, returns_pure.mpr ⟨rfl, rfl⟩, same, related⟩

theorem mirrors_throw (e : ε) :
    Mirrors lenient states results (throw e : ExceptT ε (StateM σ) α)
      (throw e : ExceptT ε (StateM τ) β) :=
  fun s t related => .inr (.inl ⟨e, s, t, rfl, rfl, related⟩)

theorem mirrors_get :
    Mirrors lenient states states (get : ExceptT ε (StateM σ) σ) (get : ExceptT ε (StateM τ) τ) :=
  fun s t related => .inl ⟨s, s, t, t, rfl, rfl, related, related⟩

theorem mirrors_modify {f : σ → σ} {g : τ → τ} (kept : ∀ s t, states s t → states (f s) (g t)) :
    Mirrors lenient states Eq (modify f : ExceptT ε (StateM σ) PUnit)
      (modify g : ExceptT ε (StateM τ) PUnit) :=
  fun s t related => .inl ⟨⟨⟩, f s, ⟨⟩, g t, rfl, rfl, rfl, kept s t related⟩

theorem mirrors_lift {result : Except ε α} {other : Except ε β}
    (accord : Accord lenient results result other) :
    Mirrors lenient states results (liftM result : ExceptT ε (StateM σ) α)
      (liftM other : ExceptT ε (StateM τ) β) := by
  intro s t related
  rcases accord with ⟨a, b, rfl, rfl, same⟩ | ⟨e, rfl, rfl⟩ | ⟨mild, e, rfl⟩
  · exact .inl ⟨a, s, b, t, rfl, rfl, same, related⟩
  · exact .inr (.inl ⟨e, s, t, rfl, rfl, related⟩)
  · exact .inr (.inr ⟨mild, e, s, rfl⟩)

/-- The comparison lets pass whatever the second does. -/
theorem mirrors_of_fails {first : ExceptT ε (StateM σ) α} (mild : lenient)
    (fails : ∀ s, ∃ e s', Fails first s e s') : Mirrors lenient states results first second :=
  fun s _ _ => .inr (.inr ⟨mild, fails s⟩)

/-- A computation beside itself. -/
theorem mirrors_of_refl {results : α → α → Prop} (computation : ExceptT ε (StateM σ) α)
    (refl : ∀ a, results a a) : Mirrors lenient Eq results computation computation := by
  rintro s _ rfl
  rcases returns_or_fails computation s with ⟨a, t, run⟩ | ⟨e, t, run⟩
  · exact .inl ⟨a, t, a, t, run, run, refl a, rfl⟩
  · exact .inr (.inl ⟨e, t, t, run, run, rfl⟩)

theorem mirrors_refl (computation : ExceptT ε (StateM σ) α) :
    Mirrors lenient Eq Eq computation computation :=
  mirrors_of_refl computation fun _ => rfl

end Steps

namespace MirrorsAt

variable {lenient : Prop} {states : σ → τ → Prop} {results : α → β → Prop} {others : γ → δ → Prop}
  {first : ExceptT ε (StateM σ) α} {second : ExceptT ε (StateM τ) β} {s : σ} {t : τ}

/-- The states may be related in another way afterwards. -/
theorem bind {later : σ → τ → Prop} {next : α → ExceptT ε (StateM σ) γ}
    {next' : β → ExceptT ε (StateM τ) δ}
    (mirrors : MirrorsAt lenient states results first second s t)
    (after : ∀ a s' b t', Returns first s a s' → results a b → states s' t' →
      MirrorsAt lenient later others (next a) (next' b) s' t')
    (stopped : ∀ s' t', states s' t' → later s' t') :
    MirrorsAt lenient later others (first >>= next) (second >>= next') s t := by
  rcases mirrors with ⟨a, s', b, t', here, there, same, kept⟩ | ⟨e, s', t', here, there, kept⟩ |
    ⟨mild, e, s', here⟩
  · rcases after a s' b t' here same kept with ⟨c, u, d, v, more, further, fit, held⟩ |
      ⟨e, u, v, more, further, held⟩ | ⟨mild, e, u, more⟩
    · exact .inl ⟨c, u, d, v, returns_bind.mpr ⟨a, s', here, more⟩,
        returns_bind.mpr ⟨b, t', there, further⟩, fit, held⟩
    · exact .inr (.inl ⟨e, u, v, fails_bind.mpr (.inr ⟨a, s', here, more⟩),
        fails_bind.mpr (.inr ⟨b, t', there, further⟩), held⟩)
    · exact .inr (.inr ⟨mild, e, u, fails_bind.mpr (.inr ⟨a, s', here, more⟩)⟩)
  · exact .inr (.inl ⟨e, s', t', fails_bind.mpr (.inl here), fails_bind.mpr (.inl there),
      stopped s' t' kept⟩)
  · exact .inr (.inr ⟨mild, e, s', fails_bind.mpr (.inl here)⟩)

theorem accord (mirrors : MirrorsAt lenient states results first second s t) :
    Accord lenient results (first.run.run s).1 (second.run.run t).1 := by
  rcases mirrors with ⟨a, s', b, t', here, there, same, -⟩ | ⟨e, s', t', here, there, -⟩ |
    ⟨mild, e, s', here⟩
  · exact .inl ⟨a, b, congrArg Prod.fst here, congrArg Prod.fst there, same⟩
  · exact .inr (.inl ⟨e, congrArg Prod.fst here, congrArg Prod.fst there⟩)
  · exact .inr (.inr ⟨mild, e, congrArg Prod.fst here⟩)

/-- The states that are left, where nothing is lenient. -/
theorem after (mirrors : MirrorsAt False states results first second s t) :
    states (first.run.run s).2 (second.run.run t).2 := by
  rcases mirrors with ⟨a, s', b, t', here, there, -, kept⟩ | ⟨e, s', t', here, there, kept⟩ |
    ⟨impossible, -⟩
  · rwa [show first.run.run s = _ from here, show second.run.run t = _ from there]
  · rwa [show first.run.run s = _ from here, show second.run.run t = _ from there]
  · exact impossible.elim

theorem weaken {later : σ → τ → Prop} (mirrors : MirrorsAt lenient states results first second s t)
    (weaker : ∀ s' t', states s' t' → later s' t') :
    MirrorsAt lenient later results first second s t := by
  rcases mirrors with ⟨a, s', b, t', here, there, same, kept⟩ | ⟨e, s', t', here, there, kept⟩ |
    failed
  · exact .inl ⟨a, s', b, t', here, there, same, weaker s' t' kept⟩
  · exact .inr (.inl ⟨e, s', t', here, there, weaker s' t' kept⟩)
  · exact .inr (.inr failed)

end MirrorsAt

namespace Mirrors

variable {lenient : Prop} {states : σ → τ → Prop} {results : α → β → Prop} {others : γ → δ → Prop}
  {first : ExceptT ε (StateM σ) α} {second : ExceptT ε (StateM τ) β}

theorem bind {next : α → ExceptT ε (StateM σ) γ} {later : β → ExceptT ε (StateM τ) δ}
    (mirrors : Mirrors lenient states results first second)
    (after : ∀ a b, results a b → Mirrors lenient states others (next a) (later b)) :
    Mirrors lenient states others (first >>= next) (second >>= later) :=
  fun s t related => (mirrors s t related).bind
    (fun a s' b t' _ same kept => after a b same s' t' kept) fun _ _ kept => kept

/-- Equal results are carried on as one. -/
theorem bind_eq {second : ExceptT ε (StateM τ) α} {next : α → ExceptT ε (StateM σ) γ}
    {later : α → ExceptT ε (StateM τ) δ} (mirrors : Mirrors lenient states Eq first second)
    (after : ∀ a, Mirrors lenient states others (next a) (later a)) :
    Mirrors lenient states others (first >>= next) (second >>= later) :=
  mirrors.bind fun a _ same => same ▸ after a

theorem map {f : α → γ} {g : β → δ} (mirrors : Mirrors lenient states results first second)
    (same : ∀ a b, results a b → others (f a) (g b)) :
    Mirrors lenient states others (f <$> first) (g <$> second) := by
  rw [map_eq_pure_bind, map_eq_pure_bind]
  exact mirrors.bind fun a b fit => mirrors_pure (same a b fit)

/-- The results of computations from related states. -/
theorem accord {s : σ} {t : τ} (mirrors : Mirrors lenient states results first second)
    (related : states s t) : Accord lenient results (first.run.run s).1 (second.run.run t).1 :=
  (mirrors s t related).accord

/-- What the first returns the second returns too. -/
theorem returns {s s' : σ} {t : τ} {a : α} (mirrors : Mirrors lenient states results first second)
    (related : states s t) (run : Returns first s a s') :
    ∃ b t', Returns second t b t' ∧ results a b ∧ states s' t' := by
  rcases mirrors s t related with ⟨c, u, b, t', here, there, same, kept⟩ |
    ⟨e, u, t', here, -⟩ | ⟨-, e, u, here⟩
  · obtain ⟨rfl, rfl⟩ := run.unique here
    exact ⟨b, t', there, same, kept⟩
  · exact absurd run here.not_returns
  · exact absurd run here.not_returns

end Mirrors

theorem mirrors_mapM {lenient : Prop} {states : σ → τ → Prop} {f : γ → ExceptT ε (StateM σ) α}
    {g : γ → ExceptT ε (StateM τ) α} (items : List γ)
    (each : ∀ item ∈ items, Mirrors lenient states Eq (f item) (g item)) :
    Mirrors lenient states Eq (items.mapM f) (items.mapM g) := by
  induction items with
  | nil => exact mirrors_pure rfl
  | cons item rest ih =>
    rw [List.mapM_cons, List.mapM_cons]
    refine (each item List.mem_cons_self).bind_eq fun a => ?_
    refine (ih fun other member => each other (List.mem_cons_of_mem _ member)).bind_eq fun _ => ?_
    exact mirrors_pure rfl

end Stencil
