import Stencil.Proofs.Dictionaries
import Stencil.Proofs.Requests

/-! What names stand for. After any history of requests a name stands for the template that was
last precompiled under it, else for the one that was last compiled under it and is still stored. -/
namespace Stencil

variable {σ α : Type}

/-! ### Stores -/

/-- No name is stored twice, and a disabled store is empty. -/
structure Store.Sound (store : Store α) : Prop where
  once : (Dict.keys store.entries).Nodup
  off (disabled : store.enabled = false) : store.entries = []

theorem Store.Sound.put {store : Store α} (sound : store.Sound) (key : String) (entry : Option α) :
    (store.put key entry).Sound := by
  unfold Store.put
  split
  · rename_i enabled
    refine ⟨?_, fun disabled => by simp [enabled] at disabled⟩
    exact ((List.drop_sublist _ _).map Prod.fst).nodup (Dict.nodup_set sound.once key entry)
  · exact sound

/-- What is stored after a template was put there: that template, and what stood under other
names. -/
theorem Store.Sound.mem_put {store : Store α} (sound : store.Sound) {key name : String}
    {entry other : Option α} (member : (name, other) ∈ (store.put key entry).entries) :
    name = key ∧ other = entry ∨ name ≠ key ∧ (name, other) ∈ store.entries := by
  unfold Store.put at member
  split at member
  · exact Dict.mem_set_cases sound.once (List.mem_of_mem_drop member)
  · rename_i disabled
    rw [sound.off (by simpa using disabled)] at member
    contradiction

namespace Engine

variable {engine other : Engine σ} {source : String} {name : Option String} {template : Template}

theorem Obtains.catalogue (obtains : engine.Obtains source name template other) :
    other.catalogue = engine.catalogue := by
  cases obtains <;> rfl

theorem Obtains.sound (obtains : engine.Obtains source name template other)
    (sound : engine.store.Sound) : other.store.Sound := by
  cases obtains with
  | stored => exact ⟨sound.once, sound.off⟩
  | built hits misses =>
    cases name with
    | none => exact ⟨sound.once, sound.off⟩
    | some key =>
      have looked : (engine.looked hits misses).store.Sound := ⟨sound.once, sound.off⟩
      exact looked.put key (some template)

theorem Obtains.entry (obtains : engine.Obtains source name template other)
    (sound : engine.store.Sound) {key : String} {entry : Option Template}
    (member : (key, entry) ∈ other.store.entries) :
    name = some key ∧ entry = some template ∨
      name ≠ some key ∧ (key, entry) ∈ engine.store.entries := by
  cases obtains with
  | @stored asked _ _ _ enabled kept same =>
    by_cases here : asked = key
    · subst here
      have present := Dict.mem_of_get? (Option.join_eq_some_iff.mp kept)
      exact .inl ⟨rfl, Dict.eq_of_mem sound.once member present⟩
    · exact .inr ⟨fun same => here (Option.some.inj same), member⟩
  | built hits misses =>
    cases name with
    | none => exact .inr ⟨nofun, member⟩
    | some asked =>
      have looked : (engine.looked hits misses).store.Sound := ⟨sound.once, sound.off⟩
      rcases looked.mem_put member with ⟨rfl, same⟩ | ⟨apart, present⟩
      · exact .inl ⟨rfl, same⟩
      · exact .inr ⟨fun same => apart (Option.some.inj same).symm, present⟩

/-! ### Histories -/

/-- The template that was last precompiled under a name since all was cleared. -/
def lastListed (name : String) : List Event → Option Template
  | [] | .cleared :: _ => none
  | .compiled .. :: past => lastListed name past
  | .listed other template :: past =>
    if other = name then some template else lastListed name past

/-- The last source that was compiled under a name, and the template that came of it. -/
def lastCompiled (name : String) : List Event → Option (String × Template)
  | [] => none
  | .compiled other source template :: past =>
    if other = some name then some (source, template) else lastCompiled name past
  | .listed .. :: past | .cleared :: past => lastCompiled name past

/-- The catalogue and the store of an engine are what its history tells. -/
structure Tallies (past : List Event) (engine : Engine σ) : Prop where
  listed (name : String) : Dict.get? engine.catalogue name = lastListed name past
  sound : engine.store.Sound
  stored {name : String} {entry : Option Template} (member : (name, entry) ∈ engine.store.entries) :
    ∃ template, entry = some template ∧ (lastListed name past = none →
      lastCompiled name past = some (template.source, template))

theorem tallies_upheld : Upheld (Tallies (σ := σ)) where
  counted {past engine other} now same := by
    have catalogue : other.catalogue = engine.catalogue := congrArg (·.catalogue) same
    have entries : other.store.entries = engine.store.entries := congrArg (·.store.entries) same
    have enabled : other.store.enabled = engine.store.enabled := congrArg (·.store.enabled) same
    refine ⟨fun name => catalogue ▸ now.listed name, ⟨?_, ?_⟩, fun member => ?_⟩
    · exact entries ▸ now.sound.once
    · exact fun disabled => entries.trans (now.sound.off (enabled ▸ disabled))
    · exact now.stored (entries ▸ member)
  compiled {past engine other source name template} now obtains := by
    refine ⟨fun key => ?_, obtains.sound now.sound, fun {key entry} member => ?_⟩
    · rw [obtains.catalogue]
      exact now.listed key
    · rcases obtains.entry now.sound member with ⟨here, rfl⟩ | ⟨apart, before⟩
      · refine ⟨template, rfl, fun _ => ?_⟩
        rw [lastCompiled, if_pos here, obtains.source_eq]
      · rw [lastListed, lastCompiled, if_neg apart]
        exact now.stored before
  listed {past engine other source name template} now obtains := by
    refine ⟨fun key => ?_, obtains.sound now.sound, fun {key entry} member => ?_⟩
    · rw [lastListed, ← now.listed key, ← obtains.catalogue]
      exact Dict.get?_set other.catalogue name template key
    · rw [lastListed]
      rcases obtains.entry now.sound member with ⟨here, rfl⟩ | ⟨apart, before⟩
      · refine ⟨template, rfl, fun unlisted => ?_⟩
        rw [if_pos (Option.some.inj here)] at unlisted
        contradiction
      · rw [if_neg fun same => apart (congrArg some same)]
        exact now.stored before
  cleared _ := ⟨fun _ => rfl, ⟨List.nodup_nil, fun _ => rfl⟩, fun member => absurd member List.not_mem_nil⟩

theorem tallies_opened (surroundings : Surroundings) (options : Options) (library : Library σ)
    (routines : σ) : Tallies [] (opened surroundings options library routines).1 where
  listed _ := rfl
  sound := ⟨List.nodup_nil, fun _ => rfl⟩
  stored member := absurd member List.not_mem_nil

/-! ### Names -/

/-- What a name stands for, after some events. -/
inductive Stands (engine : Engine σ) (past : List Event) (name : String) :
    Except Failure Template → Prop
  | listed {template : Template} (last : lastListed name past = some template) :
      Stands engine past name (.ok template)
  | stored {template : Template} (unlisted : lastListed name past = none)
      (present : engine.store.has name = true)
      (last : lastCompiled name past = some (template.source, template)) :
      Stands engine past name (.ok template)
  | missing (unlisted : lastListed name past = none) (absent : engine.store.has name = false) :
      Stands engine past name (.error (.ofCause (.notFound name)))

section Find

variable {session : Engine σ × σ} {key : String}

theorem find_listed (listed : Dict.get? session.1.catalogue key = some template) :
    Returns (find key) session template session := by
  refine returns_bind.mpr ⟨session.1, session, returns_engine.mpr ⟨rfl, rfl⟩, ?_⟩
  rw [listed]
  exact returns_pure.mpr ⟨rfl, rfl⟩

variable (unlisted : Dict.get? session.1.catalogue key = none)
include unlisted

theorem find_stored (found : session.1.store.find? key = some template) :
    ∃ after, Returns (find key) session template after := by
  obtain ⟨hits, misses, looked⟩ := stored_returns key session
  refine ⟨(session.1.looked hits misses, session.2),
    returns_bind.mpr ⟨session.1, session, returns_engine.mpr ⟨rfl, rfl⟩, ?_⟩⟩
  rw [unlisted]
  exact returns_bind.mpr ⟨some template, _, found ▸ looked, returns_pure.mpr ⟨rfl, rfl⟩⟩

theorem find_missing (absent : session.1.store.find? key = none) :
    ∃ after, Fails (find key) session (.ofCause (.notFound key)) after := by
  obtain ⟨hits, misses, looked⟩ := stored_returns key session
  refine ⟨(session.1.looked hits misses, session.2),
    fails_bind.mpr (.inr ⟨session.1, session, returns_engine.mpr ⟨rfl, rfl⟩, ?_⟩)⟩
  rw [unlisted]
  exact fails_bind.mpr (.inr ⟨none, _, absent ▸ looked, rfl⟩)

end Find

theorem find_stands {past : List Event} {session : Engine σ × σ} (now : Tallies past session.1)
    (name : String) : Stands session.1 past name ((find name).run session).1 := by
  have told := now.listed name
  cases listed : Dict.get? session.1.catalogue name with
  | some template =>
    rw [show (find name).run session = _ from find_listed listed]
    exact .listed (told.symm.trans listed)
  | none =>
    have unlisted : lastListed name past = none := told.symm.trans listed
    cases present : Dict.get? session.1.store.entries name with
    | none =>
      obtain ⟨after, run⟩ := find_missing listed (by rw [Store.find?, present]; rfl)
      rw [show (find name).run session = _ from run]
      exact .missing unlisted (by rw [Store.has, Dict.has, present]; rfl)
    | some entry =>
      obtain ⟨template, rfl, last⟩ := now.stored (Dict.mem_of_get? present)
      obtain ⟨after, run⟩ := find_stored listed (by rw [Store.find?, present]; rfl)
      rw [show (find name).run session = _ from run]
      exact .stored unlisted (by rw [Store.has, Dict.has, present]; rfl) (last unlisted)

/-- Work that fails has done no more than look-ups. -/
def Spares (work : Work σ α) (session : Engine σ × σ) : Prop :=
  (∃ a after, Returns work session a after) ∨
    ∃ e hits misses, Fails work session e (session.1.looked hits misses, session.2)

theorem compile_spares (source : String) (name : Option String) (session : Engine σ × σ) :
    Spares (compile source name) session := by
  rcases compile_cases source name session with
    ⟨template, after, run, -⟩ | ⟨e, hits, misses, -, run⟩
  · exact .inl ⟨template, _, run⟩
  · exact .inr ⟨e, hits, misses, run⟩

theorem precompile_spares (name source : String) (session : Engine σ × σ) :
    Spares (precompile name source) session := by
  rcases precompile_cases name source session with
    ⟨template, after, run, -⟩ | ⟨e, hits, misses, -, run⟩
  · exact .inl ⟨template, _, run⟩
  · exact .inr ⟨e, hits, misses, run⟩

/-- After any history a name stands for what was last precompiled under it or, where it is stored,
for what was last compiled under it, and compilations that fail spare the engine. -/
theorem names_stand_for_last_templates (surroundings : Surroundings) (options : Options)
    (library : Library σ) (routines : σ) (requests : List Request) (name : String) :
    Stands (afterAll (opened surroundings options library routines) requests).1
      (eventsOf (opened surroundings options library routines) requests) name
      ((find name).run (afterAll (opened surroundings options library routines) requests)).1 ∧
    ∀ (session : Engine σ × σ) (source : String),
      (∀ key, Spares (compile source key) session) ∧ ∀ key, Spares (precompile key source) session := by
  have start := tallies_opened surroundings options library routines
  have now := tallies_upheld.fromStart start requests
  refine ⟨find_stands now name, fun session source => ⟨fun key => ?_, fun key => ?_⟩⟩
  · exact compile_spares source key session
  · exact precompile_spares key source session

end Engine
end Stencil
