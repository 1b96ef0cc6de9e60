import Mathlib.Data.List.Forall2

/-!
# Steps that can fail, one after another

A run of steps ends at the first that fails, and its result is made of the results of all. This module
says so for two steps (`bind_eq_ok_iff`, `bind_eq_error_iff`) and for the places of a list: a traversal
succeeds place by place (`mapM_ok_iff_forall₂`), and fails with the error of the first place that fails
(`mapM_error_iff`). The relation of a list to its results is `List.Forall₂`, about which a few facts come
first.
-/

namespace DsiPanel

/-! ## Lists place by place -/

/-- A relation that leads on from every place leads on from the list. -/
theorem exists_forall₂ {α β : Type} {r : α → β → Prop} {as : List α} (h : ∀ a ∈ as, ∃ b, r a b) :
    ∃ bs, List.Forall₂ r as bs := by
  induction as with
  | nil => exact ⟨[], .nil⟩
  | cons a as ih =>
    obtain ⟨⟨b, hb⟩, others⟩ := List.forall_mem_cons.mp h
    obtain ⟨bs, hbs⟩ := ih others
    exact ⟨b :: bs, .cons hb hbs⟩

/-- What stands at the end of a relation, place by place. -/
theorem forall_right_of_forall₂ {α β : Type} {r : α → β → Prop} {p : β → Prop} {as : List α} {bs : List β}
    (h : List.Forall₂ r as bs) (own : ∀ a b, r a b → p b) : ∀ b ∈ bs, p b := by
  induction h with
  | nil => exact fun b mem => absurd mem List.not_mem_nil
  | cons head _ ih => exact List.forall_mem_cons.mpr ⟨own _ _ head, ih⟩

/-- What stands at a place is related to what stands there at the other end. -/
theorem exists_getElem?_of_forall₂ {α β : Type} {r : α → β → Prop} {as : List α} {bs : List β}
    (h : List.Forall₂ r as bs) {i : Nat} {a : α} (here : as[i]? = some a) : ∃ b, bs[i]? = some b ∧ r a b := by
  induction h generalizing i with
  | nil => contradiction
  | cons head _ ih =>
    cases i with
    | zero =>
      cases here
      exact ⟨_, rfl, head⟩
    | succ i => exact ih here

/-- Lists are related through what both are related to. -/
theorem forall₂_through {α β γ δ : Type} {r : α → β → Prop} {m : β → γ → Prop} {q : δ → γ → Prop}
    {result : α → δ → Prop} {as : List α} {bs : List β} {cs : List γ} {ds : List δ}
    (first : List.Forall₂ r as bs) (middle : List.Forall₂ m bs cs) (last : List.Forall₂ q ds cs)
    (h : ∀ {a b c d}, r a b → m b c → q d c → result a d) : List.Forall₂ result as ds := by
  induction first generalizing cs ds with
  | nil =>
    cases middle
    cases last
    exact .nil
  | cons ab _ ih =>
    cases middle with
    | cons bc middle =>
      cases last with
      | cons dc last => exact .cons (h ab bc dc) (ih middle last)

/-- What holds of some end of a functional relation holds where the relation leads from some start. -/
theorem exists_mem_iff_of_forall₂ {α β : Type} {r : α → β → Prop} {p : β → Prop} {as : List α} {bs : List β}
    (h : List.Forall₂ r as bs) (unique : ∀ a b c, r a b → r a c → b = c) :
    (∃ b ∈ bs, p b) ↔ ∃ a ∈ as, ∃ b, r a b ∧ p b := by
  induction h with
  | nil => simp only [List.not_mem_nil, false_and, exists_false]
  | @cons a b as bs head _ ih =>
    have first : p b ↔ ∃ c, r a c ∧ p c :=
      ⟨fun own => ⟨b, head, own⟩, fun ⟨c, leads, own⟩ => unique a b c head leads ▸ own⟩
    simp only [List.mem_cons, exists_eq_or_imp, ih, first]

/-! ## Two steps -/

section Bind

variable {α β ε : Type} {x : Except ε α}

theorem bind_eq_ok_iff {f : α → Except ε β} {b : β} : x >>= f = .ok b ↔ ∃ a, x = .ok a ∧ f a = .ok b := by
  cases x with
  | error e => exact ⟨fun h => (nomatch h), fun ⟨_, h, _⟩ => (nomatch h)⟩
  | ok a =>
    constructor
    · intro h
      exact ⟨a, rfl, h⟩
    · rintro ⟨_, h, made⟩
      cases h
      exact made

theorem bind_eq_error_iff {f : α → Except ε β} {error : ε} :
    x >>= f = .error error ↔ x = .error error ∨ ∃ a, x = .ok a ∧ f a = .error error := by
  cases x with
  | error e =>
    constructor
    · intro h
      cases h
      exact .inl rfl
    · rintro (h | ⟨_, h, _⟩)
      · cases h
        rfl
      · contradiction
  | ok a =>
    constructor
    · intro h
      exact .inr ⟨a, rfl, h⟩
    · rintro (h | ⟨_, h, failed⟩)
      · contradiction
      · cases h
        exact failed

/-- What is made of a result does not touch the errors. -/
theorem bind_pure_eq_error_iff {f : α → β} {error : ε} :
    (x >>= fun a => pure (f a)) = .error error ↔ x = .error error := by
  rw [bind_eq_error_iff]
  constructor
  · rintro (failed | ⟨_, _, h⟩)
    · exact failed
    · contradiction
  · exact .inl

/-- What is made of a result does not touch whether there is one. -/
theorem exists_bind_pure_ok_iff {f : α → β} :
    (∃ b, (x >>= fun a => pure (f a)) = .ok b) ↔ ∃ a, x = .ok a := by
  constructor
  · rintro ⟨b, made⟩
    obtain ⟨a, own, -⟩ := bind_eq_ok_iff.mp made
    exact ⟨a, own⟩
  · rintro ⟨a, own⟩
    exact ⟨f a, bind_eq_ok_iff.mpr ⟨a, own, rfl⟩⟩

end Bind

/-! ## Traversals -/

/-- A traversal succeeds exactly if it does at every place, with these results. -/
theorem mapM_ok_iff_forall₂ {α β ε : Type} {f : α → Except ε β} {inputs : List α} {outputs : List β} :
    inputs.mapM f = .ok outputs ↔ List.Forall₂ (fun a b => f a = .ok b) inputs outputs := by
  induction inputs generalizing outputs with
  | nil =>
    rw [List.mapM_nil, List.forall₂_nil_left_iff]
    exact ⟨fun h => (Except.ok.inj h).symm, fun h => h ▸ rfl⟩
  | cons a inputs ih =>
    rw [List.mapM_cons, List.forall₂_cons_left_iff]
    constructor
    · intro h
      obtain ⟨b, head, later⟩ := bind_eq_ok_iff.mp h
      obtain ⟨rest, tail, made⟩ := bind_eq_ok_iff.mp later
      exact ⟨b, rest, head, ih.mp tail, (Except.ok.inj made).symm⟩
    · rintro ⟨b, rest, head, tail, rfl⟩
      rw [head, ih.mpr tail]
      rfl

/-- A traversal fails exactly with the error of the first place that fails. -/
theorem mapM_error_iff {α β ε : Type} {f : α → Except ε β} {inputs : List α} {error : ε} :
    inputs.mapM f = .error error ↔
      ∃ (i : Nat) (a : α), inputs[i]? = some a ∧ f a = .error error ∧
        ∀ j < i, ∀ x, inputs[j]? = some x → ∃ b, f x = .ok b := by
  induction inputs with
  | nil =>
    rw [List.mapM_nil]
    exact ⟨fun h => (nomatch h), fun ⟨_, _, h, _⟩ => (nomatch h)⟩
  | cons a inputs ih =>
    rw [List.mapM_cons]
    cases head : f a with
    | error e =>
      constructor
      · intro h
        cases h
        exact ⟨0, a, rfl, head, fun j none => absurd none (Nat.not_lt_zero j)⟩
      · rintro ⟨i, x, here, failed, before⟩
        cases i with
        | zero =>
          cases here
          cases head.symm.trans failed
          rfl
        | succ i =>
          obtain ⟨b, made⟩ := before 0 (Nat.zero_lt_succ i) a rfl
          exact absurd (head.symm.trans made) (nomatch ·)
    | ok b =>
      refine bind_pure_eq_error_iff.trans (ih.trans ⟨?_, ?_⟩)
      · rintro ⟨i, x, here, failed, before⟩
        refine ⟨i + 1, x, here, failed, fun j below y own => ?_⟩
        cases j with
        | zero =>
          cases own
          exact ⟨b, head⟩
        | succ j => exact before j (Nat.lt_of_succ_lt_succ below) y own
      · rintro ⟨i, x, here, failed, before⟩
        cases i with
        | zero =>
          cases here
          exact absurd (head.symm.trans failed) (nomatch ·)
        | succ i =>
          exact ⟨i, x, here, failed, fun j below => before (j + 1) (Nat.succ_lt_succ below)⟩

/-- A traversal that is told the places has a result for each. -/
theorem mapM_zipIdx_ok {α β ε : Type} {f : α × Nat → Except ε β} {inputs : List α} {outputs : List β}
    (h : inputs.zipIdx.mapM f = .ok outputs) :
    outputs.length = inputs.length ∧
      ∀ (i : Nat) (a : α), inputs[i]? = some a → ∃ b, outputs[i]? = some b ∧ f (a, i) = .ok b := by
  have places := mapM_ok_iff_forall₂.mp h
  refine ⟨places.length_eq.symm.trans List.length_zipIdx, fun i a here => ?_⟩
  have placed : inputs.zipIdx[i]? = some (a, i) := by
    rw [List.getElem?_zipIdx, here, Nat.zero_add]
    rfl
  exact exists_getElem?_of_forall₂ places placed

/-- A traversal that is told the places fails at the first place that does. -/
theorem mapM_zipIdx_error_iff {α β ε : Type} {f : α × Nat → Except ε β} {inputs : List α} {error : ε} :
    inputs.zipIdx.mapM f = .error error ↔
      ∃ (i : Nat) (a : α), inputs[i]? = some a ∧ f (a, i) = .error error ∧
        ∀ j < i, ∀ x, inputs[j]? = some x → ∃ b, f (x, j) = .ok b := by
  have at_place {i : Nat} {entry : α × Nat} :
      inputs.zipIdx[i]? = some entry ↔ ∃ a, inputs[i]? = some a ∧ (a, i) = entry := by
    rw [List.getElem?_zipIdx, Option.map_eq_some_iff, Nat.zero_add]
  rw [mapM_error_iff]
  constructor
  · rintro ⟨i, entry, here, failed, before⟩
    obtain ⟨a, own, rfl⟩ := at_place.mp here
    exact ⟨i, a, own, failed, fun j below x hx => before j below _ (at_place.mpr ⟨x, hx, rfl⟩)⟩
  · rintro ⟨i, a, own, failed, before⟩
    refine ⟨i, (a, i), at_place.mpr ⟨a, own, rfl⟩, failed, fun j below entry here => ?_⟩
    obtain ⟨x, hx, rfl⟩ := at_place.mp here
    exact before j below x hx

end DsiPanel
