/-!
# Computations that may fail

A computation in steps comes to a result if every step does, and the steps for the items of a list come
to a result if those for every item do.
-/

namespace SignHash

variable {ε α β : Type} {f : α → Except ε β} {as : List α} {bs : List β}

/-- A computation in steps comes to a result exactly if each of its steps does. -/
theorem bind_eq_ok_iff {x : Except ε α} {b : β} : x >>= f = .ok b ↔ ∃ a, x = .ok a ∧ f a = .ok b := by
  cases x with
  | error e => exact ⟨nofun, nofun⟩
  | ok a => exact ⟨fun h => ⟨a, rfl, h⟩, fun ⟨_, rfl, h⟩ => h⟩

/-- A list has results if its head has one and its tail has them. -/
theorem mapM_cons_eq_ok_iff {a : α} :
    (a :: as).mapM f = .ok bs ↔ ∃ b more, f a = .ok b ∧ as.mapM f = .ok more ∧ bs = b :: more := by
  simp only [List.mapM_cons, bind_eq_ok_iff]
  constructor
  · rintro ⟨b, hb, more, hmore, hbs⟩
    exact ⟨b, more, hb, hmore, (Except.ok.inj hbs).symm⟩
  · rintro ⟨b, more, hb, hmore, rfl⟩
    exact ⟨b, hb, more, hmore, rfl⟩

theorem mapM_eq_ok {g : α → β} (h : ∀ a ∈ as, f a = .ok (g a)) : as.mapM f = .ok (as.map g) := by
  induction as with
  | nil => rfl
  | cons a as ih =>
    obtain ⟨ha, has⟩ := List.forall_mem_cons.mp h
    exact mapM_cons_eq_ok_iff.mpr ⟨g a, as.map g, ha, ih has, rfl⟩

/-- What every result has of its item, all results have of all items. -/
theorem map_eq_map_of_mapM {γ : Type} {g : β → γ} {k : α → γ} (same : ∀ a b, f a = .ok b → g b = k a)
    (h : as.mapM f = .ok bs) : bs.map g = as.map k := by
  induction as generalizing bs with
  | nil =>
    cases h
    rfl
  | cons a as ih =>
    obtain ⟨b, more, hb, hmore, rfl⟩ := mapM_cons_eq_ok_iff.mp h
    rw [List.map_cons, List.map_cons, same a b hb, ih hmore]

theorem mapM_congr {g : α → Except ε β} (h : ∀ a ∈ as, f a = g a) : as.mapM f = as.mapM g := by
  induction as with
  | nil => rfl
  | cons a as ih =>
    obtain ⟨ha, has⟩ := List.forall_mem_cons.mp h
    rw [List.mapM_cons, List.mapM_cons, ha, ih has]

theorem mapM_flatMap_id (f : α → List (Except ε β)) (as : List α) :
    (as.flatMap f).mapM id = (as.mapM fun a => (f a).mapM id).map List.flatten := by
  induction as with
  | nil => rfl
  | cons a as ih =>
    rw [List.flatMap_cons, List.mapM_append, List.mapM_cons, ih]
    cases (f a).mapM id with
    | error e => rfl
    | ok bs => cases as.mapM fun a => (f a).mapM id <;> rfl

end SignHash
