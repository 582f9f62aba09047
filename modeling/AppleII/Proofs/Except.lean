/-!
# Computations that may fail
-/

namespace AppleII

/-- A computation in two steps succeeds when both do. -/
theorem bind_eq_ok_iff {ε α β : Type} {x : Except ε α} {f : α → Except ε β} {b : β} :
    x >>= f = .ok b ↔ ∃ a, x = .ok a ∧ f a = .ok b := by
  cases x with
  | error e =>
    constructor
    · intro h; cases h
    · rintro ⟨a, h, -⟩; cases h
  | ok a =>
    constructor
    · intro h; exact ⟨a, rfl, h⟩
    · rintro ⟨a', h, hf⟩; cases h; exact hf

/-- An error that neither step gives is not given by both. -/
theorem bind_ne_error {ε α β : Type} {x : Except ε α} {f : α → Except ε β} {e : ε} (hx : x ≠ .error e)
    (hf : ∀ a, x = .ok a → f a ≠ .error e) : x >>= f ≠ .error e := by
  cases x with
  | error e' => exact fun h => hx (congrArg Except.error (Except.error.inj h))
  | ok a => exact hf a rfl

theorem ok_bind {ε α β : Type} (a : α) (f : α → Except ε β) : Except.ok a >>= f = f a := rfl

theorem bind_eq_error {ε α β : Type} {x : Except ε α} {e : ε} (h : x = .error e) (f : α → Except ε β) :
    x >>= f = .error e := by
  rw [h]
  rfl

/-- A computation in two steps fails when one of them does. -/
theorem bind_eq_error_iff {ε α β : Type} {x : Except ε α} {f : α → Except ε β} {e : ε} :
    x >>= f = .error e ↔ x = .error e ∨ ∃ a, x = .ok a ∧ f a = .error e := by
  cases x with
  | error e' =>
    constructor
    · intro h
      cases h
      exact .inl rfl
    · rintro (h | ⟨a, h, -⟩)
      · cases h
        rfl
      · cases h
  | ok a =>
    constructor
    · intro h
      exact .inr ⟨a, rfl, h⟩
    · rintro (h | ⟨a', h, hf⟩)
      · cases h
      · cases h
        exact hf

/-- The computations on a vector are those on its list. -/
theorem toList_mapM {ε α β : Type} {n : Nat} (f : α → Except ε β) (v : Vector α n) :
    Vector.toList <$> v.mapM f = v.toList.mapM f := by
  have hlist : Array.toList <$> (Vector.toArray <$> v.mapM f) = v.toList.mapM f := by
    rw [Vector.toArray_mapM, Array.toList_mapM]
    rfl
  rw [← hlist]
  cases v.mapM f <;> rfl

/-- A row of computations fails as the first of them that does. -/
theorem mapM_eq_error_iff {ε α β : Type} {f : α → Except ε β} {l : List α} {e : ε} :
    l.mapM f = .error e ↔ ∃ i, ∃ hi : i < l.length, f l[i] = .error e ∧ ∀ j (_ : j < i), ∃ b, f l[j] = .ok b := by
  induction l with
  | nil =>
    constructor
    · intro h
      cases h
    · rintro ⟨i, hi, -⟩
      cases hi
  | cons a l ih =>
    have hpure (b : β) (bs : List β) : (pure (b :: bs) : Except ε (List β)) ≠ .error e := fun h => by cases h
    simp only [List.mapM_cons, bind_eq_error_iff, hpure, and_false, exists_false, or_false, ih]
    constructor
    · rintro (he | ⟨b, hb, i, hi, he, hbefore⟩)
      · exact ⟨0, Nat.succ_pos _, he, fun j hj => absurd hj (Nat.not_lt_zero j)⟩
      · refine ⟨i + 1, Nat.succ_lt_succ hi, he, fun j hj => ?_⟩
        cases j with
        | zero => exact ⟨b, hb⟩
        | succ j => exact hbefore j (Nat.lt_of_succ_lt_succ hj)
    · rintro ⟨i, hi, he, hbefore⟩
      cases i with
      | zero => exact .inl he
      | succ i =>
        obtain ⟨b, hb⟩ := hbefore 0 (Nat.succ_pos i)
        exact .inr ⟨b, hb, i, Nat.lt_of_succ_lt_succ hi, he, fun j hj => hbefore (j + 1) (Nat.succ_lt_succ hj)⟩

theorem vectorMapM_eq_error_iff {ε α β : Type} {n : Nat} {f : α → Except ε β} {v : Vector α n} {e : ε} :
    v.mapM f = .error e ↔ ∃ i, ∃ hi : i < n, f v[i] = .error e ∧ ∀ j (_ : j < i), ∃ b, f v[j] = .ok b := by
  have hlist : v.mapM f = .error e ↔ v.toList.mapM f = .error e := by
    rw [← toList_mapM]
    cases v.mapM f with
    | error e' =>
      constructor
      · intro h
        cases h
        rfl
      · intro h
        cases h
        rfl
    | ok w =>
      constructor
      · intro h
        cases h
      · intro h
        cases h
  rw [hlist, mapM_eq_error_iff]
  simp only [Vector.length_toList, Vector.getElem_toList]

/-- A row of computations fails when the first of them does. -/
theorem mapM_eq_error {ε α β : Type} {n : Nat} {f : α → Except ε β} {v : Vector α n} {e : ε} (hn : 0 < n)
    (h : f v[0] = .error e) : v.mapM f = .error e :=
  vectorMapM_eq_error_iff.mpr ⟨0, hn, h, fun j hj => absurd hj (Nat.not_lt_zero j)⟩

theorem getElem?_of_mapM {ε α β : Type} {f : α → Except ε β} {l : List α} {r : List β}
    (h : l.mapM f = .ok r) {i : Nat} (hi : i < l.length) : ∃ b, r[i]? = some b ∧ f l[i] = .ok b := by
  induction l generalizing r i with
  | nil => cases hi
  | cons a l ih =>
    rw [List.mapM_cons] at h
    obtain ⟨b, hb, hrest⟩ := bind_eq_ok_iff.mp h
    obtain ⟨bs, hbs, hr⟩ := bind_eq_ok_iff.mp hrest
    cases hr
    cases i with
    | zero => exact ⟨b, rfl, hb⟩
    | succ i => exact ih hbs (Nat.lt_of_succ_lt_succ hi)

/-- A row of computations succeeds only when every one of them does. -/
theorem getElem_of_mapM {ε α β : Type} {n : Nat} {f : α → Except ε β} {v : Vector α n} {w : Vector β n}
    (h : v.mapM f = .ok w) {i : Nat} (hi : i < n) : f v[i] = .ok w[i] := by
  have hlist := toList_mapM f v
  rw [h] at hlist
  obtain ⟨b, hb, hf⟩ := getElem?_of_mapM hlist.symm (i := i) (by simpa using hi)
  simp only [Vector.getElem_toList] at hf
  rw [hf]
  simp only [Vector.getElem?_toList, Vector.getElem?_eq_getElem hi, Option.some.injEq] at hb
  rw [hb]

end AppleII
