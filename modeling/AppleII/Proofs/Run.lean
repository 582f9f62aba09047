/-!
# Runs

A run carries out operations one after the other and collects what they answer.  `runAll_simulation`
lifts a relation that every operation keeps to runs of any length, and with it the equality of the
answers.
-/

namespace AppleII

section Runs

variable {Op S T R : Type}

/-- The answers to some operations carried out one after the other, and the state after them. -/
def runAll (step : Op → S → R × S) : List Op → S → List R × S
  | [], s => ([], s)
  | op :: ops, s =>
    let (answer, s) := step op s
    let (answers, s) := runAll step ops s
    (answer :: answers, s)

theorem runAll_cons (step : Op → S → R × S) (op : Op) (ops : List Op) (s : S) :
    runAll step (op :: ops) s =
      ((step op s).1 :: (runAll step ops (step op s).2).1, (runAll step ops (step op s).2).2) := rfl

/-- **Simulation.** Two systems whose states stay related, and which answer alike from related states,
answer alike throughout a run. -/
theorem runAll_simulation {f : Op → S → R × S} {g : Op → T → R × T} {Rel : S → T → Prop}
    (hstep : ∀ op s t, Rel s t → (f op s).1 = (g op t).1 ∧ Rel (f op s).2 (g op t).2) :
    ∀ (ops : List Op) {s : S} {t : T}, Rel s t →
      (runAll f ops s).1 = (runAll g ops t).1 ∧ Rel (runAll f ops s).2 (runAll g ops t).2 := by
  intro ops
  induction ops with
  | nil => intro s t h; exact ⟨rfl, h⟩
  | cons op ops ih =>
    intro s t h
    obtain ⟨hanswer, hnext⟩ := hstep op s t h
    obtain ⟨hrest, hlast⟩ := ih hnext
    rw [runAll_cons, runAll_cons, hanswer, hrest]
    exact ⟨rfl, hlast⟩

end Runs

end AppleII
