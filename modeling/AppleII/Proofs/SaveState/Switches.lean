import AppleII.Proofs.Switch.Wiring
import AppleII.SaveState.Capture

/-!
# The switches of a save state

`getElem?_toMap` and `isSet_applyMap` say what the two directions do at one switch.  From them the map
determines the switches (`toMap_injective`), and a map of exactly the switch names is the map of the
switches that it is applied to (`toMap_applyMap`).
-/

namespace AppleII

namespace Switch

theorem index_all (i : Fin count) : (all[i]).index = i := by
  revert i
  decide

theorem name_injective {s t : Switch} (h : s.name = t.name) : s = t := by
  have hs := ofName?_name s
  rw [h, ofName?_name] at hs
  exact (Option.some.inj hs).symm

end Switch

namespace Switches

/-- Switches that agree one by one are equal. -/
theorem ext_isSet {sw sw' : Switches} (h : ∀ s, sw.isSet s = sw'.isSet s) : sw = sw' := by
  obtain ⟨flags⟩ := sw
  obtain ⟨flags'⟩ := sw'
  congr 1
  ext i hi
  have hs := h Switch.all[i]
  have hindex := Switch.index_all ⟨i, hi⟩
  simp only [isSet, Fin.getElem_fin] at hs hindex
  simpa only [hindex] using hs

theorem getElem?_foldl_insert_of_notMem (f : Switch → Bool) {n : String} (l : List Switch)
    (hn : ∀ s ∈ l, s.name ≠ n) (m : Std.ExtTreeMap String Bool) :
    (l.foldl (fun m s => m.insert s.name (f s)) m)[n]? = m[n]? := by
  induction l generalizing m with
  | nil => rfl
  | cons t l ih =>
    rw [List.foldl_cons, ih (fun s hs => hn s (List.mem_cons_of_mem _ hs)),
      Std.ExtTreeMap.getElem?_insert, if_neg]
    simpa using hn t List.mem_cons_self

theorem getElem?_foldl_insert (f : Switch → Bool) {s : Switch} (l : List Switch) (hs : s ∈ l)
    (m : Std.ExtTreeMap String Bool) :
    (l.foldl (fun m s => m.insert s.name (f s)) m)[s.name]? = some (f s) := by
  induction l generalizing m with
  | nil => cases hs
  | cons t l ih =>
    rw [List.foldl_cons]
    by_cases hmem : s ∈ l
    · exact ih hmem _
    · obtain rfl : s = t := by
        rcases List.mem_cons.mp hs with h | h
        · exact h
        · exact absurd h hmem
      rw [getElem?_foldl_insert_of_notMem f l, Std.ExtTreeMap.getElem?_insert_self]
      intro t ht hname
      exact hmem (Switch.name_injective hname ▸ ht)

/-- The map holds every switch under its name. -/
theorem getElem?_toMap (sw : Switches) (s : Switch) : sw.toMap[s.name]? = some (sw.isSet s) :=
  getElem?_foldl_insert sw.isSet _ s.mem_all _

/-- The map holds nothing else. -/
theorem getElem?_toMap_eq_none (sw : Switches) {n : String} (hn : ∀ s : Switch, s.name ≠ n) :
    sw.toMap[n]? = none := by
  rw [toMap, getElem?_foldl_insert_of_notMem sw.isSet _ fun s _ => hn s]
  simp

/-- The names in the map are those of the switches. -/
theorem mem_toMap_iff (sw : Switches) (n : String) : n ∈ sw.toMap ↔ ∃ s : Switch, s.name = n := by
  rw [← Std.ExtTreeMap.isSome_getElem?_iff_mem]
  constructor
  · intro hn
    refine Classical.byContradiction fun hnone => ?_
    rw [getElem?_toMap_eq_none sw fun s hs => hnone ⟨s, hs⟩] at hn
    cases hn
  · rintro ⟨s, rfl⟩
    rw [getElem?_toMap]
    rfl

theorem toMap_injective {sw sw' : Switches} (h : sw.toMap = sw'.toMap) : sw = sw' := by
  refine ext_isSet fun s => ?_
  have hs := getElem?_toMap sw s
  rw [h, getElem?_toMap] at hs
  exact (Option.some.inj hs).symm

/-- A switch that a map names gets its value there when its turn comes, and another one keeps its own. -/
theorem isSet_foldl (m : Std.ExtTreeMap String Bool) {f : Switches → Switch → Switches}
    (hsome : ∀ sw s b, m[s.name]? = some b → f sw s = sw.set s b)
    (hnone : ∀ sw s, m[s.name]? = none → f sw s = sw) (l : List Switch) (sw : Switches) (s : Switch) :
    (l.foldl f sw).isSet s = if s ∈ l then m[s.name]?.getD (sw.isSet s) else sw.isSet s := by
  induction l generalizing sw with
  | nil => simp
  | cons t l ih =>
    rw [List.foldl_cons, ih]
    by_cases hst : s = t
    · subst hst
      cases hm : m[s.name]? with
      | none => simp [hnone _ _ hm]
      | some b => simp [hsome _ _ _ hm]
    · cases hm : m[t.name]? with
      | none => simp [hnone _ _ hm, hst]
      | some b => simp [hsome _ _ _ hm, hst, isSet_set_of_ne _ _ (Ne.symm hst)]

/-- A switch that the map names has its value there, and another one keeps its own. -/
theorem isSet_applyMap (sw : Switches) (m : Std.ExtTreeMap String Bool) (s : Switch) :
    (sw.applyMap m).isSet s = m[s.name]?.getD (sw.isSet s) := by
  unfold applyMap
  rw [isSet_foldl m (fun _ _ _ h => by rw [h]) (fun _ _ h => by rw [h]), if_pos s.mem_all]

theorem applyMap_toMap (sw sw' : Switches) : sw'.applyMap sw.toMap = sw := by
  refine ext_isSet fun s => ?_
  rw [isSet_applyMap, getElem?_toMap]
  rfl

theorem toMap_applyMap (sw : Switches) {m : Std.ExtTreeMap String Bool}
    (names : ∀ n, n ∈ m ↔ ∃ s : Switch, s.name = n) : (sw.applyMap m).toMap = m := by
  refine Std.ExtTreeMap.ext_getElem? fun n => ?_
  by_cases hn : ∃ s : Switch, s.name = n
  · obtain ⟨s, rfl⟩ := hn
    obtain ⟨b, hb⟩ : ∃ b, m[s.name]? = some b :=
      Option.isSome_iff_exists.mp (Std.ExtTreeMap.isSome_getElem?_iff_mem.mpr ((names _).mpr ⟨s, rfl⟩))
    rw [getElem?_toMap, isSet_applyMap, hb]
    rfl
  · rw [getElem?_toMap_eq_none _ fun s hs => hn ⟨s, hs⟩]
    exact (Std.ExtTreeMap.getElem?_eq_none fun h => hn ((names n).mp h)).symm

end Switches

end AppleII
