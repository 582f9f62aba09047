/-!
# Parts of lists

`HasAt l i s` says that the list `l` goes on with `s` from place `i` on.
-/

namespace AppleII

variable {α β : Type}

/-- From a place on, a list goes on with the elements of another one. -/
def HasAt (l : List α) (i : Nat) (s : List α) : Prop := ∀ k (_ : k < s.length), l[i + k]? = s[k]?

theorem hasAt_append (before s after : List α) : HasAt (before ++ s ++ after) before.length s := by
  intro k hk
  rw [List.append_assoc, List.getElem?_append_right (Nat.le_add_right _ _), Nat.add_sub_cancel_left,
    List.getElem?_append_left hk]

theorem HasAt.trans {l s t : List α} {i j : Nat} (h : HasAt l i s) (h' : HasAt s j t) :
    HasAt l (i + j) t := by
  intro k hk
  have hlt : j + k < s.length := by
    have hsome := h' k hk
    rw [List.getElem?_eq_getElem hk] at hsome
    exact (List.getElem?_eq_some_iff.mp hsome).1
  rw [Nat.add_assoc, h (j + k) hlt, h' k hk]

theorem HasAt.left {l s t : List α} {i : Nat} (h : HasAt l i (s ++ t)) : HasAt l i s := by
  intro k hk
  rw [h k (by rw [List.length_append]; omega), List.getElem?_append_left hk]

theorem HasAt.right {l s t : List α} {i : Nat} (h : HasAt l i (s ++ t)) : HasAt l (i + s.length) t := by
  intro k hk
  rw [Nat.add_assoc, h (s.length + k) (by rw [List.length_append]; omega),
    List.getElem?_append_right (Nat.le_add_right _ _), Nat.add_sub_cancel_left]

/-- Where each element gives as many, the share of one of them starts after the shares before it. -/
theorem hasAt_flatMap {l : List α} {f : α → List β} {m : Nat} (hm : ∀ a ∈ l, (f a).length = m) {t : Nat}
    (ht : t < l.length) : HasAt (l.flatMap f) (m * t) (f l[t]) := by
  have hsplit : l.flatMap f = (l.take t).flatMap f ++ f l[t] ++ (l.drop (t + 1)).flatMap f :=
    calc l.flatMap f = (l.take t ++ l.drop t).flatMap f := by rw [List.take_append_drop]
      _ = (l.take t).flatMap f ++ f l[t] ++ (l.drop (t + 1)).flatMap f := by
        rw [List.drop_eq_getElem_cons ht, List.flatMap_append, List.flatMap_cons, List.append_assoc]
  have hlen : ((l.take t).flatMap f).length = m * t := by
    have hmap : (l.take t).map (fun a => (f a).length) = List.replicate t m := by
      refine List.eq_replicate_iff.mpr ⟨by rw [List.length_map, List.length_take]; omega, fun n hn => ?_⟩
      obtain ⟨a, ha, rfl⟩ := List.mem_map.mp hn
      exact hm a (List.mem_of_mem_take ha)
    rw [List.length_flatMap, hmap, List.sum_replicate_nat, Nat.mul_comm]
  rw [hsplit, ← hlen]
  exact hasAt_append _ _ _

end AppleII
