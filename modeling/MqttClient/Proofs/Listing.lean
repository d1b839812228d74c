import Mathlib.Data.List.Nodup
import Std.Data.TreeMap.Lemmas

/-! How a list changes with one entry. In the list of a table an entry stands once, and taking it
out leaves the list of the other entries; in a list that grows at its end, a place is the new end or
was there before. -/

namespace MqttClient.Listing

theorem concat_eq_append_cons_iff {α : Type} {l before after : List α} {x y : α} :
    l ++ [x] = before ++ y :: after ↔
      before = l ∧ y = x ∧ after = [] ∨ ∃ rest, after = rest ++ [x] ∧ l = before ++ y :: rest := by
  constructor
  · intro split
    rcases List.eq_nil_or_concat' after with rfl | ⟨rest, last, rfl⟩
    · obtain ⟨rfl, rfl⟩ := List.append_singleton_inj.1 split
      exact .inl ⟨rfl, rfl, rfl⟩
    · rw [← List.cons_append, ← List.append_assoc] at split
      obtain ⟨rfl, rfl⟩ := List.append_singleton_inj.1 split
      exact .inr ⟨rest, rfl, rfl⟩
  · rintro (⟨rfl, rfl, rfl⟩ | ⟨rest, rfl, rfl⟩)
    · rfl
    · rw [List.append_assoc, List.cons_append]

variable {V : Type} (t : Std.TreeMap UInt16 V)

theorem nodup_toList : t.toList.Nodup := by
  refine t.distinct_keys_toList.imp fun h e => h ?_
  rw [e]
  exact Std.ReflCmp.compare_self

theorem values_eq_map_toList : t.values = t.toList.map (·.2) := by
  change t.foldr (fun _ v l => v :: l) [] = _
  rw [Std.TreeMap.foldr_eq_foldr_toList]
  induction t.toList with
  | nil => rfl
  | cons p rest ih => simp [ih]

variable {t} {k : UInt16}

theorem toList_perm_erase {v : V} (h : t[k]? = some v) :
    t.toList.Perm ((k, v) :: (t.erase k).toList) := by
  have fresh : (k, v) ∉ (t.erase k).toList := by
    simp [Std.TreeMap.mem_toList_iff_getElem?_eq_some]
  rw [List.perm_ext_iff_of_nodup (nodup_toList t)
    (List.nodup_cons.2 ⟨fresh, nodup_toList (t.erase k)⟩)]
  rintro ⟨j, w⟩
  simp only [List.mem_cons, Prod.mk.injEq, Std.TreeMap.mem_toList_iff_getElem?_eq_some,
    Std.TreeMap.getElem?_erase, Std.LawfulEqCmp.compare_eq_iff_eq]
  by_cases e : k = j
  · subst e
    simp [h, eq_comm]
  · simp [e, Ne.symm e]

theorem toList_insert_perm_of_fresh {v : V} (h : t[k]? = none) :
    (t.insert k v).toList.Perm ((k, v) :: t.toList) := by
  refine Std.TreeMap.toList_insert_perm.trans (.cons _ (.of_eq (List.filter_eq_self.2 ?_)))
  rintro ⟨j, w⟩ hm
  rw [Std.TreeMap.mem_toList_iff_getElem?_eq_some] at hm
  have ne : k ≠ j := fun e => by simp [← e, h] at hm
  simpa using ne

end MqttClient.Listing
