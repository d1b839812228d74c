import Mathlib.Data.List.Forall2
import MqttClient.Topic

/-! Which topics a filter matches. The walk down the levels of both is compared with the rule that
the levels give as a whole: each level of the filter covers the level of the topic at the same
depth, and a last level `#` covers whatever is left of the topic, if only nothing. -/

namespace MqttClient.Topic

variable {topic filter : String} {ts fs : List Level}

theorem levels_ne_nil (s : String) : levels s ≠ [] := List.splitOn_ne_nil '/' s.toList

theorem intercalate_levels (s : String) : ['/'].intercalate (levels s) = s.toList :=
  List.intercalate_splitOn '/'

theorem levels_injective : Function.Injective levels := fun s t same =>
  String.toList_injective (by rw [← intercalate_levels s, same, intercalate_levels t])

theorem toList_eq_of_levels {l : Level} {ls : List Level} {s : String} (h : levels s = l :: ls) :
    s.toList = l ∨ ∃ rest, s.toList = l ++ '/' :: rest := by
  rw [← intercalate_levels s, h]
  cases ls with
  | nil => exact .inl (by simp)
  | cons next ls => exact .inr ⟨['/'].intercalate (next :: ls), by simp⟩

/-- A level of a filter that is not `#` stands for the level of a topic. -/
def Covers (f t : Level) : Prop := f = ['+'] ∨ t = f

theorem matchLevels_iff_of_plain (plain : ['#'] ∉ fs) :
    matchLevels ts fs = true ↔ List.Forall₂ Covers fs ts := by
  induction fs generalizing ts with
  | nil => cases ts <;> simp [matchLevels]
  | cons f fs ih =>
    obtain ⟨other, plain⟩ := not_or.1 (mt List.mem_cons.2 plain)
    cases ts with
    | nil => simp [matchLevels, Ne.symm other]
    | cons t ts => simp [matchLevels, Ne.symm other, ih plain, Covers]

theorem matchLevels_iff_of_hash (plain : ['#'] ∉ fs) :
    matchLevels ts (fs ++ [['#']]) = true ↔ List.Forall₂ Covers fs (ts.take fs.length) := by
  induction fs generalizing ts with
  | nil => cases ts <;> simp [matchLevels]
  | cons f fs ih =>
    obtain ⟨other, plain⟩ := not_or.1 (mt List.mem_cons.2 plain)
    cases ts with
    | nil => simp [matchLevels, Ne.symm other]
    | cons t ts => simp [matchLevels, Ne.symm other, ih plain, Covers]

theorem forall₂_covers_iff :
    List.Forall₂ Covers fs ts ↔
      ts.length = fs.length ∧ ∀ i < fs.length, fs[i]? = some ['+'] ∨ ts[i]? = fs[i]? := by
  rw [List.forall₂_iff_get, eq_comm]
  refine and_congr_right fun same => forall_congr' fun i => ?_
  constructor
  · intro covers hi
    have hi' : i < ts.length := same ▸ hi
    simpa [Covers, List.getElem?_eq_getElem, hi, hi'] using covers hi hi'
  · intro covers hi hi'
    simpa [Covers, List.getElem?_eq_getElem, hi, hi'] using covers hi

theorem hash_notMem_dropLast (placed : wellPlaced fs = true) : ['#'] ∉ fs.dropLast := by
  induction fs with
  | nil => simp
  | cons f fs ih =>
    simp only [wellPlaced, Bool.and_eq_true, Bool.or_eq_true, beq_iff_eq] at placed
    cases fs with
    | nil => simp
    | cons g gs =>
      rw [List.dropLast_cons_cons, List.mem_cons]
      rintro (rfl | deep)
      · simp [isWildcard] at placed
      · exact ih placed.2 deep

theorem eq_singleton_of_mem {l : Level} {c : Char} (placed : wellPlaced fs = true) (mem : l ∈ fs)
    (hc : c ∈ l) (wild : isWildcard c = true) : l = [c] := by
  induction fs with
  | nil => exact absurd mem List.not_mem_nil
  | cons f fs ih =>
    obtain ⟨here, placed⟩ := Bool.and_eq_true_iff.1 placed
    rcases List.mem_cons.1 mem with rfl | mem
    · have held : l.any isWildcard = true := List.any_eq_true.2 ⟨c, hc, wild⟩
      simp only [held, Bool.or_eq_true, beq_iff_eq, Bool.and_eq_true, Bool.not_true, or_false,
        Bool.false_eq_true] at here
      obtain rfl | ⟨rfl, -⟩ := here
      all_goals rw [List.mem_singleton.1 hc]
    · exact ih placed mem

theorem isReservedFrom_iff (valid : isFilter filter = true) :
    isReservedFrom topic filter = true ↔ topic.toList.head? = some '$' ∧
      ((levels filter).head? = some ['+'] ∨ (levels filter).head? = some ['#']) := by
  have placed : wellPlaced (levels filter) = true := (Bool.and_eq_true_iff.1 valid).2
  obtain ⟨l, ls, split⟩ := List.exists_cons_of_ne_nil (levels_ne_nil filter)
  have starts : filter.toList.head?.any isWildcard = true ↔ l = ['+'] ∨ l = ['#'] := by
    cases l with
    | nil => obtain whole | ⟨rest, whole⟩ := toList_eq_of_levels split <;> simp [whole, isWildcard]
    | cons c cs =>
      have head : filter.toList.head? = some c := by
        obtain whole | ⟨rest, whole⟩ := toList_eq_of_levels split <;> simp [whole]
      rw [head, Option.any_some]
      constructor
      · intro wild
        have alone : c :: cs = [c] :=
          eq_singleton_of_mem placed (split ▸ List.mem_cons_self) List.mem_cons_self wild
        rw [alone]
        simpa [isWildcard] using wild
      · rintro (same | same)
        all_goals
          cases same
          rfl
  simp [isReservedFrom, starts, split]

/-- A filter matches the topics that its levels cover: one for one, or, before a last level `#`, as
far down as there are levels before it. The topics of the broker want their first level spelled
out. -/
theorem isMatch_iff_levels (valid : isFilter filter = true) :
    let T := levels topic
    let F := levels filter
    isMatch topic filter = true ↔
      ¬ (topic.toList.head? = some '$' ∧ (F.head? = some ['+'] ∨ F.head? = some ['#'])) ∧
      (F.getLast? ≠ some ['#'] →
        T.length = F.length ∧ ∀ i < F.length, F[i]? = some ['+'] ∨ T[i]? = F[i]?) ∧
      (F.getLast? = some ['#'] → F.length - 1 ≤ T.length ∧
        ∀ i < F.length - 1, F[i]? = some ['+'] ∨ T[i]? = F[i]?) := by
  intro T F
  have placed : wellPlaced F = true := (Bool.and_eq_true_iff.1 valid).2
  have plain : ['#'] ∉ F.dropLast := hash_notMem_dropLast placed
  rw [isMatch, Bool.and_eq_true, Bool.not_eq_true', ← Bool.not_eq_true, isReservedFrom_iff valid]
  refine and_congr_right fun _ => ?_
  change matchLevels T F = true ↔ _
  by_cases last : F.getLast? = some ['#']
  · have split : F.dropLast ++ [['#']] = F := List.dropLast_append_getLast? _ last
    have depth : F.dropLast.length = F.length - 1 := List.length_dropLast
    have enough : min (F.length - 1) T.length = F.length - 1 ↔ F.length - 1 ≤ T.length := by omega
    simp only [last, ne_eq, not_true_eq_false, false_imp_iff, true_imp_iff, true_and]
    rw [← split, matchLevels_iff_of_hash plain, forall₂_covers_iff, split, depth, List.length_take,
      enough]
    refine and_congr_right fun _ => forall₂_congr fun i hi => ?_
    rw [List.getElem?_dropLast, if_pos hi, List.getElem?_take_of_lt hi]
  · have plain : ['#'] ∉ F := by
      rw [← List.dropLast_append_getLast (l := F) (levels_ne_nil filter), List.mem_append, not_or,
        List.mem_singleton]
      exact ⟨plain, fun same => last (same ▸ List.getLast?_eq_some_getLast _)⟩
    simp only [last, ne_eq, not_false_eq_true, true_imp_iff, false_imp_iff, and_true]
    rw [matchLevels_iff_of_plain plain, forall₂_covers_iff]

theorem isMatch_iff_levels_parent :
    isFilter "a/+/#" = true ∧ isMatch "a/b" "a/+/#" = true ∧ ¬ isMatch "a" "a/+/#" = true := by
  have valid : isFilter "a/+/#" = true := by decide
  refine ⟨valid, (isMatch_iff_levels valid).2 ⟨by decide, by decide, fun _ => by decide⟩, ?_⟩
  intro matched
  obtain ⟨-, -, deep⟩ := (isMatch_iff_levels valid).1 matched
  exact absurd (deep (by decide)).1 (by decide)

end MqttClient.Topic
