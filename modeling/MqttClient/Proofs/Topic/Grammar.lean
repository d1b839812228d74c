import MqttClient.Proofs.Topic.Matching

/-! The grammar of names and filters by characters. The levels of a filter are well placed just if
every wildcard in it stands between two slashes, or at an end in place of one, and every `#` stands
at the very end. Among names, which hold no wildcards, matching is equality. -/

namespace MqttClient.Topic

variable {l rest cs before after : List Char} {c : Char} {s t : String}

def AtStart (before : List Char) : Prop := before = [] ∨ before.getLast? = some '/'

def AtEnd (after : List Char) : Prop := after = [] ∨ after.head? = some '/'

/-- Every wildcard is a level by itself, and `#` is the last. -/
def WildcardsAlone (cs : List Char) : Prop :=
  ∀ before c after, cs = before ++ c :: after → isWildcard c = true →
    AtStart before ∧ AtEnd after ∧ (c = '#' → after = [])

theorem isWildcard_iff : isWildcard c = true ↔ c = '+' ∨ c = '#' := by simp [isWildcard]

theorem AtStart.eq_nil (h : AtStart before) (free : '/' ∉ before) : before = [] :=
  h.resolve_right fun last => free (List.mem_of_getLast? last)

theorem AtEnd.eq_nil (h : AtEnd after) (free : '/' ∉ after) : after = [] :=
  h.resolve_right fun first => free (List.mem_of_head? first)

theorem atStart_append_slash : AtStart (l ++ '/' :: before) ↔ AtStart before := by
  rcases List.eq_nil_or_concat before with rfl | ⟨earlier, last, rfl⟩ <;>
    simp [AtStart, List.getLast?_append, List.getLast?_cons]

theorem eq_nil_of_singleton {w : Char} (h : before ++ c :: after = [w]) :
    before = [] ∧ c = w ∧ after = [] := by
  obtain ⟨rfl, tail⟩ | ⟨-, nonsense⟩ := List.append_eq_singleton_iff.1 h
  · cases tail
    exact ⟨rfl, rfl, rfl⟩
  · cases nonsense

theorem wildcardsAlone_iff_of_level (free : '/' ∉ l) :
    WildcardsAlone l ↔ l = ['+'] ∨ l = ['#'] ∨ l.any isWildcard = false := by
  constructor
  · intro alone
    by_cases held : l.any isWildcard = true
    · obtain ⟨c, mem, wild⟩ := List.any_eq_true.1 held
      obtain ⟨before, after, rfl⟩ := List.append_of_mem mem
      obtain ⟨start, stop, -⟩ := alone before c after rfl wild
      obtain rfl := start.eq_nil fun mem => free (by simp [mem])
      obtain rfl := stop.eq_nil fun mem => free (by simp [mem])
      obtain rfl | rfl := isWildcard_iff.1 wild
      · exact .inl rfl
      · exact .inr (.inl rfl)
    · exact .inr (.inr (Bool.eq_false_iff.2 held))
  · rintro level before c after rfl wild
    rcases level with alone | alone | none
    · obtain ⟨rfl, -, rfl⟩ := eq_nil_of_singleton alone
      exact ⟨.inl rfl, .inl rfl, fun _ => rfl⟩
    · obtain ⟨rfl, -, rfl⟩ := eq_nil_of_singleton alone
      exact ⟨.inl rfl, .inl rfl, fun _ => rfl⟩
    · simp [wild] at none

theorem wildcardsAlone_append_slash (free : '/' ∉ l) :
    WildcardsAlone (l ++ '/' :: rest) ↔
      (l = ['+'] ∨ l.any isWildcard = false) ∧ WildcardsAlone rest := by
  constructor
  · intro alone
    constructor
    · by_cases held : l.any isWildcard = true
      · obtain ⟨c, mem, wild⟩ := List.any_eq_true.1 held
        obtain ⟨before, after, rfl⟩ := List.append_of_mem mem
        obtain ⟨start, stop, last⟩ := alone before c (after ++ '/' :: rest) (by simp) wild
        obtain rfl := start.eq_nil fun mem => free (by simp [mem])
        have stop : AtEnd after := by
          cases after with
          | nil => exact .inl rfl
          | cons next after => exact .inr (stop.resolve_left (by simp))
        obtain rfl := stop.eq_nil fun mem => free (by simp [mem])
        obtain rfl | rfl := isWildcard_iff.1 wild
        · exact .inl rfl
        · exact absurd (last rfl) (by simp)
      · exact .inr (Bool.eq_false_iff.2 held)
    · rintro before c after rfl wild
      obtain ⟨start, stop⟩ := alone (l ++ '/' :: before) c after (by simp) wild
      exact ⟨atStart_append_slash.1 start, stop⟩
  · rintro ⟨level, alone⟩ before c after split wild
    have notSlash : c ≠ '/' := by
      rintro rfl
      cases wild
    obtain ⟨inside, rfl, same⟩ | ⟨inside, rfl, same⟩ := List.append_eq_append_iff.1 split
    · -- the wildcard stands behind the slash
      cases inside with
      | nil => exact absurd (List.cons.inj same).1.symm notSlash
      | cons slash inside =>
        obtain ⟨rfl, rfl⟩ := List.cons.inj same
        obtain ⟨start, stop⟩ := alone inside c after rfl wild
        exact ⟨atStart_append_slash.2 start, stop⟩
    · -- the wildcard stands in the level before it
      cases inside with
      | nil => exact absurd (List.cons.inj same).1 notSlash
      | cons first inside =>
        obtain ⟨rfl, rfl⟩ := List.cons.inj same
        rcases level with alone | none
        · obtain ⟨rfl, rfl, rfl⟩ := eq_nil_of_singleton alone
          exact ⟨.inl rfl, .inr rfl, fun hash => absurd hash (by decide)⟩
        · simp [wild] at none

theorem wellPlaced_splitOn_iff (cs : List Char) :
    wellPlaced (cs.splitOn '/') = true ↔ WildcardsAlone cs := by
  by_cases slash : '/' ∈ cs
  · obtain ⟨l, rest, rfl, free⟩ := List.eq_append_cons_of_mem slash
    have behind : (rest.splitOn '/').isEmpty = false :=
      List.isEmpty_eq_false_iff.2 (List.splitOn_ne_nil '/' rest)
    have ih := wellPlaced_splitOn_iff rest
    rw [List.splitOn_append_cons_self_of_not_mem free, wildcardsAlone_append_slash free, ← ih]
    simp [wellPlaced, behind]
  · rw [List.splitOn_eq_singleton slash, wildcardsAlone_iff_of_level slash]
    simp [wellPlaced, or_assoc]
termination_by cs.length

theorem isValid_iff : isValid s = true ↔ s ≠ "" ∧ s.utf8ByteSize ≤ 65535 ∧ '\x00' ∉ s.toList := by
  rw [isValid, Bool.and_eq_true, Bool.and_eq_true, decide_eq_true_iff]
  simp [maxSize, and_assoc]

theorem hasWildcards_eq_false_iff :
    hasWildcards s = false ↔ '+' ∉ s.toList ∧ '#' ∉ s.toList := by
  rw [hasWildcards, List.any_eq_false]
  simp only [isWildcard_iff]
  constructor
  · exact fun none => ⟨fun mem => none _ mem (.inl rfl), fun mem => none _ mem (.inr rfl)⟩
  · rintro ⟨noPlus, noHash⟩ c mem (rfl | rfl)
    · exact noPlus mem
    · exact noHash mem

theorem wellPlaced_of_hasWildcards (plain : hasWildcards s = false) :
    wellPlaced (levels s) = true := by
  refine (wellPlaced_splitOn_iff s.toList).2 fun before c after split wild => ?_
  exact absurd wild (List.any_eq_false.1 plain c (by simp [split]))

theorem mem_toList_of_mem_levels (mem : l ∈ levels s) (hc : c ∈ l) : c ∈ s.toList := by
  rw [← intercalate_levels s]
  generalize levels s = ls at mem ⊢
  induction ls with
  | nil => exact absurd mem List.not_mem_nil
  | cons first ls ih =>
    rcases List.mem_cons.1 mem with rfl | mem
    · cases ls <;> simp [hc]
    · cases ls with
      | nil => exact absurd mem List.not_mem_nil
      | cons next ls => simp [ih mem]

theorem forall₂_covers_iff_eq {fs ts : List Level} (plain : ['+'] ∉ fs) :
    List.Forall₂ Covers fs ts ↔ ts = fs := by
  induction fs generalizing ts with
  | nil => simp
  | cons f fs ih =>
    obtain ⟨other, plain⟩ := not_or.1 (mt List.mem_cons.2 plain)
    cases ts <;> simp [Covers, Ne.symm other, ih plain]

theorem isMatch_iff_eq (plain : hasWildcards t = false) : isMatch s t = true ↔ s = t := by
  obtain ⟨noPlus, noHash⟩ := hasWildcards_eq_false_iff.1 plain
  have unreserved : isReservedFrom s t = false := by
    rw [isReservedFrom, Bool.and_eq_false_iff, Option.any_eq_false]
    exact .inr fun c first =>
      Bool.eq_false_iff.2 (List.any_eq_false.1 plain c (List.mem_of_head? first))
  rw [isMatch, unreserved, Bool.not_false, Bool.true_and,
    matchLevels_iff_of_plain fun mem => noHash (mem_toList_of_mem_levels mem (by simp)),
    forall₂_covers_iff_eq fun mem => noPlus (mem_toList_of_mem_levels mem (by simp))]
  exact levels_injective.eq_iff

/-- The filters, the names among them, and what a name matches, by their characters. -/
theorem isFilter_iff_characters (s : String) :
    (isFilter s = true ↔ s ≠ "" ∧ s.utf8ByteSize ≤ 65535 ∧ '\x00' ∉ s.toList ∧
      (∀ before after, s.toList = before ++ '#' :: after → AtStart before ∧ after = []) ∧
      ∀ before after, s.toList = before ++ '+' :: after → AtStart before ∧ AtEnd after) ∧
    (isName s = true ↔ isFilter s = true ∧ '+' ∉ s.toList ∧ '#' ∉ s.toList) ∧
    ∀ t, isName s = true → isName t = true → (isMatch s t = true ↔ s = t) := by
  have placed : wellPlaced (levels s) = true ↔ WildcardsAlone s.toList :=
    wellPlaced_splitOn_iff s.toList
  refine ⟨?_, ?_, ?_⟩
  · rw [isFilter, Bool.and_eq_true, isValid_iff, placed, and_assoc, and_assoc]
    refine and_congr_right fun _ => and_congr_right fun _ => and_congr_right fun _ => ?_
    constructor
    · intro alone
      constructor
      · intro before after split
        obtain ⟨start, -, last⟩ := alone before '#' after split rfl
        exact ⟨start, last rfl⟩
      · intro before after split
        obtain ⟨start, stop, -⟩ := alone before '+' after split rfl
        exact ⟨start, stop⟩
    · rintro ⟨hash, plus⟩ before c after split wild
      obtain rfl | rfl := isWildcard_iff.1 wild
      · obtain ⟨start, stop⟩ := plus before after split
        exact ⟨start, stop, fun same => absurd same (by decide)⟩
      · obtain ⟨start, rfl⟩ := hash before after split
        exact ⟨start, .inl rfl, fun _ => rfl⟩
  · rw [isName, isFilter, Bool.and_eq_true, Bool.not_eq_true', ← hasWildcards_eq_false_iff,
      Bool.and_eq_true, and_assoc]
    refine and_congr_right fun _ => ⟨fun plain => ⟨wellPlaced_of_hasWildcards plain, plain⟩, ?_⟩
    exact And.right
  · intro t _ name
    obtain ⟨-, plain⟩ := Bool.and_eq_true_iff.1 name
    exact isMatch_iff_eq (by simpa using plain)

/-- An empty level tells two names apart. -/
theorem not_isMatch_empty_level :
    isName "a//b" = true ∧ isName "a/b" = true ∧ ¬ isMatch "a//b" "a/b" = true := by
  have name : isName "a//b" = true := by decide
  have other : isName "a/b" = true := by decide
  obtain ⟨-, -, same⟩ := isFilter_iff_characters "a//b"
  exact ⟨name, other, fun matched => absurd ((same "a/b" name other).1 matched) (by decide)⟩

end MqttClient.Topic
