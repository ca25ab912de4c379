import Mathlib.Data.List.Basic
/-!
# MQTT topics

A topic is a sequence of levels with `/` between them, and so is a filter, in which `+` stands for any one level and `#`
for the levels that are left. A message is published on a topic without these two (`Plain`).
-/
namespace Topics

/-- The levels of a topic. There is always one. -/
def levels (topic : String) : List String := (topic.toList.splitOn '/').map String.ofList

section
variable {a b level topic : String}

theorem levels_append (a b : String) : levels (a ++ "/" ++ b) = levels a ++ levels b := by
  unfold levels
  rw [String.toList_append, String.toList_append, List.append_assoc]
  have h : "/".toList ++ b.toList = '/' :: b.toList := rfl
  rw [h, List.splitOn_append_cons_self, List.map_append]

theorem levels_eq_singleton (h : '/' ∉ a.toList) : levels a = [a] := by
  unfold levels
  rw [List.splitOn_eq_singleton h, List.map_singleton, String.ofList_toList]

/-- A level goes to the next `/`. -/
theorem not_mem_of_mem_splitOn {chars part : List Char} (h : part ∈ chars.splitOn '/') : '/' ∉ part := by
  induction chars generalizing part with
  | nil =>
    rw [List.splitOn_nil, List.mem_singleton] at h
    rw [h]
    exact List.not_mem_nil
  | cons c chars ih =>
    rw [List.splitOn_cons_eq_if_modifyHead] at h
    by_cases hc : (c == '/') = true
    · rw [if_pos hc] at h
      rcases List.mem_cons.1 h with rfl | h
      · exact List.not_mem_nil
      · exact ih h
    · rw [if_neg hc] at h
      obtain ⟨first, rest, hparts⟩ := List.exists_cons_of_ne_nil (List.splitOn_ne_nil '/' chars)
      rw [hparts] at h ih
      rcases List.mem_cons.1 h with rfl | h
      · have hfirst := ih List.mem_cons_self
        simp only [List.mem_cons, not_or]
        exact ⟨fun he => hc (beq_iff_eq.2 he.symm), hfirst⟩
      · exact ih (List.mem_cons_of_mem _ h)

theorem not_mem_of_mem_levels (h : level ∈ levels topic) : '/' ∉ level.toList := by
  obtain ⟨part, hpart, rfl⟩ := List.mem_map.1 h
  rw [String.toList_ofList]
  exact not_mem_of_mem_splitOn hpart

/-- A `/` makes two levels of one. -/
theorem one_lt_length_levels (h : '/' ∈ a.toList) : 1 < (levels a).length := by
  obtain ⟨s, t, hst⟩ := List.append_of_mem h
  have ha : a = String.ofList s ++ "/" ++ String.ofList t := by
    apply String.toList_injective
    simp only [String.toList_append, String.toList_ofList, hst, List.append_assoc]
    rfl
  have hpos : ∀ text, 0 < (levels text).length := by
    intro text
    unfold levels
    rw [List.length_map]
    exact List.length_pos_iff.2 (List.splitOn_ne_nil _ _)
  rw [ha, levels_append, List.length_append]
  have := hpos (String.ofList s)
  have := hpos (String.ofList t)
  omega

/-- The levels tell the topic. -/
theorem intercalate_levels : ['/'].intercalate ((levels topic).map String.toList) = topic.toList := by
  unfold levels
  rw [List.map_map]
  have hid : String.toList ∘ String.ofList = id := funext fun chars => String.toList_ofList
  rw [hid, List.map_id, List.intercalate_splitOn]

end

/-! ## Wildcards -/

/-- The topic has no wildcard. -/
def Plain (topic : String) : Prop := '+' ∉ topic.toList ∧ '#' ∉ topic.toList

instance : DecidablePred Plain := fun topic => inferInstanceAs (Decidable ('+' ∉ topic.toList ∧ '#' ∉ topic.toList))

theorem plain_append {a b : String} : Plain (a ++ b) ↔ Plain a ∧ Plain b := by
  unfold Plain
  rw [String.toList_append, List.mem_append, List.mem_append]
  tauto

/-! ## Filters -/

/-- The levels of a filter against those of a topic. -/
def matchLevels : List String → List String → Bool
  | [], [] => true
  | [], _ :: _ => false
  | "#" :: _, _ => true
  | _ :: _, [] => false
  | level :: filter, level' :: topic => (decide (level = "+") || decide (level = level')) && matchLevels filter topic

/-- A message on the topic goes to those who have subscribed to the filter. -/
def topicMatches (filter topic : String) : Bool := matchLevels (levels filter) (levels topic)

/-- A filter begins with levels of the topic. -/
theorem matchLevels_append (first : List String) {filter topic : List String} (h : matchLevels filter topic = true) :
    matchLevels (first ++ filter) (first ++ topic) = true := by
  induction first with
  | nil => exact h
  | cons level first ih =>
    rw [List.cons_append, List.cons_append]
    unfold matchLevels
    split <;> simp_all

end Topics
