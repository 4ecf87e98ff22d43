/-!
# Texts in parts

A path and a key are texts cut at a separator. `fields` cuts at every occurrence of one character,
`cutAt` at the first occurrence of several.

Results:

* `fields_ne_nil`, `not_mem_of_mem_fields`: there is always a part, and no part holds the separator.
* `fields_append_sep`: the parts of two texts with the separator between.
* `intercalate_fields`, `fields_intercalate`: cutting and joining undo each other.
* `exists_fields_eq`: the first part and the others.
* `eq_of_cutAt`, `cutAt_append`: a cut leaves out the separator where it first stands.
-/

namespace TableTree.Text

/-- The parts of a text between the occurrences of `sep`: one more than there are occurrences. -/
def fields (sep : Char) : List Char → List (List Char)
  | [] => [[]]
  | c :: s => if c = sep then [] :: fields sep s else (fields sep s).modifyHead (c :: ·)

/-- The text before and the text after the first occurrence of `sep`. -/
def cutAt (sep : List Char) : List Char → Option (List Char × List Char)
  | [] => if sep.isEmpty then some ([], []) else none
  | c :: s =>
    if sep.isPrefixOf (c :: s) then some ([], (c :: s).drop sep.length)
    else (cutAt sep s).map fun (before, after) => (c :: before, after)

theorem fields_ne_nil (sep : Char) (s : List Char) : fields sep s ≠ [] := by
  cases s with
  | nil => simp [fields]
  | cons c s =>
    by_cases h : c = sep
    · simp [fields, h]
    · simp [fields, h, List.modifyHead_eq_nil_iff, fields_ne_nil sep s]

theorem not_mem_of_mem_fields {sep : Char} {s f : List Char} (h : f ∈ fields sep s) :
    sep ∉ f := by
  induction s generalizing f with
  | nil => simp_all [fields]
  | cons c s ih =>
    by_cases hc : c = sep
    · simp only [fields, hc, if_true, List.mem_cons] at h
      rcases h with rfl | h
      · simp
      · exact ih h
    · cases hs : fields sep s with
      | nil => exact absurd hs (fields_ne_nil sep s)
      | cons g gs =>
        simp only [fields, hc, if_false, hs, List.modifyHead_cons, List.mem_cons] at h
        rcases h with rfl | h
        · simp only [List.mem_cons, not_or]
          exact ⟨Ne.symm hc, ih (by simp [hs])⟩
        · exact ih (by simp [hs, h])

/-- Joining the parts with the separator gives the text back. -/
theorem intercalate_fields (sep : Char) (s : List Char) :
    [sep].intercalate (fields sep s) = s := by
  induction s with
  | nil => simp [fields]
  | cons c s ih =>
    cases hs : fields sep s with
    | nil => exact absurd hs (fields_ne_nil sep s)
    | cons g gs =>
      rw [hs] at ih
      by_cases hc : c = sep
      · simp [fields, hc, hs, List.intercalate_cons_cons, ih]
      · cases gs with
        | nil => simp_all [fields]
        | cons g' gs => simp_all [fields, List.intercalate_cons_cons]

theorem fields_of_not_mem {sep : Char} {f : List Char} (h : sep ∉ f) : fields sep f = [f] := by
  induction f with
  | nil => rfl
  | cons c f ih =>
    simp only [List.mem_cons, not_or] at h
    simp [fields, Ne.symm h.1, ih h.2]

/-- The parts of two texts with the separator between are those of the one and of the other. -/
theorem fields_append_sep (sep : Char) (s t : List Char) :
    fields sep (s ++ sep :: t) = fields sep s ++ fields sep t := by
  induction s with
  | nil => simp [fields]
  | cons c s ih =>
    by_cases hc : c = sep
    · simp [fields, hc, ih]
    · cases hs : fields sep s with
      | nil => exact absurd hs (fields_ne_nil sep s)
      | cons g gs => simp [fields, hc, ih, hs]

theorem fields_append_cons {sep : Char} {f : List Char} (h : sep ∉ f) (s : List Char) :
    fields sep (f ++ sep :: s) = f :: fields sep s := by
  rw [fields_append_sep, fields_of_not_mem h, List.singleton_append]

/-- Parts that do not hold the separator are the parts of the text they join to. -/
theorem fields_intercalate {sep : Char} {fs : List (List Char)} (hne : fs ≠ [])
    (h : ∀ f ∈ fs, sep ∉ f) : fields sep ([sep].intercalate fs) = fs := by
  induction fs with
  | nil => exact absurd rfl hne
  | cons f fs ih =>
    cases fs with
    | nil => simpa using fields_of_not_mem (h f (by simp))
    | cons g gs =>
      rw [List.intercalate_cons_cons, List.append_assoc, List.singleton_append,
        fields_append_cons (h f (by simp)), ih (by simp) fun x hx => h x (by simp [hx])]

/-- The first part ends before the first separator, and what starts there has the same other parts. -/
theorem exists_fields_eq (sep : Char) (s : List Char) : ∃ rest,
    fields sep s = s.takeWhile (· ≠ sep) :: rest ∧
      fields sep (s.dropWhile (· ≠ sep)) = [] :: rest := by
  induction s with
  | nil => exact ⟨[], rfl, rfl⟩
  | cons c s ih =>
    by_cases h : c = sep
    · exact ⟨fields sep s, by simp [fields, h]⟩
    · obtain ⟨rest, hfirst, hrest⟩ := ih
      exact ⟨rest, by simp [fields, h, hfirst], by simpa [h] using hrest⟩

/-- The text before a cut, the separator and the text after it make up the text. -/
theorem eq_of_cutAt {sep s before after : List Char} (h : cutAt sep s = some (before, after)) :
    s = before ++ sep ++ after := by
  induction s generalizing before after with
  | nil =>
    unfold cutAt at h
    split at h
    · rename_i hsep
      cases h
      simp [List.isEmpty_iff.1 hsep]
    · cases h
  | cons c s ih =>
    unfold cutAt at h
    split at h
    · rename_i hsep
      cases h
      exact (List.prefix_iff_eq_append.1 (List.isPrefixOf_iff_prefix.1 hsep)).symm
    · obtain ⟨⟨before', after'⟩, hcut, heq⟩ := Option.map_eq_some_iff.1 h
      cases heq
      rw [ih hcut]
      rfl

/-- A text is cut at the separator behind a text that does not hold its first character. -/
theorem cutAt_append {c : Char} {sep before : List Char} (h : c ∉ before) (after : List Char) :
    cutAt (c :: sep) (before ++ (c :: sep) ++ after) = some (before, after) := by
  induction before with
  | nil => simp [cutAt]
  | cons d before ih =>
    simp only [List.mem_cons, not_or] at h
    have hne : (c == d) = false := by simpa using h.1
    simp only [List.cons_append, cutAt, List.isPrefixOf, hne, Bool.false_and, Bool.false_eq_true,
      if_false]
    rw [ih h.2]
    rfl

end TableTree.Text
