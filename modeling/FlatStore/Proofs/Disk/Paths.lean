import FlatStore.Disk

/-! # Names in a directory

    The path to a plain name in the directory of a written path leads through
    the steps of that path and then down to the name (`WrittenPath.steps_join`),
    so wherever it leads to, the last name there is that one
    (`Disk.resolve_join`).
-/

namespace FlatStore

namespace WrittenPath

theorem pieces_of_text {text : String} (chars : List Char) (h : text.toList = chars) :
    (⟨text⟩ : WrittenPath).pieces = (chars.splitOn '/').map String.ofList := by
  unfold pieces
  rw [h]

/-- A name without slashes adds its step to those of the path that it is joined to. -/
theorem steps_join (p : WrittenPath) {name : String} {step : PathStep} (plain : '/' ∉ name.toList)
    (stands : step? name = some step) : (p.join name).steps = p.steps ++ [step] := by
  have single : (name.toList.splitOn '/').map String.ofList = [name] := by
    rw [List.splitOn_eq_singleton plain]
    simp
  have idle : step? "" = none := rfl
  unfold steps join
  -- The slash in front of the name is there already, or is not needed, or is put in.
  by_cases closed : p.text.toList.getLast?.all (· == '/') = true
  · rw [if_pos closed]
    cases last : p.text.toList.getLast? with
    | none =>
      have nothing : p.text.toList = [] := List.getLast?_eq_none_iff.1 last
      rw [pieces_of_text name.toList (by simp [nothing]), single]
      unfold pieces
      rw [nothing]
      simp [idle, stands]
    | some c =>
      rw [last] at closed
      obtain ⟨front, text⟩ := List.getLast?_eq_some_iff.1 last
      have slash : c = '/' := by simpa using closed
      subst slash
      rw [pieces_of_text (front ++ '/' :: name.toList) (by simp [text]),
        List.splitOn_append_cons_self, List.map_append, single]
      unfold pieces
      rw [text, List.splitOn_append_cons_self]
      simp [idle, stands]
  · rw [if_neg closed, pieces_of_text (p.text.toList ++ '/' :: name.toList) (by simp),
      List.splitOn_append_cons_self, List.map_append, single]
    unfold pieces
    simp [stands]

end WrittenPath

namespace Disk

variable {d : Disk} {path place : Path} {steps : List PathStep} {name : String}

/-- Steps whose last one leads down to a name lead to a place of that name. -/
theorem follow_down (h : d.follow path (steps ++ [.down name]) = .ok place) :
    ∃ parent, place = parent ++ [name] := by
  induction steps generalizing path with
  | nil =>
    -- The last step goes down from a directory, and its name is put behind the path.
    simp only [List.nil_append, follow] at h
    split at h
    · cases h
    · cases h
    · by_cases long : name.utf8ByteSize > maxNameLength
      · simp [long] at h
      · simp only [long, if_false] at h
        cases h
        exact ⟨path, rfl⟩
  | cons step steps ih =>
    simp only [List.cons_append, follow] at h
    split at h
    · cases h
    · cases h
    · cases step with
      | up => exact ih h
      | down other =>
        by_cases long : other.utf8ByteSize > maxNameLength
        · simp [long] at h
        · simp only [long, if_false] at h
          exact ih h

theorem resolve_join {location : WrittenPath} (plain : '/' ∉ name.toList)
    (stands : WrittenPath.step? name = some (.down name))
    (h : d.resolve (location.join name) = .ok place) : ∃ parent, place = parent ++ [name] := by
  unfold resolve at h
  split at h
  · cases h
  · rw [location.steps_join plain stands] at h
    exact follow_down h

end Disk

end FlatStore
