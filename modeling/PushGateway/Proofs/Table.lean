import Mathlib.Tactic.Common
import PushGateway.Table

/-!
Tables whose keys are distinct: a pair stands in the table exactly if its value is found under its
key.
-/

namespace PushGateway.Table

variable {α β : Type} [DecidableEq α] {t : Table α β} {k : α} {v : β}

theorem mem_of_get? (h : t.get? k = some v) : (k, v) ∈ t := by
  induction t with
  | nil => cases h
  | cons p t ih =>
    obtain ⟨a, b⟩ := p
    simp only [get?] at h
    split_ifs at h with hk
    · cases h
      rw [hk]
      exact .head _
    · exact .tail _ (ih h)

theorem get?_of_mem (hn : t.keys.Nodup) (h : (k, v) ∈ t) : t.get? k = some v := by
  induction t with
  | nil => cases h
  | cons p t ih =>
    obtain ⟨a, b⟩ := p
    obtain ⟨ha, hn⟩ := List.nodup_cons.1 hn
    rcases List.mem_cons.1 h with he | h
    · cases he
      exact if_pos rfl
    · have hk : k ∈ Table.keys t := List.mem_map.2 ⟨(k, v), h, rfl⟩
      have hne : a ≠ k := fun he => ha (he ▸ hk)
      exact (if_neg hne).trans (ih hn h)

theorem mem_values_iff (hn : t.keys.Nodup) : v ∈ t.values ↔ ∃ k, t.get? k = some v := by
  constructor
  · intro hv
    obtain ⟨⟨k, v'⟩, hm, rfl⟩ := List.mem_map.1 hv
    exact ⟨k, get?_of_mem hn hm⟩
  · rintro ⟨k, hk⟩
    exact List.mem_map.2 ⟨(k, v), mem_of_get? hk, rfl⟩

end PushGateway.Table
