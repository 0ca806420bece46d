/-!
Finite maps as lists of pairs in the order the keys came in, each key once. Looking up after a write
gives the value written under that key and the old one under any other.
-/

namespace PushGateway

abbrev Table (α β : Type) := List (α × β)

namespace Table

variable {α β : Type} [DecidableEq α]

def get? (t : Table α β) (k : α) : Option β :=
  match t with
  | [] => none
  | (a, b) :: r => if a = k then some b else get? r k

def insert (t : Table α β) (k : α) (v : β) : Table α β :=
  match t with
  | [] => [(k, v)]
  | (a, b) :: r => if a = k then (k, v) :: r else (a, b) :: insert r k v

def erase (t : Table α β) (k : α) : Table α β := t.filter fun p => p.1 ≠ k

def keys (t : Table α β) : List α := t.map (·.1)

def values (t : Table α β) : List β := t.map (·.2)

def contains (t : Table α β) (k : α) : Bool := (t.get? k).isSome

def addAll [Add β] (t counts : Table α β) : Table α β :=
  counts.foldl (fun t (k, n) => t.insert k (((t.get? k).map (· + n)).getD n)) t

@[simp] theorem get?_nil (k : α) : get? ([] : Table α β) k = none := rfl

theorem get?_insert (t : Table α β) (k k' : α) (v : β) :
    (t.insert k v).get? k' = if k = k' then some v else t.get? k' := by
  induction t with
  | nil => simp [insert, get?]
  | cons p r ih =>
    obtain ⟨a, b⟩ := p
    simp only [insert]
    split
    · rename_i h
      subst h
      simp only [get?]
      split <;> rfl
    · rename_i h
      simp only [get?]
      split
      · rename_i h'
        subst h'
        simp [Ne.symm h]
      · exact ih

theorem get?_erase (t : Table α β) (k k' : α) :
    (t.erase k).get? k' = if k = k' then none else t.get? k' := by
  induction t with
  | nil => simp [erase]
  | cons p r ih =>
    obtain ⟨a, b⟩ := p
    simp only [erase, List.filter_cons] at ih ⊢
    by_cases h : a = k
    · subst h
      simp only [ne_eq, not_true_eq_false, decide_false, Bool.false_eq_true, if_false, ih, get?]
      split <;> rfl
    · simp only [ne_eq, h, not_false_eq_true, decide_true, if_true, get?, ih]
      split
      · rename_i h'
        subst h'
        simp [Ne.symm h]
      · rfl

theorem mem_keys_iff (t : Table α β) (k : α) : k ∈ t.keys ↔ (t.get? k).isSome := by
  induction t with
  | nil => simp [keys]
  | cons p r ih =>
    obtain ⟨a, b⟩ := p
    simp only [keys, List.map_cons, List.mem_cons, get?] at ih ⊢
    split
    · rename_i h
      simp [h]
    · rename_i h
      rw [ih]
      simp [Ne.symm h]

theorem keys_insert (t : Table α β) (k : α) (v : β) :
    (t.insert k v).keys = if k ∈ t.keys then t.keys else t.keys ++ [k] := by
  induction t with
  | nil => simp [insert, keys]
  | cons p r ih =>
    obtain ⟨a, b⟩ := p
    simp only [insert, keys] at ih ⊢
    by_cases h : a = k
    · subst h
      simp
    · have hk : (k = a) = False := by simp [Ne.symm h]
      simp only [h, if_false, List.map_cons, ih, List.mem_cons, hk, false_or]
      split <;> simp_all

theorem keys_erase (t : Table α β) (k : α) : (t.erase k).keys = t.keys.filter (· ≠ k) := by
  simp [erase, keys, List.filter_map, Function.comp_def]

theorem nodup_insert {t : Table α β} (h : t.keys.Nodup) (k : α) (v : β) :
    (t.insert k v).keys.Nodup := by
  rw [keys_insert]
  split
  · exact h
  · rename_i hk
    rw [List.nodup_append]
    refine ⟨h, by simp, ?_⟩
    rintro a ha b hb rfl
    simp only [List.mem_singleton] at hb
    exact hk (hb ▸ ha)

theorem nodup_erase {t : Table α β} (h : t.keys.Nodup) (k : α) : (t.erase k).keys.Nodup := by
  rw [keys_erase]
  exact h.filter _

end Table

end PushGateway
