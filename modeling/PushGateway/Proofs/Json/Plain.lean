import PushGateway.Proofs.Json.Grammar

/-!
Values and their texts. A text never means a value that is nested deeper than the limit, whose
integers leave 64 bits or whose names are out of order; and a value that keeps to this and holds no
double is read back from its own text, wherever there is room for its depth.
-/

namespace PushGateway.Json

mutual

def Value.depth : Value → Nat
  | .null => 0
  | .bool _ => 0
  | .number _ => 0
  | .string _ => 0
  | .array xs => Value.itemsDepth xs + 1
  | .object fs => Value.fieldsDepth fs + 1

def Value.itemsDepth : List Value → Nat
  | [] => 0
  | x :: xs => max (Value.depth x) (Value.itemsDepth xs)

def Value.fieldsDepth : List (List Char × Value) → Nat
  | [] => 0
  | (_, x) :: fs => max (Value.depth x) (Value.fieldsDepth fs)

end

def Ordered (fs : List (List Char × Value)) : Prop := fs.Pairwise (·.1 < ·.1)

inductive Value.Whole : Value → Prop
  | null : Whole .null
  | bool (b : Bool) : Whole (.bool b)
  | int (n : Int) : Whole (.number (.int n))
  | string (s : List Char) : Whole (.string s)
  | array {xs : List Value} (h : ∀ x ∈ xs, Whole x) : Whole (.array xs)
  | object {fs : List (List Char × Value)} (h : ∀ f ∈ fs, Whole f.2) : Whole (.object fs)

/-- A value without doubles whose integers fit 64 bits, signed or unsigned, and whose names are in
order. -/
inductive Value.Plain : Value → Prop
  | null : Plain .null
  | bool (b : Bool) : Plain (.bool b)
  | int {n : Int} (low : -0x8000000000000000 ≤ n) (high : n < 0x10000000000000000) :
      Plain (.number (.int n))
  | string (s : List Char) : Plain (.string s)
  | array {xs : List Value} (h : ∀ x ∈ xs, Plain x) : Plain (.array xs)
  | object {fs : List (List Char × Value)} (ordered : Ordered fs) (h : ∀ f ∈ fs, Plain f.2) :
      Plain (.object fs)

theorem Value.itemsDepth_cons_le {d : Nat} {x : Value} {xs : List Value} :
    itemsDepth (x :: xs) ≤ d ↔ x.depth ≤ d ∧ itemsDepth xs ≤ d :=
  Nat.max_le

theorem Value.fieldsDepth_cons_le {d : Nat} {f : List Char × Value}
    {fs : List (List Char × Value)} :
    fieldsDepth (f :: fs) ≤ d ↔ f.2.depth ≤ d ∧ fieldsDepth fs ≤ d :=
  Nat.max_le

theorem Value.itemsDepth_le {d : Nat} {xs : List Value} : itemsDepth xs ≤ d ↔
    ∀ x ∈ xs, x.depth ≤ d := by
  induction xs with
  | nil => exact iff_of_true (Nat.zero_le d) nofun
  | cons x xs ih => rw [itemsDepth_cons_le, ih, List.forall_mem_cons]

theorem Value.fieldsDepth_le {d : Nat} {fs : List (List Char × Value)} :
    fieldsDepth fs ≤ d ↔ ∀ f ∈ fs, f.2.depth ≤ d := by
  induction fs with
  | nil => exact iff_of_true (Nat.zero_le d) nofun
  | cons f fs ih => rw [fieldsDepth_cons_le, ih, List.forall_mem_cons]

theorem mem_insertField {name : List Char} {x : Value} {fs : List (List Char × Value)}
    {f : List Char × Value} (h : f ∈ insertField name x fs) : f = (name, x) ∨ f ∈ fs := by
  induction fs with
  | nil => exact .inl (List.mem_singleton.1 h)
  | cons g fs ih =>
    rw [insertField] at h
    split_ifs at h
    · exact (List.mem_cons.1 h).imp_right (List.mem_cons_of_mem _)
    · exact List.mem_cons.1 h
    · rcases List.mem_cons.1 h with rfl | h
      · exact .inr List.mem_cons_self
      · exact (ih h).imp_right (List.mem_cons_of_mem _)

theorem Ordered.insertField {fs : List (List Char × Value)} (h : Ordered fs) (name : List Char)
    (x : Value) : Ordered (insertField name x fs) := by
  induction fs with
  | nil => exact List.pairwise_singleton _ _
  | cons g fs ih =>
    obtain ⟨hg, hfs⟩ := List.pairwise_cons.1 h
    rw [Json.insertField]
    split_ifs with heq hlt
    · exact List.pairwise_cons.2 ⟨fun f hf => heq ▸ hg f hf, hfs⟩
    · refine List.pairwise_cons.2 ⟨fun f hf => ?_, h⟩
      rcases List.mem_cons.1 hf with rfl | hf
      · exact hlt
      · exact List.lt_trans hlt (hg f hf)
    · have hgt : g.1 < name :=
        (List.le_iff_lt_or_eq.1 (List.not_lt.1 hlt)).resolve_right (Ne.symm heq)
      refine List.pairwise_cons.2 ⟨fun f hf => ?_, ih hfs⟩
      rcases mem_insertField hf with rfl | hf
      · exact hgt
      · exact hg f hf

theorem insertField_last {name : List Char} (x : Value) {fs : List (List Char × Value)}
    (h : ∀ f ∈ fs, f.1 < name) : insertField name x fs = fs ++ [(name, x)] := by
  induction fs with
  | nil => rfl
  | cons g fs ih =>
    have hg := h g List.mem_cons_self
    have hne : name ≠ g.1 := by
      rintro rfl
      exact List.lt_irrefl _ hg
    rw [insertField, if_neg hne, if_neg (List.lt_asymm hg),
      ih fun f hf => h f (List.mem_cons_of_mem _ hf)]
    rfl

theorem Value.mem_ofItems {d : Nat} {ts : List Tree} {xs : List Value}
    (h : ofItems d ts = some xs) : ∀ x ∈ xs, ∃ t, ofTree d t = some x := by
  induction ts generalizing xs with
  | nil =>
    cases h
    nofun
  | cons t ts ih =>
    simp only [ofItems, Option.bind_eq_bind, Option.bind_eq_some_iff, Option.pure_def,
      Option.some.injEq] at h
    obtain ⟨x, hx, ys, hys, rfl⟩ := h
    intro y hy
    rcases List.mem_cons.1 hy with rfl | hy
    · exact ⟨t, hx⟩
    · exact ih hys y hy

theorem Value.ofFields_ordered {d : Nat} {done : List (List Char × Value)}
    {gs : List (List Part × Tree)} {fs : List (List Char × Value)}
    (h : ofFields d done gs = some fs) (hd : Ordered done) :
    Ordered fs ∧ ∀ f ∈ fs, f ∈ done ∨ ∃ t, ofTree d t = some f.2 := by
  induction gs generalizing done with
  | nil =>
    cases h
    exact ⟨hd, fun f hf => .inl hf⟩
  | cons g gs ih =>
    simp only [ofFields, Option.bind_eq_bind, Option.bind_eq_some_iff] at h
    obtain ⟨name, -, x, hx, h⟩ := h
    obtain ⟨hfs, hmem⟩ := ih h (hd.insertField name x)
    refine ⟨hfs, fun f hf => ?_⟩
    rcases hmem f hf with hf | hf
    · rcases mem_insertField hf with rfl | hf
      · exact .inr ⟨g.2, hx⟩
      · exact .inl hf
    · exact .inr hf

theorem Numeral.number?_int {x : Numeral} {n : Int} (h : x.number? = some (.int n)) :
    x.integer? = some n := by
  rw [number?] at h
  split at h
  · rename_i m hm
    cases h
    exact hm
  · obtain ⟨f, -, hf⟩ := Option.map_eq_some_iff.1 h
    cases hf

theorem Value.ofTree_int {d : Nat} {t : Tree} {n : Int} (h : ofTree d t = some (.number (.int n))) :
    -0x8000000000000000 ≤ n ∧ n < 0x10000000000000000 := by
  unfold ofTree at h
  split at h <;> simp at h
  exact integer?_range (Numeral.number?_int h)

theorem Value.ofTree_array {d : Nat} {t : Tree} {xs : List Value}
    (h : ofTree d t = some (.array xs)) : ∃ e, d = e + 1 ∧ ∀ x ∈ xs, ∃ t, ofTree e t = some x := by
  unfold ofTree at h
  split at h <;> simp at h
  exact ⟨_, rfl, mem_ofItems h⟩

theorem Value.ofTree_object {d : Nat} {t : Tree} {fs : List (List Char × Value)}
    (h : ofTree d t = some (.object fs)) : ∃ e, d = e + 1 ∧ Ordered fs ∧
    ∀ f ∈ fs, ∃ t, ofTree e t = some f.2 := by
  unfold ofTree at h
  split at h <;> simp at h
  obtain ⟨hfs, hmem⟩ := ofFields_ordered h .nil
  exact ⟨_, rfl, hfs, fun f hf => (hmem f hf).resolve_left (List.not_mem_nil)⟩

theorem Value.Whole.plain {v : Value} (hv : v.Whole) {d : Nat} {t : Tree}
    (h : ofTree d t = some v) : v.Plain ∧ v.depth ≤ d := by
  induction hv generalizing d t with
  | null => exact ⟨.null, Nat.zero_le d⟩
  | bool b => exact ⟨.bool b, Nat.zero_le d⟩
  | int n =>
    obtain ⟨low, high⟩ := ofTree_int h
    exact ⟨.int low high, Nat.zero_le d⟩
  | string s => exact ⟨.string s, Nat.zero_le d⟩
  | @array xs _ ih =>
    obtain ⟨d, rfl, hxs⟩ := ofTree_array h
    have hin (x) (hx : x ∈ xs) : x.Plain ∧ x.depth ≤ d := (hxs x hx).elim fun t ht => ih x hx ht
    exact ⟨.array fun x hx => (hin x hx).1,
      Nat.succ_le_succ (itemsDepth_le.2 fun x hx => (hin x hx).2)⟩
  | @object fs _ ih =>
    obtain ⟨d, rfl, hordered, hfs⟩ := ofTree_object h
    have hin (f) (hf : f ∈ fs) : f.2.Plain ∧ f.2.depth ≤ d := (hfs f hf).elim fun t ht => ih f hf ht
    exact ⟨.object hordered fun f hf => (hin f hf).1,
      Nat.succ_le_succ (fieldsDepth_le.2 fun f hf => (hin f hf).2)⟩

/-- The tree means the value, wherever there is room for its depth. -/
def Tree.Means (t : Tree) (v : Value) : Prop :=
  ∀ d, Value.ofTree d t = if v.depth ≤ d then some v else none

theorem Value.ofItems_means {ts : List Tree} {xs : List Value} (h : List.Forall₂ Tree.Means ts xs)
    (d : Nat) : ofItems d ts = if itemsDepth xs ≤ d then some xs else none := by
  induction h with
  | nil => rfl
  | @cons t x ts xs ht _ ih =>
    rw [ofItems, ht d, ih]
    by_cases hx : x.depth ≤ d <;> by_cases hxs :
      itemsDepth xs ≤ d <;> simp [hx, hxs, itemsDepth_cons_le]

def Tree.MeansField (g : List Part × Tree) (f : List Char × Value) : Prop :=
  g.1 = f.1.map Part.ofChar ∧ g.2.Means f.2

theorem Value.ofFields_means {gs : List (List Part × Tree)} {fs : List (List Char × Value)}
    (h : List.Forall₂ Tree.MeansField gs fs) (d : Nat) {done : List (List Char × Value)}
    (ordered : Ordered (done ++ fs)) :
    ofFields d done gs = if fieldsDepth fs ≤ d then some (done ++ fs) else none := by
  induction h generalizing done with
  | nil =>
    rw [List.append_nil]
    rfl
  | @cons g f gs fs hg _ ih =>
    obtain ⟨hname, hx⟩ := hg
    have hlast : ∀ e ∈ done, e.1 < f.1 := fun e he =>
      (List.pairwise_append.1 ordered).2.2 e he f List.mem_cons_self
    rw [List.append_cons] at ordered ⊢
    rw [ofFields, hname, text?_ofChar, hx d]
    by_cases hf : f.2.depth ≤ d <;> by_cases hfs : fieldsDepth fs ≤ d <;>
      simp [hf, hfs, fieldsDepth_cons_le, insertField_last _ hlast, ih ordered]

def Value.Legible (v : Value) : Prop := ∃ t : Tree, t.Means v ∧ Tree.Reads v.write t

theorem Value.legible_items {xs : List Value} (h : ∀ x ∈ xs, x.Legible) :
    ∃ ts, List.Forall₂ Tree.Means ts xs ∧ List.Forall₂ Tree.Reads (writeItems xs) ts := by
  induction xs with
  | nil => exact ⟨[], .nil, .nil⟩
  | cons x xs ih =>
    obtain ⟨⟨t, hmeans, hreads⟩, hrest⟩ := List.forall_mem_cons.1 h
    obtain ⟨ts, hms, hrs⟩ := ih hrest
    exact ⟨t :: ts, .cons hmeans hms, .cons hreads hrs⟩

theorem Value.writeFields_eq (fs : List (List Char × Value)) :
    writeFields fs = (fs.map fun f => (f.1, f.2.write)).map Tree.field := by
  induction fs with
  | nil => rfl
  | cons f fs ih =>
    rw [writeFields, ih]
    rfl

theorem Value.legible_fields {fs : List (List Char × Value)} (h : ∀ f ∈ fs, f.2.Legible) :
    ∃ gs, List.Forall₂ Tree.MeansField gs fs ∧
      List.Forall₂ Tree.ReadsField (fs.map fun f => (f.1, f.2.write)) gs := by
  induction fs with
  | nil => exact ⟨[], .nil, .nil⟩
  | cons f fs ih =>
    obtain ⟨⟨t, hmeans, hreads⟩, hrest⟩ := List.forall_mem_cons.1 h
    obtain ⟨gs, hms, hrs⟩ := ih hrest
    exact ⟨(f.1.map Part.ofChar, t) :: gs, .cons ⟨rfl, hmeans⟩ hms, .cons ⟨rfl, hreads⟩ hrs⟩

theorem Value.Plain.legible {v : Value} (h : v.Plain) : v.Legible := by
  induction h with
  | null => exact ⟨.null, fun d => by simp [ofTree, depth], Tree.reads_null⟩
  | bool b => exact ⟨.bool b, fun d => by simp [ofTree, depth], Tree.reads_bool b⟩
  | @int n low high =>
    have hn : (Numeral.ofInt n).number? = some (.int n) := by
      rw [Numeral.number?, integer?_ofInt low high]
    exact ⟨.number (.ofInt n), fun d => by simp [ofTree, depth, hn], Tree.reads_ofInt n⟩
  | string s =>
    exact ⟨.string (s.map Part.ofChar),
      fun d => by simp [ofTree, depth, text?_ofChar], Tree.reads_quote s⟩
  | @array xs _ ih =>
    obtain ⟨ts, hmeans, hreads⟩ := legible_items ih
    refine ⟨.array ts, fun d => ?_, Tree.reads_array hreads⟩
    cases d with
    | zero => rfl
    | succ d =>
      rw [ofTree, ofItems_means hmeans, depth]
      by_cases hd : itemsDepth xs ≤ d <;> simp [hd]
  | @object fs ordered _ ih =>
    obtain ⟨gs, hmeans, hreads⟩ := legible_fields ih
    refine ⟨.object gs, fun d => ?_, ?_⟩
    · cases d with
      | zero => rfl
      | succ d =>
        rw [ofTree, ofFields_means hmeans d (by exact ordered), depth, List.nil_append]
        by_cases hd : fieldsDepth fs ≤ d <;> simp [hd]
    · rw [write, writeFields_eq]
      exact Tree.reads_object hreads

/-- A plain value is read back from its own text, unless it is nested too deep. -/
theorem Value.Plain.parse?_write {v : Value} (h : v.Plain) (hd : v.depth ≤ maxDepth) :
    Value.parse? v.write = some v := by
  obtain ⟨t, hmeans, hreads⟩ := h.legible
  rw [parse?, Tree.parse?_reads hreads, Option.bind_some, hmeans, if_pos hd]

theorem Value.Whole.plain_of_parse? {v : Value} (hv : v.Whole) {s : List Char}
    (h : parse? s = some v) : v.Plain ∧ v.depth ≤ maxDepth := by
  obtain ⟨t, -, ht⟩ := Option.bind_eq_some_iff.1 h
  exact hv.plain ht

def Value.nest : Nat → Value
  | 0 => .array []
  | k + 1 => .array [nest k]

theorem Value.plain_nest (k : Nat) : (nest k).Plain := by
  induction k with
  | zero => exact .array nofun
  | succ k ih => exact .array fun x hx => List.mem_singleton.1 hx ▸ ih

theorem Value.depth_nest (k : Nat) : (nest k).depth = k + 1 := by
  induction k with
  | zero => rfl
  | succ k ih => rw [nest, depth, itemsDepth, itemsDepth, ih, Nat.max_zero]

theorem Value.write_nest (k : Nat) :
    (nest k).write = List.replicate (k + 1) '[' ++ List.replicate (k + 1) ']' := by
  induction k with
  | zero => rfl
  | succ k ih =>
    rw [nest, write, writeItems, writeItems, commas, ih, ← List.cons_append, ← List.replicate_succ,
      List.append_assoc, ← List.replicate_succ']

end PushGateway.Json
