import Mathlib.Data.List.Forall2
import Mathlib.Tactic.Common
import PushGateway.Text.Blank

/-!
Padding and separators. Blanks around a text whose ends are not blank are what trimming takes off,
and pieces that do not have the separator are what their join splits into.
-/

namespace PushGateway.Text

def Trimmed (s : List Char) : Prop := (∀ c ∈ s.head?, ¬ isBlank c) ∧ ∀ c ∈ s.getLast?, ¬ isBlank c

instance (s : List Char) : Decidable (Trimmed s) :=
  @instDecidableAnd _ _ (Option.decidableForallMem s.head?) (Option.decidableForallMem s.getLast?)

/-- `s` is `core` with blanks around it. -/
def Padded (core s : List Char) : Prop :=
  ∃ before after, s = before ++ core ++ after ∧ (∀ c ∈ before, isBlank c) ∧ ∀ c ∈ after, isBlank c

theorem Padded.refl (s : List Char) : Padded s s := ⟨[], [], by simp, by simp, by simp⟩

theorem Trimmed.of_forall {s : List Char} (h : ∀ c ∈ s, ¬ isBlank c) : Trimmed s :=
  ⟨fun c hc => h c (List.mem_of_head? hc), fun c hc => h c (List.mem_of_getLast? hc)⟩

theorem Trimmed.reverse {s : List Char} (h : Trimmed s) : Trimmed s.reverse := by
  rw [Trimmed, List.head?_reverse, List.getLast?_reverse]
  exact ⟨h.2, h.1⟩

theorem Padded.prepend {core s before : List Char} (h : Padded core s)
    (hb : ∀ c ∈ before, isBlank c) : Padded core (before ++ s) := by
  obtain ⟨before', after, rfl, hb', ha⟩ := h
  exact ⟨before ++ before', after, by simp, List.forall_mem_append.2 ⟨hb, hb'⟩, ha⟩

theorem Padded.append {core s after : List Char} (h : Padded core s) (ha : ∀ c ∈ after, isBlank c) :
    Padded core (s ++ after) := by
  obtain ⟨before, after', rfl, hb, ha'⟩ := h
  exact ⟨before, after' ++ after, by simp, hb, List.forall_mem_append.2 ⟨ha', ha⟩⟩

theorem Padded.cases_of_mem {core s : List Char} (h : Padded core s) {c : Char} (hc : c ∈ s) :
    c ∈ core ∨ isBlank c := by
  obtain ⟨before, after, rfl, hb, ha⟩ := h
  simp only [List.mem_append] at hc
  obtain (hc | hc) | hc := hc
  · exact .inr (hb c hc)
  · exact .inl hc
  · exact .inr (ha c hc)

theorem notMem_of_padded {sep : Char} (hsep : ¬ isBlank sep) {cores parts : List (List Char)}
    (hp : List.Forall₂ Padded cores parts) (h : ∀ core ∈ cores, sep ∉ core) :
    ∀ p ∈ parts, sep ∉ p := by
  induction hp with
  | nil => simp
  | cons hp _ ih =>
    obtain ⟨hcore, hcores⟩ := List.forall_mem_cons.1 h
    exact List.forall_mem_cons.2 ⟨fun hc => (hp.cases_of_mem hc).elim hcore hsep, ih hcores⟩

theorem Padded.subset {core s : List Char} (h : Padded core s) : core ⊆ s := by
  obtain ⟨before, after, rfl, -, -⟩ := h
  intro c hc
  simp [hc]

theorem not_isBlank_of_graphic {c : Char} (h : 0x21 ≤ c.toNat ∧ c.toNat ≤ 0x7E) : ¬ isBlank c := by
  simp only [isBlank, blankRanges, List.any_cons, List.any_nil, Bool.or_eq_true, Bool.and_eq_true,
    decide_eq_true_eq, Bool.false_eq_true, or_false]
  omega

theorem trimLeft_of_head {s : List Char} (h : ∀ c ∈ s.head?, ¬ isBlank c) : trimLeft s = s := by
  cases s with
  | nil => rfl
  | cons c s => exact List.dropWhile_cons_of_neg (h c rfl)

theorem trimLeft_append {before s : List Char} (h : ∀ c ∈ before, isBlank c) :
    trimLeft (before ++ s) = trimLeft s :=
  List.dropWhile_append_of_pos h

theorem trimLeft_padding (s : List Char) : ∃ before, s = before ++ trimLeft s ∧
    ∀ c ∈ before, isBlank c :=
  ⟨s.takeWhile isBlank, List.takeWhile_append_dropWhile.symm,
    List.all_eq_true.1 List.all_takeWhile⟩

theorem head?_trimLeft (s : List Char) : ∀ c ∈ (trimLeft s).head?, ¬ isBlank c := by
  intro c hc hb
  have hn := List.head?_dropWhile_not isBlank s
  rw [show (s.dropWhile isBlank).head? = some c from hc] at hn
  simp [hb] at hn

theorem getLast?_trimLeft {s : List Char} (h : ∀ c ∈ s.getLast?, ¬ isBlank c) :
    ∀ c ∈ (trimLeft s).getLast?, ¬ isBlank c := by
  obtain ⟨before, hs, -⟩ := trimLeft_padding s
  intro c hc
  refine h c ?_
  rw [hs, List.getLast?_append, show (trimLeft s).getLast? = some c from hc]
  rfl

theorem trim_padded (s : List Char) : Padded (trim s) s := by
  obtain ⟨before, hs, hb⟩ := trimLeft_padding s
  obtain ⟨after, hr, ha⟩ := trimLeft_padding (trimLeft s).reverse
  have hl : trimLeft s = trim s ++ after.reverse := by
    rw [← (trimLeft s).reverse_reverse, hr, List.reverse_append]
    rfl
  refine ⟨before, after.reverse, ?_, hb, fun c hc => ha c (List.mem_reverse.1 hc)⟩
  rw [List.append_assoc, ← hl, ← hs]

theorem trim_trimmed (s : List Char) : Trimmed (trim s) := by
  refine Trimmed.reverse ⟨head?_trimLeft _, getLast?_trimLeft ?_⟩
  rw [List.getLast?_reverse]
  exact head?_trimLeft s

theorem trim_of_padded {core s : List Char} (hc : Trimmed core) (hp : Padded core s) :
    trim s = core := by
  obtain ⟨before, after, rfl, hb, ha⟩ := hp
  have ha' : ∀ c ∈ after.reverse, isBlank c := fun c hc => ha c (List.mem_reverse.1 hc)
  rw [trim, List.append_assoc, trimLeft_append hb]
  cases core with
  | nil =>
    have he : trimLeft after = [] := by simpa [trimLeft] using trimLeft_append (s := []) ha
    rw [List.nil_append, he]
    rfl
  | cons c core =>
    have hs : trimLeft (c :: core ++ after) = c :: core ++ after := trimLeft_of_head hc.1
    rw [hs, List.reverse_append, trimLeft_append ha', trimLeft_of_head hc.reverse.1,
      List.reverse_reverse]

theorem split_of_notMem {sep : Char} {s : List Char} (h : sep ∉ s) : split sep s = [s] := by
  induction s with
  | nil => rfl
  | cons c s ih =>
    rw [List.mem_cons, not_or] at h
    rw [split, if_neg (Ne.symm h.1), ih h.2]

theorem split_append {sep : Char} {piece : List Char} (h : sep ∉ piece) (s : List Char) :
    split sep (piece ++ sep :: s) = piece :: split sep s := by
  induction piece with
  | nil => simp [split]
  | cons c piece ih =>
    rw [List.mem_cons, not_or] at h
    rw [List.cons_append, split, if_neg (Ne.symm h.1), ih h.2]

theorem split_join {sep : Char} {pieces : List (List Char)} (hne : pieces ≠ [])
    (h : ∀ p ∈ pieces, sep ∉ p) : split sep (join sep pieces) = pieces := by
  induction pieces with
  | nil => exact absurd rfl hne
  | cons p ps ih =>
    have hp := h p List.mem_cons_self
    cases ps with
    | nil => exact split_of_notMem hp
    | cons q qs =>
      have hps := ih (List.cons_ne_nil q qs) fun r hr => h r (List.mem_cons_of_mem p hr)
      exact (split_append hp (join sep (q :: qs))).trans (congrArg (p :: ·) hps)

theorem notMem_of_mem_split {sep : Char} {s p : List Char} (hp : p ∈ split sep s) : sep ∉ p := by
  induction s generalizing p with
  | nil =>
    rw [split, List.mem_singleton] at hp
    simp [hp]
  | cons c s ih =>
    obtain ⟨q, qs, hs⟩ := List.exists_cons_of_ne_nil (split_ne_nil sep s)
    rw [split, hs] at hp
    rw [hs] at ih
    split_ifs at hp with hc
    · obtain rfl | hp := List.mem_cons.1 hp
      · exact List.not_mem_nil
      · exact ih hp
    · obtain rfl | hp := List.mem_cons.1 hp
      · have hq := ih List.mem_cons_self
        simp [hq, Ne.symm hc]
      · exact ih (List.mem_cons_of_mem q hp)

theorem join_cons_cons (sep : Char) (p q : List Char) (ps : List (List Char)) :
    join sep (p :: q :: ps) = p ++ sep :: join sep (q :: ps) := rfl

theorem mem_join {sep c : Char} {pieces : List (List Char)} (hc : c ∈ join sep pieces) :
    c = sep ∨ ∃ p ∈ pieces, c ∈ p := by
  induction pieces with
  | nil => exact absurd hc List.not_mem_nil
  | cons p ps ih =>
    cases ps with
    | nil => exact .inr ⟨p, List.mem_cons_self, hc⟩
    | cons q qs =>
      rw [join_cons_cons, List.mem_append, List.mem_cons] at hc
      obtain hc | rfl | hc := hc
      · exact .inr ⟨p, List.mem_cons_self, hc⟩
      · exact .inl rfl
      · exact (ih hc).imp_right fun ⟨r, hr, hcr⟩ => ⟨r, List.mem_cons_of_mem p hr, hcr⟩

theorem mem_join_of_mem (sep : Char) {c : Char} {p : List Char} {pieces : List (List Char)}
    (hp : p ∈ pieces) (hc : c ∈ p) : c ∈ join sep pieces := by
  induction pieces with
  | nil => exact absurd hp List.not_mem_nil
  | cons q qs ih =>
    cases qs with
    | nil => rwa [join, ← List.mem_singleton.1 hp]
    | cons r rs =>
      rw [join_cons_cons, List.mem_append, List.mem_cons]
      obtain rfl | hp := List.mem_cons.1 hp
      · exact .inl hc
      · exact .inr (.inr (ih hp))

end PushGateway.Text
