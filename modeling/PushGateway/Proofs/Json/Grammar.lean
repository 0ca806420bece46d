import Mathlib.Data.List.Forall2
import PushGateway.Json.Value
import PushGateway.Proofs.Text.Decimal

/-!
Texts that spell a tree. A number, a text, an array or an object that is written without blanks is
read as itself wherever it stands, as long as what follows cannot be part of it; so arrays and
objects are read item by item, and the length of a text is fuel enough.
-/

namespace PushGateway.Json

open Text (Decimal.ofNat Decimal.ofInt)

def Ends (r : List Char) : Prop := ∀ c, r.head? = some c → c = ',' ∨ c = ']' ∨ c = '\x7d'

theorem ends_nil : Ends [] := nofun

theorem ends_cons {c : Char} (h : c = ',' ∨ c = ']' ∨ c = '\x7d') (r : List Char) :
    Ends (c :: r) := by
  intro d hd
  cases hd
  exact h

def Numeral.ofInt (n : Int) : Numeral :=
  { negative := n < 0, whole := Decimal.ofNat n.natAbs, fraction := none, exponent := none }

theorem exponentValue_ofNat (n : Nat) : Numeral.exponentValue (Decimal.ofNat n) = n :=
  Text.Decimal.foldl_ofNat n

theorem integer?_ofInt {n : Int} (hl : -0x8000000000000000 ≤ n) (hh : n < 0x10000000000000000) :
    (Numeral.ofInt n).integer? = some n := by
  have hv : Numeral.exponentValue (Numeral.ofInt n).whole = n.natAbs := exponentValue_ofNat n.natAbs
  rw [Numeral.integer?, if_neg (by rintro (h | h) <;> cases h), hv]
  by_cases hn : n < 0
  · have hneg : (Numeral.ofInt n).negative = true := decide_eq_true hn
    simp only [hneg, if_true]
    rw [if_pos (by omega)]
    congr 1
    omega
  · have hneg : (Numeral.ofInt n).negative = false := decide_eq_false hn
    have hlt : n.natAbs < UInt64.size := by
      change n.natAbs < 0x10000000000000000
      omega
    simp only [hneg, Bool.false_eq_true, if_false]
    rw [if_pos hlt]
    congr 1
    omega

theorem integer?_range {x : Numeral} {n : Int} (h : x.integer? = some n) :
    -0x8000000000000000 ≤ n ∧ n < 0x10000000000000000 := by
  simp only [Numeral.integer?] at h
  split_ifs at h with h1 h2 h3 h4
  · cases h
    omega
  · cases h
    have hlt : Numeral.exponentValue x.whole < 0x10000000000000000 := h4
    omega

def Part.ofChar (c : Char) : Part :=
  if c < ' ' ∧ c ∉ ['\x08', '\x0c', '\n', '\r', '\t'] then .unit c.toNat else .char c

theorem text?_ofChar (s : List Char) : text? (s.map Part.ofChar) = some s := by
  induction s with
  | nil => rfl
  | cons c s ih =>
    rw [List.map_cons, Part.ofChar]
    split_ifs with hc
    · have hlt : c.toNat < 0xD800 := Nat.lt_trans hc.1 (by decide)
      unfold text?
      rw [if_pos (.inl hlt), ih, Option.map_some, Char.ofNat_toNat]
    · rw [text?, ih, Option.map_some]

namespace Tree

theorem isDigit_iff (c : Char) : isDigit c = true ↔ '0' ≤ c ∧ c ≤ '9' := decide_eq_true_iff

theorem isDigit_ends {r : List Char} (hr : Ends r) : r.takeWhile isDigit = [] ∧
    r.dropWhile isDigit = r := by
  cases r with
  | nil => exact ⟨rfl, rfl⟩
  | cons c r =>
    have hc : isDigit c = false := by
      rcases hr c rfl with rfl | rfl | rfl <;> rfl
    simp [hc]

theorem digits_ofNat (n : Nat) {r : List Char} (hr : Ends r) :
    digits (Decimal.ofNat n ++ r) = (Decimal.ofNat n, r) := by
  have hd : ∀ c ∈ Decimal.ofNat n, isDigit c = true := fun c hc =>
    (isDigit_iff c).2 (Text.Decimal.isDigit_of_mem hc)
  rw [digits, List.takeWhile_append_of_pos hd, List.dropWhile_append_of_pos hd, (isDigit_ends hr).1,
    (isDigit_ends hr).2, List.append_nil]

theorem fraction?_ends {r : List Char} (hr : Ends r) : fraction? r = some (none, r) := by
  cases r with
  | nil => rfl
  | cons c r => rcases hr c rfl with rfl | rfl | rfl <;> rfl

theorem exponent?_ends {r : List Char} (hr : Ends r) : exponent? r = some (none, r) := by
  cases r with
  | nil => rfl
  | cons c r => rcases hr c rfl with rfl | rfl | rfl <;> rfl

theorem numeral?_ofInt (n : Int) {r : List Char} (hr : Ends r) :
    numeral? (Decimal.ofInt n ++ r) = some (.ofInt n, r) := by
  have hd := digits_ofNat n.natAbs hr
  have hne := Text.Decimal.ofNat_ne_nil n.natAbs
  have hlen : (Decimal.ofNat n.natAbs).head? = some '0' → (Decimal.ofNat n.natAbs).length = 1 :=
    Text.Decimal.length_ofNat_of_head?
  rw [Decimal.ofInt]
  split_ifs with h
  · simpa [numeral?, hd, hne, fraction?_ends hr, exponent?_ends hr, Numeral.ofInt, h] using hlen
  · have hminus (t : List Char) : Decimal.ofNat n.natAbs ++ r ≠ '-' :: t := by
      obtain ⟨c, ds, hc⟩ := List.exists_cons_of_ne_nil hne
      have hdig := Text.Decimal.isDigit_of_mem (hc ▸ List.mem_cons_self)
      rw [hc]
      intro he
      cases he
      exact absurd hdig (by decide)
    unfold numeral?
    split
    rename_i negative s heq
    have hs : negative = false ∧ s = Decimal.ofNat n.natAbs ++ r := by
      split at heq
      · rename_i he
        exact absurd he (hminus _)
      · cases heq
        exact ⟨rfl, rfl⟩
    obtain ⟨rfl, rfl⟩ := hs
    simpa [hd, hne, fraction?_ends hr, exponent?_ends hr, Numeral.ofInt, h] using hlen

theorem hex?_hexDigit : ∀ n < 16, hex? (hexDigit n) = some n := by decide

theorem string?_short {c e : Char} (he : escape? e = some c) (r : List Char) :
    string? ('\\' :: e :: r) = (string? r).map fun (s, rest) => (.char c :: s, rest) := by
  have hu : e ≠ 'u' := by
    rintro rfl
    cases he
  cases h : string? r <;> simp [string?, he, hu, h]

theorem string?_control {c : Char} (hc : c < ' ') (r : List Char) :
    string? ('\\' :: 'u' :: '0' :: '0' :: hexDigit (c.toNat / 16) :: hexDigit (c.toNat % 16) :: r) =
      (string? r).map fun (s, rest) => (.unit c.toNat :: s, rest) := by
  have hlt : c.toNat < 32 := hc
  have hhigh := hex?_hexDigit (c.toNat / 16) (by omega)
  have hlow := hex?_hexDigit (c.toNat % 16) (by omega)
  have hzero : hex? '0' = some 0 := rfl
  have hsum : c.toNat / 16 * 16 + c.toNat % 16 = c.toNat := by omega
  cases h : string? r <;> simp [string?, hhigh, hlow, hzero, hsum, h]

theorem string?_plain {c : Char} (hq : c ≠ '"') (hb : c ≠ '\\') (hc : ¬ c < ' ') (r : List Char) :
    string? (c :: r) = (string? r).map fun (s, rest) => (.char c :: s, rest) := by
  cases h : string? r <;> simp [string?, hb, hc, h]

theorem string?_escape (c : Char) (r : List Char) :
    string? (escape c ++ r) = (string? r).map fun (s, rest) => (Part.ofChar c :: s, rest) := by
  rw [escape]
  split_ifs with h1 h2 h3 h4 h5 h6 h7 h8
  pick_goal 8
  · rw [Part.ofChar, if_pos ⟨h8, by simp [h3, h4, h5, h6, h7]⟩]
    exact string?_control h8 r
  pick_goal 8
  · rw [Part.ofChar, if_neg fun h => h8 h.1]
    exact string?_plain h1 h2 h8 r
  -- The seven others have a letter of their own.
  all_goals
    subst c
    exact string?_short rfl r

theorem string?_quote (s r : List Char) :
    string? (s.flatMap escape ++ '"' :: r) = some (s.map Part.ofChar, r) := by
  induction s with
  | nil => rw [List.flatMap_nil, List.nil_append, string?, List.map_nil]
  | cons c s ih =>
    rw [List.flatMap_cons, List.append_assoc, string?_escape, ih, Option.map_some, List.map_cons]

theorem skipSpace_cons {c : Char} (h : isSpace c = false) (r : List Char) :
    skipSpace (c :: r) = c :: r :=
  List.dropWhile_cons_of_neg (by simp [h])

/-- The text is read as the tree, whatever comes behind it; its length is fuel enough. -/
structure Reads (s : List Char) (t : Tree) : Prop where
  starts : ∃ c r, s = c :: r ∧ isSpace c = false ∧ c ≠ ']'
  value : ∀ fuel r, s.length ≤ fuel → Ends r → value? fuel (s ++ r) = some (t, r)

theorem reads_null : Reads ['n', 'u', 'l', 'l'] .null where
  starts := ⟨'n', _, rfl, rfl, by decide⟩
  value
    | 0, _, hf, _ => absurd hf (by decide)
    | fuel + 1, r, _, _ => by simp [value?, skipSpace_cons, isSpace, word?]

theorem reads_bool (b : Bool) : Reads (Value.bool b).write (.bool b) := by
  cases b
  · refine ⟨⟨'f', _, rfl, rfl, by decide⟩, fun fuel r hf _ => ?_⟩
    cases fuel with
    | zero => exact absurd hf (by decide)
    | succ fuel => simp [Value.write, value?, skipSpace_cons, isSpace, word?]
  · refine ⟨⟨'t', _, rfl, rfl, by decide⟩, fun fuel r hf _ => ?_⟩
    cases fuel with
    | zero => exact absurd hf (by decide)
    | succ fuel => simp [Value.write, value?, skipSpace_cons, isSpace, word?]

theorem reads_quote (s : List Char) : Reads (quote s) (.string (s.map Part.ofChar)) where
  starts := ⟨'"', _, rfl, rfl, by decide⟩
  value
    | 0, _, hf, _ => absurd hf (Nat.not_succ_le_zero _)
    | fuel + 1, r, _, _ => by simp [quote, value?, skipSpace_cons, isSpace, string?_quote]

theorem head_ofInt (n : Int) : ∃ c r, Decimal.ofInt n = c :: r ∧ (c = '-' ∨ '0' ≤ c ∧ c ≤ '9') := by
  rw [Decimal.ofInt]
  split_ifs with h
  · exact ⟨'-', _, rfl, .inl rfl⟩
  · obtain ⟨c, r, hc⟩ := List.exists_cons_of_ne_nil (Text.Decimal.ofNat_ne_nil n.natAbs)
    exact ⟨c, r, hc, .inr (Text.Decimal.isDigit_of_mem (hc ▸ List.mem_cons_self))⟩

theorem isSpace_eq_false {c : Char} (h : c = '-' ∨ '0' ≤ c ∧ c ≤ '9') : isSpace c = false := by
  rw [isSpace, decide_eq_false_iff_not]
  rintro (rfl | rfl | rfl | rfl) <;> exact absurd h (by decide)

theorem reads_ofInt (n : Int) : Reads (Decimal.ofInt n) (.number (.ofInt n)) := by
  obtain ⟨c, s, hs, hc⟩ := head_ofInt n
  refine ⟨⟨c, s, hs, isSpace_eq_false hc, ?_⟩, fun fuel r hf hr => ?_⟩
  · rintro rfl
    exact absurd hc (by decide)
  · have hn := numeral?_ofInt n hr
    rw [hs] at hf hn ⊢
    obtain _ | fuel := fuel
    · exact absurd hf (Nat.not_succ_le_zero _)
    · rw [List.cons_append] at hn ⊢
      rw [value?, skipSpace_cons (isSpace_eq_false hc)]
      -- No other kind of value starts with a digit or a minus.
      split
      case h_7 => rw [hn, Option.map_some]
      all_goals
        rename_i heq
        cases heq
        exact absurd hc (by decide)

theorem commas_cons_cons (x y : List Char) (ys : List (List Char)) :
    commas (x :: y :: ys) = x ++ ',' :: commas (y :: ys) := rfl

theorem items?_reads {xs : List (List Char)} {ts : List Tree} (h : List.Forall₂ Reads xs ts)
    (hne : xs ≠ []) :
    ∀ fuel r, (commas xs).length < fuel → items? fuel (commas xs ++ ']' :: r) = some (ts, r) := by
  induction h with
  | nil => exact absurd rfl hne
  | @cons x t xs ts hx hxs ih =>
    intro fuel r hf
    obtain _ | fuel := fuel
    · exact absurd hf (Nat.not_lt_zero _)
    · cases hxs with
      | nil =>
        have hv := hx.value fuel (']' :: r) (Nat.le_of_lt_succ hf) (ends_cons (.inr (.inl rfl)) r)
        rw [commas, items?, hv]
        rfl
      | @cons y u ys us hy hys =>
        rw [commas_cons_cons] at hf ⊢
        rw [List.length_append, List.length_cons] at hf
        have hv := hx.value fuel (',' :: (commas (y :: ys) ++ ']' :: r)) (by omega)
          (ends_cons (.inl rfl) _)
        have hrest := ih (List.cons_ne_nil _ _) fuel r (by omega)
        rw [List.append_assoc, List.cons_append, items?, hv]
        simp [skipSpace_cons, isSpace, hrest]

theorem reads_array {xs : List (List Char)} {ts : List Tree} (h : List.Forall₂ Reads xs ts) :
    Reads ('[' :: commas xs ++ [']']) (.array ts) := by
  refine ⟨⟨'[', _, rfl, rfl, by decide⟩, fun fuel r hf _ => ?_⟩
  obtain _ | fuel := fuel
  · exact absurd hf (Nat.not_succ_le_zero _)
  · rw [List.append_assoc, List.singleton_append, List.cons_append, value?, skipSpace_cons rfl]
    cases h with
    | nil => rfl
    | @cons x t xs ts hx hxs =>
      rw [List.length_append, List.length_cons, List.length_singleton] at hf
      have hitems := items?_reads (.cons hx hxs) (List.cons_ne_nil _ _) fuel r (by omega)
      -- The first item keeps the bracket of an empty array away.
      obtain ⟨c, s, rfl, hc, hb⟩ := hx.starts
      have hcons : ∃ s', commas ((c :: s) :: xs) ++ ']' :: r = c :: s' := by
        cases xs <;> exact ⟨_, rfl⟩
      obtain ⟨s', hs'⟩ := hcons
      rw [hs'] at hitems ⊢
      simp [skipSpace_cons hc, hb, hitems]

def field (f : List Char × List Char) : List Char := quote f.1 ++ ':' :: f.2

def ReadsField (f : List Char × List Char) (g : List Part × Tree) : Prop :=
  g.1 = f.1.map Part.ofChar ∧ Reads f.2 g.2

theorem field_append (f : List Char × List Char) (r : List Char) :
    field f ++ r = '"' :: (f.1.flatMap escape ++ '"' :: ':' :: (f.2 ++ r)) := by
  simp [field, quote]

theorem length_field (f : List Char × List Char) : f.2.length ≤ (field f).length := by
  rw [field, List.length_append, List.length_cons]
  omega

theorem fields?_reads {fs : List (List Char × List Char)} {gs : List (List Part × Tree)}
    (h : List.Forall₂ ReadsField fs gs) (hne : fs ≠ []) :
    ∀ fuel r, (commas (fs.map field)).length < fuel →
      fields? fuel (commas (fs.map field) ++ '\x7d' :: r) = some (gs, r) := by
  induction h with
  | nil => exact absurd rfl hne
  | @cons f g fs gs hfg hfs ih =>
    intro fuel r hf
    obtain ⟨hname, hread⟩ := hfg
    have hlen := length_field f
    obtain _ | fuel := fuel
    · exact absurd hf (Nat.not_lt_zero _)
    · cases hfs with
      | nil =>
        replace hf : (field f).length < fuel + 1 := hf
        have hv := hread.value fuel ('\x7d' :: r) (by omega) (ends_cons (.inr (.inr rfl)) r)
        rw [List.map_singleton, commas, field_append, fields?, skipSpace_cons rfl]
        simp [string?_quote, skipSpace_cons, isSpace, hv, ← hname]
      | @cons f' g' fs' gs' hf' hfs' =>
        rw [List.map_cons, List.map_cons, commas_cons_cons] at hf ⊢
        rw [← List.map_cons] at hf ⊢
        rw [List.length_append, List.length_cons] at hf
        have hv := hread.value fuel (',' :: (commas ((f' :: fs').map field) ++ '\x7d' :: r))
          (by omega) (ends_cons (.inl rfl) _)
        have hrest := ih (List.cons_ne_nil _ _) fuel r (by omega)
        rw [List.append_assoc, List.cons_append, field_append, fields?, skipSpace_cons rfl]
        simp only [List.map_cons] at hv hrest ⊢
        simp [string?_quote, skipSpace_cons, isSpace, hv, hrest, ← hname]

theorem reads_object {fs : List (List Char × List Char)} {gs : List (List Part × Tree)}
    (h : List.Forall₂ ReadsField fs gs) :
    Reads ('\x7b' :: commas (fs.map field) ++ ['\x7d']) (.object gs) := by
  refine ⟨⟨'\x7b', _, rfl, rfl, by decide⟩, fun fuel r hf _ => ?_⟩
  obtain _ | fuel := fuel
  · exact absurd hf (Nat.not_succ_le_zero _)
  · rw [List.append_assoc, List.singleton_append, List.cons_append, value?, skipSpace_cons rfl]
    cases h with
    | nil => rfl
    | @cons f g fs gs hf' hfs =>
      rw [List.length_append, List.length_cons, List.length_singleton] at hf
      have hfields := fields?_reads (.cons hf' hfs) (List.cons_ne_nil _ _) fuel r (by omega)
      have hcons : ∃ s', commas ((f :: fs).map field) ++ '\x7d' :: r = '"' :: s' := by
        cases fs <;> exact ⟨_, rfl⟩
      obtain ⟨s', hs'⟩ := hcons
      rw [hs'] at hfields ⊢
      simp [skipSpace_cons, isSpace, hfields]

theorem parse?_reads {s : List Char} {t : Tree} (h : Reads s t) : parse? s = some t := by
  have hv := h.value (2 * s.length + 1) [] (by omega) ends_nil
  rw [List.append_nil] at hv
  rw [parse?, hv]
  rfl

end Tree

end PushGateway.Json
