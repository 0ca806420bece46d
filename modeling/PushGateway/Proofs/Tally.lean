import Mathlib.Algebra.Order.BigOperators.Group.List
import Mathlib.Algebra.Order.Ring.Int
import Mathlib.Data.List.Dedup
import PushGateway.ControlPlane

/-!
Counts that are added up. Adding one table to another adds key by key, and so does adding up any
number of them; the sum has a key if one of the tables has. The control plane answers every report
with such a sum, over the servers that have ever reported, each by its latest report.
-/

namespace PushGateway

namespace Table

variable {α β ι : Type} [DecidableEq α] {counts : Table α β} {k : α}

theorem get?_eq_none_iff (t : Table α β) (k : α) : t.get? k = none ↔ k ∉ t.keys := by
  rw [mem_keys_iff, Option.not_isSome_iff_eq_none]

theorem get?_addAll [Add β] (t : Table α β) (hn : counts.keys.Nodup) (k : α) :
    (t.addAll counts).get? k = (t.get? k).merge (· + ·) (counts.get? k) := by
  induction counts generalizing t with
  | nil => exact Option.merge_none_right.symm
  | cons p counts ih =>
    obtain ⟨a, n⟩ := p
    obtain ⟨ha, hn⟩ := List.nodup_cons.1 hn
    refine (ih (t.insert a (((t.get? a).map (· + n)).getD n)) hn).trans ?_
    rw [get?_insert, get?]
    split_ifs with hak
    · subst hak
      rw [(get?_eq_none_iff counts a).2 ha, Option.merge_none_right]
      cases t.get? a <;> rfl
    · rfl

theorem get?_foldl_addAll [Add β] (g : ι → Table α β) (xs : List ι)
    (hn : ∀ x ∈ xs, (g x).keys.Nodup) (t : Table α β) (k : α) :
    (xs.foldl (fun t x => t.addAll (g x)) t).get? k =
      (xs.map fun x => (g x).get? k).foldl (Option.merge (· + ·)) (t.get? k) := by
  induction xs generalizing t with
  | nil => rfl
  | cons x xs ih =>
    rw [List.foldl_cons, ih (fun y hy => hn y (List.mem_cons_of_mem x hy)), List.map_cons,
      List.foldl_cons, get?_addAll t (hn x List.mem_cons_self)]

theorem nodup_addAll [Add β] {t : Table α β} (counts : Table α β) (hn : t.keys.Nodup) :
    (t.addAll counts).keys.Nodup := by
  induction counts generalizing t with
  | nil => exact hn
  | cons p counts ih => exact ih (nodup_insert hn _ _)

theorem nodup_foldl_addAll [Add β] (g : ι → Table α β) (xs : List ι) {t : Table α β}
    (hn : t.keys.Nodup) : (xs.foldl (fun t x => t.addAll (g x)) t).keys.Nodup := by
  induction xs generalizing t with
  | nil => exact hn
  | cons x xs ih => exact ih (nodup_addAll (g x) hn)

theorem values_eq_map {t : Table α β} (hn : t.keys.Nodup) (d : β) :
    t.values = t.keys.map fun k => (t.get? k).getD d := by
  induction t with
  | nil => rfl
  | cons p t ih =>
    obtain ⟨a, n⟩ := p
    obtain ⟨ha, hn⟩ := List.nodup_cons.1 hn
    have hrest : (Table.keys t).map (fun k => (get? ((a, n) :: t) k).getD d) =
        (Table.keys t).map fun k => (Table.get? t k).getD d := by
      refine List.map_congr_left fun k hk => ?_
      have hne : a ≠ k := fun he => ha (he ▸ hk)
      rw [get?, if_neg hne]
    change n :: Table.values t = (get? ((a, n) :: t) a).getD d ::
      (Table.keys t).map fun k => (get? ((a, n) :: t) k).getD d
    rw [hrest, ← ih hn, get?, if_pos rfl, Option.getD_some]

def countAt (t : Table α Int32) (k : α) : Int := ((t.get? k).getD 0).toInt

theorem countAt_nonneg {t : Table α Int32} (h : ∀ n ∈ t.values, 0 ≤ n.toInt) (k : α) :
    0 ≤ t.countAt k := by
  induction t with
  | nil => exact Int.le_refl 0
  | cons p t ih =>
    rw [countAt, get?]
    split_ifs
    · exact h p.2 List.mem_cons_self
    · exact ih fun n hn => h n (List.mem_cons_of_mem p.2 hn)

end Table

theorem toInt_add_of_lt {a b : Int32} (ha : 0 ≤ a.toInt) (hb : 0 ≤ b.toInt)
    (h : a.toInt + b.toInt < 2 ^ 31) : (a + b).toInt = a.toInt + b.toInt := by
  rw [Int32.toInt_add]
  exact Int.bmod_eq_of_le (by omega) (by omega)

theorem toInt_merge {o o' : Option Int32} (ho : 0 ≤ (o.getD 0).toInt) (ho' : 0 ≤ (o'.getD 0).toInt)
    (h : (o.getD 0).toInt + (o'.getD 0).toInt < 2 ^ 31) :
    ((o.merge (· + ·) o').getD 0).toInt = (o.getD 0).toInt + (o'.getD 0).toInt := by
  cases o with
  | none =>
    rw [Option.merge_none_left]
    exact (Int.zero_add _).symm
  | some a =>
    cases o' with
    | none => exact (Int.add_zero _).symm
    | some b => exact toInt_add_of_lt ho ho' h

theorem toInt_foldl_merge (os : List (Option Int32)) {o : Option Int32} (ho : 0 ≤ (o.getD 0).toInt)
    (hos : ∀ o ∈ os, 0 ≤ (o.getD 0).toInt)
    (h : (o.getD 0).toInt + (os.map fun o => (o.getD 0).toInt).sum < 2 ^ 31) :
    ((os.foldl (Option.merge (· + ·)) o).getD 0).toInt =
      (o.getD 0).toInt + (os.map fun o => (o.getD 0).toInt).sum := by
  induction os generalizing o with
  | nil => exact (Int.add_zero _).symm
  | cons o' os ih =>
    have ho' := hos o' List.mem_cons_self
    have hrest : ∀ o ∈ os, 0 ≤ (o.getD 0).toInt := fun o hm => hos o (List.mem_cons_of_mem o' hm)
    have hsum : 0 ≤ (os.map fun o => (o.getD 0).toInt).sum :=
      List.sum_nonneg fun x hx => by
        obtain ⟨o, hm, rfl⟩ := List.mem_map.1 hx
        exact hrest o hm
    rw [List.map_cons, List.sum_cons] at h ⊢
    have hmerge := toInt_merge ho ho' (by omega)
    rw [List.foldl_cons, ih (by omega) hrest (by omega), hmerge, Int.add_assoc]

def total? (n : Nat) : Option Int32 := if n = 0 then none else some (.ofNat n)

theorem merge_total? (n m : Nat) : (total? n).merge (· + ·) (total? m) = total? (n + m) := by
  by_cases hn : n = 0
  · subst hn
    rw [Nat.zero_add]
    exact Option.merge_none_left
  · by_cases hm : m = 0
    · subst hm
      exact Option.merge_none_right
    · simp [total?, hn, hm, Int32.ofNat_add]

theorem foldl_merge_total? (ns : List Nat) (n : Nat) :
    (ns.map total?).foldl (Option.merge (· + ·)) (total? n) = total? (n + ns.sum) := by
  induction ns generalizing n with
  | nil => rfl
  | cons m ns ih =>
    rw [List.map_cons, List.foldl_cons, merge_total?, ih, List.sum_cons, Nat.add_assoc]

namespace ControlPlane

abbrev Report := String × Table String Int32

/-- A report names every room once, and no room with a count below zero. -/
structure Report.Sound (r : Report) : Prop where
  nodup : r.2.keys.Nodup
  nonneg : ∀ n ∈ r.2.values, 0 ≤ n.toInt

theorem Report.sound_iff (r : Report) :
    r.Sound ↔ r.2.keys.Nodup ∧ (r.2.values.all fun n => decide (0 ≤ n.toInt)) = true := by
  simp only [List.all_eq_true, decide_eq_true_eq]
  exact ⟨fun h => ⟨h.nodup, h.nonneg⟩, fun h => ⟨h.1, h.2⟩⟩

instance (r : Report) : Decidable r.Sound := decidable_of_iff' _ r.sound_iff

def informed (p : ControlPlane) : List Report → ControlPlane
  | [] => p
  | (server, counts) :: rs => ((p.informed rs).renewOnline server counts).2

def Heard (p : ControlPlane) (rs : List Report) : Prop :=
  p.reports = (({} : ControlPlane).informed rs).reports

/-- What a server has told last; no count if it has told nothing. -/
def latest (server : String) : List Report → Table String Int32
  | [] => []
  | (s, counts) :: rs => if s = server then counts else latest server rs

def reporters (rs : List Report) : List String := (rs.map (·.1)).dedup

def tally (rs : List Report) (id : String) : Int :=
  ((reporters rs).map fun s => (latest s rs).countAt id).sum

variable {rs : List Report} {p : ControlPlane} {server id : String}

theorem Heard.renewOnline (h : p.Heard rs) (server : String) (counts : Table String Int32) :
    (p.renewOnline server counts).2.Heard ((server, counts) :: rs) :=
      congrArg (Table.insert · server counts) h

theorem informed_reports (rs : List Report) :
    (({} : ControlPlane).informed rs).reports.keys.Nodup ∧
    ∀ server, (({} : ControlPlane).informed rs).reports.get? server =
      if server ∈ rs.map (·.1) then some (latest server rs) else none := by
  induction rs with
  | nil => exact ⟨List.nodup_nil, fun _ => rfl⟩
  | cons r rs ih =>
    obtain ⟨s, counts⟩ := r
    obtain ⟨hn, hget⟩ := ih
    refine ⟨Table.nodup_insert hn s counts, fun server => ?_⟩
    change (Table.insert _ s counts).get? server = _
    rw [Table.get?_insert, hget, List.map_cons, latest]
    by_cases hs : s = server
    · rw [if_pos hs, if_pos hs, if_pos (List.mem_cons.2 (.inl hs.symm))]
    · have hmem : server ∈ s :: rs.map (·.1) ↔ server ∈ rs.map (·.1) :=
        List.mem_cons.trans (or_iff_right (Ne.symm hs))
      simp only [if_neg hs, hmem]

theorem latest_sound (hs : ∀ r ∈ rs, r.Sound) (server : String) :
    Report.Sound (server, latest server rs) := by
  induction rs with
  | nil => exact ⟨List.nodup_nil, nofun⟩
  | cons r rs ih =>
    obtain ⟨s, counts⟩ := r
    obtain ⟨hn, hnonneg⟩ := hs _ List.mem_cons_self
    rw [latest]
    split_ifs
    · exact ⟨hn, hnonneg⟩
    · exact ih fun r hr => hs r (List.mem_cons_of_mem _ hr)

theorem reporters_perm (rs : List Report) :
    (({} : ControlPlane).informed rs).reports.keys.Perm (reporters rs) := by
  obtain ⟨hn, hget⟩ := informed_reports rs
  refine (List.perm_ext_iff_of_nodup hn (List.nodup_dedup _)).2 fun server => ?_
  rw [Table.mem_keys_iff, hget, List.mem_dedup]
  split_ifs with h
  · exact ⟨fun _ => h, fun _ => rfl⟩
  · exact ⟨nofun, fun hm => absurd hm h⟩

theorem informed_values (rs : List Report) :
    (({} : ControlPlane).informed rs).reports.values.Perm
      ((reporters rs).map fun s => latest s rs) := by
  obtain ⟨hn, hget⟩ := informed_reports rs
  rw [Table.values_eq_map hn []]
  have hlatest (s : String) (hs : s ∈ (({} : ControlPlane).informed rs).reports.keys) :
      ((({} : ControlPlane).informed rs).reports.get? s).getD [] = latest s rs := by
    rw [Table.mem_keys_iff, hget] at hs
    split_ifs at hs with hm
    · rw [hget, if_pos hm, Option.getD_some]
    · cases hs
  rw [List.map_congr_left hlatest]
  exact (reporters_perm rs).map _

/-- Every reply has, for every room, the sum over the servers of what each has told last. -/
theorem countAt_totals (hs : ∀ r ∈ rs, r.Sound) (hp : p.Heard rs) (hlt : tally rs id < 2 ^ 31) :
    p.totals.countAt id = tally rs id := by
  have hvalues := informed_values rs
  have hsound : ∀ t ∈ p.reports.values, Report.Sound ("", t) := by
    intro t ht
    rw [hp] at ht
    obtain ⟨s, -, rfl⟩ := List.mem_map.1 (hvalues.mem_iff.1 ht)
    obtain ⟨hn, hnonneg⟩ := latest_sound hs s
    exact ⟨hn, hnonneg⟩
  have hget := Table.get?_foldl_addAll (fun t => t) p.reports.values
    (fun t ht => (hsound t ht).nodup) [] id
  have hsum : ((p.reports.values.map fun t => t.get? id).map fun o => (o.getD 0).toInt).sum =
      tally rs id := by
    rw [List.map_map, hp]
    exact ((hvalues.map _).sum_eq).trans (congrArg List.sum (List.map_map ..))
  have hnonneg : ∀ o ∈ p.reports.values.map fun t => t.get? id, 0 ≤ (o.getD 0).toInt := by
    intro o ho
    obtain ⟨t, ht, rfl⟩ := List.mem_map.1 ho
    exact Table.countAt_nonneg (hsound t ht).nonneg id
  have hadd := toInt_foldl_merge (o := none) (p.reports.values.map fun t => t.get? id)
    (Int.le_refl 0) hnonneg (by rw [hsum]; exact (Int.zero_add _).symm ▸ hlt)
  rw [hsum] at hadd
  rw [totals, Table.countAt]
  exact (congrArg (fun o => (Option.getD o 0).toInt) hget).trans (hadd.trans (Int.zero_add _))

theorem latest_le_tally (hs : ∀ r ∈ rs, r.Sound) (hm : server ∈ rs.map (·.1)) (id : String) :
    (latest server rs).countAt id ≤ tally rs id := by
  refine List.single_le_sum (fun x hx => ?_) _ (List.mem_map.2 ⟨server, List.mem_dedup.2 hm, rfl⟩)
  obtain ⟨s, -, rfl⟩ := List.mem_map.1 hx
  exact Table.countAt_nonneg (latest_sound hs s).nonneg id

end ControlPlane

end PushGateway
